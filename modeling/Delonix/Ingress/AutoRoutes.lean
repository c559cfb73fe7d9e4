import Delonix.Ingress.Config
import Delonix.Library.Runs

/-! The routes that containers register themselves. Containers are told apart by their namespace and
their name, the registered routes by the name alone.
-/

namespace Delonix.Ingress

open Delonix.Library.Runs

/-- Changes the registered routes, and composes the configuration anew when they changed. -/
def withAutoLocked (f : List AutoRoute → List AutoRoute) (files : Files) : Files :=
  let auto := files.auto.getD []
  if f auto = auto then files else rebuild .holder { files with auto := some (f auto) }

structure ContainerId where
  namespaceName : String
  name : String
deriving DecidableEq, Repr

def autoRegister (name namespaceName ip : String) (port : Nat) : Files → Files :=
  withAutoLocked fun auto =>
    (auto.filter fun a => a.name ≠ name) ++ [⟨name, namespaceName, ip, port⟩]

def autoDeregister (name : String) : Files → Files :=
  withAutoLocked fun auto => auto.filter fun a => a.name ≠ name

/-- A call made for a container. -/
inductive AutoCall where
  | register (c : ContainerId) (ip : String) (port : Nat)
  | deregister (c : ContainerId)

def AutoCall.container : AutoCall → ContainerId
  | .register c _ _ => c
  | .deregister c => c

def performAuto (files : Files) : AutoCall → Files
  | .register c ip port => autoRegister c.name c.namespaceName ip port files
  | .deregister c => autoDeregister c.name files

def AutoRoute.container (a : AutoRoute) : ContainerId := ⟨a.namespaceName, a.name⟩

def registered (files : Files) : List AutoRoute := files.auto.getD []

/-- The last call that was made for the container. -/
def lastCall (c : ContainerId) (history : List (Event Files AutoCall)) : Option AutoCall :=
  (history.map (·.action)).find? fun call => call.container = c

def entriesOf (files : Files) (c : ContainerId) : List AutoRoute :=
  (registered files).filter (·.container = c)

/-- What a call for a container leaves of it. -/
def entryAfter (c : ContainerId) : AutoCall → List AutoRoute
  | .register _ ip port => [⟨c.name, c.namespaceName, ip, port⟩]
  | .deregister _ => []

/-- Each container has the entry that the last call for it left, and without a call those that it
had at the start: none in an empty instance.
-/
def PerContainer (start : Files) (history : List (Event Files AutoCall)) (files : Files) : Prop :=
  ∀ c, entriesOf files c = ((lastCall c history).map (entryAfter c)).getD (entriesOf start c)

/-- No container of this name in another namespace is registered. -/
def OnlyNamesake (files : Files) (call : AutoCall) : Prop :=
  ∀ a ∈ registered files, a.name = call.container.name → a.container = call.container

instance (files : Files) (call : AutoCall) : Decidable (OnlyNamesake files call) :=
  inferInstanceAs (Decidable (∀ a ∈ registered files, _ → _))

theorem registered_rebuild (files : Files)
    : registered (rebuild .holder files) = registered files := by
  rw [rebuild]
  split
  · rfl
  case h_2 nothing =>
    have none : files.auto.getD [] = [] := by
      by_contra some
      exact compose_auto .holder files.manual some nothing
    rw [registered, registered, none]
    rfl

theorem registered_withAutoLocked (f : List AutoRoute → List AutoRoute) (files : Files)
    : registered (withAutoLocked f files) = f (registered files) := by
  rw [withAutoLocked]
  split
  case isTrue same => exact same.symm
  case isFalse => exact registered_rebuild _

theorem filter_dropped {files : Files} {call : AutoCall} (only : OnlyNamesake files call)
    (c : ContainerId)
    : ((registered files).filter fun a => a.name ≠ call.container.name).filter (·.container = c)
      = if c = call.container then [] else entriesOf files c := by
  rw [List.filter_filter]
  split
  case isTrue same =>
    refine List.filter_eq_nil_iff.mpr fun a _ => ?_
    simp only [Bool.and_eq_true, decide_eq_true_eq, not_and]
    rintro rfl different
    exact different (by rw [← same]; rfl)
  case isFalse other =>
    refine List.filter_congr fun a member => ?_
    by_cases mine : a.container = c
    · have different : a.name ≠ call.container.name := fun same =>
        other (mine.symm.trans (only a member same))
      simp [mine, different]
    · simp [mine]

/-- A call for a container sets its own entry and leaves those of the others. -/
theorem registered_performAuto {files : Files} {call : AutoCall} (only : OnlyNamesake files call)
    (c : ContainerId)
    : entriesOf (performAuto files call) c
      = if c = call.container then entryAfter c call else entriesOf files c := by
  have dropped := filter_dropped only c
  rw [entriesOf]
  cases call with
  | register c' ip port =>
      rw [performAuto, autoRegister, registered_withAutoLocked, List.filter_append]
      refine (congrArg (· ++ _) dropped).trans ?_
      split
      case isTrue same => simp [same, AutoCall.container, AutoRoute.container, entryAfter]
      case isFalse other =>
        have other : c' ≠ c := fun same => other same.symm
        simp [AutoRoute.container, other]
  | deregister c' =>
      rw [performAuto, autoDeregister, registered_withAutoLocked]
      exact dropped

theorem lastCall_cons (c : ContainerId) (before after : Files) (call : AutoCall)
    (history : List (Event Files AutoCall))
    : lastCall c (⟨before, call, after⟩ :: history)
      = if c = call.container then some call else lastCall c history := by
  rw [lastCall, List.map_cons, List.find?_cons]
  by_cases same : call.container = c
  · simp [same]
  · simp [same, Ne.symm same, lastCall]

/-- Each container has its own route after every run from any files, as long as no two containers of
one name are registered in two namespaces.
-/
theorem perContainer {start files : Files} {history : List (Event Files AutoCall)}
    (run : Run (StepOf performAuto) start history files)
    (only : Meets OnlyNamesake history)
    : PerContainer start history files := by
  refine run.invariant (PerContainer start) (fun _ => rfl) ?_ only
  intro history state call next kept taken only c
  rw [taken, registered_performAuto only, lastCall_cons]
  split
  · rfl
  · exact kept c

def web (namespaceName : String) : ContainerId := ⟨namespaceName, "web"⟩

def oneNamespace : List AutoCall :=
  [.register (web "red") "10.200.0.5" 80, .register ⟨"blue", "api"⟩ "10.200.0.6" 80,
    .register (web "red") "10.200.0.7" 80, .deregister ⟨"blue", "api"⟩]

/-- Files in which another container stands already. -/
def dbFiles : Files := autoRegister "db" "blue" "10.200.0.9" 5432 noFiles

theorem oneNamespace_perContainer
    : PerContainer noFiles (trace performAuto noFiles [] oneNamespace)
        (oneNamespace.foldl performAuto noFiles)
      ∧ PerContainer dbFiles (trace performAuto dbFiles [] oneNamespace)
        (oneNamespace.foldl performAuto dbFiles) :=
  ⟨perContainer (Run.start.trace oneNamespace) (by decide +kernel),
    perContainer (Run.start.trace oneNamespace) (by decide +kernel)⟩

/-- Two containers of one name; the second one's registration takes the first one's route away. -/
def twoNamespaces : List AutoCall :=
  [.register (web "red") "10.200.0.5" 80, .register (web "blue") "10.200.0.6" 80]

theorem twoNamespaces_not_perContainer
    : ¬ PerContainer noFiles (trace performAuto noFiles [] twoNamespaces)
      (twoNamespaces.foldl performAuto noFiles) := by
  intro kept
  have red := kept (web "red")
  revert red
  decide +kernel

end Delonix.Ingress
