import Delonix.Library.Checks
import Delonix.Volumes.Confined

/-! Which calls stay inside the store. Only creating a volume checks its name; every other call
joins the name it is given to the root.
-/

namespace Delonix.Volumes

open Delonix.Library.Checks Delonix.Library.Faults Delonix.Library.FileTree
  Delonix.Library.Logged

-----------------------------------------------------------------------------------------
-- Creating and mounting
-----------------------------------------------------------------------------------------

section

variable {each : Access → Prop} {disk : Disk} {store : Path} {name : String}

/-- Every volume with a checked name may be touched. -/
def CoversNamed (each : Access → Prop) (store : Path) : Prop :=
  ∀ name, validName name = true → Covers each store name

theorem adds_remountImage (named : CoversNamed each store) {vol : Volume} (isNamed : Named vol)
    : Adds [] each (fun _ => True) (disk.fs.remountImage store vol) := by
  have covers := named vol.name isNamed
  rw [FullFs.remountImage]
  split
  case isFalse => exact Adds.pure trivial
  case isTrue =>
    refine Adds.next (adds_look covers.img) ?_
    intro found
    cases found
    case false => exact Adds.pure trivial
    case true =>
      refine Adds.next (adds_isMounted _) ?_
      intro mounted
      cases mounted
      case true => exact Adds.pure trivial
      case false =>
        refine Adds.next (adds_tried (adds_run ?_)) fun _ => Adds.pure trivial
        simpa [Arg.access] using covers.img

/-- The arguments of a mount are texts. -/
theorem mountArgs_access {vol : Volume} {device : String} {arg : Arg}
    (member : arg ∈ FullFs.mountArgs vol device)
    : arg.access = none := by
  simp only [FullFs.mountArgs, List.mem_append, List.mem_cons, List.not_mem_nil, or_false]
    at member
  rcases member with ((rfl | rfl) | inOptions) | rfl | rfl | rfl
  case inl.inr =>
    cases options : vol.options <;> rw [options] at inOptions <;> simp at inOptions
    rcases inOptions with rfl | rfl <;> rfl
  all_goals rfl

theorem adds_mountShare {vol : Volume}
    : Adds [] each (fun _ => True) (disk.fs.mountShare vol) := by
  rw [FullFs.mountShare]
  split
  case h_1 => exact Adds.refuse
  case h_2 device _ =>
    refine Adds.next (adds_command ?_) ?_
    · intro arg member access is
      rw [mountArgs_access member] at is
      cases is
    · intro result
      cases result with
      | error => exact Adds.refuse
      | ok out => exact adds_refuseUnless

theorem adds_ensureMounted (named : CoversNamed each store) {vol : Volume} (isNamed : Named vol)
    : Adds [] each (fun _ => True) (disk.fs.ensureMounted store vol) := by
  refine Adds.next (adds_remountImage named isNamed) fun _ => ?_
  split
  case isFalse => exact Adds.pure trivial
  case isTrue =>
    refine Adds.next (adds_isMounted _) ?_
    intro mounted
    cases mounted
    · exact adds_mountShare
    · exact Adds.pure trivial

theorem adds_makeVolume (named : CoversNamed each store) (valid : validName name = true)
    (driver : String) (device options : Option String)
    : Adds [] each Named (disk.fs.makeVolume store name driver device options) := by
  have covers := named name valid
  refine Adds.next (adds_trying.allowed covers.data) fun _ => ?_
  refine Adds.next Adds.entries_any fun created => ?_
  refine Adds.next ?_ fun _ => ?_
  · refine Adds.onRefusal (adds_ensureMounted named valid) fun _ => ?_
    exact Adds.next (adds_tried (adds_trying.allowed covers.dir)) fun _ => Adds.refuse
  · refine Adds.next ?_ fun _ => Adds.pure valid
    exact (Adds.entry fun _ _ _ => trivial).allowed (covers.wrote _ valid)

theorem adds_createWith (named : CoversNamed each store) (driver : String)
    (device options : Option String)
    : Adds [] each Named (disk.fs.createWith store name driver device options) := by
  rw [FullFs.createWith]
  cases valid : validName name
  case false => exact Adds.refuse
  case true =>
    have covers := named name valid
    refine Adds.next (adds_look covers.meta) ?_
    intro found
    cases found
    case true =>
      refine Adds.bind (adds_inspect covers) fun vol isNamed => ?_
      exact Adds.next (adds_ensureMounted named isNamed) fun _ => Adds.pure isNamed
    case false =>
      simp only [Bool.false_eq_true, if_false]
      split
      · exact Adds.refuse
      · exact adds_makeVolume named valid driver device options

/-- Creating on demand begins with a look at the record, whatever the name. -/
theorem opens_create (named : CoversNamed each store) (covers : Covers each store name)
    : Adds [.touch (metaPath store name)] each Named (disk.fs.create store name) := by
  refine Adds.next opens_look ?_
  intro found
  cases found
  · exact adds_createWith named _ _ _
  · exact adds_inspect covers

-----------------------------------------------------------------------------------------
-- Quotas
-----------------------------------------------------------------------------------------

theorem adds_mountLoop (covers : Covers each store name)
    : Adds [] each (fun _ => True) (disk.fs.mountLoop store name) := by
  refine adds_run ?_
  simpa [Arg.access] using And.intro covers.img covers.data

theorem adds_makeImage (covers : Covers each store name) (quota : Nat)
    : Adds [] each (fun _ => True) (disk.fs.makeImage store name quota) := by
  refine Adds.next (adds_look covers.data) fun used => ?_
  refine Adds.next ?_ fun _ => ?_
  · rw [FullFs.refuseLoopbackOnNonempty]
    split
    · exact Adds.refuse
    · exact adds_refuseUnless
  · refine Adds.next (adds_run (by simpa [Arg.access] using covers.img)) fun _ => ?_
    refine Adds.next (adds_run (by simpa [Arg.access] using covers.img)) fun _ => ?_
    refine Adds.next (adds_trying.allowed covers.data) fun _ => ?_
    exact adds_mountLoop covers

theorem adds_growImage (covers : Covers each store name) (quota : Nat)
    : Adds [] each (fun _ => True) (disk.fs.growImage store name quota) := by
  refine Adds.next (adds_run (by simpa [Arg.access] using covers.img)) fun _ => ?_
  refine Adds.next ?_ ?_
  · refine Adds.next (adds_command (by simpa [Arg.access] using covers.img)) ?_
    intro result
    cases result <;> exact Adds.pure trivial
  · intro found
    cases found with
    | none => exact Adds.refuse
    | some dev =>
        refine Adds.next (adds_run (by simp [Arg.access])) fun _ => ?_
        exact adds_run (by simp [Arg.access])

theorem adds_shrinkImage (covers : Covers each store name) (quota : Nat)
    : Adds [] each (fun _ => True) (disk.fs.shrinkImage store name quota) := by
  refine Adds.next (adds_look covers.data) fun used => ?_
  refine Adds.next ?_ fun _ => ?_
  · rw [FullFs.refuseShrinkBelow]
    split
    · exact Adds.refuse
    · exact adds_refuseUnless
  · refine Adds.next (adds_command (by simpa [Arg.access] using covers.data)) fun _ => ?_
    refine Adds.next adds_refuseUnless fun _ => ?_
    refine Adds.next (adds_tried (adds_run (by simpa [Arg.access] using covers.img)))
      fun _ => ?_
    refine Adds.next (adds_run (by simpa [Arg.access] using covers.img)) fun _ => ?_
    refine Adds.next (adds_run (by simpa [Arg.access] using covers.img)) fun _ => ?_
    exact adds_mountLoop covers

theorem adds_resizeImage (covers : Covers each store name) (quota : Nat)
    : Adds [] each (fun _ => True) (disk.fs.resizeImage store name quota) := by
  refine Adds.next (adds_isMounted _) fun mounted => ?_
  refine Adds.next ?_ fun _ => ?_
  · cases mounted
    · exact adds_mountLoop covers
    · exact Adds.pure trivial
  · refine Adds.next (adds_look covers.img) fun size => ?_
    split
    · exact adds_growImage covers quota
    · split
      · exact adds_shrinkImage covers quota
      · exact Adds.pure trivial

theorem adds_applyLoopback (covers : Covers each store name) (quota : Nat)
    : Adds [] each (fun _ => True) (disk.fs.applyLoopback store name quota) := by
  refine Adds.next (adds_look covers.img) fun found => ?_
  cases found
  · exact adds_makeImage covers quota
  · exact adds_resizeImage covers quota

theorem opens_setQuota (covers : Covers each store name) (quota alertPct : Option Nat)
    (privileged : Bool)
    : Adds [.touch (metaPath store name)] each Named
        (disk.fs.setQuota store name quota alertPct privileged) := by
  refine Adds.bind (opens_inspect covers) fun vol isNamed => ?_
  refine Adds.next ?_ fun _ => ?_
  · split
    · exact adds_applyLoopback covers _
    · exact Adds.pure trivial
  · refine Adds.next ?_ fun _ => Adds.pure isNamed
    exact (Adds.entry fun _ _ _ => trivial).allowed (covers.wrote _ isNamed)

-----------------------------------------------------------------------------------------
-- Mount specs
-----------------------------------------------------------------------------------------

/-- A source that is no path of the host begins with the record of the volume it names. -/
theorem opens_resolveSpec (named : CoversNamed each store) {text : String} {spec : Spec}
    (parsed : parseSpec text = .ok spec) (isName : isBind spec.src = false)
    (covers : Covers each store spec.src)
    : Adds [.touch (metaPath store spec.src)] each (fun _ => True)
        (disk.fs.resolveSpec store text) := by
  rw [FullFs.resolveSpec, parsed]
  simp only [isName, Bool.false_eq_true, if_false]
  refine Adds.bind (opens_create named covers) fun vol isNamed => ?_
  exact Adds.next (adds_ensureMounted named isNamed) fun _ => Adds.pure trivial

theorem adds_bind {store : Path} {text : String} {spec : Spec}
    (parsed : parseSpec text = .ok spec) (bind : isBind spec.src = true)
    : Adds [] each (fun _ => True) (disk.fs.resolveSpec store text) := by
  rw [FullFs.resolveSpec, parsed]
  simp only [bind, if_true]
  refine Adds.next ?_ fun _ => Adds.pure trivial
  intro log
  exact ⟨[], rfl, nofun, fun _ _ => trivial⟩

theorem refused_resolveSpec {store : Path} {text : String} {error : Error}
    (bad : parseSpec text = .error error)
    : disk.fs.resolveSpec store text = Prog.refuse error := by
  rw [FullFs.resolveSpec, bad]

end

-----------------------------------------------------------------------------------------
-- Calls and the names they are given
-----------------------------------------------------------------------------------------

inductive Call where
  | inspect (name : String)
  | removeWith (name : String) (mapped : Bool)
  | snapshotPath (volume snap : String)
  | removeSnapshot (volume snap : String)
  | setQuota (name : String) (quota alertPct : Option Nat) (privileged : Bool)
  | resolveSpecIn (spec ns : String)
deriving DecidableEq, Repr

namespace Call

def run (disk : Disk) (store : Path) : Call → DiskProg Unit
  | .inspect name => do
      let _ ← disk.fs.inspect store name
      pure ()
  | .removeWith name mapped =>
      disk.fs.removeWith store (if mapped then some Disk.mappedRemover else none) name
  | .snapshotPath volume snap =>
      match Fs.snapshotPath store volume snap with
      | .ok _ => pure ()
      | .error e => Prog.refuse e
  | .removeSnapshot volume snap => disk.fs.removeSnapshot store volume snap
  | .setQuota name quota alertPct privileged => do
      let _ ← disk.fs.setQuota store name quota alertPct privileged
      pure ()
  | .resolveSpecIn spec ns => do
      let _ ← disk.fs.resolveSpecIn store spec ns
      pure ()

/-- The names of volumes and namespaces among its arguments; a bind source is none. -/
def names : Call → List String
  | .inspect name | .removeWith name _ | .setQuota name _ _ _ => [name]
  | .snapshotPath volume _ | .removeSnapshot volume _ => [volume]
  | .resolveSpecIn spec ns =>
      if isBind (specSource spec) then []
      else if specSource spec = "" then [specSource spec]
      else [specSource spec, ns]

def snaps : Call → List String
  | .snapshotPath _ snap | .removeSnapshot _ snap => [snap]
  | _ => []

/-- An argument the store has no place for. -/
def Unchecked (call : Call) : Prop :=
  (∃ name ∈ call.names, validName name = false)
    ∨ ∃ snap ∈ call.snaps, safeSnapshotName snap = false

/-- Refused for its form alone: an unsafe snapshot, or a spec without a source that is malformed
besides.
-/
def refusedAtOnce : Call → Bool
  | .snapshotPath _ snap | .removeSnapshot _ snap => !safeSnapshotName snap
  | .resolveSpecIn spec _ => specSource spec == "" && (parseSpec spec).toOption.isNone
  | _ => false

end Call

/-- A child of the store with a checked name, or below it. -/
def Inside (store path : Path) : Prop :=
  ∃ name rest, validName name = true ∧ path = store ++ name :: rest ∧ Descends rest

/-- A mount spec may also lead into the store of the namespace it is resolved for. -/
def Call.Inside (store : Path) (call : Call) (path : Path) : Prop :=
  Volumes.Inside store path
    ∨ ∃ spec ns, call = .resolveSpecIn spec ns ∧ validName ns = true
      ∧ Volumes.Inside (store ++ [nsSubtree, ns]) path

/-- A call touches nothing but volumes of the store, and nothing at all when an argument of it
has no place there.
-/
structure Confined (store : Path) (disk : Disk) (call : Call) : Prop where
  inside : ∀ access ∈ (call.run disk store []).2, call.Inside store access.path
  refused : call.Unchecked → (∃ error, call.run disk store [] = (.error (.refused error), []))

-----------------------------------------------------------------------------------------
-- Checked names keep a call inside
-----------------------------------------------------------------------------------------

theorem covers_inside {each : Access → Prop} {store : Path}
    (inside : ∀ access, Inside store access.path → each access)
    : CoversNamed each store := by
  intro name valid
  have inDir : ∀ rest, Descends rest → Inside store (dir store name ++ rest) := by
    intro rest down
    refine ⟨name, rest, valid, ?_, down⟩
    rw [dir, join_validName valid, List.append_assoc, List.singleton_append]
  exact
    { touched := fun rest down => inside _ (inDir rest down)
      wrote := fun vol _ => inside (.write _ vol) (inDir ["meta.json"] (by simp [Descends])) }

theorem join_snapshot (base : Path) {snap : String} (safe : safeSnapshotName snap = true)
    : join base (snap ++ ".tar.gz") = base ++ [snap ++ ".tar.gz"]
      ∧ snap ++ ".tar.gz" ≠ ".." := by
  simp only [safeSnapshotName, Bool.and_eq_true] at safe
  have single : '/' ∉ (snap ++ ".tar.gz").toList := by
    rw [String.toList_append, List.mem_append, not_or]
    exact ⟨not_mem_slash safe.2 (by decide), by decide⟩
  have long : 7 ≤ (snap ++ ".tar.gz").toList.length := by
    rw [String.toList_append, List.length_append]
    exact Nat.le_add_left 7 _
  refine ⟨join_single single ?_ ?_, ?_⟩
  all_goals
    intro is
    rw [is] at long
    revert long
    decide

theorem parseSpec_src {text : String} {spec : Spec} (parsed : parseSpec text = .ok spec)
    : spec.src = specSource text := by
  obtain ⟨fields, cut, rest⟩ := bind_eq_ok.mp parsed
  obtain ⟨option, _, made⟩ := bind_eq_ok.mp rest
  have src : fields.1 = specSource text := by
    rw [specFields] at cut
    rw [specSource]
    split at cut
    case h_1 src target parts =>
      cases cut
      rw [parts]
      rfl
    case h_2 src target option parts =>
      cases cut
      rw [parts]
      rfl
    case h_3 => cases cut
  split at made
  · cases made
    exact src
  · cases made

theorem adds_mapped {each : Access → Prop} (mapped : Bool)
    : ∀ rm, (if mapped then some Disk.mappedRemover else none) = some rm
      → ∀ path, Adds [.touch path] each (fun _ => True) (rm path) := by
  intro rm is path
  cases mapped
  · cases is
  · cases is
    exact Adds.entries_any

theorem inside_scoped {store path : Path} {spec ns : String} (valid : validName ns = true)
    (inside : Inside (scopedRoot store ns) path)
    : Call.Inside store (.resolveSpecIn spec ns) path := by
  rw [scopedRoot, join_validName valid, List.append_assoc] at inside
  exact .inr ⟨spec, ns, rfl, valid, inside⟩

/-- A spec that names a volume opens with nothing else than volumes of its store. -/
theorem adds_resolveSpec {each : Access → Prop} {disk : Disk} {store : Path} {text : String}
    (named : CoversNamed each store) (isName : isBind (specSource text) = false)
    (covers : Covers each store (specSource text))
    : Adds [] each (fun _ => True) (disk.fs.resolveSpec store text) := by
  cases parsed : parseSpec text with
  | error e =>
      rw [refused_resolveSpec parsed]
      exact Adds.refuse
  | ok spec =>
      rw [← parseSpec_src parsed] at isName covers
      exact (opens_resolveSpec named parsed isName covers).allowed covers.meta

/-- The look for the namespace's own volume comes first. -/
theorem opens_resolveSpecIn {each : Access → Prop} {disk : Disk} {store : Path}
    {spec ns : String} (named : CoversNamed each store)
    (inNs : CoversNamed each (scopedRoot store ns)) (isName : isBind (specSource spec) = false)
    (notEmpty : specSource spec ≠ "") (covers : Covers each store (specSource spec))
    (nsCovers : Covers each (scopedRoot store ns) (specSource spec))
    : Adds [.touch (metaPath (scopedRoot store ns) (specSource spec))] each (fun _ => True)
        (disk.fs.resolveSpecIn store spec ns) := by
  have looked : (specSource spec ≠ "" && !isBind (specSource spec)) = true := by
    simp [notEmpty, isName]
  simp only [FullFs.resolveSpecIn, looked, if_true]
  refine Adds.next opens_look fun found => ?_
  cases found
  case false => exact adds_resolveSpec named isName covers
  case true =>
    refine Adds.next (adds_look covers.meta) fun both => ?_
    cases both
    · exact adds_resolveSpec inNs isName nsCovers
    · exact Adds.refuse

/-- A path of the host is no name. -/
theorem adds_bindSpecIn {each : Access → Prop} {disk : Disk} {store : Path} {spec ns : String}
    (bind : isBind (specSource spec) = true)
    : Adds [] each (fun _ => True) (disk.fs.resolveSpecIn store spec ns) := by
  simp only [FullFs.resolveSpecIn, bind, Bool.not_true, Bool.and_false, Bool.false_eq_true,
    if_false]
  cases parsed : parseSpec spec with
  | error e =>
      rw [refused_resolveSpec parsed]
      exact Adds.refuse
  | ok made => exact adds_bind parsed (by rw [parseSpec_src parsed, bind])

theorem names_resolveSpecIn {spec ns : String} (isName : isBind (specSource spec) = false)
    (notEmpty : specSource spec ≠ "")
    : (Call.resolveSpecIn spec ns).names = [specSource spec, ns] := by
  simp [Call.names, isName, notEmpty]

theorem inside_resolveSpecIn {store : Path} {disk : Disk} {spec ns : String}
    (valid : ∀ name ∈ (Call.resolveSpecIn spec ns).names, validName name = true)
    : Adds [] (fun access => Call.Inside store (.resolveSpecIn spec ns) access.path)
        (fun _ => True) (disk.fs.resolveSpecIn store spec ns) := by
  cases isName : isBind (specSource spec)
  case true => exact adds_bindSpecIn isName
  case false =>
    have validSrc : validName (specSource spec) = true := by
      refine valid _ ?_
      simp only [Call.names, isName, Bool.false_eq_true, if_false]
      split <;> exact List.mem_cons_self
    have notEmpty := (validName_spec validSrc).notEmpty
    have validNs : validName ns = true := by
      refine valid _ ?_
      rw [names_resolveSpecIn isName notEmpty]
      exact List.mem_cons_of_mem _ List.mem_cons_self
    have named : CoversNamed
        (fun access => Call.Inside store (.resolveSpecIn spec ns) access.path) store :=
      covers_inside fun access inside => .inl inside
    have inNs : CoversNamed
        (fun access => Call.Inside store (.resolveSpecIn spec ns) access.path)
        (scopedRoot store ns) :=
      covers_inside fun access inside => inside_scoped validNs inside
    have nsCovers := inNs _ validSrc
    exact (opens_resolveSpecIn named inNs isName notEmpty (named _ validSrc) nsCovers).allowed
      nsCovers.meta

theorem adds_run_of_names {store : Path} {disk : Disk} {call : Call}
    (valid : ∀ name ∈ call.names, validName name = true)
    : Adds [] (fun access => call.Inside store access.path) (fun _ => True)
        (call.run disk store) := by
  have named : CoversNamed (fun access => call.Inside store access.path) store :=
    covers_inside fun access inside => .inl inside
  cases call with
  | inspect name =>
      have covers := named name (valid name List.mem_cons_self)
      exact Adds.bind (adds_inspect covers) fun _ _ => Adds.pure trivial
  | removeWith name mapped =>
      have covers := named name (valid name List.mem_cons_self)
      exact (opens_removeWith covers (adds_mapped mapped)).allowed covers.dir
  | snapshotPath volume snap =>
      simp only [Call.run, Fs.snapshotPath]
      cases safeSnapshotName snap
      · exact Adds.refuse
      · exact Adds.pure trivial
  | removeSnapshot volume snap =>
      have covers := named volume (valid volume List.mem_cons_self)
      simp only [Call.run, Fs.removeSnapshot, Fs.snapshotPath]
      cases safe : safeSnapshotName snap
      case false => exact Adds.refuse
      case true =>
        obtain ⟨joined, notDots⟩ := join_snapshot (snapshotsDir store volume) safe
        have may : Call.Inside store (.removeSnapshot volume snap)
            (join (snapshotsDir store volume) (snap ++ ".tar.gz")) := by
          rw [joined, snapshotsDir, List.append_assoc]
          exact covers.touched ["_snapshots", snap ++ ".tar.gz"] (by
            simpa [Descends] using Ne.symm notDots)
        refine Adds.next (adds_look may) fun found => ?_
        cases found
        · exact Adds.refuse
        · exact adds_trying.allowed may
  | setQuota name quota alertPct privileged =>
      have covers := named name (valid name List.mem_cons_self)
      have opens : Adds _ _ _ (disk.fs.setQuota store name quota alertPct privileged) :=
        opens_setQuota covers quota alertPct privileged
      exact Adds.bind (opens.allowed covers.meta) fun _ _ => Adds.pure trivial
  | resolveSpecIn spec ns =>
      exact Adds.next (inside_resolveSpecIn valid) fun _ => Adds.pure trivial

-----------------------------------------------------------------------------------------
-- An unchecked name is joined before anyone judges it
-----------------------------------------------------------------------------------------

/-- Nothing is said of what is touched. -/
theorem covers_any {store : Path} {name : String} : Covers (fun _ => True) store name :=
  ⟨fun _ _ => trivial, fun _ _ => trivial⟩

theorem coversNamed_any {store : Path} : CoversNamed (fun _ => True) store :=
  fun _ _ => covers_any

/-- The call touches something before all else. -/
def Call.Begins (store : Path) (disk : Disk) (call : Call) : Prop :=
  ∃ first, Adds [first] (fun _ => True) (fun _ => True) (call.run disk store)

/-- Such a call is not refused untouched. -/
theorem Call.Begins.not_untouched {store : Path} {disk : Disk} {call : Call}
    (begins : call.Begins store disk)
    : ¬ ∃ error, call.run disk store [] = (.error (.refused error), []) := by
  obtain ⟨first, opens⟩ := begins
  rintro ⟨error, is⟩
  have touched := opens.mem [] List.mem_cons_self
  rw [is] at touched
  cases touched

theorem not_refused {store : Path} {disk : Disk} {call : Call} (unchecked : call.Unchecked)
    (later : call.refusedAtOnce = false)
    : ¬ ∃ error, call.run disk store [] = (.error (.refused error), []) := by
  cases call with
  | inspect name =>
      refine Call.Begins.not_untouched ⟨.touch (metaPath store name), ?_⟩
      exact Adds.bind (opens_inspect covers_any) fun _ _ => Adds.pure trivial
  | removeWith name mapped =>
      refine Call.Begins.not_untouched ⟨.touch (dir store name), ?_⟩
      exact opens_removeWith covers_any (adds_mapped mapped)
  | snapshotPath volume snap =>
      have safe : safeSnapshotName snap = true := by simpa [Call.refusedAtOnce] using later
      simp [Call.run, Fs.snapshotPath, safe, pure]
  | removeSnapshot volume snap =>
      have safe : safeSnapshotName snap = true := by simpa [Call.refusedAtOnce] using later
      refine Call.Begins.not_untouched
        ⟨.touch (join (snapshotsDir store volume) (snap ++ ".tar.gz")), ?_⟩
      simp only [Call.run, Fs.removeSnapshot, Fs.snapshotPath, safe, if_true]
      refine Adds.next opens_look fun found => ?_
      cases found
      · exact Adds.refuse
      · exact adds_trying.allowed trivial
  | setQuota name quota alertPct privileged =>
      refine Call.Begins.not_untouched ⟨.touch (metaPath store name), ?_⟩
      exact Adds.bind (opens_setQuota covers_any quota alertPct privileged)
        fun _ _ => Adds.pure trivial
  | resolveSpecIn spec ns =>
      cases isName : isBind (specSource spec)
      case true => simp [Call.Unchecked, Call.names, Call.snaps, isName] at unchecked
      case false =>
        by_cases empty : specSource spec = ""
        · have parses : (parseSpec spec).toOption.isNone = false := by
            simpa [Call.refusedAtOnce, empty] using later
          cases parsed : parseSpec spec with
          | error => simp [parsed, Except.toOption] at parses
          | ok made =>
              refine Call.Begins.not_untouched ⟨.touch (metaPath store made.src), ?_⟩
              refine Adds.next ?_ fun _ => Adds.pure trivial
              simp only [FullFs.resolveSpecIn, empty, ne_eq, not_true, decide_false,
                Bool.false_and, Bool.false_eq_true, if_false]
              exact opens_resolveSpec coversNamed_any parsed
                (by rw [parseSpec_src parsed, isName]) covers_any
        · refine Call.Begins.not_untouched
            ⟨.touch (metaPath (scopedRoot store ns) (specSource spec)), ?_⟩
          exact Adds.next
            (opens_resolveSpecIn coversNamed_any coversNamed_any isName empty covers_any
              covers_any)
            fun _ => Adds.pure trivial

theorem refused_of_atOnce (store : Path) (disk : Disk) {call : Call}
    (atOnce : call.refusedAtOnce = true)
    : ∃ error, call.run disk store [] = (.error (.refused error), []) := by
  cases call with
  | inspect | removeWith | setQuota => cases atOnce
  | snapshotPath volume snap | removeSnapshot volume snap =>
      have unsafeSnap : safeSnapshotName snap = false := by simpa [Call.refusedAtOnce] using atOnce
      refine ⟨.invalidSnapshotName snap, ?_⟩
      simp [Call.run, Fs.removeSnapshot, Fs.snapshotPath, unsafeSnap, Prog.refuse]
  | resolveSpecIn spec ns =>
      simp only [Call.refusedAtOnce, Bool.and_eq_true, beq_iff_eq] at atOnce
      obtain ⟨empty, malformed⟩ := atOnce
      cases parsed : parseSpec spec with
      | ok made => simp [parsed, Except.toOption] at malformed
      | error error =>
          refine ⟨error, ?_⟩
          simp [Call.run, FullFs.resolveSpecIn, empty, refused_resolveSpec parsed,
            Prog.bind_apply, Prog.refuse]

/-- A call keeps to the store's own volumes just when every name it is given was checked before,
or its form refuses it at once.
-/
theorem names_confined (store : Path) (disk : Disk) (call : Call)
    : Confined store disk call
      ↔ (∀ name ∈ call.names, validName name = true) ∨ call.refusedAtOnce = true := by
  constructor
  · intro confined
    by_cases atOnce : call.refusedAtOnce = true
    · exact .inr atOnce
    · left
      intro name member
      by_contra invalid
      rw [Bool.not_eq_true] at atOnce invalid
      have unchecked : call.Unchecked := .inl ⟨name, member, invalid⟩
      exact not_refused unchecked atOnce (confined.refused unchecked)
  · intro holds
    by_cases atOnce : call.refusedAtOnce = true
    · obtain ⟨error, is⟩ := refused_of_atOnce store disk atOnce
      exact ⟨by simp [is], fun _ => ⟨error, is⟩⟩
    · have valid := holds.resolve_right atOnce
      refine ⟨(adds_run_of_names valid).of_nil, ?_⟩
      rintro (⟨name, member, invalid⟩ | ⟨snap, member, unsafeSnap⟩)
      · rw [valid name member] at invalid
        cases invalid
      · refine absurd ?_ atOnce
        cases call <;> simp_all [Call.snaps, Call.refusedAtOnce]

/-- A file system where every path is a directory that holds `containers`. -/
def nestedDisk : Disk where
  stands _ _ := true
  record _ _ := .error (.engine "not a record")
  mountTable _ := none
  command _ name _ := .error name
  listing _ _ := .ok [some ⟨"containers", by decide⟩]
  isDir _ _ := true
  removed _ _ := .ok ()
  written _ _ := .ok ()
  usage _ _ := ⟨0, 0⟩
  size _ _ := none
  canonicalize _ text := .ok text
  now _ := 0

/-- Removing the volume `..` deletes what stands beside the store. -/
theorem removal_of_dots_leaves_store
    : ¬ ∀ (store : Path) (disk : Disk) (call : Call), Confined store disk call := by
  intro all
  have confined := all ["state", "volumes"] nestedDisk (.removeWith ".." false)
  have inside := confined.inside (.touch ["state", "volumes", "..", "containers"])
    (by decide +kernel)
  rcases inside with ⟨name, rest, valid, is, _⟩ | ⟨_, _, is, _⟩
  · have dots : ".." = name := by
      have same : ["state", "volumes"] ++ ["..", "containers"]
          = ["state", "volumes"] ++ name :: rest := is
      exact (List.cons.inj (List.append_cancel_left same)).1
    subst dots
    revert valid
    decide +kernel
  · cases is

end Delonix.Volumes
