import Delonix.Library.Text
import Mathlib.Data.List.Nodup

/-! The providers of a network role, by their names, and which of them answers for a resource. A
resource that was created keeps its provider, whatever is configured or registered later.
-/

namespace Delonix.Networking.Registry

open Delonix.Library.Text

abbrev Text := List Char

attribute [local instance] lawfulBEq

variable {Factory : Type}

/-- One provider this build knows about; `new` builds it. -/
structure Registration (Factory : Type) where
  id : Text
  aliases : List Text
  new : Factory
deriving DecidableEq

def Registration.names (reg : Registration Factory) : List Text := reg.id :: reg.aliases

def Registration.Answers (reg : Registration Factory) (want : Text) : Prop := want ∈ reg.names

instance (reg : Registration Factory) (want : Text) : Decidable (reg.Answers want) :=
  inferInstanceAs (Decidable (want ∈ reg.names))

/-- A name as it is looked up. `lowercase` is `str::to_lowercase`. -/
def wanted (lowercase : Text → Text) (name : Text) : Text := lowercase (trim name)

inductive Refusal where
  | needsId
  | taken (id name owner : Text)
deriving DecidableEq

/-- `register_*_provider`, of every role. -/
def register (lowercase : Text → Text) (regs : List (Registration Factory))
    (reg : Registration Factory)
    : Except Refusal (List (Registration Factory)) :=
  if trim reg.id = [] then .error .needsId
  else
    let clash (name : Text) := regs.find? fun b =>
      b.id ≠ reg.id ∧ b.Answers (wanted lowercase name)
    match reg.names.findSome? fun name => (clash name).map fun b => (name, b.id) with
    | some (name, owner) => .error (.taken reg.id name owner)
    | none => .ok (regs.filter (·.id ≠ reg.id) ++ [reg])

/-- The registry after a call, accepted or refused. -/
def registered (lowercase : Text → Text) (regs : List (Registration Factory))
    (reg : Registration Factory)
    : List (Registration Factory) :=
  (register lowercase regs reg).toOption.getD regs

def registeredAll (lowercase : Text → Text) (regs later : List (Registration Factory))
    : List (Registration Factory) :=
  later.foldl (registered lowercase) regs

def find (lowercase : Text → Text) (regs : List (Registration Factory)) (name : Text)
    : Option (Registration Factory) :=
  regs.find? fun reg => reg.Answers (wanted lowercase name)

/-- `*_provider_for`. -/
def providerFor (lowercase : Text → Text) (regs : List (Registration Factory)) (name : Text)
    : Option Factory :=
  (find lowercase regs name).map Registration.new

inductive Role where
  | segment
  | gateway
deriving DecidableEq

structure Wanted where
  role : Role
  /-- The provider that the document names. -/
  named : Option Text
  /-- The provider that the resource's record says served it. -/
  recorded : Option Text
  /-- The one of `networkDefaults`. -/
  fallback : Option Text
  /-- The `providers.yaml` in force. -/
  config : Option Text

inductive ChoiceError where
  | providerNotRegistered (role : Role) (name : Text) (known : List Text)
  | recordedProviderNotRegistered (role : Role) (name : Text) (known : List Text)
  | defaultProviderNotRegistered (role : Role) (name : Text) (known : List Text)
  | noProviderForRole (role : Role) (config : Option Text) (known : List Text)
  | noNetworkZoneProviderConfigured
  | ambiguousNetworkZoneProvider (known : List Text)
deriving DecidableEq

/-- A name that says something. -/
def given (v : Option Text) : Option Text := (v.map trim).filter (· ≠ [])

def choose (lowercase : Text → Text) (regs : List (Registration Factory)) (want : Wanted)
    : Except ChoiceError Text :=
  let known := regs.map Registration.id
  let answer (name : Text) (missing : Role → Text → List Text → ChoiceError) :=
    match find lowercase regs name with
    | some reg => .ok reg.id
    | none => .error (missing want.role name known)
  match given want.named, given want.recorded, given want.fallback with
  | some name, _, _ => answer name .providerNotRegistered
  | none, some name, _ => answer name .recordedProviderNotRegistered
  | none, none, some name => answer name .defaultProviderNotRegistered
  | none, none, none =>
      match want.config, want.role, regs with
      | some path, role, _ => .error (.noProviderForRole role (some path) known)
      | none, _, [reg] => .ok reg.id
      | none, .segment, [] => .error .noNetworkZoneProviderConfigured
      | none, .segment, _ => .error (.ambiguousNetworkZoneProvider known)
      | none, .gateway, _ => .error (.noProviderForRole .gateway none known)

variable {lowercase : Text → Text} {regs : List (Registration Factory)}

/-- What an accepted call does. -/
theorem register_eq_ok {reg : Registration Factory} {next : List (Registration Factory)}
    (accepted : register lowercase regs reg = .ok next)
    : (∀ name ∈ reg.names, ∀ b ∈ regs, b.Answers (wanted lowercase name) → b.id = reg.id)
      ∧ next = regs.filter (·.id ≠ reg.id) ++ [reg] := by
  unfold register at accepted
  split at accepted
  · cases accepted
  dsimp only at accepted
  split at accepted
  case h_1 => cases accepted
  case h_2 free =>
    refine ⟨?_, (Except.ok.inj accepted).symm⟩
    intro name listed b member answers
    have unclashed := List.findSome?_eq_none_iff.mp free name listed
    rw [Option.map_eq_none_iff, List.find?_eq_none] at unclashed
    by_contra other
    exact unclashed b member (by simp [other, answers])

variable (lowercase regs) in
/-- A call adds one provider in the place of the last of its id, or changes nothing. -/
theorem registered_cases (reg : Registration Factory)
    : registered lowercase regs reg = regs
      ∨ (∀ name ∈ reg.names, ∀ b ∈ regs, b.Answers (wanted lowercase name) → b.id = reg.id)
        ∧ registered lowercase regs reg = regs.filter (·.id ≠ reg.id) ++ [reg] := by
  unfold registered
  cases accepted : register lowercase regs reg with
  | error refusal => exact .inl rfl
  | ok next =>
      obtain ⟨free, is⟩ := register_eq_ok accepted
      exact .inr ⟨free, is⟩

/-- Every id is there once, and every name that can be looked up belongs to one id. -/
structure Apart (lowercase : Text → Text) (regs : List (Registration Factory)) : Prop where
  ids : (regs.map Registration.id).Nodup
  owner : ∀ name, ∀ a ∈ regs, ∀ b ∈ regs, a.Answers (wanted lowercase name) →
    b.Answers (wanted lowercase name) → a.id = b.id

theorem Apart.registered (apart : Apart lowercase regs)
    (again : ∀ s, wanted lowercase (wanted lowercase s) = wanted lowercase s)
    (reg : Registration Factory)
    : Apart lowercase (registered lowercase regs reg) := by
  rcases registered_cases lowercase regs reg with same | ⟨free, is⟩
  · rwa [same]
  rw [is]
  have mine (name : Text) (b : Registration Factory) (kept : b ∈ regs.filter (·.id ≠ reg.id))
      (answers : reg.Answers (wanted lowercase name)) (both : b.Answers (wanted lowercase name))
      : False := by
    obtain ⟨member, other⟩ := List.mem_filter.mp kept
    refine of_decide_eq_true other (free _ answers b member ?_)
    rwa [again]
  refine ⟨?_, ?_⟩
  · rw [List.map_append, List.map_singleton]
    refine List.nodup_append.mpr ⟨apart.ids.sublist (List.filter_sublist.map _),
      List.nodup_singleton _, ?_⟩
    intro id old other last
    obtain ⟨b, kept, rfl⟩ := List.mem_map.mp old
    rw [List.mem_singleton.mp last]
    exact of_decide_eq_true (List.mem_filter.mp kept).2
  · intro name a inA b inB answersA answersB
    rcases List.mem_append.mp inA with keptA | lastA <;>
      rcases List.mem_append.mp inB with keptB | lastB
    · exact apart.owner name a (List.mem_of_mem_filter keptA) b (List.mem_of_mem_filter keptB)
        answersA answersB
    · cases List.mem_singleton.mp lastB
      exact (mine name a keptA answersB answersA).elim
    · cases List.mem_singleton.mp lastA
      exact (mine name b keptB answersA answersB).elim
    · rw [List.mem_singleton.mp lastA, List.mem_singleton.mp lastB]

theorem apart_registeredAll (apart : Apart lowercase regs)
    (again : ∀ s, wanted lowercase (wanted lowercase s) = wanted lowercase s)
    (later : List (Registration Factory))
    : Apart lowercase (registeredAll lowercase regs later) := by
  induction later generalizing regs with
  | nil => exact apart
  | cons reg later ih => exact ih (apart.registered again reg)

/-- Where names are apart, whoever answers a name is found under it. -/
theorem Apart.find_eq (apart : Apart lowercase regs) {reg : Registration Factory}
    (member : reg ∈ regs) {name : Text} (answers : reg.Answers (wanted lowercase name))
    : find lowercase regs name = some reg := by
  cases found : find lowercase regs name with
  | none => exact absurd answers (by simpa using List.find?_eq_none.mp found reg member)
  | some first =>
      have inside := List.mem_of_find?_eq_some found
      have its : first.Answers (wanted lowercase name) := by simpa using List.find?_some found
      have same := apart.owner name first inside reg member its answers
      rw [List.inj_on_of_nodup_map apart.ids inside member same]

theorem mem_of_find {name : Text} {reg : Registration Factory}
    (found : find lowercase regs name = some reg)
    : reg ∈ regs ∧ reg.Answers (wanted lowercase name) :=
  ⟨List.mem_of_find?_eq_some found, by simpa using List.find?_some found⟩

/-- One more call leaves a name with its provider, unless that provider gives the name up. -/
theorem find_registered (apart : Apart lowercase regs)
    (again : ∀ s, wanted lowercase (wanted lowercase s) = wanted lowercase s)
    {name : Text} {old : Registration Factory} (found : find lowercase regs name = some old)
    {reg : Registration Factory} (keeps : reg.id = old.id → reg.Answers (wanted lowercase name))
    : ∃ new, find lowercase (registered lowercase regs reg) name = some new ∧ new.id = old.id := by
  obtain ⟨member, answers⟩ := mem_of_find found
  have after := apart.registered again reg
  rcases registered_cases lowercase regs reg with same | ⟨-, is⟩
  · exact ⟨old, by rw [same, found], rfl⟩
  · by_cases its : reg.id = old.id
    · refine ⟨reg, after.find_eq ?_ (keeps its), its⟩
      rw [is]
      exact List.mem_append_right _ (List.mem_singleton_self reg)
    · refine ⟨old, after.find_eq ?_ answers, rfl⟩
      rw [is]
      refine List.mem_append_left _ (List.mem_filter.mpr ⟨member, ?_⟩)
      exact decide_eq_true fun same => its same.symm

theorem registeredAll_append (first later : List (Registration Factory))
    : registeredAll lowercase regs (first ++ later)
      = registeredAll lowercase (registeredAll lowercase regs first) later :=
  List.foldl_append

/-- A name belongs to one provider, the one that is found under it, and stays with it whatever is
registered later, as long as the provider itself does not come back without the name.
-/
theorem name_keeps_provider
    (again : ∀ s, wanted lowercase (wanted lowercase s) = wanted lowercase s)
    (first later : List (Registration Factory)) {name : Text} {old : Registration Factory}
    (found : find lowercase (registeredAll lowercase [] first) name = some old)
    (keeps : ∀ reg ∈ later, reg.id = old.id → reg.Answers (wanted lowercase name))
    : ∃ new, find lowercase (registeredAll lowercase [] (first ++ later)) name = some new
      ∧ new.id = old.id
      ∧ ∀ reg ∈ registeredAll lowercase [] (first ++ later),
        reg.Answers (wanted lowercase name) → reg = new := by
  have start : Apart lowercase ([] : List (Registration Factory)) :=
    ⟨List.nodup_nil, fun _ _ member => by cases member⟩
  have apart := apart_registeredAll start again first
  rw [registeredAll_append]
  generalize registeredAll lowercase [] first = regs at apart found
  induction later generalizing regs old with
  | nil =>
      refine ⟨old, found, rfl, fun reg member answers => ?_⟩
      exact Option.some.inj ((apart.find_eq member answers).symm.trans found)
  | cons reg later ih =>
      obtain ⟨new, foundNew, same⟩ := find_registered apart again found
        (keeps reg List.mem_cons_self)
      have kept : ∀ reg ∈ later, reg.id = new.id → reg.Answers (wanted lowercase name) := by
        intro other member is
        exact keeps other (List.mem_cons_of_mem _ member) (is.trans same)
      obtain ⟨last, foundLast, sameLast, alone⟩ := ih kept _ (apart.registered again reg) foundNew
      exact ⟨last, foundLast, sameLast.trans same, alone⟩

/-- Two providers of one role, the second of which tries to take the first one's name. -/
def opnsense : Registration Unit := ⟨"opnsense".toList, ["opn".toList], ()⟩

def proxmox : Registration Unit := ⟨"proxmox".toList, ["opn".toList], ()⟩

theorem name_keeps_provider_opn
    : ∃ new, find id (registeredAll id [] [opnsense, proxmox]) " opn".toList = some new
      ∧ new.id = opnsense.id := by
  have again (s : Text) : wanted id (wanted id s) = wanted id s := trim_trim s
  have found : find id (registeredAll id [] [opnsense]) " opn".toList = some opnsense := by decide
  obtain ⟨new, foundNew, same, -⟩ :=
    name_keeps_provider again [opnsense] [proxmox] found (by decide)
  exact ⟨new, foundNew, same⟩

/-- The provider that answers for a record is the one its name is found under. -/
theorem choose_recorded {want : Wanted} (named : given want.named = none) {name : Text}
    (recorded : given want.recorded = some name) {id : Text}
    : choose lowercase regs want = .ok id
      ↔ ∃ reg, find lowercase regs name = some reg ∧ reg.id = id := by
  unfold choose
  rw [named, recorded]
  dsimp only
  cases find lowercase regs name with
  | none => simp
  | some reg => simp

/-- A recorded resource never moves: whatever the defaults and the configuration become and whoever
else is registered, it is answered by the provider that answered for it before.
-/
theorem recorded_never_moves
    (again : ∀ s, wanted lowercase (wanted lowercase s) = wanted lowercase s)
    (first later : List (Registration Factory)) {before after : Wanted}
    (unnamed : given before.named = none ∧ given after.named = none)
    (recorded : given before.recorded ≠ none ∧ after.recorded = before.recorded) {id : Text}
    (chosen : choose lowercase (registeredAll lowercase [] first) before = .ok id)
    (keeps : ∀ reg ∈ later, reg.id = id →
      ∀ name, given before.recorded = some name → reg.Answers (wanted lowercase name))
    : choose lowercase (registeredAll lowercase [] (first ++ later)) after = .ok id := by
  obtain ⟨name, told⟩ := Option.ne_none_iff_exists'.mp recorded.1
  obtain ⟨old, found, rfl⟩ := (choose_recorded unnamed.1 told).mp chosen
  obtain ⟨new, foundNew, same, -⟩ := name_keeps_provider again first later found
    fun reg member is => keeps reg member is name told
  refine (choose_recorded unnamed.2 ?_).mpr ⟨new, foundNew, same⟩
  rw [recorded.2, told]

theorem recorded_never_moves_opnsense
    : choose id (registeredAll id [] [opnsense, proxmox])
        ⟨.gateway, none, some "opnsense".toList, some "proxmox".toList, none⟩
      = .ok opnsense.id := by
  have again (s : Text) : wanted id (wanted id s) = wanted id s := trim_trim s
  have chosen : choose id (registeredAll id [] [opnsense])
      ⟨.gateway, none, some "opnsense".toList, none, none⟩ = .ok opnsense.id := by decide
  exact recorded_never_moves again [opnsense] [proxmox] ⟨rfl, rfl⟩ ⟨by decide, rfl⟩ chosen
    fun reg member same => by
      cases List.mem_singleton.mp member
      exact absurd same (by decide)

end Delonix.Networking.Registry
