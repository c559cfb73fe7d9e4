import Delonix.Stack.Reconcile

/-! Applying a plan's field differences makes the next plan empty, and leaves the fields that
were never the stack's alone.
-/

namespace Delonix.Stack

open Delonix.Library.Collections

/-- One field difference carried out on the machine. -/
def applyDiff (fields : Fields) (diff : FieldDiff) : Fields :=
  match diff.toValue with
  | some value => fields.insert diff.field value
  | none => fields.erase diff.field

/-- The machine after an apply: every difference carried out, the stamp written when the
resource is ownable, and the manifest recorded as the last apply.
-/
def converged (stack : String) (d : Desired) (a : Actual) (changes : List Change) : Actual :=
  { a with
    fields := (changes.flatMap Change.diffs).foldl applyDiff a.fields
    owner := if d.ownable then some stack else a.owner
    lastApplied := some d.fields }

theorem getElem?_applyDiff (fields : Fields) (diff : FieldDiff) (key : String)
    : (applyDiff fields diff)[key]?
      = if diff.field = key then diff.toValue else fields[key]? := by
  unfold applyDiff
  split
  case h_1 value found => simp [Std.ExtTreeMap.getElem?_insert, found]
  case h_2 found => simp [Std.ExtTreeMap.getElem?_erase, found]

/-- A fold over differences decided once for each key sets exactly the decided keys, by
induction over the keys.
-/
theorem getElem?_foldl_applyDiff {decide : String → Option FieldDiff}
    (named : ∀ key diff, decide key = some diff → diff.field = key) {keys : List String}
    (once : keys.Nodup) (fields : Fields) (key : String)
    : ((keys.filterMap decide).foldl applyDiff fields)[key]?
      = match decide key with
        | some diff => if key ∈ keys then diff.toValue else fields[key]?
        | none => fields[key]? := by
  induction keys generalizing fields with
  | nil => cases decide key <;> simp
  | cons head rest ih =>
      obtain ⟨fresh, onceRest⟩ := List.nodup_cons.mp once
      cases decided : decide head with
      | none =>
          rw [List.filterMap_cons_none decided, ih onceRest]
          cases found : decide key with
          | none => rfl
          | some diff =>
              have differs : key ≠ head := by
                rintro rfl
                rw [decided] at found
                contradiction
              simp [differs]
      | some headDiff =>
          rw [List.filterMap_cons_some decided, List.foldl_cons, ih onceRest,
            getElem?_applyDiff, named head headDiff decided]
          by_cases same : head = key
          · subst same
            simp [decided, fresh]
          · simp [same, Ne.symm same]

theorem diffField_field {d : Desired} {a : Actual} {facts : Option Facts} {key : String}
    {diff : FieldDiff} (found : diffField d a facts key = some diff)
    : diff.field = key := by
  unfold diffField at found
  split at found
  case h_1 =>
    split at found
    · contradiction
    · rw [← Option.some.inj found, fieldDiff]
  case h_2 => rw [← Option.some.inj found, fieldDiff]
  case h_3 =>
    split at found
    · rw [← Option.some.inj found, fieldDiff]
    · contradiction
  case h_4 => contradiction

theorem diffs_convergeChange (d : Desired) (a : Actual) (facts : Option Facts)
    : (convergeChange d a facts).diffs = diffFields d a facts := by
  unfold convergeChange
  dsimp only
  split
  · rfl
  · split
    · rfl
    · split
      · rfl
      · split <;> rfl

/-- The plan of one matching pair that no other stack owns. -/
theorem planWithFacts_singleton {d : Desired} {a : Actual} {stack : String}
    (facts : FactsMap) (converges : d.converges = true) (kinds : a.kind = d.kind)
    (names : a.name = d.name) (unowned : ∀ owner, a.owner = some owner → owner = stack)
    : planWithFacts [d] [a] stack facts = [convergeChange d a (facts d.kind d.name)] := by
  have mine : a.owner.filter (fun owner => owner != stack) = none := by
    cases owned : a.owner with
    | none => rfl
    | some owner => simp [unowned owner owned]
  simp [planWithFacts, desiredChange, isUndeclared, kinds, names, mine, converges]

/-- A value is the same as itself, whatever the field's parser. -/
theorem sameValue_self (field value : String) (facts : Option Facts)
    : sameValue field value value facts = true := by
  simp [sameValue]

/-- A declared field is either decided to take the manifest's value or already has it. -/
theorem diffField_declared {d : Desired} (a : Actual) (facts : Option Facts)
    {key value : String} (declared : d.fields[key]? = some value)
    : (∃ diff, diffField d a facts key = some diff ∧ diff.toValue = some value)
      ∨ (diffField d a facts key = none
        ∧ ∃ current, a.fields[key]? = some current
          ∧ sameValue key value current facts = true) := by
  unfold diffField
  cases current : a.fields[key]? with
  | none =>
      simp only [declared]
      exact .inl ⟨_, rfl, rfl⟩
  | some machine =>
      simp only [declared]
      split
      case isTrue same => exact .inr ⟨rfl, machine, rfl, same⟩
      case isFalse => exact .inl ⟨_, rfl, rfl⟩

section Converged

variable {d : Desired} {a : Actual} {stack : String} (facts : FactsMap)
variable (converges : d.converges = true) (kinds : a.kind = d.kind) (names : a.name = d.name)
variable (unowned : ∀ owner, a.owner = some owner → owner = stack)

include converges kinds names unowned

/-- A field of the converged machine: what the plan decided for it, or what it was. -/
theorem getElem?_converged (key : String)
    : (converged stack d a (planWithFacts [d] [a] stack facts)).fields[key]?
      = match diffField d a (facts d.kind d.name) key with
        | some diff => if key ∈ diffKeys d a then diff.toValue else a.fields[key]?
        | none => a.fields[key]? := by
  rw [converged, planWithFacts_singleton facts converges kinds names unowned]
  simp only [List.flatMap_cons, List.flatMap_nil, List.append_nil, diffs_convergeChange,
    diffFields]
  exact getElem?_foldl_applyDiff (fun _ _ => diffField_field) (nodup_sortedSet _) _ _

/-- No field of the converged machine differs from the manifest: a declared one has the
manifest's value, and the last apply is now the manifest itself.
-/
theorem diffField_converged (key : String)
    : diffField d (converged stack d a (planWithFacts [d] [a] stack facts))
        (facts d.kind d.name) key = none := by
  have field := getElem?_converged facts converges kinds names unowned key
  cases declared : d.fields[key]? with
  | none =>
      have absent : key ∉ d.fields := by simpa using declared
      have last : (converged stack d a (planWithFacts [d] [a] stack facts)).lastApplied.getD ∅
          = d.fields := rfl
      simp only [diffField, declared, last, absent, if_false]
      split <;> first | rfl | contradiction
  | some value =>
      have held : key ∈ d.fields :=
        Std.ExtTreeMap.mem_iff_isSome_getElem?.mpr (by simp [declared])
      have listed : key ∈ diffKeys d a := by simp [diffKeys, held]
      rcases diffField_declared a (facts d.kind d.name) declared with
        ⟨diff, decided, toValue⟩ | ⟨kept, current, machine, same⟩
      · rw [decided] at field
        simp only [listed, if_true, toValue] at field
        simp only [diffField, declared, field, sameValue_self, if_true]
      · rw [kept] at field
        simp only [machine] at field
        simp only [diffField, declared, field, same, if_true]

end Converged

/-- Once a plan's differences are applied and the apply is recorded, planning again finds
nothing to do, and a field that neither the manifest nor the last apply names is untouched.
-/
theorem planWithFacts_converged {d : Desired} {a : Actual} {stack : String} (facts : FactsMap)
    (converges : d.converges = true) (kinds : a.kind = d.kind) (names : a.name = d.name)
    (unowned : ∀ owner, a.owner = some owner → owner = stack)
    : planWithFacts [d] [converged stack d a (planWithFacts [d] [a] stack facts)] stack facts
        = [Change.new d.kind d.name .noOp]
      ∧ ∀ key, key ∉ d.fields → key ∉ a.lastApplied.getD ∅ →
        (converged stack d a (planWithFacts [d] [a] stack facts)).fields[key]?
          = a.fields[key]? := by
  have owned : ∀ owner,
      (converged stack d a (planWithFacts [d] [a] stack facts)).owner = some owner →
      owner = stack := by
    intro owner stamped
    simp only [converged] at stamped
    split at stamped
    · exact (Option.some.inj stamped).symm
    · exact unowned owner stamped
  constructor
  · have same := diffField_converged facts converges kinds names unowned
    have planned := planWithFacts_singleton facts converges
      (a := converged stack d a (planWithFacts [d] [a] stack facts)) kinds names owned
    rw [planned]
    generalize after : converged stack d a (planWithFacts [d] [a] stack facts) = machine at same
    have noDiffs : diffFields d machine (facts d.kind d.name) = [] := by
      simp [diffFields, same]
    have managed : (d.ownable && machine.owner.isNone) = false := by
      cases ownable : d.ownable with
      | false => rfl
      | true => simp [← after, converged, ownable]
    simp [convergeChange, noDiffs, managed, Change.new]
  · intro key undeclared notOurs
    rw [getElem?_converged facts converges kinds names unowned]
    have absent : d.fields[key]? = none := by simpa using undeclared
    have kept : diffField d a (facts d.kind d.name) key = none := by
      simp only [diffField, absent, notOurs, if_false]
      split <;> first | rfl | contradiction
    rw [kept]

/-- A container whose image changed, whose network rate was dropped from the manifest, and
whose memory a person set by hand.
-/
def webDesired : Desired :=
  { kind := Kind.container
    name := "web"
    fields := Std.ExtTreeMap.ofList [("image", "nginx:2"), ("ports", "8080:80")]
    converges := true
    ownable := true }

def webActual : Actual :=
  { kind := Kind.container
    name := "web"
    fields := Std.ExtTreeMap.ofList
      [("image", "nginx:1"), ("memory", "1G"), ("netBps", "10mbit")]
    owner := none
    lastApplied := some (Std.ExtTreeMap.ofList [("netBps", "10mbit")]) }

theorem planWithFacts_converged_web
    : planWithFacts [webDesired]
        [converged "shop" webDesired webActual
          (planWithFacts [webDesired] [webActual] "shop" (fun _ _ => none))]
        "shop" (fun _ _ => none)
        = [Change.new Kind.container "web" .noOp]
      ∧ (converged "shop" webDesired webActual
          (planWithFacts [webDesired] [webActual] "shop" (fun _ _ => none))).fields["memory"]?
        = some "1G" := by
  obtain ⟨planned, untouched⟩ := planWithFacts_converged (d := webDesired) (a := webActual)
    (fun _ _ => none) rfl rfl rfl (by simp [webActual])
  refine ⟨planned, ?_⟩
  rw [untouched "memory" (by decide +kernel) (by decide +kernel)]
  decide +kernel

end Delonix.Stack
