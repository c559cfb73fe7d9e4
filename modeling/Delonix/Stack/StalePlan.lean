import Delonix.Library.Checks
import Delonix.Stack.Convergence
import Delonix.Stack.Coverage
import Delonix.Stack.PlanDigest

/-! Which changes of a plan the given digests confirm.
The text of a change determines it line by line, as long as the lines can be told apart.
-/

namespace Delonix.Stack

open Delonix.Library.Checks
open Delonix.Library.DebugText
open Delonix.Library.Text

/-- A field name, which is a key the program chose. -/
def PlainField (field : String) : Prop := '=' ∉ field.toList ∧ '\n' ∉ field.toList

/-- The field names of a reading are keys the program chose. -/
structure Reading.PlainFields (reading : Reading) : Prop where
  desired : ∀ desired, reading.desiredOf = .ok desired → ∀ d ∈ desired, ∀ key value,
    d.fields[key]? = some value → PlainField key
  actual : ∀ actual, reading.actualOf = .ok actual → ∀ a ∈ actual, ∀ key value,
    a.fields[key]? = some value → PlainField key

/-- The values of a differing field. -/
def FieldDiff.values (d : FieldDiff) : String × Option String × Option String :=
  (d.field, d.fromValue, d.toValue)

/-- Two changes with one kind, name, action and owner, and the same fields with the same two
values.
-/
structure SameDecision (c c' : Change) : Prop where
  kind : c.kind = c'.kind
  name : c.name = c'.name
  action : c.action = c'.action
  owner : c.owner = c'.owner
  diffs : (c.diffs.map FieldDiff.values).Perm (c'.diffs.map FieldDiff.values)

-----------------------------------------------------------------------------------------
-- The changes of a plan
-----------------------------------------------------------------------------------------

/-- What every change of a plan has, whatever was decided. -/
structure PlannedChange (c : Change) : Prop where
  ownerOnlyOnConflict : c.owner ≠ none → c.action = .conflict
  plainDiffs : ∀ d ∈ c.diffs, PlainField d.field
  plainCold : ∀ field ∈ c.coldFields, PlainField field

theorem plainField_of_diffFields {d : Desired} {a : Actual} {facts : Option Facts}
    (hd : ∀ key value, d.fields[key]? = some value → PlainField key)
    (ha : ∀ key value, a.fields[key]? = some value → PlainField key) {diff : FieldDiff}
    (member : diff ∈ diffFields d a facts)
    : PlainField diff.field := by
  obtain ⟨key, _, found⟩ := List.mem_filterMap.mp member
  rw [diffField_field found]
  unfold diffField at found
  split at found
  case h_1 value _ declared _ => exact hd key value declared
  case h_2 value declared _ => exact hd key value declared
  case h_3 value _ held => exact ha key value held
  case h_4 => contradiction

theorem plannedChange_convergeChange {d : Desired} {a : Actual} {facts : Option Facts}
    (plain : ∀ diff ∈ diffFields d a facts, PlainField diff.field)
    : PlannedChange (convergeChange d a facts) := by
  refine ⟨?_, by rwa [diffs_convergeChange], ?_⟩
  · unfold convergeChange
    dsimp only
    repeat' split
    all_goals simp [Change.new]
  · have cold : ∀ field ∈ ((diffFields d a facts).filter (fun x => !x.hot && !x.reboot)).map
        FieldDiff.field, PlainField field := by
      intro field member
      obtain ⟨diff, held, rfl⟩ := List.mem_map.mp member
      exact plain diff (List.mem_filter.mp held).1
    unfold convergeChange
    dsimp only
    split
    · exact cold
    · repeat' split
      all_goals simp [Change.new]

theorem plannedChange_of_mem {desired : List Desired} {actual : List Actual} {stack : String}
    {facts : FactsMap}
    (hd : ∀ d ∈ desired, ∀ key value, d.fields[key]? = some value → PlainField key)
    (ha : ∀ a ∈ actual, ∀ key value, a.fields[key]? = some value → PlainField key)
    {c : Change} (member : c ∈ planWithFacts desired actual stack facts)
    : PlannedChange c := by
  obtain ⟨d, declared, rfl⟩ | ⟨a, _, _, rfl⟩ := mem_planWithFacts member
  · unfold desiredChange
    split
    case h_1 => exact ⟨by simp [Change.new], by simp [Change.new], by simp [Change.new]⟩
    case h_2 a found =>
      have held := List.mem_of_find?_eq_some found
      split
      case h_1 => exact ⟨by simp [Change.new], by simp [Change.new], by simp [Change.new]⟩
      case h_2 =>
        split
        · exact ⟨by simp [Change.new], by simp [Change.new], by simp [Change.new]⟩
        · exact plannedChange_convergeChange
            (fun diff => plainField_of_diffFields (hd d declared) (ha a held))
  · exact ⟨by simp [deleteChange, Change.new], by simp [deleteChange, Change.new],
      by simp [deleteChange, Change.new]⟩

theorem plannedChange_of_buildPlan {docs : List ManifestDoc} {stack : String}
    {reading : Reading} (plain : reading.PlainFields) {plan : List Change}
    (built : buildPlan docs stack reading = .ok plan) {c : Change} (member : c ∈ plan)
    : PlannedChange c := by
  simp only [buildPlan, bind_eq_ok, pure, Except.pure, Except.ok.injEq] at built
  obtain ⟨desired, hd, actual, ha, facts, _, rfl⟩ := built
  obtain ⟨original, held, rfl⟩ := List.mem_map.mp member
  have planned := plannedChange_of_mem (plain.desired desired hd) (plain.actual actual ha) held
  split
  · unfold providerConflict
    repeat' split
    all_goals first
      | exact planned
      | exact ⟨fun _ => rfl, planned.plainDiffs, planned.plainCold⟩
  · exact planned

-----------------------------------------------------------------------------------------
-- The text of a change
-----------------------------------------------------------------------------------------

/-- The lines of the change's text can be told apart, and its owner from no owner. -/
structure Legible (c : Change) : Prop where
  kind : '\n' ∉ c.kind.toList
  name : '\n' ∉ c.name.toList
  owner : '\n' ∉ (c.owner.getD "").toList
  conflict : c.action = .conflict → c.owner.getD "" ≠ ""

theorem debugName_injective {a b : Action} (same : a.debugName = b.debugName) : a = b := by
  cases a <;> cases b <;> first | rfl | exact absurd same (by decide)

theorem newline_not_mem_debugName (a : Action) : '\n' ∉ a.debugName.toList := by
  cases a <;> decide

section Texts

variable {unprintable : Char → Bool}

theorem newline_not_mem_diffText {d : FieldDiff} (plain : PlainField d.field)
    : '\n' ∉ diffText unprintable d := by
  simp [diffText, plain.2, newline_not_mem_debugOption]

theorem newline_not_mem_diffs (unprintable : Char → Bool) {c : Change} (planned : PlannedChange c)
    : '\n' ∉ (c.diffs.insertionSort (fun a b => a.field ≤ b.field)).flatMap
      (diffText unprintable) := by
  intro member
  obtain ⟨d, held, inText⟩ := List.mem_flatMap.mp member
  rw [List.mem_insertionSort] at held
  exact newline_not_mem_diffText (planned.plainDiffs d held) inText

theorem newline_not_mem_cold {c : Change} (planned : PlannedChange c)
    : '\n' ∉ (joinWith ',' (c.coldFields.insertionSort (fun a b => a ≤ b))).toList := by
  intro member
  obtain isSep | ⟨field, held, inField⟩ := mem_joinWith member
  · exact absurd isSep (by decide)
  · rw [List.mem_insertionSort] at held
    exact (planned.plainCold field held).2 inField

/-- The line breaks of a change's text are its six and those of the kind, name and owner. -/
theorem count_newline_changeText {c : Change} (planned : PlannedChange c)
    : (changeText unprintable c).count '\n'
      = 6 + c.kind.toList.count '\n' + c.name.toList.count '\n'
        + (c.owner.getD "").toList.count '\n' := by
  have action := List.count_eq_zero.mpr (newline_not_mem_debugName c.action)
  have cold := List.count_eq_zero.mpr (newline_not_mem_cold planned)
  have diffs := List.count_eq_zero.mpr (newline_not_mem_diffs unprintable planned)
  simp only [changeText, List.count_append, List.count_cons_self, action, cold, diffs]
  have start : List.count '\n' "v1\n".toList = 1 := by decide
  omega

/-- The differing fields can be read off their text, by induction over them. -/
theorem flatMap_diffText_injective {left right : List FieldDiff}
    (hl : ∀ d ∈ left, PlainField d.field) (hr : ∀ d ∈ right, PlainField d.field)
    (same : left.flatMap (diffText unprintable) = right.flatMap (diffText unprintable))
    : left.map FieldDiff.values = right.map FieldDiff.values := by
  induction left generalizing right with
  | nil =>
      cases right with
      | nil => rfl
      | cons d rest => simp [diffText] at same
  | cons d rest ih =>
      cases right with
      | nil => simp [diffText] at same
      | cons e others =>
          simp only [List.flatMap_cons, diffText, List.append_assoc, List.cons_append] at same
          obtain ⟨field, values⟩ := append_sep_inj (hl d (by simp)).1 (hr e (by simp)).1 same
          obtain ⟨fromValue, arrow⟩ := debugOption_append_inj values
          simp only [List.cons.injEq, true_and] at arrow
          obtain ⟨toValue, tail⟩ := debugOption_append_inj arrow
          simp only [List.nil_append, List.cons.injEq, true_and] at tail
          rw [List.map_cons, List.map_cons, ih (fun x hx => hl x (by simp [hx]))
            (fun x hx => hr x (by simp [hx])) tail]
          simp only [FieldDiff.values, String.toList_inj.mp field, fromValue, toValue]

/-- Only a conflict has an owner, and a legible conflict has a visible one. -/
theorem owner_eq_of_text {c c' : Change} (planned : PlannedChange c)
    (planned' : PlannedChange c') (legible : Legible c) (action : c'.action = c.action)
    (text : c'.owner.getD "" = c.owner.getD "")
    : c'.owner = c.owner := by
  cases owned : c.owner with
  | none =>
      have peaceful : c.action ≠ .conflict := by
        intro conflict
        exact legible.conflict conflict (by simp [owned])
      by_contra owned'
      exact peaceful (action ▸ planned'.ownerOnlyOnConflict owned')
  | some owner =>
      have conflict := planned.ownerOnlyOnConflict (by simp [owned])
      have visible : owner ≠ "" := by simpa [owned] using legible.conflict conflict
      rw [owned, Option.getD_some] at text
      cases owned' : c'.owner with
      | none =>
          rw [owned', Option.getD_none] at text
          exact (visible text.symm).elim
      | some other =>
          rw [owned', Option.getD_some] at text
          rw [text]

/-- A change of a plan with the text of a legible one is the same decision. -/
theorem sameDecision_of_changeText {c c' : Change} (planned : PlannedChange c)
    (planned' : PlannedChange c') (legible : Legible c)
    (same : changeText unprintable c' = changeText unprintable c)
    : SameDecision c' c := by
  -- Both texts have six line breaks, so the other change is legible too.
  have lines := congrArg (List.count '\n') same
  rw [count_newline_changeText planned, count_newline_changeText planned',
    List.count_eq_zero.mpr legible.kind, List.count_eq_zero.mpr legible.name,
    List.count_eq_zero.mpr legible.owner] at lines
  have kind' : '\n' ∉ c'.kind.toList := List.count_eq_zero.mp (by omega)
  have name' : '\n' ∉ c'.name.toList := List.count_eq_zero.mp (by omega)
  have owner' : '\n' ∉ (c'.owner.getD "").toList := List.count_eq_zero.mp (by omega)
  simp only [changeText, List.append_assoc, List.append_cancel_left_eq] at same
  obtain ⟨kind, same⟩ := append_sep_inj kind' legible.kind same
  obtain ⟨name, same⟩ := append_sep_inj name' legible.name same
  obtain ⟨action, same⟩ := append_sep_inj (newline_not_mem_debugName _)
    (newline_not_mem_debugName _) same
  obtain ⟨_, same⟩ := append_sep_inj (newline_not_mem_cold planned')
    (newline_not_mem_cold planned) same
  obtain ⟨owner, diffs⟩ := append_sep_inj owner' legible.owner same
  have action := debugName_injective (String.toList_inj.mp action)
  have values := flatMap_diffText_injective
    (fun d held => planned'.plainDiffs d (List.mem_insertionSort _ |>.mp held))
    (fun d held => planned.plainDiffs d (List.mem_insertionSort _ |>.mp held)) diffs
  refine ⟨String.toList_inj.mp kind, String.toList_inj.mp name, action, ?_, ?_⟩
  · exact owner_eq_of_text planned planned' legible action (String.toList_inj.mp owner)
  · have left := (List.perm_insertionSort (fun a b => a.field ≤ b.field) c'.diffs).map
      FieldDiff.values
    have right := (List.perm_insertionSort (fun a b => a.field ≤ b.field) c.diffs).map
      FieldDiff.values
    exact left.symm.trans ((List.Perm.of_eq values).trans right)

end Texts

-----------------------------------------------------------------------------------------
-- The check
-----------------------------------------------------------------------------------------

section Check

variable {unprintable : Char → Bool} {sha256 : String → String} {docs : List ManifestDoc}
  {stack : String}

/-- A text that is hashed for a manifest on one reading of the machine. -/
def Hashed (unprintable : Char → Bool) (docs : List ManifestDoc) (reading : Reading)
    (plan : List Change) (text : String) : Prop :=
  (∃ c ∈ plan, text = String.ofList (changeText unprintable c))
    ∨ ∃ doc ∈ docs, ∃ inputs, reading.digestInputs doc = .ok (some inputs)
      ∧ text = planDigestText inputs

/-- The digests of a plan. -/
def digests (plan : List Change) : List String := plan.filterMap Change.planDigest

/-- The given digests do not pin the change: there are none, it is of a network Kind, or its
text is not its own.
-/
def Unpinned (plan : List Change) (c : Change) : Prop :=
  plan = [] ∨ isNetworkKind c.kind = true ∨ ¬ Legible c

theorem planWithDigests_eq_ok {reading : Reading} {plan : List Change}
    : planWithDigests unprintable sha256 docs stack reading = .ok plan
      ↔ ∃ changes, buildPlan docs stack reading = .ok changes
        ∧ List.Forall₂ (fun c c' => ∃ digest,
            planDigest unprintable sha256 docs reading c = .ok digest
            ∧ { c with planDigest := some digest } = c') changes plan := by
  simp only [planWithDigests, bind_eq_ok, mapM_eq_ok, pure, Except.pure, Except.ok.injEq]

/-- The digest of a change is the hash of its text or of its document's inputs. -/
theorem planDigest_hashed {reading : Reading} {c : Change} {digest : String}
    (computed : planDigest unprintable sha256 docs reading c = .ok digest)
    : digest = changeDigest unprintable sha256 c
      ∨ isNetworkKind c.kind = true ∧ ∃ doc ∈ docs, ∃ inputs,
        reading.digestInputs doc = .ok (some inputs)
          ∧ digest = sha256 (planDigestText inputs) := by
  obtain ⟨net, found, rfl⟩ := map_eq_ok.mp computed
  unfold docDigest at found
  split at found
  case h_2 =>
    obtain rfl := Except.ok.inj found
    exact .inl rfl
  case h_1 doc isDoc =>
    unfold networkPlanDigest at found
    split at found
    case isFalse =>
      obtain rfl := Except.ok.inj found
      exact .inl rfl
    case isTrue network =>
      obtain ⟨inputs, read, rfl⟩ := map_eq_ok.mp found
      have kind : doc.kind = c.kind := by
        have matched := List.find?_some isDoc
        simp only [Bool.and_eq_true, beq_iff_eq] at matched
        exact matched.1
      cases inputs with
      | none => exact .inl rfl
      | some given =>
          exact .inr ⟨kind ▸ network, doc, List.mem_of_find?_eq_some isDoc, given, read, rfl⟩

/-- A check that passed has found the digest of every change outside the network Kinds. -/
theorem changeDigest_mem_of_passes {reading : Reading} {given : List String}
    (nonempty : given ≠ []) {changes : List Change}
    (built : buildPlan docs stack reading = .ok changes)
    (passes : refuseStalePlan unprintable sha256 docs stack reading given = .ok ()) {c : Change}
    (member : c ∈ changes) (covered : isNetworkKind c.kind = false)
    : changeDigest unprintable sha256 c ∈ given := by
  rw [refuseStalePlan, if_neg (by simpa using nonempty)] at passes
  simp only [bind_eq_ok, mapM_eq_ok, planWithDigests_eq_ok] at passes
  obtain ⟨_, _, plan, ⟨changes', built', stamped⟩, _, confirmed, _⟩ := passes
  obtain rfl : changes = changes' := Except.ok.inj (built.symm.trans built')
  obtain ⟨_, inPlan, digest, computed, rfl⟩ := exists_of_forall₂_left stamped member
  obtain ⟨_, _, checked⟩ := exists_of_forall₂_left confirmed inPlan
  have own : digest = changeDigest unprintable sha256 c := by
    obtain own | ⟨network, _⟩ := planDigest_hashed computed
    · exact own
    · simp [covered] at network
  simp only [confirmChange, covered, Bool.false_eq_true, if_false] at checked
  split at checked
  case isTrue held => exact own ▸ (by simpa using held)
  case isFalse => exact absurd checked (by simp [stalePlan])

/-- The text of a change and the text of a network document start differently. -/
theorem changeText_ne_planDigestText (c : Change) (inputs : DigestInputs)
    : String.ofList (changeText unprintable c) ≠ planDigestText inputs := by
  intro same
  have object : (planDigestText inputs).toList.head? = some '\x7b' := by
    rw [planDigestText, String.toList_append, List.head?_append]
    rfl
  have version : (changeText unprintable c).head? = some 'v' := by
    rw [changeText, List.append_assoc, List.head?_append]
    rfl
  rw [← same, String.toList_ofList, version] at object
  exact absurd object (by decide)

/-- The check confirms every change that the digests pin, so a plan it passed is the confirmed
one exactly when the changes it does not pin are decided as they were.
-/
theorem refuseStalePlan_confirms_iff {before now : Reading} {plan changes : List Change}
    (plainBefore : before.PlainFields) (plainNow : now.PlainFields)
    (planned : planWithDigests unprintable sha256 docs stack before = .ok plan)
    (built : buildPlan docs stack now = .ok changes)
    (collisionFree : ∀ left right, Hashed unprintable docs before plan left →
      Hashed unprintable docs now changes right → sha256 left = sha256 right → left = right)
    (passes : refuseStalePlan unprintable sha256 docs stack now (digests plan) = .ok ())
    : (∀ c ∈ changes, ∃ c' ∈ plan, SameDecision c' c)
      ↔ ∀ c ∈ changes, Unpinned plan c → ∃ c' ∈ plan, SameDecision c' c := by
  constructor
  · intro confirmed c member _
    exact confirmed c member
  · intro condition c member
    by_cases unpinned : Unpinned plan c
    · exact condition c member unpinned
    · simp only [Unpinned, not_or, Classical.not_not, Bool.not_eq_true] at unpinned
      obtain ⟨some, covered, legible⟩ := unpinned
      obtain ⟨original, builtBefore, stamped⟩ := planWithDigests_eq_ok.mp planned
      have nonempty : digests plan ≠ [] := by
        obtain ⟨first, held⟩ := List.exists_mem_of_ne_nil _ some
        obtain ⟨_, _, digest, _, rfl⟩ := exists_of_forall₂_right stamped held
        exact List.ne_nil_of_mem (List.mem_filterMap.mpr ⟨_, held, rfl⟩)
      have given := changeDigest_mem_of_passes nonempty built passes member covered
      obtain ⟨_, held, isDigest⟩ := List.mem_filterMap.mp given
      obtain ⟨c', inOriginal, digest, computed, rfl⟩ := exists_of_forall₂_right stamped held
      have digestEq : digest = changeDigest unprintable sha256 c := Option.some.inj isDigest
      subst digestEq
      refine ⟨_, held, ?_⟩
      have hashedNow : Hashed unprintable docs now changes
          (String.ofList (changeText unprintable c)) := .inl ⟨c, member, rfl⟩
      obtain own | ⟨_, doc, declared, inputs, read, network⟩ := planDigest_hashed computed
      · have same := collisionFree _ _ (.inl ⟨_, held, rfl⟩) hashedNow own.symm
        have texts := sameDecision_of_changeText (plannedChange_of_buildPlan plainNow built member)
          (plannedChange_of_buildPlan plainBefore builtBefore inOriginal) legible
          (String.ofList_injective same)
        exact ⟨texts.kind, texts.name, texts.action, texts.owner, texts.diffs⟩
      · have same := collisionFree _ _ (.inr ⟨doc, declared, inputs, read, rfl⟩) hashedNow
          network.symm
        exact (changeText_ne_planDigestText c inputs same.symm).elim

end Check

/-- The manifest of one volume. -/
def volumeDocs : List ManifestDoc :=
  [{ kind := Kind.volume, metadata := { name := "data", namespaceName := none },
     spec := .null }]

/-- A declaration with no compared field. -/
def plainDesired (kind name : String) : Desired :=
  { kind, name, fields := ∅, converges := true, ownable := true }

/-- The machine holds the volume, stamped by the stack, and what else is given. -/
def volumeReading (others : List Actual) : Reading :=
  { desiredOf := .ok [plainDesired Kind.volume "data"]
    actualOf := .ok (plainVolume "data" (some "shop") :: others)
    factsOf := .ok (fun _ _ => none)
    providerHolds := fun _ => .ok none
    digestInputs := fun _ => .ok none }

/-- The gateway of an earlier apply of the stack. -/
def edgeGateway : Actual :=
  { kind := Kind.networkGateway, name := "edge", fields := ∅, owner := some "shop"
    lastApplied := none }

/-- SHA-256 of the two texts that are hashed for the volume and the gateway. -/
def volumeSha256 (text : String) : String :=
  if text = "v1\nVolume\ndata\nNoOp\n\n\n" then
    "b30f5b7375aa798396f19f160107b9cddd70bc12b0d6d08cde9011f42247f53b"
  else if text = "v1\nNetworkGateway\nedge\nDelete\n\n\n" then
    "f5b54bf7a5e3b06e8b26a5eeb32974c1ad875eada278dd86b31c74ceb717bd4f"
  else ""

/-- The plan of the volume, with its digest. -/
def volumePlan : List Change :=
  [{ Change.new Kind.volume "data" .noOp with
      planDigest := some (volumeSha256 "v1\nVolume\ndata\nNoOp\n\n\n") }]

theorem volumeReading_plainFields (others : List Actual)
    (empty : ∀ a ∈ others, a.fields = ∅)
    : (volumeReading others).PlainFields := by
  constructor
  · intro desired read d member key value found
    obtain rfl := Except.ok.inj read
    rw [List.mem_singleton.mp member] at found
    simp [plainDesired] at found
  · intro actual read a member key value found
    obtain rfl := Except.ok.inj read
    obtain rfl | other := List.mem_cons.mp member
    · simp [plainVolume] at found
    · simp [empty a other] at found

/-- Nothing but the texts of the changes is hashed for the volume. -/
theorem hashed_volumeReading {others : List Actual} {plan : List Change} {text : String}
    (hashed : Hashed isWhitespace volumeDocs (volumeReading others) plan text)
    : ∃ c ∈ plan, text = String.ofList (changeText isWhitespace c) := by
  obtain own | ⟨_, _, _, read, _⟩ := hashed
  · exact own
  · exact absurd (Except.ok.inj read) (by simp)

theorem planWithDigests_volumeReading
    : planWithDigests isWhitespace volumeSha256 volumeDocs "shop" (volumeReading [])
      = .ok volumePlan := by
  decide +kernel

/-- The machine did not move, and the plan is the confirmed one. -/
theorem refuseStalePlan_confirms_volume
    : refuseStalePlan isWhitespace volumeSha256 volumeDocs "shop" (volumeReading [])
        (digests volumePlan) = .ok ()
      ∧ ∀ c ∈ [Change.new Kind.volume "data" .noOp], ∃ c' ∈ volumePlan, SameDecision c' c := by
  have passes : refuseStalePlan isWhitespace volumeSha256 volumeDocs "shop" (volumeReading [])
      (digests volumePlan) = .ok () := by decide +kernel
  have plain := volumeReading_plainFields [] (by simp)
  refine ⟨passes, (refuseStalePlan_confirms_iff plain plain planWithDigests_volumeReading
    (by decide +kernel) ?_ passes).mpr ?_⟩
  · intro left right hashedLeft hashedRight _
    obtain ⟨c, member, rfl⟩ := hashed_volumeReading hashedLeft
    obtain ⟨d, member', rfl⟩ := hashed_volumeReading hashedRight
    rw [List.mem_singleton.mp member, List.mem_singleton.mp member']
    decide +kernel
  · intro c member unpinned
    obtain rfl := List.mem_singleton.mp member
    obtain empty | network | illegible := unpinned
    · exact absurd empty (by simp [volumePlan])
    · exact absurd network (by decide)
    · exact (illegible ⟨by decide, by decide, by decide, by decide⟩).elim

/-- A gateway the stack no longer declares is deleted by a plan that passes with the digests of
a plan that did not have it.
-/
theorem edgeGateway_not_confirmed
    : planWithDigests isWhitespace volumeSha256 volumeDocs "shop" (volumeReading [])
        = .ok volumePlan
      ∧ buildPlan volumeDocs "shop" (volumeReading [edgeGateway])
        = .ok [Change.new Kind.volume "data" .noOp, deleteChange edgeGateway]
      ∧ refuseStalePlan isWhitespace volumeSha256 volumeDocs "shop"
        (volumeReading [edgeGateway]) (digests volumePlan) = .ok ()
      ∧ (∀ left right, Hashed isWhitespace volumeDocs (volumeReading []) volumePlan left →
        Hashed isWhitespace volumeDocs (volumeReading [edgeGateway])
          [Change.new Kind.volume "data" .noOp, deleteChange edgeGateway] right →
        volumeSha256 left = volumeSha256 right → left = right)
      ∧ ¬ ∀ c ∈ [Change.new Kind.volume "data" .noOp, deleteChange edgeGateway],
        ∃ c' ∈ volumePlan, SameDecision c' c := by
  refine ⟨planWithDigests_volumeReading, by decide +kernel, by decide +kernel, ?_, ?_⟩
  · intro left right hashedLeft hashedRight same
    obtain ⟨c, member, rfl⟩ := hashed_volumeReading hashedLeft
    obtain ⟨d, member', rfl⟩ := hashed_volumeReading hashedRight
    rw [List.mem_singleton.mp member] at same ⊢
    simp only [List.mem_cons, List.not_mem_nil, or_false] at member'
    obtain rfl | rfl := member'
    · decide +kernel
    · exact absurd same (by decide +kernel)
  · intro confirmed
    obtain ⟨c', member, same⟩ := confirmed (deleteChange edgeGateway) (by simp)
    rw [List.mem_singleton.mp member] at same
    exact absurd same.action (by decide)

end Delonix.Stack
