import Delonix.Library.Checks
import Delonix.Revisions.Record
import Delonix.Stack.Ownership

/-! What an apply tells the history of its stack: which exits of the apply write a revision, and
which of the things it did end up in one.
-/

namespace Delonix.Stack

open Delonix.Library.Checks Delonix.Library.Stops

-----------------------------------------------------------------------------------------
-- The counts of a plan
-----------------------------------------------------------------------------------------

def keptReason : String :=
  "no longer declared in the manifest — kept: `stack apply` removes it only with --prune"

/-- A deletion that no `--prune` runs. -/
def keepDeletion (c : Change) : Change :=
  if c.action = .delete then { c with changed := false, reason := some keptReason } else c

/-- The plan as the apply runs it. -/
def markUnpruned (changes : List Change) (prune : Bool) : List Change :=
  if prune then changes else changes.map keepDeletion

def Action.summaryKey : Action → String
  | .create => "create"
  | .adopt => "adopt"
  | .update => "update"
  | .replace => "replace"
  | .reboot => "reboot"
  | .noOp => "unchanged"
  | .delete => "delete"
  | .conflict => "conflict"
  | .notConverged => "not_converged"

abbrev Counts := Std.ExtTreeMap String Nat

def summaryFrom (counts : Counts) (changes : List Change) : Counts :=
  changes.foldl (fun m c => m.insert c.action.summaryKey (m.getD c.action.summaryKey 0 + 1)) counts

def summary (changes : List Change) : Counts := summaryFrom ∅ changes

/-- Whether the apply asks the machine for anything, and the counts of its revision. -/
def revisionOf (changes : List Change) (prune : Bool) : Bool × Counts :=
  let asRun := markUnpruned changes prune
  let kept := (asRun.filter fun c => c.action = .delete && !c.changed).length
  (asRun.any (·.changed),
    if 0 < kept then ((summary asRun).erase "delete").insert "kept" kept else summary asRun)

-----------------------------------------------------------------------------------------
-- Records
-----------------------------------------------------------------------------------------

/-- What an apply knows about itself beside its plan. -/
structure Account where
  manifestShown : String
  /-- The manifest as it was rendered, when that worked. -/
  rendered : Option String
  rollbackOf : Option Nat

def Account.outcome (account : Account) (counts : Counts) (refusal : Option ApplyError)
    : List Revisions.Outcome :=
  account.rendered.toList.map fun rendered =>
    { rendered
      manifestPath := account.manifestShown
      ok := refusal.isNone
      error := refusal.map ApplyError.message
      summary := counts.toList
      rollbackOf := account.rollbackOf }

/-- What is recorded at each exit of an apply. Only two of them write. -/
def Account.recordAt (account : Account) (changes : List Change) (prune : Bool)
    : Stop → List Revisions.Outcome
  | .layers refusal => account.outcome (revisionOf changes prune).2 (some refusal)
  | .finished =>
      if (revisionOf changes prune).1 then account.outcome (revisionOf changes prune).2 none else []
  | .decided _ | .destroying _ | .rebooting _ | .converging _ | .pruning _ => []

-----------------------------------------------------------------------------------------
-- Deeds
-----------------------------------------------------------------------------------------

inductive Deed where
  | destroyed (key : String × String)
  | rebooted (key : String × String)
  | created (key : String × String)
  | converged (key : String × String)
  | pruned (key : String × String)
deriving DecidableEq

/-- The resources a stage took off the machine. -/
def goneFrom (items : List Change) (before after : Machine) : List (String × String) :=
  (items.map Change.key).filter fun key => (before key).isSome && (after key).isNone

def destroyedKeys (outcomes : Outcomes) (changes : List Change) (machine : Machine)
    : List (String × String) :=
  goneFrom (changes.filter (fun c => c.action = .replace)) machine
    (destroyForReplace outcomes changes machine).1

/-- The VMs that were stopped or reshaped, up to the first that failed and with it. -/
def rebootedKeys (outcomes : Outcomes) (changes : List Change) : List (String × String) :=
  (untilError (fun c done =>
      (if (outcomes.convergeAcrossReboot c).1 then done ++ [c.key] else done,
        (outcomes.convergeAcrossReboot c).2))
    (changes.filter (fun c => c.kind = Kind.vm && (c.action = .reboot || c.action = .update)
      && c.diffs.any FieldDiff.reboot)) []).1

/-- Whether the live change of a resource reaches its handler. What the creation pass has written
already and what no document is found for does not.
-/
def isHandled (docs : List ManifestDoc) (c : Change) : Bool :=
  converges c.kind && ((c.action = .reboot && c.kind = Kind.vm)
    || (c.action = .update && (livePath c.kind = .perField
      || (livePath c.kind = .wholeDocument && (updateDoc docs c).isSome))))

/-- The resources changed live, up to the first change that failed and with it. -/
def convergedKeys (outcomes : Outcomes) (docs : List ManifestDoc) (changes : List Change)
    : List (String × String) :=
  (untilError (fun c done =>
      (if isHandled docs c && (outcomes.converge c).1 then done ++ [c.key] else done,
        convergeOne outcomes docs c))
    changes []).1

def prunedKeys (outcomes : Outcomes) (changes : List Change) (machine : Machine)
    : List (String × String) :=
  goneFrom ((teardownOrder changes).filter (fun c => c.action = .delete)) machine
    (prune outcomes changes machine).1

/-- What an apply did, stage after stage up to the one that failed. -/
def deeds (request : ApplyRequest) (desired : List Desired) (changes : List Change)
    (outcomes : Outcomes) (machine : Machine) : List Deed :=
  (destroyedKeys outcomes changes machine).map .destroyed ++
    match destroyForReplace outcomes changes machine with
    | (_, some _) => []
    | (machine, none) =>
        (rebootedKeys outcomes changes).map .rebooted ++
          match rebootForConverge outcomes changes with
          | some _ => []
          | none =>
              (runLayers outcomes desired machine).1.created.map .created ++
              (runLayers outcomes desired machine).1.rewritten.map .converged ++
                match runLayers outcomes desired machine with
                | (_, some _) => []
                | (progress, none) =>
                    (convergedKeys outcomes request.docs changes).map .converged ++
                      match changes.findSome? (convergeOne outcomes request.docs) with
                      | some _ => []
                      | none =>
                          if request.prune then
                            (prunedKeys outcomes changes
                              (stampAll desired request.stack none progress.machine)).map .pruned
                          else []

-----------------------------------------------------------------------------------------
-- The law of the history
-----------------------------------------------------------------------------------------

/-- What a revision calls a change that was run with or without `--prune`. -/
def runKey (prune : Bool) (c : Change) : String :=
  if c.action = .delete ∧ prune = false then "kept" else c.action.summaryKey

/-- The counts of a revision are those of the plan it executed. -/
def Summarizes (changes : List Change) (prune : Bool) (summary : List (String × Nat)) : Prop :=
  ∀ key n, (key, n) ∈ summary ↔ 0 < n ∧ n = changes.countP (runKey prune · = key)

/-- An apply that did something is in the history once, as what it was. -/
def InHistory (account : Account) (request : ApplyRequest) (desired : List Desired)
    (changes : List Change) (outcomes : Outcomes) (machine : Machine) : Prop :=
  let stop := (applyChanges request desired changes outcomes machine).stop
  deeds request desired changes outcomes machine ≠ [] →
    ∃ outcome, account.recordAt changes request.prune stop = [outcome]
      ∧ (outcome.ok = true ↔ stop = .finished)
      ∧ Summarizes changes request.prune outcome.summary

-----------------------------------------------------------------------------------------
-- Counting
-----------------------------------------------------------------------------------------

theorem summaryFrom_lookup (changes : List Change) (counts : Counts) (key : String)
    : (summaryFrom counts changes)[key]?
      = if changes.countP (·.action.summaryKey = key) = 0 then counts[key]?
        else some (counts.getD key 0 + changes.countP (·.action.summaryKey = key)) := by
  induction changes generalizing counts with
  | nil => rfl
  | cons c rest ih =>
      have first : summaryFrom counts (c :: rest)
          = summaryFrom (counts.insert c.action.summaryKey
            (counts.getD c.action.summaryKey 0 + 1)) rest := rfl
      rw [first, ih, List.countP_cons]
      by_cases mine : c.action.summaryKey = key
      · simp only [mine, decide_true, if_true, Std.ExtTreeMap.getElem?_insert_self,
          Std.ExtTreeMap.getD_insert_self]
        split <;> simp_all
        omega
      · simp only [mine, decide_false, Bool.false_eq_true, if_false, Nat.add_zero,
          Std.ExtTreeMap.getElem?_insert, Std.ExtTreeMap.getD_insert,
          Std.LawfulEqCmp.compare_eq_iff_eq]

theorem summary_lookup (changes : List Change) (key : String) (n : Nat)
    : (summary changes)[key]? = some n
      ↔ 0 < n ∧ n = changes.countP (·.action.summaryKey = key) := by
  rw [summary, summaryFrom_lookup]
  split
  case isTrue none => simp [none]; omega
  case isFalse some => simp; omega

theorem summaryKey_ne_kept (action : Action) : action.summaryKey ≠ "kept" := by
  cases action <;> decide

theorem summaryKey_eq_delete {action : Action} (delete : action.summaryKey = "delete")
    : action = .delete := by
  cases action <;> first | rfl | exact absurd delete (by decide)

theorem keepDeletion_action (c : Change) : (keepDeletion c).action = c.action := by
  rw [keepDeletion]
  split <;> rfl

theorem keepDeletion_changed {c : Change} (delete : c.action = .delete)
    : (keepDeletion c).changed = false := by
  rw [keepDeletion, if_pos delete]

theorem summary_markUnpruned (changes : List Change) (prune : Bool) (key : String)
    : (markUnpruned changes prune).countP (·.action.summaryKey = key)
      = changes.countP (·.action.summaryKey = key) := by
  cases prune
  · rw [markUnpruned, if_neg Bool.false_ne_true, List.countP_map]
    refine List.countP_congr fun c _ => ?_
    simp only [Function.comp_apply, keepDeletion_action]
  · rfl

/-- A deletion that is not pruned is kept, and one that is has changed something. -/
theorem kept_length {changes : List Change} {prune : Bool}
    (honest : ∀ c ∈ changes, c.action = .delete → c.changed = true)
    : ((markUnpruned changes prune).filter fun c => c.action = .delete && !c.changed).length
      = if prune then 0 else changes.countP (·.action = .delete) := by
  rw [← List.countP_eq_length_filter]
  cases prune
  · rw [markUnpruned, if_neg Bool.false_ne_true, if_neg Bool.false_ne_true, List.countP_map]
    refine List.countP_congr fun c _ => ?_
    simp only [Function.comp_apply, keepDeletion_action]
    by_cases delete : c.action = .delete
    · simp only [delete, keepDeletion_changed delete, decide_true, Bool.not_false, Bool.and_self]
    · simp only [delete, decide_false, Bool.false_and]
  · rw [markUnpruned, if_pos rfl, if_pos rfl, List.countP_eq_zero]
    intro c member
    simp only [Bool.and_eq_true, decide_eq_true_eq, Bool.not_eq_true', not_and,
      Bool.not_eq_false]
    exact honest c member

theorem revisionOf_summarizes {changes : List Change} {prune : Bool}
    (honest : ∀ c ∈ changes, c.action = .delete → c.changed = true)
    : Summarizes changes prune (revisionOf changes prune).2.toList := by
  intro key n
  rw [Std.ExtTreeMap.mem_toList_iff_getElem?_eq_some]
  simp only [revisionOf, kept_length honest]
  have total := summary_lookup (markUnpruned changes prune) key n
  rw [summary_markUnpruned] at total
  cases prune
  · simp only [Bool.false_eq_true, if_false]
    by_cases deletes : 0 < changes.countP (·.action = .delete)
    · simp only [deletes, if_true, Std.ExtTreeMap.getElem?_insert,
        Std.LawfulEqCmp.compare_eq_iff_eq, Std.ExtTreeMap.getElem?_erase]
      by_cases kept : "kept" = key
      · have same : changes.countP (runKey false · = key) = changes.countP (·.action = .delete) := by
          refine List.countP_congr fun c _ => ?_
          by_cases delete : c.action = .delete
          · simp [runKey, delete, kept]
          · simp [runKey, delete, ← kept, summaryKey_ne_kept]
        simp only [kept, if_true, same, Option.some.injEq]
        omega
      · by_cases delete : "delete" = key
        · have none_left : changes.countP (runKey false · = key) = 0 := by
            rw [List.countP_eq_zero]
            intro c _
            by_cases its : c.action = .delete
            · simpa [runKey, its] using kept
            · simpa [runKey, its, ← delete] using fun same => its (summaryKey_eq_delete same)
          simp only [kept, delete, if_false, if_true, none_left]
          simp
          omega
        · have same : changes.countP (runKey false · = key)
              = changes.countP (·.action.summaryKey = key) := by
            refine List.countP_congr fun c _ => ?_
            by_cases its : c.action = .delete
            · simp [runKey, its, kept, Action.summaryKey, delete]
            · simp [runKey, its]
          simp only [kept, delete, if_false, same]
          exact total
    · have none_here : ∀ c ∈ changes, c.action ≠ .delete := by
        simpa using deletes
      have same : changes.countP (runKey false · = key)
          = changes.countP (·.action.summaryKey = key) :=
        List.countP_congr fun c member => by simp [runKey, none_here c member]
      simp only [deletes, if_false, same]
      exact total
  · have same : changes.countP (runKey true · = key)
        = changes.countP (·.action.summaryKey = key) :=
      List.countP_congr fun c _ => by simp [runKey]
    simp only [if_true, lt_irrefl, if_false, same]
    exact total

-----------------------------------------------------------------------------------------
-- Deletions of a decided plan
-----------------------------------------------------------------------------------------

theorem desiredChange_not_delete (actual : List Actual) (stack : String) (facts : FactsMap)
    (d : Desired)
    : (desiredChange actual stack facts d).action ≠ .delete :=
  (desiredChange_key actual stack facts d).2

theorem providerConflict_cases (reading : Reading) (doc : ManifestDoc) (c : Change)
    : providerConflict reading doc c = c ∨ (providerConflict reading doc c).action = .conflict := by
  rw [providerConflict]
  split
  · split
    · exact .inr rfl
    · exact .inl rfl
  · exact .inl rfl

theorem buildPlan_delete {docs : List ManifestDoc} {stack : String} {reading : Reading}
    {changes : List Change} (built : buildPlan docs stack reading = .ok changes)
    : ∀ c ∈ changes, c.action = .delete → c.changed = true := by
  simp only [buildPlan, bind_eq_ok] at built
  obtain ⟨desired, -, actual, -, facts, -, same⟩ := built
  cases same
  intro c member delete
  obtain ⟨planned, mem, rfl⟩ := List.mem_map.mp member
  have old : planned.action = .delete → planned.changed = true := by
    intro its
    obtain mem | mem := List.mem_append.mp mem
    · obtain ⟨d, -, rfl⟩ := List.mem_map.mp mem
      exact absurd its (desiredChange_not_delete actual stack facts d)
    · obtain ⟨a, -, rfl⟩ := List.mem_map.mp mem
      rfl
  cases found : docOf docs planned with
  | none =>
      simp only [found] at delete ⊢
      exact old delete
  | some doc =>
      simp only [found] at delete ⊢
      obtain same | conflict := providerConflict_cases reading doc planned
      · rw [same] at delete ⊢
        exact old delete
      · rw [conflict] at delete
        cases delete

theorem promoteNamedReplace_delete {tokens : List String} {c after : Change}
    (promoted : promoteNamedReplace tokens c = .ok after) (delete : after.action = .delete)
    : after = c := by
  rw [promoteNamedReplace] at promoted
  split at promoted
  · split at promoted
    · split at promoted
      · cases promoted
        cases delete
      · cases promoted
    · split at promoted
      · cases promoted
        cases delete
      · cases promoted
    · split at promoted
      · cases promoted
        cases delete
      · cases promoted
    · split at promoted
      · cases promoted
        cases delete
      · cases promoted
    · cases promoted
    all_goals
      cases promoted
      rfl
  · cases promoted
    rfl

/-- In the plan an apply has decided on, a deletion counts as a change. -/
theorem decideApply_delete {request : ApplyRequest} {reading : Reading} {changes : List Change}
    (decided : decideApply request reading = .ok changes)
    : ∀ c ∈ changes, c.action = .delete → c.changed = true := by
  simp only [decideApply, bind_eq_ok] at decided
  obtain ⟨-, -, planned, built, -, -, -, -, promoted, named, -, -, same⟩ := decided
  cases same
  intro c member delete
  obtain ⟨old, mem, from_old⟩ := exists_of_forall₂_right (mapM_eq_ok.mp named) member
  have same := promoteNamedReplace_delete from_old delete
  rw [same] at delete ⊢
  exact buildPlan_delete built old mem delete

-----------------------------------------------------------------------------------------
-- Which applies are in the history
-----------------------------------------------------------------------------------------

variable {account : Account} {request : ApplyRequest} {desired : List Desired}
  {changes : List Change} {outcomes : Outcomes} {machine : Machine}

/-- Nothing was done by the end of the stage before the creation pass. -/
structure Untouched (outcomes : Outcomes) (changes : List Change) (machine : Machine) : Prop where
  destroyed : destroyedKeys outcomes changes machine = []
  rebooted : rebootedKeys outcomes changes = []

/-- Nothing was done before the pruning either. -/
structure Unconverged (request : ApplyRequest) (desired : List Desired) (changes : List Change)
    (outcomes : Outcomes) (machine rebuilt : Machine) : Prop
    extends Untouched outcomes changes machine where
  created : (runLayers outcomes desired rebuilt).1.created = []
  rewritten : (runLayers outcomes desired rebuilt).1.rewritten = []
  converged : convergedKeys outcomes request.docs changes = []

/-- No step but a layer fails once something was done, and what is done without a failure was
asked for by the plan.
-/
structure Traceable (request : ApplyRequest) (desired : List Desired) (changes : List Change)
    (outcomes : Outcomes) (machine : Machine) : Prop where
  destroying : (destroyForReplace outcomes changes machine).2.isSome = true
    → destroyedKeys outcomes changes machine = []
  rebooting : (destroyForReplace outcomes changes machine).2 = none
    → (rebootForConverge outcomes changes).isSome = true → Untouched outcomes changes machine
  converging : ∀ rebuilt progress, destroyForReplace outcomes changes machine = (rebuilt, none)
    → rebootForConverge outcomes changes = none
    → runLayers outcomes desired rebuilt = (progress, none)
    → (changes.findSome? (convergeOne outcomes request.docs)).isSome = true
    → Unconverged request desired changes outcomes machine rebuilt
  pruning : ∀ rebuilt progress, destroyForReplace outcomes changes machine = (rebuilt, none)
    → rebootForConverge outcomes changes = none
    → runLayers outcomes desired rebuilt = (progress, none)
    → changes.findSome? (convergeOne outcomes request.docs) = none
    → request.prune = true
    → (prune outcomes changes (stampAll desired request.stack none progress.machine)).2.isSome
      = true
    → Unconverged request desired changes outcomes machine rebuilt
      ∧ prunedKeys outcomes changes (stampAll desired request.stack none progress.machine) = []
  unasked : ∀ rebuilt progress, destroyForReplace outcomes changes machine = (rebuilt, none)
    → rebootForConverge outcomes changes = none
    → runLayers outcomes desired rebuilt = (progress, none)
    → changes.findSome? (convergeOne outcomes request.docs) = none
    → (request.prune = true
      → (prune outcomes changes (stampAll desired request.stack none progress.machine)).2 = none)
    → (revisionOf changes request.prune).1 = false
    → Unconverged request desired changes outcomes machine rebuilt
      ∧ (request.prune = true
        → prunedKeys outcomes changes (stampAll desired request.stack none progress.machine) = [])

theorem Account.outcome_eq {rendered : String} (shown : account.rendered = some rendered)
    (counts : Counts) (refusal : Option ApplyError)
    : account.outcome counts refusal
      = [{ rendered, manifestPath := account.manifestShown, ok := refusal.isNone
           error := refusal.map ApplyError.message, summary := counts.toList
           rollbackOf := account.rollbackOf }] := by
  simp [Account.outcome, shown]

/-- An exit that writes nothing is in the history exactly when nothing was done. -/
theorem inHistory_silent (silent : account.recordAt changes request.prune
      (applyChanges request desired changes outcomes machine).stop = [])
    : InHistory account request desired changes outcomes machine
      ↔ deeds request desired changes outcomes machine = [] := by
  constructor
  · intro told
    by_contra done
    obtain ⟨outcome, recorded, -⟩ := told done
    rw [silent] at recorded
    cases recorded
  · intro nothing done
    exact absurd nothing done

/-- An exit that writes tells what was done. -/
theorem inHistory_written {rendered : String} (shown : account.rendered = some rendered)
    (honest : ∀ c ∈ changes, c.action = .delete → c.changed = true)
    {refusal : Option ApplyError}
    (written : account.recordAt changes request.prune
        (applyChanges request desired changes outcomes machine).stop
      = account.outcome (revisionOf changes request.prune).2 refusal)
    (ended : refusal.isNone = true
      ↔ (applyChanges request desired changes outcomes machine).stop = .finished)
    : InHistory account request desired changes outcomes machine := by
  intro _
  rw [Account.outcome_eq shown] at written
  exact ⟨_, written, ended, revisionOf_summarizes honest⟩

section Exits

variable {rebuilt : Machine} {progress : Progress}

theorem deeds_destroying {refusal : ApplyError}
    (failed : destroyForReplace outcomes changes machine = (rebuilt, some refusal))
    : deeds request desired changes outcomes machine = []
      ↔ destroyedKeys outcomes changes machine = [] := by
  simp [deeds, failed]

theorem deeds_rebooting (done : destroyForReplace outcomes changes machine = (rebuilt, none))
    {refusal : ApplyError} (failed : rebootForConverge outcomes changes = some refusal)
    : deeds request desired changes outcomes machine = []
      ↔ Untouched outcomes changes machine := by
  simp only [deeds, done, failed, List.append_nil, List.append_eq_nil_iff, List.map_eq_nil_iff]
  exact ⟨fun nothing => ⟨nothing.1, nothing.2⟩, fun nothing => ⟨nothing.1, nothing.2⟩⟩

theorem deeds_built (done : destroyForReplace outcomes changes machine = (rebuilt, none))
    (up : rebootForConverge outcomes changes = none)
    (built : runLayers outcomes desired rebuilt = (progress, none))
    : deeds request desired changes outcomes machine = []
      ↔ Unconverged request desired changes outcomes machine rebuilt
        ∧ (match changes.findSome? (convergeOne outcomes request.docs) with
          | some _ => []
          | none =>
              if request.prune then
                (prunedKeys outcomes changes
                  (stampAll desired request.stack none progress.machine)).map Deed.pruned
              else []) = [] := by
  simp only [deeds, done, up, built, List.append_eq_nil_iff, List.map_eq_nil_iff]
  constructor
  · rintro ⟨destroyed, rebooted, ⟨created, rewritten⟩, converged, rest⟩
    refine ⟨⟨⟨destroyed, rebooted⟩, ?_, ?_, converged⟩, rest⟩ <;> rw [built]
    · exact created
    · exact rewritten
  · rintro ⟨⟨⟨destroyed, rebooted⟩, created, rewritten, converged⟩, rest⟩
    rw [built] at created rewritten
    exact ⟨destroyed, rebooted, ⟨created, rewritten⟩, converged, rest⟩

end Exits

/-- An apply whose live changes are made: it may still fail while pruning. -/
theorem inHistory_pruned_iff {rendered : String} (shown : account.rendered = some rendered)
    (honest : ∀ c ∈ changes, c.action = .delete → c.changed = true)
    {rebuilt : Machine} {progress : Progress}
    (done : destroyForReplace outcomes changes machine = (rebuilt, none))
    (up : rebootForConverge outcomes changes = none)
    (built : runLayers outcomes desired rebuilt = (progress, none))
    (settled : changes.findSome? (convergeOne outcomes request.docs) = none)
    : InHistory account request desired changes outcomes machine
      ↔ Traceable request desired changes outcomes machine := by
  have only : ∀ other progress', destroyForReplace outcomes changes machine = (other, none)
      → runLayers outcomes desired other = (progress', none)
      → other = rebuilt ∧ progress' = progress := by
    intro other progress' same through
    obtain rfl : rebuilt = other := by simpa [done] using same
    rw [built] at through
    cases through
    exact ⟨rfl, rfl⟩
  have all_done := @deeds_built request desired changes outcomes machine rebuilt progress done up
    built
  simp only [settled] at all_done
  by_cases failed : request.prune = true
      ∧ (prune outcomes changes (stampAll desired request.stack none progress.machine)).2.isSome
        = true
  · obtain ⟨flag, failed⟩ := failed
    obtain ⟨refusal, refused⟩ := Option.isSome_iff_exists.mp failed
    have silent : account.recordAt changes request.prune
        (applyChanges request desired changes outcomes machine).stop = [] := by
      obtain ⟨final, pruning⟩ : ∃ final, prune outcomes changes
          (stampAll desired request.stack none progress.machine) = (final, some refusal) :=
        ⟨_, Prod.ext rfl refused⟩
      simp only [applyChanges, done, up, built, settled, flag, if_true, pruning,
        Account.recordAt]
    rw [inHistory_silent silent, all_done]
    simp only [flag, if_true, List.map_eq_nil_iff]
    constructor
    · intro nothing
      refine ⟨by simp [done], by simp [up], by simp [settled],
        fun other progress' same _ through _ _ _ => ?_,
        fun other progress' same _ through _ passed _ => ?_⟩
      all_goals
        obtain ⟨rfl, rfl⟩ := only other progress' same through
      · exact nothing
      · rw [passed flag] at refused
        cases refused
    · intro traceable
      exact traceable.pruning rebuilt progress done up built settled flag failed
  · have passed : request.prune = true
        → (prune outcomes changes (stampAll desired request.stack none progress.machine)).2
          = none := by
      intro flag
      simpa [flag] using failed
    have finished : (applyChanges request desired changes outcomes machine).stop = .finished := by
      cases flag : request.prune
      · simp only [applyChanges, done, up, built, settled, flag, Bool.false_eq_true, if_false]
      · obtain ⟨final, pruning⟩ : ∃ final, prune outcomes changes
            (stampAll desired request.stack none progress.machine) = (final, none) :=
          ⟨_, Prod.ext rfl (passed flag)⟩
        simp only [applyChanges, done, up, built, settled, flag, if_true, pruning]
    have vacuous : ∀ other progress', destroyForReplace outcomes changes machine = (other, none)
        → runLayers outcomes desired other = (progress', none) → request.prune = true
        → (prune outcomes changes
          (stampAll desired request.stack none progress'.machine)).2.isSome = true → False := by
      intro other progress' same through flag refused
      obtain ⟨rfl, rfl⟩ := only other progress' same through
      exact failed ⟨flag, refused⟩
    cases asked : (revisionOf changes request.prune).1
    · have silent : account.recordAt changes request.prune
          (applyChanges request desired changes outcomes machine).stop = [] := by
        simp only [finished, Account.recordAt, asked, Bool.false_eq_true, if_false]
      rw [inHistory_silent silent, all_done]
      constructor
      · rintro ⟨nothing, unpruned⟩
        refine ⟨by simp [done], by simp [up], by simp [settled],
          fun other progress' same _ through _ flag refused =>
            (vacuous other progress' same through flag refused).elim,
          fun other progress' same _ through _ _ _ => ?_⟩
        obtain ⟨rfl, rfl⟩ := only other progress' same through
        refine ⟨nothing, fun flag => ?_⟩
        simpa [flag] using unpruned
      · intro traceable
        obtain ⟨nothing, unpruned⟩ :=
          traceable.unasked rebuilt progress done up built settled passed asked
        refine ⟨nothing, ?_⟩
        cases flag : request.prune
        · rfl
        · simp [unpruned flag]
    · have written : account.recordAt changes request.prune
            (applyChanges request desired changes outcomes machine).stop
          = account.outcome (revisionOf changes request.prune).2 none := by
        simp only [finished, Account.recordAt, asked, if_true]
      refine iff_of_true (inHistory_written shown honest written (by simp [finished]))
        ⟨by simp [done], by simp [up], by simp [settled],
          fun other progress' same _ through _ flag refused =>
            (vacuous other progress' same through flag refused).elim, by simp [asked]⟩

/-- Every apply that did something is in the history exactly when it could be traced. -/
theorem inHistory_iff {reading : Reading} {rendered : String}
    (decided : decideApply request reading = .ok changes)
    (shown : account.rendered = some rendered)
    : InHistory account request desired changes outcomes machine
      ↔ Traceable request desired changes outcomes machine := by
  have honest := decideApply_delete decided
  rcases done : destroyForReplace outcomes changes machine with ⟨rebuilt, _ | refusal⟩
  swap
  · -- it failed while destroying
    have silent : account.recordAt changes request.prune
        (applyChanges request desired changes outcomes machine).stop = [] := by
      simp only [applyChanges, done, Account.recordAt]
    rw [inHistory_silent silent, deeds_destroying done]
    exact ⟨fun nothing => ⟨fun _ => nothing, by simp [done], by simp [done], by simp [done],
      by simp [done]⟩, fun traceable => traceable.destroying (by simp [done])⟩
  cases up : rebootForConverge outcomes changes with
  | some refusal =>
      have silent : account.recordAt changes request.prune
          (applyChanges request desired changes outcomes machine).stop = [] := by
        simp only [applyChanges, done, up, Account.recordAt]
      rw [inHistory_silent silent, deeds_rebooting done up]
      exact ⟨fun nothing => ⟨by simp [done], fun _ _ => nothing, by simp [up], by simp [up],
        by simp [up]⟩, fun traceable => traceable.rebooting (by simp [done]) (by simp [up])⟩
  | none =>
      rcases built : runLayers outcomes desired rebuilt with ⟨progress, _ | refusal⟩
      swap
      · -- a layer failed: this exit always writes
        have written : account.recordAt changes request.prune
              (applyChanges request desired changes outcomes machine).stop
            = account.outcome (revisionOf changes request.prune).2 (some refusal) := by
          simp only [applyChanges, done, up, built, Account.recordAt]
        have ended : (some refusal).isNone = true
            ↔ (applyChanges request desired changes outcomes machine).stop = .finished := by
          simp [applyChanges, done, up, built]
        refine iff_of_true (inHistory_written shown honest written ended)
          ⟨by simp [done], by simp [up], ?_, ?_, ?_⟩
        all_goals
          intro other progress' same _ through
          obtain rfl : rebuilt = other := by simpa [done] using same
          rw [built] at through
          cases through
      · have only : ∀ other progress', destroyForReplace outcomes changes machine = (other, none)
            → runLayers outcomes desired other = (progress', none)
            → other = rebuilt ∧ progress' = progress := by
          intro other progress' same through
          obtain rfl : rebuilt = other := by simpa [done] using same
          rw [built] at through
          cases through
          exact ⟨rfl, rfl⟩
        cases settled : changes.findSome? (convergeOne outcomes request.docs) with
        | some refusal =>
            have silent : account.recordAt changes request.prune
                (applyChanges request desired changes outcomes machine).stop = [] := by
              simp only [applyChanges, done, up, built, settled, Account.recordAt]
            rw [inHistory_silent silent, deeds_built done up built]
            simp only [settled, and_true]
            constructor
            · intro nothing
              refine ⟨by simp [done], by simp [up], fun other progress' same _ through _ => ?_,
                by simp [settled], by simp [settled]⟩
              obtain ⟨rfl, rfl⟩ := only other progress' same through
              exact nothing
            · intro traceable
              exact traceable.converging rebuilt progress done up built (by simp [settled])
        | none =>
            exact inHistory_pruned_iff shown honest done up built settled

-- A container is new, and the volume that the manifest no longer declares cannot be removed.

def addedDocs : List ManifestDoc :=
  [{ kind := Kind.container, metadata := { name := "web", namespaceName := none }, spec := .null }]

def addedRequest : ApplyRequest :=
  { docs := addedDocs, stack := "shop", replace := [], reboot := [], prune := true,
    guards := .ok () }

def addedDesired : List Desired :=
  addedDocs.map fun doc =>
    { kind := doc.kind, name := planName doc, fields := ∅, converges := true, ownable := true }

def addedReading : Reading :=
  { desiredOf := .ok addedDesired
    actualOf := .ok [{ kind := Kind.volume, name := "old", fields := ∅, owner := some "shop",
                       lastApplied := none }]
    factsOf := .ok (fun _ _ => none)
    providerHolds := fun _ => .ok none
    digestInputs := fun _ => .ok none }

def addedPlan : List Change :=
  [ Change.new Kind.container "web" .create,
    { Change.new Kind.volume "old" .delete with
      reason := some "no longer declared in the manifest" } ]

def addedOutcomes (refusal : Option ApplyError) : Outcomes :=
  { remove := fun _ => (refusal.isNone, refusal)
    convergeAcrossReboot := fun _ => (false, none)
    layer := fun layer =>
      (if layer.name = Kind.container then [(Kind.container, "web")] else [], none)
    converge := fun _ => (false, none) }

def addedMachine : Machine := fun key =>
  if key = (Kind.volume, "old") then some (some "shop") else none

def addedAccount : Account :=
  { manifestShown := "stack.yaml", rendered := some "kind: Container", rollbackOf := none }

theorem addedPlan_decided : decideApply addedRequest addedReading = .ok addedPlan := by
  decide +kernel

theorem addedDeeds (refusal : Option ApplyError)
    (either : refusal = none ∨ refusal = some { message := "in use" })
    : deeds addedRequest addedDesired addedPlan (addedOutcomes refusal) addedMachine ≠ [] := by
  obtain rfl | rfl := either <;> decide +kernel

/-- The container was created and no revision says so. -/
theorem created_not_inHistory
    : decideApply addedRequest addedReading = .ok addedPlan
      ∧ ¬ InHistory addedAccount addedRequest addedDesired addedPlan
        (addedOutcomes (some { message := "in use" })) addedMachine := by
  refine ⟨addedPlan_decided, fun told => ?_⟩
  obtain ⟨outcome, recorded, -⟩ := told (addedDeeds _ (.inr rfl))
  have silent : addedAccount.recordAt addedPlan addedRequest.prune
      (applyChanges addedRequest addedDesired addedPlan (addedOutcomes (some { message := "in use" }))
        addedMachine).stop = [] := by decide +kernel
  rw [silent] at recorded
  cases recorded

theorem inHistory_added
    : InHistory addedAccount addedRequest addedDesired addedPlan (addedOutcomes none) addedMachine
      ↔ Traceable addedRequest addedDesired addedPlan (addedOutcomes none) addedMachine :=
  inHistory_iff addedPlan_decided rfl

end Delonix.Stack
