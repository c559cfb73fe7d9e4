import Delonix.Library.Sorting

/-! Declared items compared with the first observed one of their name. The reports do not depend on
the order of the observed items exactly when those of one name are reported alike.
-/

namespace Delonix.Library.FirstFound

open Delonix.Library.Sorting

variable {α β κ γ : Type} [DecidableEq κ]

section

variable (name : α → κ) (key : β → κ) (missing : α → List γ) (lines : α → β → List γ)

/-- What is reported of one declared item. -/
def report (observed : List β) (want : α) : List γ :=
  match observed.find? fun have_ => key have_ = name want with
  | none => missing want
  | some have_ => lines want have_

def reports (observed : List β) (declared : List α) : List γ :=
  declared.flatMap (report name key missing lines observed)

/-- What is observed and not declared. -/
def strays (declared : List α) (stray : β → γ) (observed : List β) : List γ :=
  (observed.filter fun have_ => !declared.any fun want => name want = key have_).map stray

end

variable {name : α → κ} {key : β → κ} {missing : α → List γ} {lines : α → β → List γ}
  {observed observed' : List β} {declared : List α}

/-- An item of another name does not matter. -/
theorem report_middle {want : α} {item : β} (other : key item ≠ name want) (front back : List β)
    : report name key missing lines (front ++ item :: back) want
      = report name key missing lines (front ++ back) want := by
  simp [report, List.find?_append, List.find?_cons_of_neg, other]

/-- The item in front is the one that is found. -/
theorem report_cons {want : α} {item : β} (own : key item = name want) (rest : List β)
    : report name key missing lines (item :: rest) want = lines want item := by
  simp [report, own]

/-- What is reported is what an item of the name gives, or that there is none. -/
theorem report_cases (name : α → κ) (key : β → κ) (missing : α → List γ)
    (lines : α → β → List γ) (observed : List β) (want : α)
    : ((∀ have_ ∈ observed, key have_ ≠ name want)
        ∧ report name key missing lines observed want = missing want)
      ∨ ∃ have_ ∈ observed, key have_ = name want
        ∧ report name key missing lines observed want = lines want have_ := by
  rw [report]
  cases found : observed.find? fun have_ => key have_ = name want with
  | none => exact .inl ⟨by simpa using List.find?_eq_none.mp found, rfl⟩
  | some have_ =>
      exact .inr ⟨have_, List.mem_of_find?_eq_some found, by simpa using List.find?_some found, rfl⟩

/-- Items of one name are reported alike. -/
def Alike (name : α → κ) (key : β → κ) (lines : α → β → List γ) (observed : List β)
    (declared : List α) : Prop :=
  ∀ want ∈ declared, ∀ a ∈ observed, ∀ b ∈ observed, key a = name want → key b = name want →
    (lines want a).Perm (lines want b)

theorem reports_perm (alike : Alike name key lines observed declared)
    (perm : observed.Perm observed')
    : (reports name key missing lines observed declared).Perm
      (reports name key missing lines observed' declared) := by
  refine List.Perm.flatMap_left _ fun want member => ?_
  rcases report_cases name key missing lines observed want with ⟨none, is⟩ | ⟨a, mem, own, is⟩
  · rcases report_cases name key missing lines observed' want with ⟨-, is'⟩ | ⟨b, mem', own', -⟩
    · rw [is, is']
    · exact absurd own' (none b (perm.mem_iff.mpr mem'))
  · rcases report_cases name key missing lines observed' want with ⟨none', -⟩ | ⟨b, mem', own', is'⟩
    · exact absurd own (none' a (perm.mem_iff.mp mem))
    · rw [is, is']
      exact alike want member a mem b (perm.mem_iff.mpr mem') own own'

/-- With an item moved to the front, its name is reported by it, and every other one as before. -/
theorem reports_moved (missing : α → List γ) (lines : α → β → List γ)
    (distinct : (declared.map name).Nodup) {want : α} (member : want ∈ declared)
    {item : β} (own : key item = name want) (front back : List β)
    : ∃ others, (reports name key missing lines (item :: (front ++ back)) declared).Perm
        (lines want item ++ others)
      ∧ others = (declared.filter fun other => !decide (name other = name want)).flatMap
        (report name key missing lines (front ++ item :: back)) := by
  refine ⟨_, ?_, rfl⟩
  obtain ⟨before, after, rfl⟩ := List.append_of_mem member
  have apart : ∀ other ∈ before ++ after, name other ≠ name want := by
    rw [List.map_append, List.map_cons, List.nodup_middle, List.nodup_cons] at distinct
    intro other inside same
    exact distinct.1 (by rw [← List.map_append, ← same]; exact List.mem_map_of_mem inside)
  have kept : ∀ l : List α, (∀ other ∈ l, name other ≠ name want) →
      (l.filter fun other => !decide (name other = name want)) = l := by
    intro l all
    exact List.filter_eq_self.mpr fun other inside => by simpa using all other inside
  have same : ∀ l : List α, (∀ other ∈ l, name other ≠ name want) →
      l.flatMap (report name key missing lines (item :: (front ++ back)))
        = l.flatMap (report name key missing lines (front ++ item :: back)) := by
    intro l all
    refine List.flatMap_congr fun other inside => ?_
    have foreign : key item ≠ name other := by
      rw [own]
      exact (all other inside).symm
    rw [report_middle foreign]
    exact report_middle foreign [] (front ++ back)
  have left := fun other inside => apart other (List.mem_append_left after inside)
  have right := fun other inside => apart other (List.mem_append_right before inside)
  rw [reports, List.flatMap_append, List.flatMap_cons, report_cons own, same _ left, same _ right,
    List.filter_append, List.filter_cons_of_neg (by simp), kept _ left, kept _ right,
    List.flatMap_append]
  exact List.perm_append_comm_assoc _ _ _

/-- Only items of one name that are reported alike give the same reports in every order. -/
theorem alike_of_reports_perm (missing : α → List γ) (distinct : (declared.map name).Nodup)
    (steady : ∀ observed', observed.Perm observed' →
      (reports name key missing lines observed declared).Perm
        (reports name key missing lines observed' declared))
    : Alike name key lines observed declared := by
  intro want member a mem b mem' own own'
  have moved {item : β} (mem : item ∈ observed) (own : key item = name want)
      : ∃ rest, (reports name key missing lines observed declared).Perm (lines want item ++ rest)
        ∧ rest = (declared.filter fun other => !decide (name other = name want)).flatMap
          (report name key missing lines observed) := by
    obtain ⟨front, back, rfl⟩ := List.append_of_mem mem
    obtain ⟨others, perm, is⟩ := reports_moved missing lines distinct member own front back
    exact ⟨others, (steady _ List.perm_middle).trans perm, is⟩
  obtain ⟨rest, left, is⟩ := moved mem own
  obtain ⟨rest', right, is'⟩ := moved mem' own'
  rw [is', ← is] at right
  exact (List.perm_append_right_iff rest).mp (left.symm.trans right)

/-- Nothing is reported exactly when every declared item is found and its first one is as it
should be.
-/
theorem reports_eq_nil_iff (loud : ∀ want ∈ declared, missing want ≠ [])
    (alike : Alike name key lines observed declared)
    : reports name key missing lines observed declared = []
      ↔ ∀ want ∈ declared, (∃ have_ ∈ observed, key have_ = name want)
        ∧ ∀ have_ ∈ observed, key have_ = name want → lines want have_ = [] := by
  rw [reports, List.flatMap_eq_nil_iff]
  refine forall₂_congr fun want member => ?_
  rcases report_cases name key missing lines observed want with ⟨none, is⟩ | ⟨a, mem, own, is⟩
  · rw [is]
    refine iff_of_false (loud want member) ?_
    rintro ⟨⟨have_, mem, own⟩, -⟩
    exact none have_ mem own
  · rw [is]
    constructor
    · intro silent
      refine ⟨⟨a, mem, own⟩, fun b mem' own' => ?_⟩
      have perm := alike want member a mem b mem' own own'
      rw [silent] at perm
      exact List.nil_perm.mp perm
    · rintro ⟨-, all⟩
      exact all a mem own

theorem strays_eq_nil_iff {stray : β → γ}
    : strays name key declared stray observed = []
      ↔ ∀ have_ ∈ observed, ∃ want ∈ declared, name want = key have_ := by
  simp [strays, List.filter_eq_nil_iff]

/-- Nothing at all is reported exactly when the declared and the observed items of each name are as
they should be, in both directions.
-/
theorem silent_iff {stray : β → γ} (distinct : (declared.map name).Nodup)
    (loud : ∀ want ∈ declared, missing want ≠ [])
    (alike : Alike name key lines observed declared)
    : (reports name key missing lines observed declared = []
        ∧ strays name key declared stray observed = [])
      ↔ (∀ want ∈ declared, ∃ have_ ∈ observed, key have_ = name want ∧ lines want have_ = [])
        ∧ ∀ have_ ∈ observed, ∃ want ∈ declared, name want = key have_ ∧ lines want have_ = [] := by
  rw [reports_eq_nil_iff loud alike, strays_eq_nil_iff]
  constructor
  · rintro ⟨found, known⟩
    refine ⟨fun want member => ?_, fun have_ member => ?_⟩
    · obtain ⟨⟨have_, mem, own⟩, all⟩ := found want member
      exact ⟨have_, mem, own, all have_ mem own⟩
    · obtain ⟨want, mem, own⟩ := known have_ member
      exact ⟨want, mem, own, (found want mem).2 have_ member own.symm⟩
  · rintro ⟨found, known⟩
    refine ⟨fun want member => ⟨?_, fun have_ mem own => ?_⟩, fun have_ member => ?_⟩
    · obtain ⟨have_, mem, own, -⟩ := found want member
      exact ⟨have_, mem, own⟩
    · obtain ⟨other, mem', own', silent⟩ := known have_ mem
      have same : other = want := List.inj_on_of_nodup_map distinct mem' member (own'.trans own)
      exact same ▸ silent
    · obtain ⟨want, mem, own, -⟩ := known have_ member
      exact ⟨want, mem, own⟩

theorem strays_perm {stray : β → γ} (perm : observed.Perm observed')
    : (strays name key declared stray observed).Perm
      (strays name key declared stray observed') :=
  (perm.filter _).map _

/-- Lists sort alike exactly when they hold the same items. -/
theorem sortByKey_id_eq_iff {κ : Type} [LinearOrder κ] {left right : List κ}
    : sortByKey id left = sortByKey id right ↔ left.Perm right := by
  constructor
  · intro same
    exact (perm_sortByKey left).symm.trans (same ▸ perm_sortByKey right)
  · exact sortByKey_eq_of_perm fun _ _ _ _ same => same

end Delonix.Library.FirstFound
