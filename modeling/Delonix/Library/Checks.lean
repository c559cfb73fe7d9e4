import Mathlib.Data.List.Forall2
import Mathlib.Tactic.Common

/-! Sequences of checks that stop at the first refusal. -/

namespace Delonix.Library.Checks

variable {ε α β : Type}

/-- A sequence of two steps succeeds when both do. -/
theorem bind_eq_ok {first : Except ε α} {next : α → Except ε β} {result : β}
    : (first >>= next) = .ok result ↔ ∃ value, first = .ok value ∧ next value = .ok result := by
  cases first with
  | error refusal => simp [bind, Except.bind]
  | ok value => simp [bind, Except.bind]

theorem map_eq_ok {first : Except ε α} {f : α → β} {result : β}
    : first.map f = .ok result ↔ ∃ value, first = .ok value ∧ f value = result := by
  cases first with
  | error refusal => simp [Except.map]
  | ok value => simp [Except.map]

theorem exists_unit {p : Unit → Prop} : (∃ value, p value) ↔ p () :=
  ⟨fun ⟨_, holds⟩ => holds, fun holds => ⟨(), holds⟩⟩

/-- Checking a list succeeds when every element passes. -/
theorem forM_eq_ok {check : α → Except ε Unit} {items : List α}
    : forM items check = .ok () ↔ ∀ item ∈ items, check item = .ok () := by
  induction items with
  | nil => simp [pure, Except.pure]
  | cons head rest ih =>
      simp only [List.forM_cons, bind_eq_ok, exists_unit, ih, List.forall_mem_cons]

/-- Mapping a list succeeds when every element does, result by result. -/
theorem mapM_eq_ok {f : α → Except ε β} {items : List α} {results : List β}
    : items.mapM f = .ok results ↔ List.Forall₂ (fun item result => f item = .ok result)
      items results := by
  induction items generalizing results with
  | nil => simp [pure, Except.pure, eq_comm]
  | cons head rest ih =>
      rw [List.mapM_cons]
      simp only [bind_eq_ok, pure, Except.pure, Except.ok.injEq, ih, List.forall₂_cons_left_iff]
      constructor
      · rintro ⟨first, passed, others, tail, rfl⟩
        exact ⟨first, others, passed, tail, rfl⟩
      · rintro ⟨first, others, passed, tail, rfl⟩
        exact ⟨first, passed, others, tail, rfl⟩

/-- The same for results that may be missing. -/
theorem mapM_eq_some {f : α → Option β} {items : List α} {results : List β}
    : items.mapM f = some results
      ↔ List.Forall₂ (fun item result => f item = some result) items results := by
  induction items generalizing results with
  | nil => simp [eq_comm]
  | cons head rest ih =>
      rw [List.mapM_cons, List.forall₂_cons_left_iff]
      simp only [Option.bind_eq_bind, Option.bind_eq_some_iff, ih, Option.pure_def,
        Option.some.injEq]
      constructor
      · intro h
        obtain ⟨first, passed, others, tail, same⟩ := h
        exact ⟨first, others, passed, tail, same.symm⟩
      · intro h
        obtain ⟨first, others, passed, tail, same⟩ := h
        exact ⟨first, passed, others, tail, same.symm⟩

/-- Mapping a list fails as its first element that does. -/
theorem mapM_eq_error {f : α → Except ε β} {items : List α} {refusal : ε}
    : items.mapM f = .error refusal ↔ ∃ front item back, items = front ++ item :: back
      ∧ (∀ passed ∈ front, ∃ result, f passed = .ok result) ∧ f item = .error refusal := by
  induction items with
  | nil => simp [pure, Except.pure]
  | cons head rest ih =>
      rw [List.mapM_cons]
      constructor
      · intro failed
        cases first : f head with
        | error other =>
            rw [first] at failed
            cases failed
            exact ⟨[], head, rest, rfl, by simp, first⟩
        | ok result =>
            have later : rest.mapM f = .error refusal := by
              rw [first] at failed
              cases others : rest.mapM f with
              | error other =>
                  rw [others] at failed
                  cases failed
                  rfl
              | ok results =>
                  rw [others] at failed
                  cases failed
            obtain ⟨front, item, back, split, passed, refused⟩ := ih.mp later
            refine ⟨head :: front, item, back, by simp [split], ?_, refused⟩
            exact List.forall_mem_cons.mpr ⟨⟨result, first⟩, passed⟩
      · intro h
        obtain ⟨front, item, back, split, passed, refused⟩ := h
        cases front with
        | nil =>
            rw [(List.cons.inj split).1, refused]
            rfl
        | cons first front =>
            obtain ⟨rfl, rest⟩ := List.cons.inj split
            obtain ⟨result, first⟩ := passed head (by simp)
            have later := ih.mpr ⟨front, item, back, rest,
              fun other member => passed other (by simp [member]), refused⟩
            rw [first, later]
            rfl

theorem exists_of_forall₂_left {γ δ : Type} {related : γ → δ → Prop} {left : List γ}
    {right : List δ} (all : List.Forall₂ related left right) {item : γ} (member : item ∈ left)
    : ∃ other ∈ right, related item other := by
  induction all with
  | nil => exact absurd member (by simp)
  | cons first _ ih =>
      obtain rfl | inRest := List.mem_cons.mp member
      · exact ⟨_, by simp, first⟩
      · obtain ⟨other, held, same⟩ := ih inRest
        exact ⟨other, by simp [held], same⟩

theorem exists_of_forall₂_right {γ δ : Type} {related : γ → δ → Prop} {left : List γ}
    {right : List δ} (all : List.Forall₂ related left right) {other : δ}
    (member : other ∈ right)
    : ∃ item ∈ left, related item other :=
  exists_of_forall₂_left (List.Forall₂.flip all) member

end Delonix.Library.Checks

/-! Sequences of effects: what is left of one that stops at the first error and keeps what it did,
and what a sequence leaves in one place of the state.
-/

namespace Delonix.Library.Stops

variable {α σ ε : Type}

/-- The steps in order, up to the first that answers an error. -/
def untilError (step : α → σ → σ × Option ε) : List α → σ → σ × Option ε
  | [], state => (state, none)
  | item :: rest, state =>
      match step item state with
      | (next, some refusal) => (next, some refusal)
      | (next, none) => untilError step rest next

/-- What every step keeps, whether or not it fails, the sequence keeps. -/
theorem untilError_invariant {step : α → σ → σ × Option ε} (inv : σ → Prop) {items : List α}
    (preserved : ∀ item ∈ items, ∀ state, inv state → inv (step item state).1) {state : σ}
    (holds : inv state)
    : inv (untilError step items state).1 := by
  induction items generalizing state with
  | nil => exact holds
  | cons item rest ih =>
      have first := preserved item (by simp) state holds
      rw [untilError]
      split
      case h_1 next refusal stopped =>
        rw [stopped] at first
        exact first
      case h_2 next passed =>
        rw [passed] at first
        exact ih (fun other member => preserved other (by simp [member])) first

section Places

variable {place : Type} {step : σ → α → σ} {view : σ → place} {items : List α}

/-- A place that no step of a sequence touches stays as it is. -/
theorem foldl_untouched (untouched : ∀ item ∈ items, ∀ state, view (step state item) = view state)
    (state : σ)
    : view (items.foldl step state) = view state := by
  induction items generalizing state with
  | nil => rfl
  | cons item rest ih =>
      obtain ⟨here, later⟩ := List.forall_mem_cons.mp untouched
      rw [List.foldl_cons, ih later, here]

/-- A place that steps leave alone or set to one value has it once a step has set it. -/
theorem foldl_set {value : place}
    (each : ∀ item ∈ items, (∀ state, view (step state item) = view state)
      ∨ ∀ state, view (step state item) = value)
    (set : ∃ item ∈ items, ∀ state, view (step state item) = value) (state : σ)
    : view (items.foldl step state) = value := by
  induction items generalizing state with
  | nil =>
      obtain ⟨item, member, -⟩ := set
      cases member
  | cons item rest ih =>
      obtain ⟨here, later⟩ := List.forall_mem_cons.mp each
      by_cases again : ∃ item ∈ rest, ∀ state, view (step state item) = value
      · exact ih later again _
      · obtain ⟨setter, member, sets⟩ := set
        have first : setter = item := by
          rcases List.mem_cons.mp member with same | inRest
          · exact same
          · exact absurd ⟨setter, inRest, sets⟩ again
        subst first
        have alone : ∀ other ∈ rest, ∀ state, view (step state other) = view state := by
          intro other member
          refine (later other member).resolve_right ?_
          intro alsoSets
          exact again ⟨other, member, alsoSets⟩
        exact (foldl_untouched alone _).trans (sets state)

end Places

end Delonix.Library.Stops
