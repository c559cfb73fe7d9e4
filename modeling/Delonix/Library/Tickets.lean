import Mathlib.Data.List.Induction
import Mathlib.Logic.Function.Basic

/-! Tickets that are given out under a token and are taken back once. Giving one out drops those
that are too old by then.
-/

namespace Delonix.Library.Tickets

variable {T D A : Type} [DecidableEq T]

/-- What an action does to the tickets of one desk. -/
inductive Op (T D : Type) where
  | issue (token : T) (ticket : D) (now : Nat)
  | redeem (token : T)
  | other

abbrev Held (T D : Type) := T → Option D

section Desk

variable (created : D → Nat) (lifetime : Nat)

/-- The tickets that are not too old. -/
def retain (now : Nat) (held : Held T D) : Held T D :=
  fun token => (held token).filter fun ticket => now - created ticket < lifetime

def step (held : Held T D) : Op T D → Held T D
  | .issue token ticket now =>
      Function.update (retain created lifetime now held) token (some ticket)
  | .redeem token => Function.update held token none
  | .other => held

/-- The operation leaves the ticket of the token where it is. -/
def Spares (token : T) (ticket : D) : Op T D → Prop
  | .issue other _ now => other ≠ token ∧ now - created ticket < lifetime
  | .redeem other => other ≠ token
  | .other => True

variable {created lifetime}

/-- A ticket is there after an operation that gave it out, or that spares it. -/
theorem step_eq_some_iff {held : Held T D} {op : Op T D} {token : T} {ticket : D}
    : step created lifetime held op token = some ticket
      ↔ (∃ now, op = .issue token ticket now)
        ∨ (held token = some ticket ∧ Spares created lifetime token ticket op) := by
  cases op with
  | issue given other now =>
      by_cases same : given = token
      · subst same
        simp only [step, Function.update_self, Option.some.injEq, Op.issue.injEq, true_and,
          Spares, ne_eq, not_true_eq_false, false_and, and_false, or_false, exists_and_left,
          exists_eq', and_true]
      · rw [step, Function.update_of_ne (Ne.symm same), retain, Option.filter_eq_some_iff]
        simp [Spares, same]
  | redeem given =>
      by_cases same : given = token
      · subst same
        simp [step, Spares]
      · rw [step, Function.update_of_ne (Ne.symm same)]
        simp [Spares, same]
  | other => simp [step, Spares]

end Desk

/-- Over any history, a ticket is held if and only if an action gave it out under its token and all
later ones spare it. By induction on the history, from its end.
-/
theorem held_iff (created : D → Nat) (lifetime : Nat) (view : A → Op T D) (history : List A)
    (token : T) (ticket : D)
    : (history.map view).foldl (step created lifetime) (fun _ => none) token = some ticket
      ↔ ∃ before action after now, history = before ++ action :: after
        ∧ view action = .issue token ticket now
        ∧ ∀ later ∈ after, Spares created lifetime token ticket (view later) := by
  induction history using List.reverseRecOn with
  | nil => simp
  | append_singleton history last ih =>
      rw [List.map_append, List.foldl_append, List.map_singleton, List.foldl_cons, List.foldl_nil,
        step_eq_some_iff, ih]
      constructor
      · intro either
        rcases either with
          ⟨now, given⟩ | ⟨⟨before, action, after, now, rfl, given, spared⟩, spares⟩
        · exact ⟨history, last, [], now, rfl, given, by simp⟩
        · refine ⟨before, action, after ++ [last], now, by simp, given, fun later member => ?_⟩
          rcases List.mem_append.mp member with earlier | is
          · exact spared later earlier
          · rw [List.mem_singleton.mp is]
            exact spares
      · intro found
        obtain ⟨before, action, after, now, split, given, spared⟩ := found
        rcases List.eq_nil_or_concat after with rfl | ⟨after, final, rfl⟩
        · obtain ⟨-, same⟩ := List.append_inj' split rfl
          cases same
          exact .inl ⟨now, given⟩
        · rw [List.concat_eq_append, ← List.cons_append, ← List.append_assoc] at split
          obtain ⟨rfl, same⟩ := List.append_inj' split rfl
          cases same
          refine .inr ⟨⟨before, action, after, now, rfl, given, fun later member => ?_⟩, ?_⟩
          · exact spared later (by simp [member])
          · exact spared _ (by simp)

end Delonix.Library.Tickets
