import Mathlib.Logic.Relation
import Delonix.Library.Text

/-! What a wildcard pattern means: how it is read against a text, one construct after the other, and
against a path, one segment after the other. Everything is said of characters.
-/

namespace Delonix.Library.Globs

open Delonix.Library.Text
open Relation

/-- A member of a class, escaped or not. -/
def member : List Char → Option (Char × List Char)
  | '\\' :: c :: rest => some (c, rest)
  | c :: rest => some (c, rest)
  | [] => none

/-- A range of a class, a member alone being the range from it to itself. A dash in front of the
closing bracket is a member.
-/
def item (p : List Char) : Option ((Char × Char) × List Char) :=
  match member p with
  | none => none
  | some (lo, rest) =>
      match rest with
      | '-' :: after =>
          if after.head? = some ']' then some ((lo, lo), rest)
          else
            match member after with
            | some (hi, rest) => some ((lo, hi), rest)
            | none => some ((lo, lo), rest)
      | _ => some ((lo, lo), rest)

theorem member_suffix {p rest : List Char} {c : Char} (read : member p = some (c, rest))
    : rest <:+ p.tail := by
  unfold member at read
  split at read
  · obtain ⟨-, rfl⟩ := Prod.mk.inj (Option.some.inj read)
    exact List.suffix_cons _ _
  · obtain ⟨-, rfl⟩ := Prod.mk.inj (Option.some.inj read)
    exact List.suffix_refl _
  · cases read

theorem item_suffix {p rest : List Char} {range : Char × Char} (read : item p = some (range, rest))
    : rest <:+ p.tail := by
  unfold item at read
  cases lo : member p with
  | none => simp [lo] at read
  | some found =>
      obtain ⟨c, tail⟩ := found
      have inside := member_suffix lo
      simp only [lo] at read
      split at read
      case h_2 =>
        obtain ⟨-, rfl⟩ := Prod.mk.inj (Option.some.inj read)
        exact inside
      case h_1 after =>
        split at read
        · obtain ⟨-, rfl⟩ := Prod.mk.inj (Option.some.inj read)
          exact inside
        · split at read
          case h_1 hi last is =>
            obtain ⟨-, rfl⟩ := Prod.mk.inj (Option.some.inj read)
            have step : last <:+ '-' :: after :=
              (member_suffix is).trans ((List.tail_suffix after).trans (List.suffix_cons _ _))
            exact step.trans inside
          case h_2 =>
            obtain ⟨-, rfl⟩ := Prod.mk.inj (Option.some.inj read)
            exact inside

/-- The ranges of a class up to its closing bracket, and the pattern behind it. A bracket that comes
first is a member.
-/
def items (first : Bool) (p : List Char) : Option (List (Char × Char) × List Char) :=
  match p with
  | [] => none
  | c :: tail =>
      if c = ']' && !first then some ([], tail)
      else
        match _read : item (c :: tail) with
        | none => none
        | some (range, rest) => (items false rest).map fun (ranges, after) => (range :: ranges, after)
termination_by p.length
decreasing_by
  have := (item_suffix _read).length_le
  simp only [List.tail_cons] at this
  simp only [List.length_cons]
  omega

/-- A class: whether it is negated, and its ranges. -/
structure Class where
  negated : Bool
  ranges : List (Char × Char)

def Class.has (cls : Class) (c : Char) : Bool :=
  cls.negated != cls.ranges.any fun range => range.1 ≤ c && c ≤ range.2

/-- The mark of a negated class, and what follows it. -/
def splitMark : List Char → Bool × List Char
  | '!' :: rest => (true, rest)
  | '^' :: rest => (true, rest)
  | p => (false, p)

/-- The class behind an opening bracket, if it is ever closed. -/
def readClass (p : List Char) : Option (Class × List Char) :=
  let (negated, inner) := splitMark p
  (items true inner).map fun (ranges, after) => (⟨negated, ranges⟩, after)

theorem items_length {first : Bool} {p after : List Char} {ranges : List (Char × Char)}
    (read : items first p = some (ranges, after))
    : after.length < p.length := by
  fun_induction items first p generalizing ranges with
  | case1 => cases read
  | case2 first c tail close =>
      obtain ⟨-, rfl⟩ := Prod.mk.inj (Option.some.inj read)
      exact Nat.lt_succ_self _
  | case3 => cases read
  | case4 first c tail open_ range rest is ih =>
      obtain ⟨⟨ranges', after'⟩, inner, same⟩ := Option.map_eq_some_iff.mp read
      obtain ⟨-, rfl⟩ := Prod.mk.inj same
      have shorter := (item_suffix is).length_le
      have step := ih inner
      rw [List.tail_cons] at shorter
      rw [List.length_cons]
      omega

theorem readClass_length {p after : List Char} {cls : Class} (read : readClass p = some (cls, after))
    : after.length < p.length := by
  obtain ⟨⟨ranges, rest⟩, inner, same⟩ := Option.map_eq_some_iff.mp read
  obtain ⟨-, rfl⟩ := Prod.mk.inj same
  refine (items_length inner).trans_le ?_
  split <;> simp

def special (c : Char) : Bool := c = '*' || c = '?' || c = '[' || c = '\\'

/-- A pattern and a text, and what is left of them once the pattern's first construct has been read
against the start of the text.
-/
inductive Step : List Char × List Char → List Char × List Char → Prop
  | star {p : List Char} (run s : List Char) : Step ('*' :: p, run ++ s) (p, s)
  | any {p s : List Char} (c : Char) : Step ('?' :: p, c :: s) (p, s)
  | cls {p rest s : List Char} {c : Char} {cls : Class} (read : readClass p = some (cls, rest))
      (has : cls.has c) : Step ('[' :: p, c :: s) (rest, s)
  | open_ {p s : List Char} (unclosed : readClass p = none) : Step ('[' :: p, '[' :: s) (p, s)
  | escaped {p s : List Char} (c : Char) : Step ('\\' :: c :: p, c :: s) (p, s)
  | trailing {s : List Char} : Step (['\\'], '\\' :: s) ([], s)
  | literal {p s : List Char} {c : Char} (plain : special c = false) : Step (c :: p, c :: s) (p, s)

/-- The pattern is the text's. -/
def Matches (p s : List Char) : Prop := ReflTransGen Step (p, s) ([], [])

abbrev Segments := List (List Char)

/-- A pattern and a path by their segments. Two stars are any number of directories. -/
inductive SegStep : Segments × Segments → Segments × Segments → Prop
  | deep {pat : Segments} (run path : Segments) : SegStep (['*', '*'] :: pat, run ++ path) (pat, path)
  | one {pat path : Segments} {p s : List Char} (single : p ≠ ['*', '*']) (matched : Matches p s)
    : SegStep (p :: pat, s :: path) (pat, path)

def PathMatches (pat path : Segments) : Prop := ReflTransGen SegStep (pat, path) ([], [])

/-- The steps of a search that tries a star over no character first, then over one more at a time,
and stops where the rest matches.
-/
inductive Tries : List Char × List Char → List Char × List Char → Prop
  | star {p : List Char} (run s : List Char)
    (shorter : ∀ before more, run = before ++ more → more ≠ [] → ¬ Matches p (more ++ s))
    : Tries ('*' :: p, run ++ s) (p, s)
  | other {c : Char} {p q s t : List Char} (single : c ≠ '*') (step : Step (c :: p, s) (q, t))
    : Tries (c :: p, s) (q, t)

/-- The same for two stars and the directories of a path. -/
inductive SegTries : Segments × Segments → Segments × Segments → Prop
  | deep {pat : Segments} (run path : Segments)
    (shorter : ∀ before more, run = before ++ more → more ≠ [] → ¬ PathMatches pat (more ++ path))
    : SegTries (['*', '*'] :: pat, run ++ path) (pat, path)
  | one {pat path : Segments} {p s : List Char} (single : p ≠ ['*', '*']) (matched : Matches p s)
    : SegTries (p :: pat, s :: path) (pat, path)

/-- Among the ends of a list that have a property there is a longest. -/
theorem exists_longest_suffix {α : Type} {P : List α → Prop} {s : List α}
    (found : ∃ t, t <:+ s ∧ P t)
    : ∃ run t, s = run ++ t ∧ P t
      ∧ ∀ before more, run = before ++ more → more ≠ [] → ¬ P (more ++ t) := by
  induction s with
  | nil =>
      obtain ⟨t, below, holds⟩ := found
      obtain rfl := List.suffix_nil.mp below
      refine ⟨[], [], rfl, holds, fun before more is other => absurd ?_ other⟩
      exact (List.append_eq_nil_iff.mp is.symm).2
  | cons a s ih =>
      by_cases whole : P (a :: s)
      · refine ⟨[], a :: s, rfl, whole, fun before more is other => absurd ?_ other⟩
        exact (List.append_eq_nil_iff.mp is.symm).2
      · obtain ⟨t, below, holds⟩ := found
        have rest : t <:+ s := by
          rcases List.suffix_cons_iff.mp below with rfl | below
          · exact absurd holds whole
          · exact below
        obtain ⟨run, t, rfl, holds, longest⟩ := ih ⟨t, rest, holds⟩
        refine ⟨a :: run, t, rfl, holds, fun before more is other => ?_⟩
        cases before with
        | nil =>
            obtain rfl : a :: run = more := is
            exact whole
        | cons b before => exact longest before more (List.cons.inj is).2 other

variable {p s : List Char}

theorem matches_cons_iff {c : Char}
    : Matches (c :: p) s ↔ ∃ q t, Step (c :: p, s) (q, t) ∧ Matches q t := by
  rw [Matches, ReflTransGen.cases_head_iff]
  constructor
  · rintro (same | ⟨⟨q, t⟩, step, rest⟩)
    · simp at same
    · exact ⟨q, t, step, rest⟩
  · rintro ⟨q, t, step, rest⟩
    exact .inr ⟨(q, t), step, rest⟩

theorem matches_nil_iff : Matches [] s ↔ s = [] := by
  rw [Matches, ReflTransGen.cases_head_iff]
  constructor
  · rintro (same | ⟨_, step, -⟩)
    · simpa using same
    · cases step
  · rintro rfl
    exact .inl rfl

theorem matches_star_iff : Matches ('*' :: p) s ↔ ∃ t, t <:+ s ∧ Matches p t := by
  rw [matches_cons_iff]
  constructor
  · rintro ⟨q, t, step, rest⟩
    cases step with
    | star run => exact ⟨t, List.suffix_append run t, rest⟩
    | literal plain => cases plain
  · rintro ⟨t, ⟨run, rfl⟩, rest⟩
    exact ⟨p, t, .star run t, rest⟩

theorem matches_any_iff : Matches ('?' :: p) s ↔ ∃ c t, s = c :: t ∧ Matches p t := by
  rw [matches_cons_iff]
  constructor
  · rintro ⟨q, t, step, rest⟩
    cases step with
    | any c => exact ⟨c, t, rfl, rest⟩
    | literal plain => cases plain
  · rintro ⟨c, t, rfl, rest⟩
    exact ⟨p, t, .any c, rest⟩

theorem matches_cls_iff {cls : Class} {after : List Char} (read : readClass p = some (cls, after))
    : Matches ('[' :: p) s ↔ ∃ c t, s = c :: t ∧ cls.has c ∧ Matches after t := by
  rw [matches_cons_iff]
  constructor
  · rintro ⟨q, t, step, rest⟩
    cases step with
    | @cls _ _ _ c own is has =>
        obtain ⟨rfl, rfl⟩ := Prod.mk.inj (Option.some.inj (read.symm.trans is))
        exact ⟨c, t, rfl, has, rest⟩
    | open_ unclosed =>
        rw [read] at unclosed
        cases unclosed
    | literal plain => cases plain
  · rintro ⟨c, t, rfl, has, rest⟩
    exact ⟨after, t, .cls read has, rest⟩

theorem matches_open_iff (unclosed : readClass p = none)
    : Matches ('[' :: p) s ↔ ∃ t, s = '[' :: t ∧ Matches p t := by
  rw [matches_cons_iff]
  constructor
  · rintro ⟨q, t, step, rest⟩
    cases step with
    | cls read =>
        rw [unclosed] at read
        cases read
    | open_ => exact ⟨t, rfl, rest⟩
    | literal plain => cases plain
  · rintro ⟨t, rfl, rest⟩
    exact ⟨p, t, .open_ unclosed, rest⟩

theorem matches_escaped_iff {c : Char}
    : Matches ('\\' :: c :: p) s ↔ ∃ t, s = c :: t ∧ Matches p t := by
  rw [matches_cons_iff]
  constructor
  · rintro ⟨q, t, step, rest⟩
    cases step with
    | escaped => exact ⟨t, rfl, rest⟩
    | literal plain => cases plain
  · rintro ⟨t, rfl, rest⟩
    exact ⟨p, t, .escaped c, rest⟩

theorem matches_trailing_iff : Matches ['\\'] s ↔ ∃ t, s = '\\' :: t ∧ Matches [] t := by
  rw [matches_cons_iff]
  constructor
  · rintro ⟨q, t, step, rest⟩
    cases step with
    | trailing => exact ⟨t, rfl, rest⟩
    | literal plain => cases plain
  · rintro ⟨t, rfl, rest⟩
    exact ⟨[], t, .trailing, rest⟩

theorem matches_literal_iff {c : Char} (plain : special c = false)
    : Matches (c :: p) s ↔ ∃ t, s = c :: t ∧ Matches p t := by
  rw [matches_cons_iff]
  constructor
  · rintro ⟨q, t, step, rest⟩
    cases step with
    | literal => exact ⟨t, rfl, rest⟩
    | star | any | cls | open_ | escaped | trailing => cases plain
  · rintro ⟨t, rfl, rest⟩
    exact ⟨p, t, .literal plain, rest⟩

variable {pat path : Segments}

theorem pathMatches_nil_iff : PathMatches [] path ↔ path = [] := by
  rw [PathMatches, ReflTransGen.cases_head_iff]
  constructor
  · rintro (same | ⟨_, step, -⟩)
    · simpa using same
    · cases step
  · rintro rfl
    exact .inl rfl

theorem pathMatches_cons_iff
    : PathMatches (p :: pat) path ↔ ∃ q t, SegStep (p :: pat, path) (q, t) ∧ PathMatches q t := by
  rw [PathMatches, ReflTransGen.cases_head_iff]
  constructor
  · rintro (same | ⟨⟨q, t⟩, step, rest⟩)
    · simp at same
    · exact ⟨q, t, step, rest⟩
  · rintro ⟨q, t, step, rest⟩
    exact .inr ⟨(q, t), step, rest⟩

theorem pathMatches_deep_iff
    : PathMatches (['*', '*'] :: pat) path ↔ ∃ t, t <:+ path ∧ PathMatches pat t := by
  rw [pathMatches_cons_iff]
  constructor
  · rintro ⟨q, t, step, rest⟩
    cases step with
    | deep run => exact ⟨t, List.suffix_append run t, rest⟩
    | one single => exact absurd rfl single
  · rintro ⟨t, ⟨run, rfl⟩, rest⟩
    exact ⟨pat, t, .deep run t, rest⟩

theorem pathMatches_one_iff (single : p ≠ ['*', '*'])
    : PathMatches (p :: pat) path
      ↔ ∃ s t, path = s :: t ∧ Matches p s ∧ PathMatches pat t := by
  rw [pathMatches_cons_iff]
  constructor
  · rintro ⟨q, t, step, rest⟩
    cases step with
    | deep => exact absurd rfl single
    | @one _ _ _ s _ matched => exact ⟨s, t, rfl, matched, rest⟩
  · rintro ⟨s, t, rfl, matched, rest⟩
    exact ⟨pat, t, .one single matched, rest⟩

end Delonix.Library.Globs
