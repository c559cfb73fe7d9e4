import Delonix.Build.IgnoreClasses
import Mathlib.Data.Bool.AllAny

/-! What a `.dockerignore` means, against what its rules match. The rules are matched over bytes. The
two agree where the search, which stops as soon as the rest of a pattern matches, never comes to
compare a question mark or a negated class with a character outside ASCII, nor to a class with an
escape or with such a character.
-/

namespace Delonix.Build

open Delonix.Library.Globs
open Delonix.Library.Text
open Delonix.Library.Utf8
open Relation

-----------------------------------------------------------------------------------------
-- One byte of a pattern
-----------------------------------------------------------------------------------------

theorem matchSegment_nil (s : List UInt8) : matchSegment [] s = s.isEmpty := by
  rw [matchSegment]

theorem matchSegment_star (rest s : List UInt8)
    : matchSegment ('*'.toUInt8 :: rest) s = true ↔ ∃ k, matchSegment rest (s.drop k) = true := by
  rw [matchSegment.eq_def]
  dsimp only
  rw [if_pos rfl, List.any_eq_true]
  constructor
  · rintro ⟨k, -, matched⟩
    exact ⟨k, matched⟩
  · rintro ⟨k, matched⟩
    by_cases within : k < s.length + 1
    · exact ⟨k, List.mem_range.mpr within, matched⟩
    · refine ⟨s.length, List.mem_range.mpr (Nat.lt_succ_self _), ?_⟩
      rwa [List.drop_length, ← List.drop_eq_nil_of_le (show s.length ≤ k by omega)]

theorem matchSegment_any (rest s : List UInt8)
    : matchSegment ('?'.toUInt8 :: rest) s = (!s.isEmpty && matchSegment rest s.tail) := by
  rw [matchSegment.eq_def]
  dsimp only
  rw [if_neg (by decide), if_pos rfl]

theorem matchSegment_class_nil (rest : List UInt8) : matchSegment ('['.toUInt8 :: rest) [] = false := by
  rw [matchSegment.eq_def]
  dsimp only
  rw [if_neg (by decide), if_neg (by decide), if_pos rfl]

theorem matchSegment_class {rest after : List UInt8} {c : UInt8} {ok : Bool} (s : List UInt8)
    (read : matchClass rest c = some (ok, after))
    : matchSegment ('['.toUInt8 :: rest) (c :: s) = (ok && matchSegment after s) := by
  rw [matchSegment.eq_def]
  dsimp only
  rw [if_neg (by decide), if_neg (by decide), if_pos rfl]
  split
  · simp_all
  · simp_all

theorem matchSegment_open {rest : List UInt8} {c : UInt8} (s : List UInt8)
    (read : matchClass rest c = none)
    : matchSegment ('['.toUInt8 :: rest) (c :: s)
      = (decide (c = '['.toUInt8) && matchSegment rest s) := by
  rw [matchSegment.eq_def]
  dsimp only
  rw [if_neg (by decide), if_neg (by decide), if_pos rfl]
  split
  · simp_all
  · simp_all

theorem matchSegment_escape (next : UInt8) (rest s : List UInt8)
    : matchSegment ('\\'.toUInt8 :: next :: rest) s
      = (decide (s.head? = some next) && matchSegment rest s.tail) := by
  rw [matchSegment.eq_def]
  dsimp only
  rw [if_neg (by decide), if_neg (by decide), if_neg (by decide), if_pos rfl]

/-- A byte that stands for itself. -/
theorem matchSegment_literal {b : UInt8} {rest : List UInt8} (s : List UInt8)
    (star : b ≠ '*'.toUInt8) (any : b ≠ '?'.toUInt8) (cls : b ≠ '['.toUInt8)
    (escape : b = '\\'.toUInt8 → rest = [])
    : matchSegment (b :: rest) s = (decide (s.head? = some b) && matchSegment rest s.tail) := by
  rw [matchSegment.eq_def]
  dsimp only
  rw [if_neg star, if_neg any, if_neg cls]
  cases rest with
  | nil => rfl
  | cons next rest =>
      dsimp only
      rw [if_neg fun same => absurd (escape same) (by simp)]

-----------------------------------------------------------------------------------------
-- One character of a pattern
-----------------------------------------------------------------------------------------

def LiteralByte (b : UInt8) : Prop :=
  b ≠ '*'.toUInt8 ∧ b ≠ '?'.toUInt8 ∧ b ≠ '['.toUInt8 ∧ b ≠ '\\'.toUInt8

theorem literalByte_of_mem {c : Char} {b : UInt8} (plain : special c = false)
    (member : b ∈ String.utf8EncodeChar c)
    : LiteralByte b := by
  simp only [special, Bool.or_eq_false_iff, decide_eq_false_iff_not] at plain
  obtain ⟨⟨⟨star, any⟩, cls⟩, escape⟩ := plain
  refine ⟨?_, ?_, ?_, ?_⟩
  · rintro rfl
    exact star (eq_of_mem_encodeChar (by decide) member).symm
  · rintro rfl
    exact any (eq_of_mem_encodeChar (by decide) member).symm
  · rintro rfl
    exact cls (eq_of_mem_encodeChar (by decide) member).symm
  · rintro rfl
    exact escape (eq_of_mem_encodeChar (by decide) member).symm

theorem literalByte_of_continues {b : UInt8} (continued : Continues b) : LiteralByte b := by
  refine ⟨?_, ?_, ?_, ?_⟩ <;>
    · rintro rfl
      exact absurd continued.1 (by decide)

theorem head_iff {s : List UInt8} {b : UInt8} (rest : List UInt8 → Prop)
    : (s.head? = some b ∧ rest s.tail) ↔ ∃ t, s = b :: t ∧ rest t := by
  cases s with
  | nil => simp
  | cons c s => simp [and_assoc]

/-- Bytes that stand for themselves. -/
theorem matchSegment_literals {bytes rest s : List UInt8} (literal : ∀ b ∈ bytes, LiteralByte b)
    : matchSegment (bytes ++ rest) s = true ↔ ∃ t, s = bytes ++ t ∧ matchSegment rest t = true := by
  induction bytes generalizing s with
  | nil => simp
  | cons b bytes ih =>
      obtain ⟨star, any, cls, escape⟩ := literal b List.mem_cons_self
      rw [List.cons_append, matchSegment_literal s star any cls fun same => absurd same escape,
        Bool.and_eq_true, decide_eq_true_eq,
        ih fun other member => literal other (List.mem_cons_of_mem _ member),
        head_iff (fun s => ∃ t, s = bytes ++ t ∧ matchSegment rest t = true)]
      simp

/-- A text whose bytes start with those of a character starts with the character. -/
theorem encode_eq_append {s : List Char} {c : Char} {t : List UInt8}
    : encode s = String.utf8EncodeChar c ++ t ↔ ∃ rest, s = c :: rest ∧ t = encode rest := by
  constructor
  · intro same
    cases s with
    | nil => simp [String.utf8EncodeChar_ne_nil] at same
    | cons d rest =>
        obtain ⟨rfl, rfl⟩ := encodeChar_append_inj same
        exact ⟨rest, rfl, rfl⟩
  · rintro ⟨rest, rfl, rfl⟩
    rfl

theorem starts_iff {s : List Char} {c : Char} {rest : List UInt8 → Prop}
    : (∃ t, encode s = String.utf8EncodeChar c ++ t ∧ rest t)
      ↔ ∃ t, s = c :: t ∧ rest (encode t) := by
  simp only [encode_eq_append]
  constructor
  · rintro ⟨_, ⟨t, rfl, rfl⟩, holds⟩
    exact ⟨t, rfl, holds⟩
  · rintro ⟨t, rfl, holds⟩
    exact ⟨_, ⟨t, rfl, rfl⟩, holds⟩

theorem literal_iff {c : Char} {p s : List Char} (plain : special c = false)
    : matchSegment (encode (c :: p)) (encode s) = true
      ↔ ∃ t, s = c :: t ∧ matchSegment (encode p) (encode t) = true := by
  rw [encode_cons, matchSegment_literals fun b member => literalByte_of_mem plain member]
  exact starts_iff

theorem escaped_iff {c : Char} {p s : List Char}
    : matchSegment (encode ('\\' :: c :: p)) (encode s) = true
      ↔ ∃ t, s = c :: t ∧ matchSegment (encode p) (encode t) = true := by
  obtain ⟨lead, more, is, -, continued, -⟩ := encodeChar_shape c
  have bytes : matchSegment (encode ('\\' :: c :: p)) (encode s) = true
      ↔ ∃ t, encode s = String.utf8EncodeChar c ++ t ∧ matchSegment (encode p) t = true := by
    rw [encode_ascii_cons (by decide), encode_cons, is, List.cons_append, matchSegment_escape,
      Bool.and_eq_true, decide_eq_true_eq,
      matchSegment_literals fun b member => literalByte_of_continues (continued b member),
      head_iff (fun s => ∃ t, s = more ++ t ∧ matchSegment (encode p) t = true)]
    simp
  exact bytes.trans starts_iff

theorem trailing_iff {s : List Char}
    : matchSegment (encode ['\\']) (encode s) = true
      ↔ ∃ t, s = '\\' :: t ∧ matchSegment (encode []) (encode t) = true := by
  have bytes : encode ['\\'] = ['\\'.toUInt8] := rfl
  have own : String.utf8EncodeChar '\\' = ['\\'.toUInt8] := rfl
  have cut : matchSegment (encode ['\\']) (encode s) = true
      ↔ ∃ t, encode s = String.utf8EncodeChar '\\' ++ t ∧ matchSegment (encode []) t = true := by
    rw [bytes, own, matchSegment_literal _ (by decide) (by decide) (by decide) fun _ => rfl,
      Bool.and_eq_true, decide_eq_true_eq, head_iff (fun s => matchSegment [] s = true)]
    rfl
  exact cut.trans starts_iff

-----------------------------------------------------------------------------------------
-- Where bytes and characters differ
-----------------------------------------------------------------------------------------

/-- A pattern and a text that bytes compare in another way than characters. -/
def Defect : List Char → List Char → Prop
  | '?' :: _, c :: _ => 128 ≤ c.toNat
  | '[' :: p, c :: _ =>
      ∃ text, classText p = some text ∧ (¬ Plain text ∨ (splitMark p).1 = true ∧ 128 ≤ c.toNat)
  | _, _ => False

/-- The search for the pattern in the text never comes to such a comparison. -/
def Clean (p s : List Char) : Prop := ∀ q t, ReflTransGen Tries (p, s) (q, t) → ¬ Defect q t

theorem Clean.tries {p s q t : List Char} (clean : Clean p s) (tries : Tries (p, s) (q, t))
    : Clean q t :=
  fun _ _ reaches => clean _ _ (.head tries reaches)

theorem Clean.step {c : Char} {p s q t : List Char} (clean : Clean (c :: p) s) (single : c ≠ '*')
    (step : Step (c :: p, s) (q, t))
    : Clean q t :=
  clean.tries (.other single step)

theorem Clean.here {p s : List Char} (clean : Clean p s) : ¬ Defect p s := clean p s .refl

/-- What is not tried before all longer ends have failed is tried where none of them matches. -/
theorem Clean.star {p run t : List Char} (clean : Clean ('*' :: p) (run ++ t))
    (shorter : ∀ before more, run = before ++ more → more ≠ [] → ¬ Matches p (more ++ t))
    : Clean p t :=
  clean.tries (.star run t shorter)

/-- What is left of a text's bytes is a rest of the text, or starts inside of a character. -/
theorem drop_encode (s : List Char) (k : Nat)
    : (∃ t, t <:+ s ∧ (encode s).drop k = encode t)
      ∨ ∃ c t b u, c :: t <:+ s ∧ 128 ≤ c.toNat ∧ (encode s).drop k = b :: u ∧ Continues b := by
  induction s generalizing k with
  | nil => exact .inl ⟨[], List.suffix_rfl, by simp⟩
  | cons c s ih =>
      by_cases start : k = 0
      · exact .inl ⟨c :: s, List.suffix_rfl, by simp [start]⟩
      · by_cases within : k < (String.utf8EncodeChar c).length
        · obtain ⟨lead, more, is, -, continued, -⟩ := encodeChar_shape c
          have outside : 128 ≤ c.toNat := by
            by_contra ascii
            rw [encodeChar_ascii (not_le.mp ascii), List.length_singleton] at within
            omega
          obtain ⟨j, rfl⟩ := Nat.exists_eq_succ_of_ne_zero start
          rw [is, List.length_cons] at within
          have inside : j < more.length := by omega
          refine .inr ⟨c, s, more[j], more.drop (j + 1) ++ encode s, List.suffix_rfl, outside, ?_,
            continued _ (List.getElem_mem inside)⟩
          rw [encode_cons, is, List.cons_append, List.drop_succ_cons,
            List.drop_append_of_le_length inside.le, List.drop_eq_getElem_cons inside]
          rfl
        · have behind : (encode (c :: s)).drop k
              = (encode s).drop (k - (String.utf8EncodeChar c).length) := by
            rw [encode_cons, List.drop_append, List.drop_eq_nil_of_le (not_lt.mp within),
              List.nil_append]
          rw [behind]
          rcases ih (k - (String.utf8EncodeChar c).length) with
            ⟨t, below, is⟩ | ⟨d, t, b, u, below, outside, is, inside⟩
          · exact .inl ⟨t, below.trans (List.suffix_cons c s), is⟩
          · exact .inr ⟨d, t, b, u, below.trans (List.suffix_cons c s), outside, is, inside⟩

/-- No character outside ASCII is in a class of ASCII ranges. -/
theorem has_outside {cls : Library.Globs.Class} {c : Char} (unmarked : cls.negated = false)
    (small : ∀ range ∈ cls.ranges, range.2.toNat < 128) (outside : 128 ≤ c.toNat)
    : cls.has c = false := by
  rw [Library.Globs.Class.has, unmarked, Bool.false_bne, List.any_eq_false]
  intro range member
  have above := small range member
  rw [Bool.and_eq_true, decide_eq_true_eq, decide_eq_true_eq, le_iff_toNat (a := c)]
  omega

/-- Inside of a character nothing matches but a star, where no defect is met at the character. -/
theorem no_match_inside {p t : List Char} {c : Char} {b : UInt8} {u : List UInt8}
    (noStar : p.head? ≠ some '*') (outside : 128 ≤ c.toNat) (fine : ¬ Defect p (c :: t))
    (inside : Continues b)
    : matchSegment (encode p) (b :: u) = false := by
  have other : ∀ a : Char, a.toNat < 128 → b ≠ a.toUInt8 := by
    rintro a small rfl
    have above := inside.1
    rw [toNat_toUInt8 small] at above
    omega
  have lead (d : Char) {rest : List UInt8} (lead : UInt8) (more : List UInt8)
      (is : String.utf8EncodeChar d = lead :: more) : (b :: rest).head? ≠ some lead := by
    intro same
    obtain ⟨lead', more', is', starts, -⟩ := encodeChar_shape d
    rw [is] at is'
    obtain ⟨rfl, -⟩ := List.cons.inj is'
    rw [List.head?_cons, Option.some.injEq] at same
    exact starts (same ▸ inside)
  cases p with
  | nil => rw [encode_nil, matchSegment_nil]; rfl
  | cons x p =>
      by_cases plain : special x = false
      · obtain ⟨first, more, is, -⟩ := encodeChar_shape x
        refine Bool.eq_false_iff.mpr fun matched => ?_
        rw [encode_cons, matchSegment_literals fun b member => literalByte_of_mem plain member]
          at matched
        obtain ⟨rest, same, -⟩ := matched
        rw [is, List.cons_append] at same
        exact @lead x u first more is (by rw [same]; rfl)
      · have kinds : x = '*' ∨ x = '?' ∨ x = '[' ∨ x = '\\' := by
          by_contra none_
          simp_all [special]
        rcases kinds with rfl | rfl | rfl | rfl
        · simp at noStar
        · exact absurd outside fine
        · rw [encode_ascii_cons (by decide)]
          cases text : classText p with
          | none =>
              rw [matchSegment_open _ (class_unclosed text b).2, decide_eq_false (other '[' (by decide)),
                Bool.false_and]
          | some inner =>
              have plainText : Plain inner := by
                by_contra odd
                exact fine ⟨inner, text, .inl odd⟩
              have unmarked : (splitMark p).1 = false := by
                by_contra marked
                exact fine ⟨inner, text, .inr ⟨by simpa using marked, outside⟩⟩
              obtain ⟨cls, after, -, mark, small, read⟩ := class_closed text plainText
              have without := has_outside (mark.trans unmarked) small outside
              rw [matchSegment_class _ (read b c (stands_above inside.1 outside)), without,
                Bool.false_and]
        · cases p with
          | nil =>
              rw [show encode ['\\'] = ['\\'.toUInt8] from rfl,
                matchSegment_literal _ (by decide) (by decide) (by decide) fun _ => rfl]
              simp [other '\\' (by decide)]
          | cons y p =>
              obtain ⟨first, more, is, -⟩ := encodeChar_shape y
              rw [encode_ascii_cons (by decide), encode_cons, is, List.cons_append,
                matchSegment_escape, decide_eq_false (lead y first more is), Bool.false_and]

/-- A star over bytes stops at a character where one over characters can. -/
theorem exists_suffix_of_drop {p s : List Char} (clean : ∀ t, t <:+ s → Clean p t) {k : Nat}
    (matched : matchSegment (encode p) ((encode s).drop k) = true)
    : ∃ t, t <:+ s ∧ matchSegment (encode p) (encode t) = true := by
  induction p generalizing k with
  | nil =>
      rw [encode_nil, matchSegment_nil] at matched
      exact ⟨[], List.nil_suffix, by rw [encode_nil, matchSegment_nil]; rfl⟩
  | cons x p ih =>
      rcases drop_encode s k with ⟨t, below, is⟩ | ⟨c, t, b, u, below, outside, is, inside⟩
      · exact ⟨t, below, is ▸ matched⟩
      · by_cases star : x = '*'
        · subst star
          rw [encode_ascii_cons (by decide), matchSegment_star] at matched
          obtain ⟨j, matched⟩ := matched
          rw [List.drop_drop] at matched
          obtain ⟨t', below', matched'⟩ := ih
            (fun t' below' => @Clean.star _ [] _ (clean t' below')
              fun before more is other => absurd (List.append_eq_nil_iff.mp is.symm).2 other) matched
          refine ⟨t', below', ?_⟩
          rw [encode_ascii_cons (by decide), matchSegment_star]
          exact ⟨0, matched'⟩
        · rw [is, no_match_inside (by simpa using star) outside (clean _ below).here inside] at matched
          cases matched

theorem encode_eq_nil_iff {s : List Char} : encode s = [] ↔ s = [] := by
  cases s <;> simp [String.utf8EncodeChar_ne_nil]

/-- A class compared with a character, where no defect is met. -/
theorem class_iff {p s : List Char} {c : Char} (fine : ¬ Defect ('[' :: p) (c :: s))
    : (∃ cls after, readClass p = some (cls, after)
        ∧ (matchSegment (encode ('[' :: p)) (encode (c :: s)) = true
          ↔ cls.has c ∧ matchSegment (encode after) (encode s) = true))
      ∨ readClass p = none
        ∧ (matchSegment (encode ('[' :: p)) (encode (c :: s)) = true
          ↔ c = '[' ∧ matchSegment (encode p) (encode s) = true) := by
  obtain ⟨lead, more, is, starts, -, above⟩ := encodeChar_shape c
  have split : encode (c :: s) = lead :: (more ++ encode s) := by
    rw [encode_cons, is, List.cons_append]
  rw [encode_ascii_cons (c := '[') (by decide), split]
  cases text : classText p with
  | none =>
      obtain ⟨unread, unmatched⟩ := class_unclosed text lead
      refine .inr ⟨unread, ?_⟩
      rw [matchSegment_open _ unmatched, Bool.and_eq_true, decide_eq_true_eq]
      constructor
      · rintro ⟨rfl, matched⟩
        have own : '[' = c := eq_of_mem_encodeChar (by decide) (by rw [is]; exact List.mem_cons_self)
        subst own
        obtain rfl : more = [] := (List.cons.inj is).2.symm
        exact ⟨rfl, matched⟩
      · rintro ⟨rfl, matched⟩
        obtain ⟨rfl, rfl⟩ := List.cons.inj is
        exact ⟨rfl, matched⟩
  | some inner =>
      have plainText : Plain inner := by
        by_contra odd
        exact fine ⟨inner, text, .inl odd⟩
      obtain ⟨cls, after, read, mark, small, matched⟩ := class_closed text plainText
      refine .inl ⟨cls, after, read, ?_⟩
      by_cases ascii : c.toNat < 128
      · rw [encodeChar_ascii ascii] at is
        obtain ⟨rfl, rfl⟩ := List.cons.inj is
        rw [show UInt8.ofNat c.toNat = c.toUInt8 from rfl, List.nil_append,
          matchSegment_class _ (matched _ c (stands_ascii ascii)), Bool.and_eq_true]
      · have outside : 128 ≤ c.toNat := not_lt.mp ascii
        have unmarked : (splitMark p).1 = false := by
          by_contra marked
          exact fine ⟨inner, text, .inr ⟨by simpa using marked, outside⟩⟩
        have without := has_outside (mark.trans unmarked) small outside
        rw [matchSegment_class _ (matched lead c
          (stands_above ((by decide : 128 ≤ 192).trans (above outside)) outside)), without]
        simp

/-- Where no defect is met, a segment is matched as its pattern means. -/
theorem matchSegment_iff {p s : List Char} (clean : Clean p s)
    : matchSegment (encode p) (encode s) = true ↔ Matches p s := by
  induction length : p.length using Nat.strong_induction_on generalizing p s with
  | _ n ih =>
      cases p with
      | nil =>
          rw [encode_nil, matchSegment_nil, matches_nil_iff, List.isEmpty_iff, encode_eq_nil_iff]
      | cons x p =>
          have shorter : p.length < n := by simp [← length]
          have rest {t : List Char} (single : x ≠ '*') (step : Step (x :: p, s) (p, t))
              : matchSegment (encode p) (encode t) = true ↔ Matches p t :=
            ih _ shorter (clean.step single step) rfl
          by_cases plain : special x = false
          · rw [literal_iff plain, matches_literal_iff plain]
            refine exists_congr fun t => and_congr_right fun is => ?_
            subst is
            refine rest ?_ (.literal plain)
            rintro rfl
            cases plain
          · have kinds : x = '*' ∨ x = '?' ∨ x = '[' ∨ x = '\\' := by
              by_contra none_
              simp_all [special]
            rcases kinds with rfl | rfl | rfl | rfl
            · rw [matches_star_iff]
              constructor
              · intro matched
                -- Where no end matches, the search comes to all of them.
                by_contra none_
                have below : ∀ t, t <:+ s → Clean p t := by
                  rintro t ⟨run, rfl⟩
                  refine clean.star fun before more is _ matched => none_ ⟨more ++ t, ?_, matched⟩
                  rw [is, List.append_assoc]
                  exact List.suffix_append before (more ++ t)
                rw [encode_ascii_cons (by decide), matchSegment_star] at matched
                obtain ⟨k, matched⟩ := matched
                obtain ⟨t, suffix, matched⟩ := exists_suffix_of_drop below matched
                exact none_ ⟨t, suffix, (ih _ shorter (below t suffix) rfl).mp matched⟩
              · intro matches_
                obtain ⟨run, t, rfl, matched, longest⟩ := exists_longest_suffix matches_
                rw [encode_ascii_cons (by decide), matchSegment_star]
                refine ⟨(encode run).length, ?_⟩
                rw [encode_append, List.drop_left]
                exact (ih _ shorter (clean.star longest) rfl).mpr matched
            · rw [matches_any_iff, encode_ascii_cons (by decide), matchSegment_any]
              cases s with
              | nil => simp
              | cons c s =>
                  have ascii : c.toNat < 128 := not_le.mp clean.here
                  rw [encode_ascii_cons ascii]
                  simpa using rest (by decide) (.any c)
            · cases s with
              | nil =>
                  rw [encode_ascii_cons (by decide), encode_nil, matchSegment_class_nil]
                  refine iff_of_false (by simp) fun matched => ?_
                  obtain ⟨q, t, step, -⟩ := matches_cons_iff.mp matched
                  cases step
              | cons c s =>
                  rcases class_iff clean.here with ⟨cls, after, read, is⟩ | ⟨unread, is⟩
                  · rw [is, matches_cls_iff read]
                    have later (has : cls.has c) : _ ↔ Matches after s :=
                      ih _ ((readClass_length read).trans shorter)
                        (clean.step (by decide) (.cls read has)) rfl
                    constructor
                    · rintro ⟨has, matched⟩
                      exact ⟨c, s, rfl, has, (later has).mp matched⟩
                    · rintro ⟨_, _, same, has, matched⟩
                      obtain ⟨rfl, rfl⟩ := List.cons.inj same
                      exact ⟨has, (later has).mpr matched⟩
                  · rw [is, matches_open_iff unread]
                    constructor
                    · rintro ⟨rfl, matched⟩
                      exact ⟨s, rfl, (rest (by decide) (.open_ unread)).mp matched⟩
                    · rintro ⟨_, same, matched⟩
                      obtain ⟨rfl, rfl⟩ := List.cons.inj same
                      exact ⟨rfl, (rest (by decide) (.open_ unread)).mpr matched⟩
            · cases p with
              | nil =>
                  rw [trailing_iff, matches_trailing_iff]
                  simp [matchSegment_nil, matches_nil_iff, encode_eq_nil_iff]
              | cons y p =>
                  rw [escaped_iff, matches_escaped_iff]
                  refine exists_congr fun t => and_congr_right fun is => ?_
                  subst is
                  have less : p.length < n := by
                    rw [← length, List.length_cons, List.length_cons]
                    omega
                  exact ih _ less (clean.step (by decide) (.escaped y)) rfl

-----------------------------------------------------------------------------------------
-- Paths and rules
-----------------------------------------------------------------------------------------

/-- The search for the pattern in the path never comes to a comparison of that kind. -/
def SegClean (pat path : List Segment) : Prop :=
  ∀ p q s t, ReflTransGen SegTries (pat, path) (p :: q, s :: t) → p ≠ anyDepth → Clean p s

theorem SegClean.tries {pat path q t : List Segment} (clean : SegClean pat path)
    (tries : SegTries (pat, path) (q, t))
    : SegClean q t :=
  fun _ _ _ _ reaches => clean _ _ _ _ (.head tries reaches)

theorem matchSegments_iff {pat path : List Segment} (clean : SegClean pat path)
    : matchSegments pat path = true ↔ PathMatches pat path := by
  induction pat generalizing path with
  | nil => simp [matchSegments, pathMatches_nil_iff]
  | cons p pat ih =>
      by_cases deep : p = anyDepth
      · subst deep
        rw [matchSegments.eq_def]
        dsimp only
        rw [if_pos rfl, List.any_eq_true, anyDepth, pathMatches_deep_iff]
        constructor
        · rintro ⟨skip, -, matched⟩
          by_contra none_
          have tried : SegClean pat (path.drop skip) := by
            refine clean.tries ?_
            nth_rewrite 1 [← List.take_append_drop skip path]
            refine .deep _ _ fun before more is _ matched => none_ ⟨_, ⟨before, ?_⟩, matched⟩
            rw [← List.append_assoc, ← is, List.take_append_drop]
          exact none_ ⟨_, List.drop_suffix skip path, (ih tried).mp matched⟩
        · intro matches_
          obtain ⟨run, t, rfl, matched, longest⟩ := exists_longest_suffix matches_
          refine ⟨run.length, List.mem_range.mpr (by rw [List.length_append]; omega), ?_⟩
          rw [List.drop_left]
          exact (ih (clean.tries (.deep run t longest))).mpr matched
      · rw [matchSegments.eq_def, pathMatches_one_iff deep]
        dsimp only
        rw [if_neg deep]
        cases path with
        | nil => simp
        | cons s path =>
            have own := matchSegment_iff (clean p pat s path .refl deep)
            rw [Bool.and_eq_true, own]
            constructor
            · rintro ⟨first, matched⟩
              exact ⟨s, path, rfl, first, (ih (clean.tries (.one deep first))).mp matched⟩
            · rintro ⟨_, _, same, first, matched⟩
              obtain ⟨rfl, rfl⟩ := List.cons.inj same
              exact ⟨first, (ih (clean.tries (.one deep first))).mpr matched⟩

/-- A rule matches a path when its pattern is the path's or that of a directory above it. -/
def RuleHits (rule : Rule) (path : List Segment) : Prop :=
  ∃ dir, dir ≠ [] ∧ dir <+: path ∧ PathMatches rule.segments dir

/-- What a file of rules means: the last rule that matches decides, and it excludes. -/
def Excluded (rules : List Rule) (path : List Segment) : Prop :=
  ∃ front rule back, rules = front ++ rule :: back ∧ RuleHits rule path
    ∧ rule.exception = false ∧ ∀ later ∈ back, ¬ RuleHits later path

/-- Matching the rules against the path never comes to a comparison of that kind: each rule is tried
on the directories above the path, from the root, until it matches one.
-/
def Clear (rules : List Rule) (path : List Segment) : Prop :=
  ∀ rule ∈ rules, ∀ n < path.length,
    (∀ m < n, ¬ PathMatches rule.segments (path.take (m + 1))) →
      SegClean rule.segments (path.take (n + 1))

theorem ruleHits_iff {rule : Rule} {path : List Segment}
    : RuleHits rule path
      ↔ ∃ n < path.length, PathMatches rule.segments (path.take (n + 1)) := by
  constructor
  · rintro ⟨dir, nonempty, ⟨rest, rfl⟩, matched⟩
    have positive : 0 < dir.length := List.length_pos_iff.mpr nonempty
    refine ⟨dir.length - 1, by rw [List.length_append]; omega, ?_⟩
    rwa [Nat.sub_add_cancel positive, List.take_left]
  · rintro ⟨n, inside, matched⟩
    refine ⟨_, ?_, List.take_prefix (n + 1) path, matched⟩
    rw [Ne, List.take_eq_nil_iff]
    rintro (zero | rfl)
    · omega
    · simp at inside

open Classical in
theorem hits_iff_ruleHits {rule : Rule} {path : List Segment}
    (clean : ∀ n < path.length, (∀ m < n, ¬ PathMatches rule.segments (path.take (m + 1))) →
      SegClean rule.segments (path.take (n + 1)))
    : hits rule path = true ↔ RuleHits rule path := by
  rw [hits_iff, ruleHits_iff]
  constructor
  · rintro ⟨n, inside, matched⟩
    by_contra none_
    have tried := clean n inside fun m less matched => none_ ⟨m, less.trans inside, matched⟩
    exact none_ ⟨n, inside, (matchSegments_iff tried).mp matched⟩
  · intro some_
    obtain ⟨inside, matched⟩ := Nat.find_spec some_
    have tried := clean _ inside fun m less matched =>
      Nat.find_min some_ less ⟨less.trans inside, matched⟩
    exact ⟨_, inside, (matchSegments_iff tried).mpr matched⟩

/-- The verdict is that of the last rule that hits. -/
theorem verdict_iff {path : List Segment} {excluded : Bool} {rules : List Rule}
    : verdict path excluded rules = true
      ↔ (∃ front rule back, rules = front ++ rule :: back ∧ hits rule path = true
          ∧ rule.exception = false ∧ ∀ later ∈ back, hits later path = false)
        ∨ excluded = true ∧ ∀ rule ∈ rules, hits rule path = false := by
  induction rules using List.reverseRecOn generalizing excluded with
  | nil => simp [verdict]
  | append_singleton rules rule ih =>
      have last : verdict path excluded (rules ++ [rule])
          = if hits rule path then !rule.exception else verdict path excluded rules := by
        rw [verdict, List.foldl_append, List.foldl_cons, List.foldl_nil, verdict]
      rw [last]
      cases hit : hits rule path with
      | true =>
          rw [if_pos rfl, Bool.not_eq_true']
          constructor
          · intro excludes
            exact .inl ⟨rules, rule, [], rfl, hit, excludes, by simp⟩
          · rintro (⟨front, other, back, is, -, excludes, later⟩ | ⟨-, none_⟩)
            · rcases List.eq_nil_or_concat back with rfl | ⟨back, final, rfl⟩
              · obtain ⟨-, same⟩ := List.append_inj' is rfl
                rw [(List.cons.inj same).1, excludes]
              · rw [List.concat_eq_append, ← List.cons_append, ← List.append_assoc] at is
                obtain ⟨-, same⟩ := List.append_inj' is rfl
                have missed := later final (by simp)
                rw [← (List.cons.inj same).1, hit] at missed
                cases missed
            · rw [none_ rule (by simp)] at hit
              cases hit
      | false =>
          rw [if_neg (by simp), ih]
          refine or_congr ⟨?_, ?_⟩ (and_congr_right fun _ => ?_)
          · rintro ⟨front, other, back, rfl, own, excludes, later⟩
            refine ⟨front, other, back ++ [rule], by simp, own, excludes, ?_⟩
            rw [List.forall_mem_append]
            exact ⟨later, by simpa using hit⟩
          · rintro ⟨front, other, back, is, own, excludes, later⟩
            rcases List.eq_nil_or_concat back with rfl | ⟨back, final, rfl⟩
            · obtain ⟨-, same⟩ := List.append_inj' is rfl
              rw [(List.cons.inj same).1, own] at hit
              cases hit
            · rw [List.concat_eq_append] at is later
              rw [← List.cons_append, ← List.append_assoc] at is
              obtain ⟨rfl, -⟩ := List.append_inj' is rfl
              exact ⟨front, other, back, rfl, own, excludes,
                fun before member => later before (List.mem_append_left _ member)⟩
          · rw [List.forall_mem_append]
            simp [hit]

/-- Where bytes and characters are never compared differently, what is excluded is what the file
means.
-/
theorem isExcluded_iff {text rel : List Char} (clear : Clear (parseIgnore text) (clean rel))
    : isExcluded (parseIgnore text) rel = true ↔ Excluded (parseIgnore text) (clean rel) := by
  have agrees : ∀ rule ∈ parseIgnore text,
      hits rule (clean rel) = true ↔ RuleHits rule (clean rel) :=
    fun rule member => hits_iff_ruleHits (clear rule member)
  have whole : isExcluded (parseIgnore text) rel = verdict (clean rel) false (parseIgnore text) := by
    rw [isExcluded]
    split
    case isTrue root =>
      rw [List.isEmpty_iff] at root
      symm
      rw [Bool.eq_false_iff, Ne, verdict_iff, root]
      rintro (⟨_, rule, _, -, hit, -⟩ | ⟨none_, -⟩)
      · simp [hits] at hit
      · cases none_
    case isFalse => rfl
  rw [whole, verdict_iff]
  constructor
  · rintro (⟨front, rule, back, is, hit, excludes, later⟩ | ⟨none_, -⟩)
    · refine ⟨front, rule, back, is, (agrees rule (by simp [is])).mp hit, excludes, ?_⟩
      intro other member matched
      have missed := later other member
      rw [(agrees other (by simp [is, member])).mpr matched] at missed
      cases missed
    · cases none_
  · rintro ⟨front, rule, back, is, matched, excludes, later⟩
    refine .inl ⟨front, rule, back, is, (agrees rule (by simp [is])).mpr matched, excludes, ?_⟩
    intro other member
    rw [Bool.eq_false_iff, Ne, agrees other (by simp [is, member])]
    exact later other member

theorem Clean.of_tries {p s : List Char} (fine : ¬ Defect p s)
    (next : ∀ q t, Tries (p, s) (q, t) → Clean q t)
    : Clean p s := by
  intro q t reaches
  rcases ReflTransGen.cases_head_iff.mp reaches with same | ⟨⟨q', t'⟩, tries, reaches⟩
  · cases same
    exact fine
  · exact next q' t' tries q t reaches

theorem clean_nil (s : List Char) : Clean [] s :=
  .of_tries (by simp [Defect]) fun _ _ tries => by cases tries

theorem clean_last (s : List Char) : Clean ['*'] s := by
  refine .of_tries (by simp [Defect]) fun q t tries => ?_
  cases tries with
  | star => exact clean_nil t
  | other single => exact absurd rfl single

/-- Where all of the text matches what is behind a star, no shorter end is tried. -/
theorem clean_star {p s : List Char} (whole : Matches p s) (clean : Clean p s)
    : Clean ('*' :: p) s := by
  refine .of_tries (by simp [Defect]) fun q t tries => ?_
  cases tries with
  | star run t shorter =>
      cases run with
      | nil => exact clean
      | cons c run => exact absurd whole (shorter [] (c :: run) rfl (by simp))
  | other single => exact absurd rfl single

/-- A question mark that meets no character of two bytes, for the star in front of it needs none. -/
theorem clean_accented : Clean ['*', '?', '*'] ['a', 'é'] := by
  have behind : Matches ['*'] ['é'] :=
    matches_star_iff.mpr ⟨[], List.nil_suffix, matches_nil_iff.mpr rfl⟩
  refine clean_star (matches_any_iff.mpr ⟨'a', ['é'], rfl, behind⟩) ?_
  refine .of_tries (by simp [Defect]) fun q t tries => ?_
  cases tries with
  | other _ step =>
      cases step with
      | any => exact clean_last _

theorem clean_keep : Clean "keep".toList ['a', 'é'] := by
  refine .of_tries id fun q t tries => ?_
  cases tries with
  | other _ step => cases step

theorem segClean_single {p s : Segment} (clean : Clean p s) : SegClean [p] [s] := by
  intro p' q s' t reaches single
  rcases ReflTransGen.cases_head_iff.mp reaches with same | ⟨⟨q', t'⟩, tries, reaches⟩
  · cases same
    exact clean
  · have done (path : List Segment) (tries : SegTries ([p], path) (q', t')) : q' = [] := by
      cases tries <;> rfl
    obtain rfl := done _ tries
    rcases ReflTransGen.cases_head_iff.mp reaches with same | ⟨_, tries, -⟩
    · cases same
    · cases tries

theorem isExcluded_accented
    : isExcluded (parseIgnore "*?*\n!keep".toList) "aé".toList = true
      ↔ Excluded (parseIgnore "*?*\n!keep".toList) (clean "aé".toList) := by
  refine isExcluded_iff ?_
  have rules : parseIgnore "*?*\n!keep".toList
      = [⟨[['*', '?', '*']], false⟩, ⟨["keep".toList], true⟩] := by decide
  have path : clean "aé".toList = [['a', 'é']] := by decide
  rw [rules, path]
  intro rule member n inside _
  obtain rfl : n = 0 := by simpa using inside
  simp only [List.mem_cons, List.not_mem_nil, or_false] at member
  rcases member with rfl | rfl
  · exact segClean_single clean_accented
  · exact segClean_single clean_keep

/-- A question mark is one byte: it leaves out no character of two. -/
theorem accented_name_kept
    : ¬ ∀ text rel, isExcluded (parseIgnore text) rel = true
      ↔ Excluded (parseIgnore text) (clean rel) := by
  intro all
  have rules : parseIgnore ['?'] = [⟨[['?']], false⟩] := by decide
  have path : clean ['é'] = [['é']] := by decide
  have excluded : Excluded (parseIgnore ['?']) (clean ['é']) := by
    rw [rules, path]
    refine ⟨[], _, [], rfl, ⟨[['é']], by simp, List.prefix_rfl, ?_⟩, rfl, by simp⟩
    exact .single (.one (by decide) (.single (.any 'é')))
  have kept : isExcluded (parseIgnore ['?']) ['é'] = false := by
    have bytes : encode ['é'] = [0xc3, 0xa9] := by decide
    simp [isExcluded, rules, path, hits, matchSegments, anyDepth, bytes,
      show encode ['?'] = ['?'.toUInt8] from rfl, matchSegment_any, matchSegment_nil]
  rw [(all ['?'] ['é']).mpr excluded] at kept
  cases kept

end Delonix.Build
