import Delonix.Build.DockerIgnore
import Delonix.Library.Globs

/-! The classes of a pattern, read over bytes, against what they mean over characters. The two agree
on a class of ASCII members without a backslash.
-/

namespace Delonix.Build

open Delonix.Library.Globs
open Delonix.Library.Text
open Delonix.Library.Utf8

/-- The byte compares with ASCII characters as the character does. -/
def Stands (b : UInt8) (d : Char) : Prop :=
  ∀ a : Char, a.toNat < 128 → (a.toUInt8 ≤ b ↔ a ≤ d) ∧ (b ≤ a.toUInt8 ↔ d ≤ a)

theorem toNat_toUInt8 {c : Char} (ascii : c.toNat < 128) : c.toUInt8.toNat = c.toNat :=
  toNat_byte (n := c.toNat) (by omega)

theorem le_iff_toNat {a b : Char} : a ≤ b ↔ a.toNat ≤ b.toNat := Iff.rfl

theorem stands_ascii {d : Char} (ascii : d.toNat < 128) : Stands d.toUInt8 d := by
  intro a small
  simp only [UInt8.le_iff_toNat_le, toNat_toUInt8 ascii, toNat_toUInt8 small, le_iff_toNat,
    and_self]

/-- A byte of a character outside ASCII stands for any such character. -/
theorem stands_above {b : UInt8} {d : Char} (high : 128 ≤ b.toNat) (outside : 128 ≤ d.toNat)
    : Stands b d := by
  intro a small
  simp only [UInt8.le_iff_toNat_le, toNat_toUInt8 small, le_iff_toNat]
  omega

theorem encode_ascii_cons {c : Char} (ascii : c.toNat < 128) (s : List Char)
    : encode (c :: s) = c.toUInt8 :: encode s := by
  rw [encode_cons, encodeChar_ascii ascii]
  rfl

/-- The bytes of a character outside ASCII are none of an ASCII character. -/
theorem above_of_mem_encodeChar {c : Char} {b : UInt8} (outside : 128 ≤ c.toNat)
    (member : b ∈ String.utf8EncodeChar c)
    : 128 ≤ b.toNat := by
  obtain ⟨lead, rest, is, -, continued, above⟩ := encodeChar_shape c
  rw [is] at member
  rcases List.mem_cons.mp member with rfl | later
  · exact le_trans (by decide) (above outside)
  · exact (continued b later).1

/-- A byte of an ASCII character is found where the character is. -/
theorem eq_of_mem_encodeChar {a c : Char} (ascii : a.toNat < 128)
    (member : a.toUInt8 ∈ String.utf8EncodeChar c)
    : a = c := by
  by_cases small : c.toNat < 128
  · rw [encodeChar_ascii small, List.mem_singleton] at member
    have same := congrArg UInt8.toNat member
    rw [toNat_toUInt8 ascii, toNat_byte (by omega)] at same
    exact Char.toNat_inj.mp same
  · have above := above_of_mem_encodeChar (not_lt.mp small) member
    rw [toNat_toUInt8 ascii] at above
    omega

theorem mem_encode {a : Char} {s : List Char} (ascii : a.toNat < 128)
    (member : a.toUInt8 ∈ encode s)
    : a ∈ s := by
  obtain ⟨c, inside, found⟩ := List.mem_flatMap.mp member
  exact eq_of_mem_encodeChar ascii found ▸ inside

theorem classMembers_close (c : UInt8) (found : Bool) (rest : List UInt8)
    : classMembers c false found (']'.toUInt8 :: rest) = some (found, rest) := by
  match rest with
  | [] => simp [classMembers]
  | [_] => simp [classMembers]
  | _ :: _ :: _ => simp [classMembers]

theorem classMembers_range {c lo hi : UInt8} {first found : Bool} (rest : List UInt8)
    (opened : first = false → lo ≠ ']'.toUInt8) (closed : hi ≠ ']'.toUInt8)
    : classMembers c first found (lo :: '-'.toUInt8 :: hi :: rest)
      = classMembers c false (found || (lo ≤ c && c ≤ hi)) rest := by
  rw [classMembers, if_neg (by cases first <;> simp_all), if_pos (by simpa using closed)]

theorem classMembers_single {c lo : UInt8} {first found : Bool} {rest : List UInt8}
    (opened : first = false → lo ≠ ']'.toUInt8) (more : rest ≠ [])
    (single : ∀ hi after, rest = '-'.toUInt8 :: hi :: after → hi = ']'.toUInt8)
    : classMembers c first found (lo :: rest) = classMembers c false (found || lo = c) rest := by
  match rest with
  | [] => exact absurd rfl more
  | [next] =>
      conv_lhs => rw [classMembers]
      rw [if_neg (by cases first <;> simp_all)]
  | next :: hi :: after =>
      rw [classMembers, if_neg (by cases first <;> simp_all), if_neg]
      intro range
      rw [Bool.and_eq_true, decide_eq_true_eq, decide_eq_true_eq] at range
      obtain ⟨rfl, closed⟩ := range
      exact closed (single hi after rfl)

/-- Without a closing bracket there is no class. -/
theorem classMembers_unclosed {c : UInt8} {first found : Bool} {pat : List UInt8}
    (none_ : ']'.toUInt8 ∉ if first then pat.tail else pat)
    : classMembers c first found pat = none := by
  fun_induction classMembers c first found pat with
  | case1 => rfl
  | case2 first found lo close => cases first <;> simp_all
  | case3 => rfl
  | case4 first found lo next close => cases first <;> simp_all
  | case5 first found lo next open_ ih =>
      refine ih ?_
      cases first <;> simp_all
  | case6 first found lo next hi rest close => cases first <;> simp_all
  | case7 first found lo next hi rest open_ range ih =>
      refine ih ?_
      cases first <;> simp_all
  | case8 first found lo next hi rest open_ single ih =>
      refine ih ?_
      cases first <;> simp_all

theorem items_close (rest : List Char) : items false (']' :: rest) = some ([], rest) := by
  simp [items]

theorem items_cons {first : Bool} {lo : Char} {tail rest : List Char} {range : Char × Char}
    (opened : first = false → lo ≠ ']') (read : item (lo :: tail) = some (range, rest))
    : items first (lo :: tail)
      = (items false rest).map fun (ranges, after) => (range :: ranges, after) := by
  rw [items, if_neg (by cases first <;> simp_all)]
  split
  case h_1 is =>
    rw [read] at is
    cases is
  case h_2 range' rest' is =>
    obtain ⟨rfl, rfl⟩ := Prod.mk.inj (Option.some.inj (read.symm.trans is))
    rfl

theorem member_plain {c : Char} (plain : c ≠ '\\') (rest : List Char)
    : member (c :: rest) = some (c, rest) := by
  unfold member
  split
  case h_1 same => exact absurd (List.cons.inj same).1 plain
  case h_2 same =>
    obtain ⟨rfl, rfl⟩ := List.cons.inj same
    rfl
  case h_3 same => cases same

theorem item_range {lo hi : Char} (plainLo : lo ≠ '\\') (plainHi : hi ≠ '\\') (closed : hi ≠ ']')
    (rest : List Char)
    : item (lo :: '-' :: hi :: rest) = some ((lo, hi), rest) := by
  simp [item, member_plain plainLo, member_plain plainHi, closed]

theorem item_single {lo : Char} {rest : List Char} (plain : lo ≠ '\\')
    (single : ∀ after, rest = '-' :: after → after.head? = some ']')
    : item (lo :: rest) = some ((lo, lo), rest) := by
  rw [item, member_plain plain]
  split
  case h_1 same => cases same
  case h_2 c tail same =>
    obtain ⟨rfl, rfl⟩ := Prod.mk.inj (Option.some.inj same)
    split
    case h_1 after => rw [if_pos (single after rfl)]
    case h_2 => rfl

/-- Without a closing bracket there is no class. -/
theorem items_unclosed {first : Bool} {p : List Char}
    (none_ : ']' ∉ if first then p.tail else p)
    : items first p = none := by
  fun_induction items first p with
  | case1 => rfl
  | case2 first c tail close => cases first <;> simp_all
  | case3 => rfl
  | case4 first c tail open_ range rest is ih =>
      have inside := item_suffix is
      have without : ']' ∉ tail := by cases first <;> simp_all
      rw [ih (fun found => without (inside.subset found)), Option.map_none]

/-- Nothing in the text of a class that its bytes and its characters say differently. -/
def Plain (text : List Char) : Prop := ∀ c ∈ text, c ≠ '\\' ∧ c.toNat < 128

def within (ranges : List (Char × Char)) (d : Char) : Bool :=
  ranges.any fun range => range.1 ≤ d && d ≤ range.2

/-- The byte is in a range of ASCII characters when the character it stands for is. -/
theorem inRange_eq {b : UInt8} {d lo hi : Char} (stands : Stands b d) (low : lo.toNat < 128)
    (high : hi.toNat < 128)
    : (decide (lo.toUInt8 ≤ b) && decide (b ≤ hi.toUInt8)) = (decide (lo ≤ d) && decide (d ≤ hi)) := by
  rw [decide_eq_decide.mpr (stands lo low).1, decide_eq_decide.mpr (stands hi high).2]

theorem eq_byte {b : UInt8} {d lo : Char} (stands : Stands b d) (low : lo.toNat < 128)
    : decide (lo.toUInt8 = b) = (decide (lo ≤ d) && decide (d ≤ lo)) := by
  rw [← inRange_eq stands low low, ← Bool.decide_and, decide_eq_decide]
  constructor
  · rintro rfl
    exact ⟨UInt8.le_refl _, UInt8.le_refl _⟩
  · rintro ⟨below, above⟩
    exact UInt8.le_antisymm below above

theorem toUInt8_inj {a b : Char} (small : a.toNat < 128) (small' : b.toNat < 128)
    (same : a.toUInt8 = b.toUInt8)
    : a = b := by
  have values := congrArg UInt8.toNat same
  rw [toNat_toUInt8 small, toNat_toUInt8 small'] at values
  exact Char.toNat_inj.mp values

/-- A member that starts no range is followed by something else than a dash, or by a dash in front
of the closing bracket.
-/
theorem single_cases {rest : List Char} (single : ¬ ∃ hi x, rest = '-' :: hi :: x)
    (after : List Char)
    : (∃ next tail, rest ++ ']' :: after = next :: tail ∧ next ≠ '-'
        ∧ (next = ']' ∨ next ∈ rest))
      ∨ rest = ['-'] := by
  match rest with
  | [] => exact .inl ⟨']', after, rfl, by decide, .inl rfl⟩
  | [next] =>
      by_cases dash : next = '-'
      · exact .inr (by rw [dash])
      · exact .inl ⟨next, ']' :: after, rfl, dash, .inr List.mem_cons_self⟩
  | next :: hi :: x =>
      refine .inl ⟨next, hi :: x ++ ']' :: after, rfl, ?_, .inr List.mem_cons_self⟩
      rintro rfl
      exact single ⟨hi, x, rfl⟩

/-- Up to the first closing bracket that can close it, a plain class is read over bytes as it is
over characters.
-/
theorem class_agrees {first : Bool} {text : List Char} (after : List Char) (plain : Plain text)
    (starts : first = true → text ≠ []) (inside : ']' ∉ if first then text.tail else text)
    : ∃ ranges, items first (text ++ ']' :: after) = some (ranges, after)
        ∧ (∀ range ∈ ranges, range.2.toNat < 128)
        ∧ ∀ b d, Stands b d → ∀ found, classMembers b first found (encode (text ++ ']' :: after))
          = some (found || within ranges d, encode after) := by
  induction length : text.length using Nat.strong_induction_on generalizing first text with
  | _ n ih =>
      cases text with
      | nil =>
          obtain rfl : first = false := by
            cases first with
            | false => rfl
            | true => exact absurd rfl (starts rfl)
          refine ⟨[], items_close after, by simp, fun b d stands found => ?_⟩
          rw [List.nil_append, encode_ascii_cons (by decide), classMembers_close]
          simp [within]
      | cons lo rest =>
          obtain ⟨escape, low⟩ := plain lo List.mem_cons_self
          have plainRest : Plain rest := fun c member => plain c (List.mem_cons_of_mem _ member)
          have open_ : ']' ∉ rest := by cases first <;> simp_all
          have opened : first = false → lo ≠ ']' := by
            rintro rfl rfl
            simp at inside
          have openedByte : first = false → lo.toUInt8 ≠ ']'.toUInt8 :=
            fun later same => opened later (toUInt8_inj low (by decide) same)
          by_cases range : ∃ hi x, rest = '-' :: hi :: x
          · obtain ⟨hi, x, rfl⟩ := range
            obtain ⟨escape', high⟩ := plainRest hi (by simp)
            have closed : hi ≠ ']' := by
              rintro rfl
              simp at open_
            obtain ⟨ranges, is, small, bytes⟩ := @ih x.length (by simp [← length]; omega)
              false _ (fun c member => plainRest c (by simp [member])) (by simp)
              (by simp_all) rfl
            refine ⟨(lo, hi) :: ranges, ?_, ?_, fun b d stands found => ?_⟩
            · rw [List.cons_append, List.cons_append, List.cons_append,
                items_cons opened (item_range escape escape' closed _), is]
              rfl
            · exact List.forall_mem_cons.mpr ⟨high, small⟩
            · rw [List.cons_append, List.cons_append, List.cons_append, encode_ascii_cons low,
                encode_ascii_cons (by decide), encode_ascii_cons high,
                classMembers_range _ openedByte
                  (fun same => closed (toUInt8_inj high (by decide) same)),
                bytes b d stands, inRange_eq stands low high]
              simp [within, Bool.or_assoc]
          · obtain ⟨ranges, is, small, bytes⟩ := @ih rest.length (by simp [← length])
              false _ plainRest (by simp) (by simpa using open_) rfl
            have cases_ := single_cases range after
            have single : item (lo :: (rest ++ ']' :: after))
                = some ((lo, lo), rest ++ ']' :: after) := by
              refine item_single escape fun tail same => ?_
              rcases cases_ with ⟨next, tail', is, other, -⟩ | rfl
              · exact absurd (List.cons.inj (is.symm.trans same)).1 other
              · simp at same
                simp [← same]
            refine ⟨(lo, lo) :: ranges, ?_, ?_, fun b d stands found => ?_⟩
            · rw [List.cons_append, items_cons opened single, is]
              rfl
            · exact List.forall_mem_cons.mpr ⟨low, small⟩
            · rw [List.cons_append, encode_ascii_cons low, classMembers_single openedByte,
                bytes b d stands, eq_byte stands low]
              · simp [within, Bool.or_assoc]
              · simp [encode]
              · intro hi tail same
                rcases cases_ with ⟨next, tail', is, other, from_⟩ | rfl
                · have small' : next.toNat < 128 := by
                    rcases from_ with rfl | member
                    · decide
                    · exact (plainRest next member).2
                  rw [is, encode_ascii_cons small'] at same
                  exact absurd (toUInt8_inj small' (by decide) (List.cons.inj same).1) other
                · rw [List.cons_append, List.nil_append, encode_ascii_cons (by decide),
                    encode_ascii_cons (by decide)] at same
                  exact (List.cons.inj (List.cons.inj same).2).1.symm

/-- The text of a class up to the first bracket that can close it, without the mark. -/
def classText (p : List Char) : Option (List Char) :=
  match (splitMark p).2 with
  | [] => none
  | c :: tail => (splitOnce ']' tail).map fun (before, _) => c :: before

/-- A class over bytes has the mark it has over characters. -/
theorem matchClass_encode (p : List Char) (b : UInt8)
    : matchClass (encode p) b
      = (classMembers b true false (encode (splitMark p).2)).map
        fun (found, after) => (found != (splitMark p).1, after) := by
  unfold splitMark
  split
  case h_1 rest =>
    rw [encode_ascii_cons (by decide), matchClass, if_pos (by decide)]
    simp
  case h_2 rest =>
    rw [encode_ascii_cons (by decide), matchClass, if_pos (by decide)]
    simp
  case h_3 bang caret =>
    cases p with
    | nil => rfl
    | cons c rest =>
        obtain ⟨lead, more, is, -⟩ := encodeChar_shape c
        have unmarked : ¬ (decide (lead = '!'.toUInt8) || decide (lead = '^'.toUInt8)) = true := by
          rw [Bool.or_eq_true, decide_eq_true_eq, decide_eq_true_eq]
          have own : lead ∈ String.utf8EncodeChar c := by simp [is]
          rintro (rfl | rfl)
          · exact bang rest (by rw [eq_of_mem_encodeChar (by decide) own])
          · exact caret rest (by rw [eq_of_mem_encodeChar (by decide) own])
        rw [encode_cons, is, List.cons_append, matchClass, if_neg unmarked]
        simp

theorem readClass_eq (p : List Char)
    : readClass p = (items true (splitMark p).2).map
        fun (ranges, after) => (⟨(splitMark p).1, ranges⟩, after) :=
  rfl

theorem class_unclosed {p : List Char} (unclosed : classText p = none) (b : UInt8)
    : readClass p = none ∧ matchClass (encode p) b = none := by
  rw [readClass_eq, matchClass_encode]
  cases inner : (splitMark p).2 with
  | nil => exact ⟨by rw [items]; rfl, rfl⟩
  | cons c tail =>
      have open_ : ']' ∉ tail := by
        rw [classText, inner] at unclosed
        exact not_mem_of_splitOnce_eq_none (Option.map_eq_none_iff.mp unclosed)
      refine ⟨by rw [items_unclosed (by simpa using open_), Option.map_none], ?_⟩
      rw [classMembers_unclosed, Option.map_none]
      obtain ⟨lead, more, is, -, continued, -⟩ := encodeChar_shape c
      rw [encode_cons, is, List.cons_append, if_pos rfl, List.tail_cons, List.mem_append]
      rintro (later | behind)
      · exact absurd (continued _ later).1 (by decide)
      · exact open_ (mem_encode (by decide) behind)

theorem class_closed {p text : List Char} (closed : classText p = some text) (plain : Plain text)
    : ∃ cls after, readClass p = some (cls, after) ∧ cls.negated = (splitMark p).1
        ∧ (∀ range ∈ cls.ranges, range.2.toNat < 128)
        ∧ ∀ b d, Stands b d → matchClass (encode p) b = some (cls.has d, encode after) := by
  cases inner : (splitMark p).2 with
  | nil => simp [classText, inner] at closed
  | cons c tail =>
      rw [classText, inner] at closed
      obtain ⟨⟨before, after⟩, cut, rfl⟩ := Option.map_eq_some_iff.mp closed
      obtain ⟨rfl, open_⟩ := splitOnce_eq_some cut
      have plain : Plain (c :: before) := plain
      obtain ⟨ranges, is, small, bytes⟩ := @class_agrees true _ after plain (by simp)
        (by simpa using open_)
      refine ⟨⟨(splitMark p).1, ranges⟩, after, ?_, rfl, small, fun b d stands => ?_⟩
      · rw [readClass_eq, inner, ← List.cons_append, is]
        rfl
      · rw [matchClass_encode, inner, ← List.cons_append, bytes b d stands false, Class.has, within]
        simp [bne_comm]

end Delonix.Build
