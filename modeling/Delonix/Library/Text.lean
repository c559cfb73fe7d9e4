import Mathlib.Data.List.DropRight
import Mathlib.Tactic.Common
import Mathlib.Tactic.IntervalCases

/-! Text primitives of the host language, on lists of characters.
Splitting, trimming and the unsigned integer parsers follow the documented behaviour of
the standard library: a sign `+` is accepted, leading zeros are accepted, and a value
above the type's maximum is refused.
-/

namespace Delonix.Library.Text

/-- The Unicode `White_Space` property, which trimming removes from both ends. -/
def isWhitespace (c : Char) : Bool :=
  let n := c.toNat
  (9 ≤ n && n ≤ 13) || n == 0x20 || n == 0x85 || n == 0xA0 || n == 0x1680
    || (0x2000 ≤ n && n ≤ 0x200A) || n == 0x2028 || n == 0x2029 || n == 0x202F
    || n == 0x205F || n == 0x3000

/-- The Unicode control characters. -/
def isControl (c : Char) : Bool := c.toNat < 32 || (127 ≤ c.toNat && c.toNat < 160)

def trimStart (s : List Char) : List Char := s.dropWhile isWhitespace

def trimEnd (s : List Char) : List Char := s.rdropWhile isWhitespace

def trim (s : List Char) : List Char := trimEnd (trimStart s)

/-- Both sides of the first separator, or nothing when there is none. -/
def splitOnce (sep : Char) : List Char → Option (List Char × List Char)
  | [] => none
  | c :: rest =>
      if c = sep then some ([], rest)
      else (splitOnce sep rest).map (fun (before, after) => (c :: before, after))

theorem splitOnce_append {sep : Char} {before : List Char} (after : List Char)
    (absent : sep ∉ before)
    : splitOnce sep (before ++ sep :: after) = some (before, after) := by
  induction before with
  | nil => simp [splitOnce]
  | cons c rest ih =>
      simp only [List.mem_cons, not_or] at absent
      simp [splitOnce, Ne.symm absent.1, ih absent.2]

theorem splitOnce_eq_none {sep : Char} {s : List Char} (absent : sep ∉ s)
    : splitOnce sep s = none := by
  induction s with
  | nil => rfl
  | cons c rest ih =>
      simp only [List.mem_cons, not_or] at absent
      simp [splitOnce, Ne.symm absent.1, ih absent.2]

theorem splitOnce_eq_some {sep : Char} {s before after : List Char}
    (found : splitOnce sep s = some (before, after))
    : s = before ++ sep :: after ∧ sep ∉ before := by
  induction s generalizing before with
  | nil => simp [splitOnce] at found
  | cons c rest ih =>
      simp only [splitOnce] at found
      split at found
      case isTrue same =>
        obtain ⟨rfl, rfl⟩ := Prod.mk.inj (Option.some.inj found)
        simp [same]
      case isFalse differs =>
        obtain ⟨⟨front, back⟩, inner, outer⟩ := Option.map_eq_some_iff.mp found
        obtain ⟨rfl, rfl⟩ := Prod.mk.inj outer
        obtain ⟨rfl, absent⟩ := ih inner
        exact ⟨rfl, by simp [Ne.symm differs, absent]⟩

theorem not_mem_of_splitOnce_eq_none {sep : Char} {s : List Char}
    (none : splitOnce sep s = none)
    : sep ∉ s := by
  intro member
  obtain ⟨before, after, rfl, absent⟩ := List.eq_append_cons_of_mem member
  rw [splitOnce_append after absent] at none
  contradiction

/-- Both sides of the last separator, or nothing when there is none. -/
def rsplitOnce (sep : Char) (s : List Char) : Option (List Char × List Char) :=
  (splitOnce sep s.reverse).map (fun (after, before) => (before.reverse, after.reverse))

theorem rsplitOnce_append {sep : Char} (before : List Char) {after : List Char}
    (absent : sep ∉ after)
    : rsplitOnce sep (before ++ sep :: after) = some (before, after) := by
  have turned : (before ++ sep :: after).reverse = after.reverse ++ sep :: before.reverse := by
    simp
  rw [rsplitOnce, turned, splitOnce_append _ (by simpa using absent)]
  simp

theorem rsplitOnce_eq_some {sep : Char} {s before after : List Char}
    (found : rsplitOnce sep s = some (before, after))
    : s = before ++ sep :: after ∧ sep ∉ after := by
  obtain ⟨⟨back, front⟩, inner, outer⟩ := Option.map_eq_some_iff.mp found
  obtain ⟨rfl, rfl⟩ := Prod.mk.inj outer
  obtain ⟨turned, absent⟩ := splitOnce_eq_some inner
  refine ⟨?_, by simpa using absent⟩
  have straight := congrArg List.reverse turned
  simpa using straight

theorem rsplitOnce_eq_none {sep : Char} {s : List Char} (absent : sep ∉ s)
    : rsplitOnce sep s = none := by
  rw [rsplitOnce, splitOnce_eq_none (by simpa using absent), Option.map_none]

/-- What remains after the given start, when the text begins with it. -/
def stripStart (start s : List Char) : Option (List Char) :=
  if start.isPrefixOf s then some (s.drop start.length) else none

theorem stripStart_eq_some {start s rest : List Char}
    : stripStart start s = some rest ↔ s = start ++ rest := by
  rw [stripStart]
  split
  case isTrue begins =>
    obtain ⟨rest', rfl⟩ := List.isPrefixOf_iff_prefix.mp begins
    simp [eq_comm]
  case isFalse other =>
    constructor
    · intro found
      contradiction
    · rintro rfl
      exact absurd (List.isPrefixOf_iff_prefix.mpr (List.prefix_append _ _)) other

/-- What stands before and after the first occurrence of a text in another. -/
def cutAt (part : List Char) (s : List Char) : Option (List Char × List Char) :=
  match stripStart part s with
  | some after => some ([], after)
  | none =>
      match s with
      | [] => none
      | c :: rest => (cutAt part rest).map (fun (before, after) => (c :: before, after))

/-- A text is found behind one that lacks a character of it, unless the character stands
earlier in it: no occurrence can begin before and reach the character.
-/
theorem cutAt_append {front back before : List Char} {c : Char} (after : List Char)
    (first : c ∉ front) (absent : c ∉ before)
    : cutAt (front ++ c :: back) (before ++ (front ++ c :: back) ++ after)
      = some (before, after) := by
  induction before with
  | nil =>
      have here : stripStart (front ++ c :: back) (front ++ c :: back ++ after) = some after :=
        stripStart_eq_some.mpr rfl
      rw [List.nil_append, cutAt.eq_def, here]
  | cons x xs ih =>
      have later := ih (fun member => absent (List.mem_cons_of_mem x member))
      have notHere : stripStart (front ++ c :: back) (x :: xs ++ (front ++ c :: back) ++ after)
          = none := by
        rw [Option.eq_none_iff_forall_ne_some]
        intro rest found
        have same := stripStart_eq_some.mp found
        have early : c ∉ x :: xs ++ front := by
          rw [List.mem_append, not_or]
          exact ⟨absent, first⟩
        have cut := splitOnce_append (back ++ after) early
        have shape : (x :: xs ++ front) ++ c :: (back ++ after)
            = front ++ c :: (back ++ rest) := by
          simpa [List.append_assoc] using same
        rw [shape, splitOnce_append _ first] at cut
        have length := congrArg (fun found => found.map (·.1.length)) cut
        simp at length
        omega
      rw [cutAt.eq_def, notHere]
      simp only [List.cons_append, later, Option.map_some]

/-- A text is not in another that lacks one of its characters. -/
theorem cutAt_eq_none {part s : List Char} {c : Char} (member : c ∈ part) (absent : c ∉ s)
    : cutAt part s = none := by
  have notHere {s : List Char} (absent : c ∉ s) : stripStart part s = none := by
    rw [Option.eq_none_iff_forall_ne_some]
    intro rest found
    rw [stripStart_eq_some.mp found] at absent
    exact absent (List.mem_append_left rest member)
  induction s with
  | nil => rw [cutAt.eq_def, notHere absent]
  | cons x xs ih =>
      rw [cutAt.eq_def, notHere absent]
      simp only [ih fun later => absent (List.mem_cons_of_mem x later), Option.map_none]

/-- What remains after the suffix, when the text ends in it. -/
def stripSuffix (suffix s : List Char) : Option (List Char) :=
  if suffix.isSuffixOf s then some (s.take (s.length - suffix.length)) else none

theorem stripSuffix_eq_some {suffix s front : List Char}
    : stripSuffix suffix s = some front ↔ s = front ++ suffix := by
  rw [stripSuffix]
  split
  case isTrue ends =>
    obtain ⟨front', rfl⟩ := List.isSuffixOf_iff_suffix.mp ends
    simp [eq_comm]
  case isFalse other =>
    constructor
    · intro found
      contradiction
    · rintro rfl
      exact absurd (List.isSuffixOf_iff_suffix.mpr (List.suffix_append _ _)) other

/-- Two texts that agree agree after their last separator. -/
theorem after_last_separator {sep : Char} {front back front' back' : List Char}
    (same : front ++ sep :: back = front' ++ sep :: back') (absent : sep ∉ back)
    (absent' : sep ∉ back')
    : back = back' := by
  rcases List.append_eq_append_iff.mp same with ⟨gap, _, rest⟩ | ⟨gap, _, rest⟩
  · cases gap with
    | nil => exact (List.cons.inj rest).2
    | cons c gap =>
        have tail := (List.cons.inj rest).2
        exact absurd (by simp [tail]) absent
  · cases gap with
    | nil => exact ((List.cons.inj rest).2).symm
    | cons c gap =>
        have tail := (List.cons.inj rest).2
        exact absurd (by simp [tail]) absent'

/-- A text with one separator is cut in one way. -/
theorem eq_of_one_separator {sep : Char} {front back front' back' : List Char}
    (same : front ++ sep :: back = front' ++ sep :: back') (absent : sep ∉ front)
    (absent' : sep ∉ back)
    : front = front' ∧ back = back' := by
  have once := congrArg (List.count sep) same
  simp only [List.count_append, List.count_cons_self, List.count_eq_zero.mpr absent,
    List.count_eq_zero.mpr absent'] at once
  have absent'' : sep ∉ back' := List.count_eq_zero.mp (by omega)
  obtain rfl := after_last_separator same absent' absent''
  exact ⟨List.append_cancel_right same, rfl⟩

/-- A text with more than one separator is cut in more than one way. -/
theorem exists_other_cut {sep : Char} {front back : List Char}
    (again : ¬ (sep ∉ front ∧ sep ∉ back))
    : ∃ front' back', front' ++ sep :: back' = front ++ sep :: back ∧ back' ≠ back := by
  by_cases member : sep ∈ front
  · obtain ⟨before, after, rfl⟩ := List.append_of_mem member
    refine ⟨before, after ++ sep :: back, by simp, ?_⟩
    intro same
    have longer := congrArg List.length same
    simp only [List.length_append, List.length_cons] at longer
    omega
  · have member : sep ∈ back := by simpa [member] using again
    obtain ⟨before, after, rfl⟩ := List.append_of_mem member
    refine ⟨front ++ sep :: before, after, by simp, ?_⟩
    intro same
    have longer := congrArg List.length same
    simp only [List.length_append, List.length_cons] at longer
    omega

/-- Trimming changes nothing when both ends are visible characters. -/
theorem trim_eq_self {s : List Char} (visible : ∀ c ∈ s, isWhitespace c = false)
    : trim s = s := by
  have start : trimStart s = s := by
    cases s with
    | nil => rfl
    | cons c rest => simp [trimStart, visible c (by simp)]
  rw [trim, start, trimEnd, List.rdropWhile_eq_self_iff]
  intro nonempty
  simp [visible _ (List.getLast_mem nonempty)]

theorem trimStart_spec (s : List Char)
    : ∃ blank, s = blank ++ trimStart s ∧ ∀ c ∈ blank, isWhitespace c = true :=
  ⟨s.takeWhile isWhitespace, List.takeWhile_append_dropWhile.symm,
    fun _ member => List.mem_takeWhile_imp member⟩

theorem trimEnd_spec (s : List Char)
    : ∃ blank, s = trimEnd s ++ blank ∧ ∀ c ∈ blank, isWhitespace c = true :=
  ⟨s.rtakeWhile isWhitespace, List.rdropWhile_append_rtakeWhile.symm,
    fun _ member => List.mem_rtakeWhile_imp member⟩

theorem trimEnd_trim (s : List Char) : trimEnd (trim s) = trim s :=
  List.rdropWhile_idempotent _ _

/-- What is left after trimming the end still begins with a visible character. -/
theorem trimStart_trim (s : List Char) : trimStart (trim s) = trim s := by
  obtain ⟨blank, is, -⟩ := trimEnd_spec (trimStart s)
  cases starts : trim s with
  | nil => rfl
  | cons c rest =>
      have head := List.head?_dropWhile_not isWhitespace s
      rw [← trimStart, is, ← trim, starts] at head
      simp only [List.cons_append, List.head?_cons] at head
      simp [trimStart, head]

theorem trim_trim (s : List Char) : trim (trim s) = trim s := by
  rw [trim, trimStart_trim, trimEnd_trim]

/-- A text of escaped characters can be cut at the mark that ends it. -/
theorem flatMap_append_inj {escape : Char → List Char} {close : Char}
    (cut : ∀ {c d : Char} {x y : List Char}, escape c ++ x = escape d ++ y → c = d ∧ x = y)
    (closes : ∀ (c : Char) (x y : List Char), close :: x ≠ escape c ++ y)
    {s t x y : List Char}
    (same : s.flatMap escape ++ close :: x = t.flatMap escape ++ close :: y)
    : s = t ∧ x = y := by
  induction s generalizing t with
  | nil =>
      cases t with
      | nil => simpa using same
      | cons d rest =>
          simp only [List.flatMap_nil, List.nil_append, List.flatMap_cons, List.append_assoc]
            at same
          exact (closes d _ _ same).elim
  | cons c rest ih =>
      cases t with
      | nil =>
          simp only [List.flatMap_nil, List.nil_append, List.flatMap_cons, List.append_assoc]
            at same
          exact (closes c _ _ same.symm).elim
      | cons d others =>
          simp only [List.flatMap_cons, List.append_assoc] at same
          obtain ⟨rfl, tails⟩ := cut same
          obtain ⟨rfl, after⟩ := ih tails
          exact ⟨rfl, after⟩

/-- The value of one digit in the given radix (at most 36), letters in either case. -/
def digitValue (radix : Nat) (c : Char) : Option Nat :=
  let n := c.toNat
  let value :=
    if 48 ≤ n && n ≤ 57 then some (n - 48)
    else if 97 ≤ n && n ≤ 122 then some (n - 87)
    else if 65 ≤ n && n ≤ 90 then some (n - 55)
    else none
  value.filter (fun v => v < radix)

/-- The digit loop of `from_str_radix`: stops at the first bad digit and at the first
partial value above `max`.
-/
def parseDigits (radix max : Nat) : Nat → List Char → Option Nat
  | acc, [] => some acc
  | acc, c :: rest =>
      (digitValue radix c).bind (fun v =>
        let next := acc * radix + v
        if next ≤ max then parseDigits radix max next rest else none)

/-- `from_str_radix` of an unsigned type with maximum `max`. -/
def parseUnsigned (radix max : Nat) (s : List Char) : Option Nat :=
  match s with
  | [] => none
  | ['+'] => none
  | '+' :: rest => parseDigits radix max 0 rest
  | digits => parseDigits radix max 0 digits

theorem parseDigits_append (radix max acc : Nat) (s t : List Char)
    : parseDigits radix max acc (s ++ t)
      = (parseDigits radix max acc s).bind (fun value => parseDigits radix max value t) := by
  induction s generalizing acc with
  | nil => simp [parseDigits]
  | cons c rest ih =>
      simp only [List.cons_append, parseDigits]
      cases digitValue radix c with
      | none => rfl
      | some v =>
          simp only [Option.bind_some]
          split
          · exact ih _
          · rfl

/-- The canonical decimal spelling of a number: no sign and no leading zero. -/
abbrev decimal (n : Nat) : List Char := Nat.toDigits 10 n

theorem decimal_inj {m n : Nat} (same : decimal m = decimal n) : m = n := by
  have values := congrArg (fun digits => Nat.ofDigitChars 10 digits 0) same
  simpa [decimal] using values

theorem toList_toString (n : Nat) : (toString n).toList = decimal n := by
  rw [Nat.toString_eq_repr, Nat.toList_repr]

theorem digitValue_digitChar {d : Nat} (h : d < 10)
    : digitValue 10 (Nat.digitChar d) = some d := by
  interval_cases d <;> decide

theorem isDigit_toDigits {n : Nat} {c : Char} (member : c ∈ decimal n)
    : 48 ≤ c.toNat ∧ c.toNat ≤ 57 := by
  have digit := Nat.isDigit_of_mem_toDigits (by decide) (by decide) member
  simpa [Char.isDigit, UInt32.le_iff_toNat_le] using digit

theorem decimal_ne_nil (n : Nat) : decimal n ≠ [] := by simp

/-- The digit loop reads back the digits of a number, by induction over them. -/
theorem parseDigits_toDigits {radix max n : Nat} (two : 1 < radix)
    (values : ∀ d < radix, digitValue radix (Nat.digitChar d) = some d) (small : n ≤ max)
    : parseDigits radix max 0 (Nat.toDigits radix n) = some n := by
  induction n using Nat.strongRecOn with
  | ind n ih =>
      rw [Nat.toDigits_eq_if two]
      split
      case isTrue h => simp [parseDigits, values n h, small]
      case isFalse h =>
        have smaller : n / radix < n := Nat.div_lt_self (by omega) two
        rw [parseDigits_append, ih (n / radix) smaller (by omega)]
        have value : n / radix * radix + n % radix = n := Nat.div_add_mod' n radix
        simp [parseDigits, values (n % radix) (Nat.mod_lt n (by omega)), value, small]

theorem parseDigits_decimal {max n : Nat} (small : n ≤ max)
    : parseDigits 10 max 0 (decimal n) = some n :=
  parseDigits_toDigits (by decide) (fun _ => digitValue_digitChar) small

/-- Printing and parsing back an unsigned number is the identity. -/
theorem parseUnsigned_decimal {max n : Nat} (small : n ≤ max)
    : parseUnsigned 10 max (decimal n) = some n := by
  have parsed := parseDigits_decimal small
  unfold parseUnsigned
  split
  case h_1 empty => exact (decimal_ne_nil n empty).elim
  case h_2 plus =>
    have digit := isDigit_toDigits (n := n) (c := '+') (by simp [plus])
    exact absurd digit.1 (by decide)
  case h_3 rest plus =>
    have digit := isDigit_toDigits (n := n) (c := '+') (by simp [plus])
    exact absurd digit.1 (by decide)
  case h_4 => exact parsed

/-- A decimal spelling contains no character outside `0` to `9`. -/
theorem not_mem_decimal {n : Nat} {c : Char} (other : c.toNat < 48 ∨ 57 < c.toNat)
    : c ∉ decimal n := by
  intro member
  have digit := isDigit_toDigits member
  omega

/-- The lowercase mapping of ASCII changes only its capital letters. -/
theorem toLower_eq_self {c : Char} (outside : c.toNat < 65 ∨ 90 < c.toNat) : c.toLower = c := by
  refine dif_neg ?_
  rintro ⟨low, high⟩
  have low : 65 ≤ c.toNat := UInt32.le_iff_toNat_le.mp low
  have high : c.toNat ≤ 90 := UInt32.le_iff_toNat_le.mp high
  omega

theorem lawfulBEq : LawfulBEq (List Char) := inferInstance

theorem isAlphanum_iff {c : Char}
    : c.isAlphanum = true ↔ (65 ≤ c.toNat ∧ c.toNat ≤ 90 ∨ 97 ≤ c.toNat ∧ c.toNat ≤ 122)
        ∨ 48 ≤ c.toNat ∧ c.toNat ≤ 57 := by
  have spelled : c.isAlphanum = ((decide (c.val ≥ 65 ∧ c.val ≤ 90)
      || decide (c.val ≥ 97) && decide (c.val ≤ 122))
      || decide (c.val ≥ 48) && decide (c.val ≤ 57)) := rfl
  simp only [spelled, Bool.or_eq_true, Bool.and_eq_true, decide_eq_true_eq, ge_iff_le,
    UInt32.le_iff_toNat_le]
  exact Iff.rfl

theorem isAlphanum_of_isUpper {c : Char} (upper : c.isUpper = true) : c.isAlphanum = true := by
  have spelled : c.isAlphanum = (c.isUpper || c.isLower || c.isDigit) := rfl
  rw [spelled, upper, Bool.true_or, Bool.true_or]

theorem isAlphanum_of_isLower {c : Char} (lower : c.isLower = true) : c.isAlphanum = true := by
  have spelled : c.isAlphanum = (c.isUpper || c.isLower || c.isDigit) := rfl
  rw [spelled, lower, Bool.or_true, Bool.true_or]

theorem isAlphanum_of_isDigit {c : Char} (digit : c.isDigit = true) : c.isAlphanum = true := by
  have spelled : c.isAlphanum = (c.isUpper || c.isLower || c.isDigit) := rfl
  rw [spelled, digit, Bool.or_true]

theorem isWhitespace_eq_false_of_range {c : Char} (low : 33 ≤ c.toNat) (high : c.toNat < 127)
    : isWhitespace c = false := by
  simp only [isWhitespace, Bool.or_eq_false_iff, Bool.and_eq_false_iff, beq_eq_false_iff_ne,
    decide_eq_false_iff_not]
  omega

end Delonix.Library.Text
