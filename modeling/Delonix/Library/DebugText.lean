import Delonix.Library.Text

/-! The `Debug` text of optional strings, and how a text that starts with one is cut.
Which characters are written as `\u` escapes beyond the fixed ones is a property of Unicode
tables and is left open.
-/

namespace Delonix.Library.DebugText

open Delonix.Library.Text

/-- The characters with an escape of their own, and its letter. -/
def shortEscapes : List (Char × Char) :=
  [ ('\x00', '0'), ('\t', 't'), ('\r', 'r'), ('\n', 'n'), ('"', '"'), ('\\', '\\') ]

variable (unprintable : Char → Bool)

/-- One character between the quotes. -/
def debugChar (c : Char) : List Char :=
  match shortEscapes.lookup c with
  | some letter => ['\\', letter]
  | none =>
      if unprintable c then '\\' :: 'u' :: '\x7b' :: (Nat.toDigits 16 c.toNat ++ ['\x7d'])
      else [c]

def debugString (text : String) : List Char :=
  '"' :: (text.toList.flatMap (debugChar unprintable) ++ ['"'])

def debugOption : Option String → List Char
  | none => ['N', 'o', 'n', 'e']
  | some text => ['S', 'o', 'm', 'e', '('] ++ debugString unprintable text ++ [')']

variable {unprintable}

theorem mem_shortEscapes {c letter : Char} (found : shortEscapes.lookup c = some letter)
    : (c, letter) ∈ shortEscapes := by
  obtain ⟨_, _, same⟩ := List.lookup_eq_some_iff.mp found
  rw [same.1]
  simp

/-- What a character is written as: its short escape, its code, or itself. -/
theorem debugChar_cases (unprintable : Char → Bool) (c : Char)
    : (∃ letter, (c, letter) ∈ shortEscapes ∧ debugChar unprintable c = ['\\', letter])
      ∨ debugChar unprintable c
        = '\\' :: 'u' :: '\x7b' :: (Nat.toDigits 16 c.toNat ++ ['\x7d'])
      ∨ debugChar unprintable c = [c] ∧ c ≠ '\\' ∧ c ≠ '"' ∧ c ≠ '\n' := by
  unfold debugChar
  split
  case h_1 letter found => exact .inl ⟨letter, mem_shortEscapes found, rfl⟩
  case h_2 absent =>
    refine .inr ?_
    split
    · exact .inl rfl
    · have plain : ∀ entry ∈ shortEscapes, c ≠ entry.1 := by
        intro entry member
        simpa using List.lookup_eq_none_iff.mp absent entry member
      exact .inr ⟨rfl, plain ('\\', '\\') (by simp [shortEscapes]),
        plain ('"', '"') (by simp [shortEscapes]), plain ('\n', 'n') (by simp [shortEscapes])⟩

theorem digitValue_digitChar_hex (d : Nat) (small : d < 16)
    : digitValue 16 (Nat.digitChar d) = some d := by
  interval_cases d <;> decide

theorem parseDigits_hex {max n : Nat} (small : n ≤ max)
    : parseDigits 16 max 0 (Nat.toDigits 16 n) = some n :=
  parseDigits_toDigits (by decide) digitValue_digitChar_hex small

theorem digitValue_isSome_of_parseDigits {radix max acc value : Nat} {s : List Char}
    (parsed : parseDigits radix max acc s = some value) {c : Char} (member : c ∈ s)
    : (digitValue radix c).isSome = true := by
  induction s generalizing acc with
  | nil => exact absurd member (by simp)
  | cons first rest ih =>
      simp only [parseDigits, Option.bind_eq_some_iff] at parsed
      obtain ⟨v, digit, next⟩ := parsed
      split at next
      case isTrue =>
        obtain rfl | inRest := List.mem_cons.mp member
        · simp [digit]
        · exact ih next inRest
      case isFalse => contradiction

/-- A parsed number is written in digits, behind a sign at most. -/
theorem digit_of_parseUnsigned {radix max value : Nat} {s : List Char}
    (parsed : parseUnsigned radix max s = some value) {c : Char} (member : c ∈ s)
    : c = '+' ∨ (digitValue radix c).isSome = true := by
  rw [parseUnsigned.eq_def] at parsed
  split at parsed
  case h_1 => contradiction
  case h_2 => contradiction
  case h_3 rest _ =>
    rcases List.mem_cons.mp member with sign | inside
    · exact .inl sign
    · exact .inr (digitValue_isSome_of_parseDigits parsed inside)
  case h_4 => exact .inr (digitValue_isSome_of_parseDigits parsed member)

/-- No character of a code is the brace that ends it, or a line break. -/
theorem not_mem_hex {n : Nat} {c : Char} (other : digitValue 16 c = none)
    : c ∉ Nat.toDigits 16 n := by
  intro member
  have digit := digitValue_isSome_of_parseDigits (parseDigits_hex (Nat.le_refl n)) member
  simp [other] at digit

theorem hex_injective {m n : Nat} (same : Nat.toDigits 16 m = Nat.toDigits 16 n) : m = n := by
  have low : parseDigits 16 (max m n) 0 (Nat.toDigits 16 m) = some m :=
    parseDigits_hex (by omega)
  rw [same, parseDigits_hex (by omega)] at low
  exact (Option.some.inj low).symm

/-- Texts cut at the first separator, when it is in neither front. -/
theorem append_sep_inj {sep : Char} {a b x y : List Char} (ha : sep ∉ a) (hb : sep ∉ b)
    (same : a ++ sep :: x = b ++ sep :: y)
    : a = b ∧ x = y := by
  have cut := congrArg (splitOnce sep) same
  rw [splitOnce_append x ha, splitOnce_append y hb] at cut
  simpa using cut

/-- The escape of a character can be cut off the text it starts. -/
theorem debugChar_append_inj {c d : Char} {x y : List Char}
    (same : debugChar unprintable c ++ x = debugChar unprintable d ++ y)
    : c = d ∧ x = y := by
  have letters : ∀ p ∈ shortEscapes, p.2 ≠ 'u' ∧ ∀ q ∈ shortEscapes, p.2 = q.2 → p.1 = q.1 := by
    decide
  have brace (n : Nat) : '\x7d' ∉ Nat.toDigits 16 n := not_mem_hex (by decide)
  obtain ⟨l, hl, ec⟩ | ec | ⟨ec, nc, _⟩ := debugChar_cases unprintable c
  · obtain ⟨m, hm, ed⟩ | ed | ⟨ed, nd, _⟩ := debugChar_cases unprintable d
    · simp only [ec, ed, List.cons_append, List.nil_append, List.cons.injEq, true_and] at same
      exact ⟨(letters _ hl).2 _ hm same.1, same.2⟩
    · simp only [ec, ed, List.cons_append, List.nil_append, List.cons.injEq, true_and] at same
      exact ((letters _ hl).1 same.1).elim
    · simp only [ec, ed, List.cons_append, List.nil_append, List.cons.injEq] at same
      exact (nd same.1.symm).elim
  · obtain ⟨m, hm, ed⟩ | ed | ⟨ed, nd, _⟩ := debugChar_cases unprintable d
    · simp only [ec, ed, List.cons_append, List.nil_append, List.cons.injEq, true_and] at same
      exact ((letters _ hm).1 same.1.symm).elim
    · simp only [ec, ed, List.cons_append, List.append_assoc, List.nil_append, List.cons.injEq,
        true_and] at same
      obtain ⟨code, rest⟩ := append_sep_inj (brace _) (brace _) same
      exact ⟨Char.toNat_inj.mp (hex_injective code), rest⟩
    · simp only [ec, ed, List.cons_append, List.nil_append, List.cons.injEq] at same
      exact (nd same.1.symm).elim
  · obtain ⟨m, hm, ed⟩ | ed | ⟨ed, nd, _⟩ := debugChar_cases unprintable d
    · simp only [ec, ed, List.cons_append, List.nil_append, List.cons.injEq] at same
      exact (nc same.1).elim
    · simp only [ec, ed, List.cons_append, List.nil_append, List.cons.injEq] at same
      exact (nc same.1).elim
    · simpa [ec, ed] using same

/-- No escape starts with the quote that closes a string. -/
theorem quote_ne_debugChar (c : Char) (x y : List Char)
    : '"' :: x ≠ debugChar unprintable c ++ y := by
  obtain ⟨l, _, ec⟩ | ec | ⟨ec, _, quote, _⟩ := debugChar_cases unprintable c
  · simp [ec]
  · simp [ec]
  · simp [ec, Ne.symm quote]

/-- The text of an optional string can be cut off the text it starts. -/
theorem debugOption_append_inj {s t : Option String} {x y : List Char}
    (same : debugOption unprintable s ++ x = debugOption unprintable t ++ y)
    : s = t ∧ x = y := by
  cases s with
  | none =>
      cases t with
      | none => exact ⟨rfl, List.append_cancel_left same⟩
      | some text => simp [debugOption] at same
  | some text =>
      cases t with
      | none => simp [debugOption] at same
      | some other =>
          simp only [debugOption, debugString, List.append_assoc, List.cons_append,
            List.nil_append, List.cons.injEq, true_and] at same
          obtain ⟨texts, rest⟩ := flatMap_append_inj debugChar_append_inj quote_ne_debugChar same
          exact ⟨congrArg some (String.toList_inj.mp texts), by simpa using rest⟩

theorem newline_not_mem_debugChar (c : Char) : '\n' ∉ debugChar unprintable c := by
  have letters : ∀ p ∈ shortEscapes, '\n' ≠ p.2 := by decide
  have code : '\n' ∉ Nat.toDigits 16 c.toNat := not_mem_hex (by decide)
  obtain ⟨l, hl, ec⟩ | ec | ⟨ec, _, _, line⟩ := debugChar_cases unprintable c
  · simpa [ec] using letters _ hl
  · simp [ec, code]
  · simpa [ec] using Ne.symm line

/-- The text of an optional string is one line. -/
theorem newline_not_mem_debugOption (value : Option String)
    : '\n' ∉ debugOption unprintable value := by
  cases value with
  | none => simp [debugOption]
  | some text =>
      simp [debugOption, debugString, newline_not_mem_debugChar]

end Delonix.Library.DebugText
