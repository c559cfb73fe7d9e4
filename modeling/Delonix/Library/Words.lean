import Delonix.Library.Text

/-! Lines of words: how a text is cut into lines and a line into words, and texts written as
words with a blank after each.
-/

namespace Delonix.Library.Words

open Delonix.Library.Text

/-- `str::split_whitespace`. -/
def splitWhitespace (s : List Char) : List (List Char) :=
  (s.splitOnP isWhitespace).filter (fun word => !word.isEmpty)

def stripCr (line : List Char) : List Char :=
  match stripSuffix ['\r'] line with
  | some front => front
  | none => line

/-- `str::lines`: the text after the last line break is a line only when it is not empty. -/
def lines (s : List Char) : List (List Char) :=
  let parts := s.splitOn '\n'
  let parts := if parts.getLast? = some [] then parts.dropLast else parts
  parts.map stripCr

/-- One word: not empty and without blanks. -/
structure IsWord (word : List Char) : Prop where
  nonempty : word ≠ []
  visible : ∀ c ∈ word, isWhitespace c = false

instance (word : List Char) : Decidable (IsWord word) :=
  decidable_of_iff ((!word.isEmpty && word.all (!isWhitespace ·)) = true)
    ⟨fun word => by
      simp only [Bool.and_eq_true, Bool.not_eq_true', List.isEmpty_eq_false_iff,
        List.all_eq_true] at word
      exact ⟨word.1, word.2⟩,
    fun word => by
      simp only [Bool.and_eq_true, Bool.not_eq_true', List.isEmpty_eq_false_iff,
        List.all_eq_true]
      exact ⟨word.nonempty, word.visible⟩⟩

theorem IsWord.append {left right : List Char} (hl : IsWord left)
    (visible : ∀ c ∈ right, isWhitespace c = false)
    : IsWord (left ++ right) where
  nonempty := by simp [hl.nonempty]
  visible c member := by
    rcases List.mem_append.mp member with inLeft | inRight
    · exact hl.visible c inLeft
    · exact visible c inRight

theorem isWord_decimal (n : Nat) : IsWord (decimal n) where
  nonempty := decimal_ne_nil n
  visible c member := by
    have digit := isDigit_toDigits member
    exact isWhitespace_eq_false_of_range (by omega) (by omega)

/-- A blank is where a text can be cut before its words are read. -/
theorem splitWhitespace_append {c : Char} (blank : isWhitespace c = true)
    (front back : List Char)
    : splitWhitespace (front ++ c :: back)
      = splitWhitespace front ++ splitWhitespace back := by
  rw [splitWhitespace, List.splitOnP_append_cons _ _ blank, List.filter_append,
    ← splitWhitespace, ← splitWhitespace]

theorem splitWhitespace_word {word : List Char} (isWord : IsWord word)
    : splitWhitespace word = [word] := by
  rw [splitWhitespace, List.splitOnP_eq_singleton isWord.visible]
  simp [isWord.nonempty]

/-- Words with a blank after each. -/
def spaced (words : List (List Char)) : List Char := words.flatMap (fun word => word ++ [' '])

theorem spaced_append (left right : List (List Char))
    : spaced (left ++ right) = spaced left ++ spaced right := by
  simp [spaced]

/-- Such a text is read as its words, by induction over them. -/
theorem splitWhitespace_spaced {words : List (List Char)} (all : ∀ word ∈ words, IsWord word)
    (rest : List Char)
    : splitWhitespace (spaced words ++ rest) = words ++ splitWhitespace rest := by
  induction words with
  | nil => rfl
  | cons word words ih =>
      have head : spaced (word :: words) ++ rest = word ++ ' ' :: (spaced words ++ rest) := by
        simp [spaced]
      rw [head, splitWhitespace_append (by decide), splitWhitespace_word (all word (by simp)),
        ih (fun other member => all other (by simp [member]))]
      rfl

theorem not_mem_spaced {words : List (List Char)} (all : ∀ word ∈ words, IsWord word) {c : Char}
    (blank : isWhitespace c = true) (other : c ≠ ' ')
    : c ∉ spaced words := by
  intro member
  obtain ⟨word, inside, member⟩ := List.mem_flatMap.mp member
  rcases List.mem_append.mp member with letter | space
  · have visible := (all word inside).visible c letter
    rw [blank] at visible
    contradiction
  · exact other (by simpa using space)

theorem splitWhitespace_stripCr (line : List Char)
    : splitWhitespace (stripCr line) = splitWhitespace line := by
  rw [stripCr]
  split
  case h_1 front found =>
    rw [stripSuffix_eq_some.mp found, splitWhitespace_append (by decide)]
    simp [splitWhitespace]
  case h_2 => rfl

/-- A text whose first and last characters can be seen has nothing to trim. -/
theorem trim_bounded {first last : Char} {inner : List Char}
    (starts : isWhitespace first = false) (ends : isWhitespace last = false)
    : trim (first :: (inner ++ [last])) = first :: (inner ++ [last]) := by
  have front : trimStart (first :: (inner ++ [last])) = first :: (inner ++ [last]) := by
    simp [trimStart, starts]
  rw [trim, front, trimEnd, ← List.cons_append]
  exact List.rdropWhile_concat_neg _ _ _ (by simp [ends])

/-- The blanks around a text are trimmed, and no more of it than alone. -/
theorem trim_padded {front core back : List Char} (before : ∀ c ∈ front, isWhitespace c = true)
    (after : ∀ c ∈ back, isWhitespace c = true) (kept : trim core = core)
    (starts : trimStart core = core) (nonempty : core ≠ [])
    : trim (front ++ core ++ back) = core := by
  have skipped : trimStart (front ++ core ++ back) = core ++ back := by
    obtain ⟨first, rest, rfl⟩ := List.exists_cons_of_ne_nil nonempty
    have visible : isWhitespace first = false := by
      by_contra blank
      have shorter := congrArg List.length starts
      have drop : trimStart (first :: rest) = trimStart rest := by
        simp [trimStart, Bool.not_eq_false _ ▸ blank]
      have suffix := (List.dropWhile_suffix isWhitespace (l := rest)).length_le
      rw [drop] at shorter
      simp only [trimStart, List.length_cons] at shorter
      omega
    rw [trimStart, List.append_assoc, List.dropWhile_append_of_pos before]
    simp [visible]
  have ended : trimEnd (core ++ back) = trimEnd core := by
    rw [trimEnd, List.rdropWhile, List.reverse_append,
      List.dropWhile_append_of_pos (by simpa using after)]
    rfl
  rw [trim, skipped, ended, ← starts, ← trim, kept, starts]

/-- A text that ends its only line, read as lines. -/
theorem lines_single {line : List Char} {last : Char} (single : '\n' ∉ line ++ [last])
    (other : last ≠ '\r')
    : lines (line ++ [last] ++ ['\n']) = [line ++ [last]] := by
  have cut : (line ++ [last] ++ ['\n']).splitOn '\n' = [line ++ [last], []] :=
    List.splitOn_append_cons_self_of_not_mem single []
  have kept : stripCr (line ++ [last]) = line ++ [last] := by
    rw [stripCr]
    split
    case h_1 front found =>
      have ends := stripSuffix_eq_some.mp found
      exact absurd (by simpa using (List.append_inj' ends rfl).2) other
    case h_2 => rfl
  rw [lines, cut]
  exact congrArg (fun front => [front]) kept

/-- The words of each line of a text. -/
def wordsOfLines (s : List Char) : List (List (List Char)) := (lines s).map splitWhitespace

theorem wordsOfLines_nil : wordsOfLines [] = [] := rfl

theorem wordsOfLines_cons {line : List Char} (single : '\n' ∉ line) (rest : List Char)
    : wordsOfLines (line ++ '\n' :: rest) = splitWhitespace line :: wordsOfLines rest := by
  have cut : (line ++ '\n' :: rest).splitOn '\n' = line :: rest.splitOn '\n' :=
    List.splitOn_append_cons_self_of_not_mem single rest
  obtain ⟨first, others, parts⟩ := List.exists_cons_of_ne_nil (List.splitOn_ne_nil '\n' rest)
  simp only [wordsOfLines, lines, cut, parts, List.getLast?_cons_cons, List.dropLast_cons_cons]
  split <;> simp [splitWhitespace_stripCr]

/-- An indented line of words is read as the words and those of what stands behind them. -/
theorem wordsOfLines_indented {words : List (List Char)} (all : ∀ word ∈ words, IsWord word)
    {tail : List Char} (single : '\n' ∉ tail) (rest : List Char)
    : wordsOfLines ('\t' :: '\t' :: (spaced words ++ tail) ++ '\n' :: rest)
      = (words ++ splitWhitespace tail) :: wordsOfLines rest := by
  have inside : '\n' ∉ '\t' :: '\t' :: (spaced words ++ tail) := by
    simp only [List.mem_cons, List.mem_append, not_or]
    exact ⟨by decide, by decide, not_mem_spaced all (by decide) (by decide), single⟩
  have skip (line : List Char) : splitWhitespace ('\t' :: line) = splitWhitespace line := by
    have cut := splitWhitespace_append (c := '\t') (by decide) [] line
    simpa [splitWhitespace] using cut
  rw [wordsOfLines_cons inside, skip, skip, splitWhitespace_spaced all]

end Delonix.Library.Words
