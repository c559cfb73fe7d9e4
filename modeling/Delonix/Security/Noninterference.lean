import Delonix.Security.Redact

/-! What a redacted text tells of a value under a sensitive key: how the value is dressed, and
nothing else. The key pass is the only one that sees the value, and it works line by line, so
two texts that differ in such a value are one text from there on.
-/

namespace Delonix.Security

open Delonix.Library.Text

/-- A text in which one line has a key and a value, the value left open. -/
structure Keyed where
  above : List (List Char)
  key : List Char
  sep : Char
  below : List (List Char)

/-- The lines are lines, the key ends at the first separator of its line and is sensitive. -/
structure Keyed.Sensitive (text : Keyed) : Prop where
  above : ∀ line ∈ text.above, '\n' ∉ line
  below : ∀ line ∈ text.below, '\n' ∉ line
  keyLine : '\n' ∉ text.key
  keyEnds : ∀ c ∈ text.key, isSeparator c = false
  separated : isSeparator text.sep = true
  secret : isSensitiveKey text.key = true

def Keyed.line (text : Keyed) (value : List Char) : List Char := text.key ++ text.sep :: value

def Keyed.lines (text : Keyed) (value : List Char) : List (List Char) :=
  text.above ++ text.line value :: text.below

def Keyed.withValue (text : Keyed) (value : List Char) : String :=
  String.ofList (['\n'].intercalate (text.lines value))

/-- What redaction keeps of a value: a leading space, quotes, and a trailing comma. -/
structure SameDress (left right : List Char) : Prop where
  lead : left.head? = some ' ' ↔ right.head? = some ' '
  quoted : isQuoted (bodyAndTail left).1 = isQuoted (bodyAndTail right).1
  comma : (bodyAndTail left).2 = (bodyAndTail right).2

/-- There is something in the value besides blanks and one trailing comma. -/
def IsFilled (value : List Char) : Prop := (bodyAndTail value).1 ≠ []

instance (value : List Char) : Decidable (IsFilled value) :=
  inferInstanceAs (Decidable ((bodyAndTail value).1 ≠ []))

theorem span_line {text : Keyed} (is : text.Sensitive) (value : List Char)
    : (text.line value).span (!isSeparator ·) = (text.key, text.sep :: value) := by
  have stops : List.takeWhile (!isSeparator ·) (text.key ++ text.sep :: value) = text.key := by
    rw [List.takeWhile_append_of_pos]
    · simp [is.separated]
    · intro c member
      simp [is.keyEnds c member]
  have rest : List.dropWhile (!isSeparator ·) (text.key ++ text.sep :: value)
      = text.sep :: value := by
    rw [List.dropWhile_append_of_pos]
    · simp [is.separated]
    · intro c member
      simp [is.keyEnds c member]
  rw [Keyed.line, List.span_eq_takeWhile_dropWhile, stops, rest]

/-- The masked line says only how the value was dressed. -/
theorem redactLineByKey_line {text : Keyed} (is : text.Sensitive) {value : List Char}
    (filled : IsFilled value)
    : redactLineByKey (text.line value)
      = text.key ++ text.sep :: (if value.head? == some ' ' then [' '] else [])
        ++ (if isQuoted (bodyAndTail value).1 then '"' :: mask ++ ['"'] else mask)
        ++ (bodyAndTail value).2 := by
  have kept : (bodyAndTail value).1.isEmpty = false :=
    List.isEmpty_eq_false_iff.mpr filled
  rw [redactLineByKey, span_line is]
  simp only [is.secret, if_true, kept]
  split <;> simp

theorem redactLineByKey_eq {text : Keyed} (is : text.Sensitive) {left right : List Char}
    (left_filled : IsFilled left) (right_filled : IsFilled right)
    (dressed : SameDress left right)
    : redactLineByKey (text.line left) = redactLineByKey (text.line right) := by
  have lead : (left.head? == some ' ') = (right.head? == some ' ') := by
    rw [Bool.eq_iff_iff, beq_iff_eq, beq_iff_eq]
    exact dressed.lead
  rw [redactLineByKey_line is left_filled, redactLineByKey_line is right_filled, lead,
    dressed.quoted, dressed.comma]

theorem splitOn_withValue {text : Keyed} (is : text.Sensitive) {value : List Char}
    (oneLine : '\n' ∉ value)
    : (text.withValue value).toList.splitOn '\n' = text.lines value := by
  have break_free : ∀ line ∈ text.lines value, '\n' ∉ line := by
    intro line member
    rcases List.mem_append.mp member with above | rest
    · exact is.above line above
    rcases List.mem_cons.mp rest with rfl | below
    · have sep : '\n' ≠ text.sep := by
        intro same
        have separated := is.separated
        rw [← same] at separated
        exact absurd separated (by decide)
      simp [Keyed.line, is.keyLine, sep, oneLine]
    · exact is.below line below
  rw [Keyed.withValue, String.toList_ofList]
  exact List.splitOn_intercalate _ break_free (by simp [Keyed.lines])

/-- The text after the key pass, where nothing is cut. -/
theorem redactText_withValue {text : Keyed} (is : text.Sensitive) {value : List Char}
    (oneLine : '\n' ∉ value) (fits : utf8Len (text.withValue value).toList ≤ maxInput)
    : redactText (text.withValue value)
      = String.ofList (maskTokenShapes (maskPemBlocks (['\n'].intercalate
        (text.above.map redactLineByKey
          ++ redactLineByKey (text.line value) :: text.below.map redactLineByKey)))) := by
  rw [redactText, truncateOnBoundary, if_pos fits]
  simp only [splitOn_withValue is oneLine, Keyed.lines, List.map_append, List.map_cons,
    Bool.false_eq_true, if_false]

/-- Two values under one sensitive key, dressed alike and each with something in it, leave the
same redacted text.
-/
theorem redactText_eq_of_sameDress {text : Keyed} (is : text.Sensitive)
    (left right : List Char) (left_line : '\n' ∉ left) (right_line : '\n' ∉ right)
    (left_fits : utf8Len (text.withValue left).toList ≤ maxInput)
    (right_fits : utf8Len (text.withValue right).toList ≤ maxInput)
    (left_filled : IsFilled left) (right_filled : IsFilled right)
    (dressed : SameDress left right)
    : redactText (text.withValue left) = redactText (text.withValue right) := by
  rw [redactText_withValue is left_line left_fits, redactText_withValue is right_line right_fits,
    redactLineByKey_eq is left_filled right_filled dressed]

def passwordLine : Keyed := ⟨["id: 7".toList], "password".toList, ':', []⟩

theorem passwordLine_sensitive : passwordLine.Sensitive where
  above := by decide
  below := by decide
  keyLine := by decide
  keyEnds := by
    have none : passwordLine.key.all (fun c => !isSeparator c) := by decide
    simpa using none
  separated := by decide
  secret := by decide

theorem redactText_passwords
    : redactText (passwordLine.withValue " hunter2".toList)
      = redactText (passwordLine.withValue " s3cr3t!".toList) :=
  redactText_eq_of_sameDress passwordLine_sensitive " hunter2".toList " s3cr3t!".toList
    (by decide) (by decide) (by decide) (by decide) (by decide) (by decide)
    ⟨by decide, by decide, by decide⟩

example : redactText (passwordLine.withValue " hunter2".toList)
    = "id: 7\npassword: [redacted]" := by
  decide

/-- A value of one space is not empty, but it is an empty field and left as it is. -/
theorem blank_value_shows
    : passwordLine.Sensitive ∧ " ".toList ≠ [] ∧ " x".toList ≠ []
      ∧ '\n' ∉ " ".toList ∧ '\n' ∉ " x".toList
      ∧ utf8Len (passwordLine.withValue " ".toList).toList ≤ maxInput
      ∧ utf8Len (passwordLine.withValue " x".toList).toList ≤ maxInput
      ∧ SameDress " ".toList " x".toList
      ∧ redactText (passwordLine.withValue " ".toList)
        ≠ redactText (passwordLine.withValue " x".toList) :=
  ⟨passwordLine_sensitive, by decide, by decide, by decide, by decide, by decide, by decide,
    ⟨by decide, by decide, by decide⟩, by decide⟩

end Delonix.Security
