import Delonix.Library.Pieces
import Delonix.Security.Redact
import Mathlib.Data.Bool.AllAny

/-! Redaction as a pass over lines: a text that is not cut is redacted line by line, but for the
bodies of PEM blocks. Which lines start a block is not changed by the key pass.
-/

namespace Delonix.Security

open Delonix.Library.Text
open Delonix.Library.Pieces

/-- The token pass over a run of token characters alone. -/
def maskRunFrom (before : Option Char) : List Char → List Char
  | [] => []
  | c :: rest =>
      if startsToken (c :: rest) then
        if before.all (!Char.isAlphanum ·) && isKnownSecretShape (c :: rest) then mask
        else c :: rest
      else c :: maskRunFrom (some c) rest

theorem maskTokensFrom_skip (token rest : List Char)
    : maskTokensFrom token.length none (token ++ rest) = maskTokensFrom 0 none rest := by
  induction token with
  | nil => rfl
  | cons c token ih =>
      rw [List.length_cons, List.cons_append, maskTokensFrom]
      exact ih

theorem not_isTokenChar_of_mark {c : Char} (other : isTokenChar c = false)
    : c.isAlphanum = false ∧ c ≠ 'e' ∧ c ≠ 'A' := by
  refine ⟨?_, ?_, ?_⟩
  · simp only [isTokenChar, Bool.or_eq_false_iff] at other
    exact other.1.1.1
  · rintro rfl
    exact absurd other (by decide)
  · rintro rfl
    exact absurd other (by decide)

/-- A prefix of token characters does not reach over one that is none. -/
theorem isPrefixOf_run {mark run : List Char} (plain : ∀ c ∈ mark, isTokenChar c = true)
    {rest : List Char} (ends : ∀ c ∈ rest.head?, isTokenChar c = false)
    : mark.isPrefixOf (run ++ rest) = mark.isPrefixOf run := by
  induction mark generalizing run with
  | nil => simp
  | cons c mark ih =>
      obtain ⟨here, later⟩ := List.forall_mem_cons.mp plain
      cases run with
      | nil =>
          cases rest with
          | nil => rfl
          | cons d rest =>
              have other : isTokenChar d = false := ends d rfl
              have differ : c ≠ d := by
                rintro rfl
                rw [here] at other
                cases other
              simp [List.isPrefixOf, differ]
      | cons d run => simp [List.isPrefixOf, ih later]

theorem startsToken_run {run rest : List Char} (ends : ∀ c ∈ rest.head?, isTokenChar c = false)
    : startsToken (run ++ rest) = startsToken run := by
  rw [startsToken, startsToken, isPrefixOf_run (List.all_iff_forall_prop.mp (by decide)) ends,
    isPrefixOf_run (List.all_iff_forall_prop.mp (by decide)) ends]

theorem tokenRun_run {run rest : List Char} (tokens : ∀ c ∈ run, isTokenChar c = true)
    (ends : ∀ c ∈ rest.head?, isTokenChar c = false)
    : tokenRun (run ++ rest) = run := by
  have stops : rest.takeWhile isTokenChar = [] := by
    cases rest with
    | nil => rfl
    | cons c rest => simp [ends c rfl]
  rw [tokenRun, List.takeWhile_append_of_pos tokens, stops, List.append_nil]

/-- A run of token characters is masked by itself, and what follows on from there. -/
theorem maskTokensFrom_run {run : List Char} (tokens : ∀ c ∈ run, isTokenChar c = true)
    (before : Option Char) {c : Char} (mark : isTokenChar c = false) (rest : List Char)
    : maskTokensFrom 0 before (run ++ c :: rest)
      = maskRunFrom before run ++ c :: maskTokensFrom 0 (some c) rest := by
  have ends : ∀ d ∈ (c :: rest).head?, isTokenChar d = false := by simpa using mark
  have stop (before : Option Char)
      : maskTokensFrom 0 before (c :: rest) = c :: maskTokensFrom 0 (some c) rest := by
    have none : startsToken (c :: rest) = false := @startsToken_run [] _ ends
    rw [maskTokensFrom, none]
    rfl
  induction run generalizing before with
  | nil => rw [List.nil_append, stop, maskRunFrom, List.nil_append]
  | cons d run ih =>
      have later : ∀ c ∈ run, isTokenChar c = true := (List.forall_mem_cons.mp tokens).2
      rw [List.cons_append, maskTokensFrom, maskRunFrom, ← List.cons_append, startsToken_run ends,
        tokenRun_run tokens ends]
      cases starts : startsToken (d :: run) with
      | true =>
          have skipped : maskTokensFrom ((d :: run).length - 1) none (run ++ c :: rest)
              = c :: maskTokensFrom 0 (some c) rest := by
            rw [List.length_cons, Nat.add_sub_cancel, maskTokensFrom_skip, stop]
          simp only [if_true, skipped]
      | false =>
          simp only [Bool.false_eq_true, if_false, List.cons_append]
          rw [ih later]

theorem maskTokensFrom_end {run : List Char} (tokens : ∀ c ∈ run, isTokenChar c = true)
    (before : Option Char)
    : maskTokensFrom 0 before run = maskRunFrom before run := by
  induction run generalizing before with
  | nil => rfl
  | cons d run ih =>
      have later : ∀ c ∈ run, isTokenChar c = true := (List.forall_mem_cons.mp tokens).2
      have whole : tokenRun (d :: run) = d :: run := by
        have alone := @tokenRun_run _ [] tokens (by simp)
        rwa [List.append_nil] at alone
      rw [maskTokensFrom, maskRunFrom, whole]
      cases startsToken (d :: run) with
      | true =>
          have skipped : maskTokensFrom ((d :: run).length - 1) none run = [] := by
            have nothing := maskTokensFrom_skip run []
            rw [List.append_nil] at nothing
            rw [List.length_cons, Nat.add_sub_cancel, nothing]
            rfl
          simp only [if_true, skipped, List.append_nil]
      | false => simp only [Bool.false_eq_true, if_false, ih later]

theorem maskTokensFrom_some {c : Char} (mark : c.isAlphanum = false) (s : List Char)
    : maskTokensFrom 0 (some c) s = maskTokensFrom 0 none s := by
  cases s with
  | nil => rfl
  | cons d s => simp [maskTokensFrom, mark]

/-- The token pass works on both sides of a character that is in no token, by induction with the
run that is open so far.
-/
theorem maskTokenShapes_append_cons {c : Char} (mark : isTokenChar c = false)
    (front back : List Char)
    : maskTokenShapes (front ++ c :: back)
      = maskTokenShapes front ++ c :: maskTokenShapes back := by
  suffices every : ∀ run, (∀ d ∈ run, isTokenChar d = true) → ∀ before,
      maskTokensFrom 0 before (run ++ front ++ c :: back)
        = maskTokensFrom 0 before (run ++ front) ++ c :: maskTokensFrom 0 none back by
    exact every [] (by simp) none
  induction front with
  | nil =>
      intro run tokens before
      rw [List.append_nil, maskTokensFrom_run tokens before mark,
        maskTokensFrom_end tokens before,
        maskTokensFrom_some (not_isTokenChar_of_mark mark).1]
  | cons d front ih =>
      intro run tokens before
      cases token : isTokenChar d with
      | true =>
          have longer := ih (run ++ [d]) (by
            simp only [List.mem_append, List.mem_singleton]
            rintro e (inRun | rfl)
            · exact tokens e inRun
            · exact token) before
          rwa [List.append_assoc run, List.singleton_append] at longer
      | false =>
          have later := ih [] (by simp) (some d)
          rw [List.nil_append] at later
          rw [List.append_assoc, List.cons_append, maskTokensFrom_run tokens before token, later,
            maskTokensFrom_run tokens before token, List.append_assoc, List.cons_append]

theorem maskTokenShapes_intercalate (lines : List (List Char))
    : maskTokenShapes (['\n'].intercalate lines)
      = ['\n'].intercalate (lines.map maskTokenShapes) := by
  induction lines with
  | nil => rfl
  | cons first rest ih =>
      cases rest with
      | nil => simp
      | cons second others =>
          have joined (first second : List Char) (others : List (List Char))
              : ['\n'].intercalate (first :: second :: others)
                = first ++ '\n' :: ['\n'].intercalate (second :: others) := by
            rw [List.intercalate_cons_cons]
            simp
          rw [joined, maskTokenShapes_append_cons (by decide), ih]
          exact (joined _ _ _).symm

/-- What the key pass leaves of a line to the passes behind it, but for the mask. -/
def unmasked (line : List Char) : List Char :=
  match line.span (!isSeparator ·) with
  | (_, []) => line
  | (key, _ :: value) =>
      if isSensitiveKey key && !(bodyAndTail value).1.isEmpty then key else line

/-- What becomes of a line: it stays, or its key does with the mask of its value. -/
theorem redactLineByKey_cases (line : List Char)
    : (redactLineByKey line = line ∧ unmasked line = line)
      ∨ ∃ key sep value shown, line = key ++ sep :: value ∧ unmasked line = key
        ∧ isSeparator sep = true ∧ redactLineByKey line = key ++ sep :: shown
        ∧ shown = (if value.head? == some ' ' then [' '] else [])
          ++ (if isQuoted (bodyAndTail value).1 then '"' :: mask ++ ['"'] else mask)
          ++ (bodyAndTail value).2 := by
  cases cut : line.span (!isSeparator ·) with
  | mk key rest =>
    have whole := List.span_eq_takeWhile_dropWhile (p := (!isSeparator ·)) (l := line)
    rw [cut] at whole
    obtain ⟨rfl, rfl⟩ := Prod.mk.inj whole
    cases behind : line.dropWhile (!isSeparator ·) with
    | nil => exact .inl ⟨by rw [redactLineByKey, cut, behind], by rw [unmasked, cut, behind]⟩
    | cons sep value =>
        have shape : line = line.takeWhile (!isSeparator ·) ++ sep :: value := by
          rw [← behind, List.takeWhile_append_dropWhile]
        have marked : isSeparator sep = true := by
          have first := List.head?_dropWhile_not (!isSeparator ·) line
          rw [behind] at first
          simpa using first
        rw [redactLineByKey, unmasked, cut, behind]
        cases secret : isSensitiveKey (line.takeWhile (!isSeparator ·)) with
        | false => exact .inl (by simp [secret])
        | true =>
            by_cases empty : (bodyAndTail value).1 = []
            · exact .inl (by simp [secret, empty, isQuoted, utf8Len])
            · refine .inr ⟨_, sep, value, _, shape, ?_, marked, ?_, rfl⟩
              · simp [secret, empty]
              · simp only [secret, if_true, List.isEmpty_eq_false_iff.mpr empty]
                split <;> simp

/-- A line that becomes one by the key pass is one. -/
theorem newline_redactLineByKey {line : List Char} (single : '\n' ∉ line)
    : '\n' ∉ redactLineByKey line := by
  rcases redactLineByKey_cases line with ⟨kept, -⟩ | ⟨key, sep, value, shown, rfl, -, -, is, rfl⟩
  · rwa [kept]
  · have tail : '\n' ∉ (bodyAndTail value).2 := by
      rw [bodyAndTail]
      split <;> simp
    rw [is]
    simp only [List.mem_append, List.mem_cons, not_or] at single ⊢
    refine ⟨single.1, single.2.1, ⟨?_, ?_⟩, tail⟩
    · split <;> simp
    · split <;> decide

/-- A character that can be seen ends the blanks in front of it. -/
theorem dropWhile_append_cons {c : Char} (visible : isWhitespace c = false)
    (front back : List Char)
    : (front ++ c :: back).dropWhile isWhitespace
      = front.dropWhile isWhitespace ++ c :: back := by
  induction front with
  | nil => simp [visible]
  | cons d front ih =>
      cases blank : isWhitespace d with
      | true => simpa [blank] using ih
      | false => simp [blank]

theorem trimEnd_append_cons {c : Char} (visible : isWhitespace c = false)
    (front back : List Char)
    : trimEnd (front ++ c :: back) = front ++ c :: trimEnd back := by
  rw [trimEnd, trimEnd, List.rdropWhile, List.rdropWhile, List.reverse_append,
    List.reverse_cons, List.append_assoc, List.singleton_append,
    dropWhile_append_cons visible]
  simp

/-- Whether a line starts with a mark is decided by its key. -/
theorem isPrefixOf_trim_line {startMark key value : List Char} {sep : Char}
    (plain : ∀ c ∈ startMark, isSeparator c = false) (marked : isSeparator sep = true)
    : startMark.isPrefixOf (trim (key ++ sep :: value))
      = startMark.isPrefixOf (trimStart key) := by
  have visible : isWhitespace sep = false := by
    simp only [isSeparator, Bool.or_eq_true, beq_iff_eq] at marked
    rcases marked with rfl | rfl <;> rfl
  have trimmed : trim (key ++ sep :: value) = trimStart key ++ sep :: trimEnd value := by
    rw [trim, trimStart, dropWhile_append_cons visible, trimEnd_append_cons visible]
    rfl
  rw [trimmed, Bool.eq_iff_iff, List.isPrefixOf_iff_prefix, List.isPrefixOf_iff_prefix]
  generalize trimStart key = front
  constructor
  · rintro ⟨rest, same⟩
    rcases List.append_eq_append_iff.mp same with ⟨gap, is, -⟩ | ⟨gap, is, behind⟩
    · exact ⟨gap, is.symm⟩
    · cases gap with
      | nil => exact ⟨[], by simpa using is⟩
      | cons d gap =>
          obtain ⟨rfl, -⟩ := List.cons.inj behind
          have other := plain sep (by simp [is])
          rw [marked] at other
          cases other
  · intro start
    exact start.trans (List.prefix_append _ _)

/-- The key pass keeps which lines start with a mark that has no separator. -/
theorem isPrefixOf_trim_redactLineByKey {startMark : List Char}
    (plain : ∀ c ∈ startMark, isSeparator c = false) (line : List Char)
    : startMark.isPrefixOf (trim (redactLineByKey line)) = startMark.isPrefixOf (trim line) := by
  rcases redactLineByKey_cases line with ⟨kept, -⟩ | ⟨key, sep, value, shown, rfl, -, marked, is, -⟩
  · rw [kept]
  · rw [is, isPrefixOf_trim_line plain marked, isPrefixOf_trim_line plain marked]

theorem isPrefixOf_pemBegin (line : List Char)
    : pemBegin.isPrefixOf (trim (redactLineByKey line)) = pemBegin.isPrefixOf (trim line) :=
  isPrefixOf_trim_redactLineByKey (List.all_iff_forall_prop.mp (by decide)) line

theorem isPrefixOf_pemEnd (line : List Char)
    : pemEnd.isPrefixOf (trim (redactLineByKey line)) = pemEnd.isPrefixOf (trim line) :=
  isPrefixOf_trim_redactLineByKey (List.all_iff_forall_prop.mp (by decide)) line

/-- Without a line that starts a block the lines stay as they are. -/
theorem maskPemLines_eq_self {lines : List (List Char)}
    (none : ∀ line ∈ lines, pemBegin.isPrefixOf (trim line) = false) (bodyMasked : Bool)
    : maskPemLines false bodyMasked lines = lines := by
  induction lines with
  | nil => rfl
  | cons line rest ih =>
      obtain ⟨here, later⟩ := List.forall_mem_cons.mp none
      simp [maskPemLines, here, ih later]

/-- A start of a trimmed line is in the line. -/
theorem infix_of_isPrefixOf_trim {startMark line : List Char}
    (start : startMark.isPrefixOf (trim line) = true)
    : startMark <:+: line := by
  obtain ⟨front, whole, -⟩ := trimStart_spec line
  obtain ⟨back, rest, -⟩ := trimEnd_spec (trimStart line)
  obtain ⟨tail, same⟩ := List.isPrefixOf_iff_prefix.mp start
  refine ⟨front, tail ++ back, ?_⟩
  rw [whole, rest, ← trim, ← same]
  simp

theorem maskPemBlocks_intercalate {lines : List (List Char)}
    (single : ∀ line ∈ lines, '\n' ∉ line) (nonempty : lines ≠ [])
    : maskPemBlocks (['\n'].intercalate lines)
      = ['\n'].intercalate (maskPemLines false false lines) := by
  rw [maskPemBlocks, List.splitOn_intercalate _ single nonempty]
  split
  case isTrue => rfl
  case isFalse absent =>
    rw [maskPemLines_eq_self]
    intro line member
    by_contra start
    rw [Bool.not_eq_false] at start
    apply absent
    exact (infix_intercalate_iff (by decide) (by decide) lines).mpr
      ⟨line, member, infix_of_isPrefixOf_trim start⟩

/-- The lines outside the bodies of PEM blocks. -/
def outsidePem (inside : Bool) : List (List Char) → List (List Char)
  | [] => []
  | line :: rest =>
      if pemBegin.isPrefixOf (trim line) then line :: outsidePem true rest
      else if pemEnd.isPrefixOf (trim line) then line :: outsidePem false rest
      else if inside then outsidePem inside rest
      else line :: outsidePem inside rest

/-- The PEM pass leaves these lines, and masks. -/
theorem mem_maskPemLines {inside bodyMasked : Bool} {lines : List (List Char)} {line : List Char}
    (member : line ∈ maskPemLines inside bodyMasked lines)
    : line = mask ∨ line ∈ outsidePem inside lines := by
  induction lines generalizing inside bodyMasked with
  | nil => cases member
  | cons first rest ih =>
      rw [maskPemLines] at member
      rw [outsidePem]
      split at member
      case isTrue begins =>
        rw [if_pos begins]
        rcases List.mem_cons.mp member with rfl | later
        · exact .inr List.mem_cons_self
        · exact (ih later).imp_right (List.mem_cons_of_mem _)
      case isFalse notBegin =>
        rw [if_neg notBegin]
        split at member
        case isTrue ends =>
          rw [if_pos ends]
          rcases List.mem_cons.mp member with rfl | later
          · exact .inr List.mem_cons_self
          · exact (ih later).imp_right (List.mem_cons_of_mem _)
        case isFalse notEnd =>
          rw [if_neg notEnd]
          cases inside with
          | true =>
              cases bodyMasked with
              | true => exact ih member
              | false =>
                  rcases List.mem_cons.mp member with rfl | later
                  · exact .inl rfl
                  · exact ih later
          | false =>
              rcases List.mem_cons.mp member with rfl | later
              · exact .inr List.mem_cons_self
              · exact (ih later).imp_right (List.mem_cons_of_mem _)

theorem mem_maskPemLines_of_outsidePem {inside bodyMasked : Bool} {lines : List (List Char)}
    {line : List Char} (member : line ∈ outsidePem inside lines)
    : line ∈ maskPemLines inside bodyMasked lines := by
  induction lines generalizing inside bodyMasked with
  | nil => cases member
  | cons first rest ih =>
      rw [outsidePem] at member
      rw [maskPemLines]
      split at member
      case isTrue begins =>
        rw [if_pos begins]
        rcases List.mem_cons.mp member with rfl | later
        · exact List.mem_cons_self
        · exact List.mem_cons_of_mem _ (ih later)
      case isFalse notBegin =>
        rw [if_neg notBegin]
        split at member
        case isTrue ends =>
          rw [if_pos ends]
          rcases List.mem_cons.mp member with rfl | later
          · exact List.mem_cons_self
          · exact List.mem_cons_of_mem _ (ih later)
        case isFalse notEnd =>
          rw [if_neg notEnd]
          cases inside with
          | true =>
              cases bodyMasked with
              | true => exact ih member
              | false => exact List.mem_cons_of_mem _ (ih member)
          | false =>
              rcases List.mem_cons.mp member with rfl | later
              · exact List.mem_cons_self
              · exact List.mem_cons_of_mem _ (ih later)

/-- The key pass changes the lines outside of blocks, but not which they are. -/
theorem outsidePem_redactLineByKey (inside : Bool) (lines : List (List Char))
    : outsidePem inside (lines.map redactLineByKey)
      = (outsidePem inside lines).map redactLineByKey := by
  induction lines generalizing inside with
  | nil => rfl
  | cons line rest ih =>
      simp only [List.map_cons, outsidePem, isPrefixOf_pemBegin, isPrefixOf_pemEnd, ih]
      split
      case isTrue => rfl
      case isFalse =>
        split
        case isTrue => rfl
        case isFalse => cases inside <;> rfl

/-- What redaction makes of the lines of a text that is not cut. -/
def redactLines (lines : List (List Char)) : List (List Char) :=
  (maskPemLines false false (lines.map redactLineByKey)).map maskTokenShapes

/-- A text that fits is redacted as its lines are. -/
theorem redactText_intercalate {lines : List (List Char)}
    (single : ∀ line ∈ lines, '\n' ∉ line) (nonempty : lines ≠ [])
    (fits : utf8Len (['\n'].intercalate lines) ≤ maxInput)
    : redactText (String.ofList (['\n'].intercalate lines))
      = String.ofList (['\n'].intercalate (redactLines lines)) := by
  have kept : ∀ line ∈ lines.map redactLineByKey, '\n' ∉ line := by
    simp only [List.mem_map, forall_exists_index, and_imp]
    rintro _ line member rfl
    exact newline_redactLineByKey (single line member)
  rw [redactText, String.toList_ofList, truncateOnBoundary, if_pos fits]
  simp only [Bool.false_eq_true, if_false]
  rw [List.splitOn_intercalate _ single nonempty,
    maskPemBlocks_intercalate kept (by simpa using nonempty), maskTokenShapes_intercalate]
  rfl

end Delonix.Security
