import Delonix.Library.Text
import Delonix.Library.Utf8

/-! Texts for the holder's control channel as pairs of hexadecimal digits. The reader cuts its text
at byte offsets, where a cut inside of a character ends the process, and reads each pair as a
number, which may have a sign.
-/

namespace Delonix.Networking.HexChannel

open Delonix.Library.Text
open Delonix.Library.Utf8

abbrev Byte := UInt8

/-- A slice that begins or ends inside of a character. -/
structure NotBoundary where
  start : Nat
  stop : Nat
deriving DecidableEq, Repr

/-- The two parts of a text at a byte offset, which must not be inside of a character. -/
def splitAtByte : Nat → List Char → Option (List Char × List Char)
  | 0, s => some ([], s)
  | _ + 1, [] => none
  | n + 1, c :: rest =>
      if c.utf8Size ≤ n + 1 then
        (splitAtByte (n + 1 - c.utf8Size) rest).map fun (front, back) => (c :: front, back)
      else none

/-- `&s[start..stop]`. -/
def slice (s : List Char) (start stop : Nat) : Except NotBoundary (List Char) :=
  match splitAtByte stop s with
  | none => .error ⟨start, stop⟩
  | some (front, _) =>
      match splitAtByte start front with
      | none => .error ⟨start, stop⟩
      | some (_, part) => .ok part

/-- `u8::from_str_radix` to the base 16. -/
def parseHexByte (part : List Char) : Option Byte :=
  (parseUnsigned 16 255 part).map UInt8.ofNat

/-- The pairs are read in turn, up to the first that is no number. -/
def decodeFrom (s : List Char) : Nat → Nat → Except NotBoundary (Option (List Byte))
  | 0, _ => .ok (some [])
  | pairs + 1, i => do
      let part ← slice s i (i + 2)
      match parseHexByte part with
      | none => .ok none
      | some b => do
          let rest ← decodeFrom s pairs (i + 2)
          .ok (rest.map (b :: ·))

def hexDecode (s : List Char) : Except NotBoundary (Option (List Byte)) :=
  if (encode s).length % 2 ≠ 0 then .ok none else decodeFrom s ((encode s).length / 2) 0

/-- A byte as two digits in small letters. -/
def hexByte (b : Byte) : List Char :=
  [Nat.digitChar (b.toNat / 16), Nat.digitChar (b.toNat % 16)]

def hexEncode (bytes : List Byte) : List Char := bytes.flatMap hexByte

def IsHexDigit (c : Char) : Prop :=
  (48 ≤ c.toNat ∧ c.toNat ≤ 57) ∨ (97 ≤ c.toNat ∧ c.toNat ≤ 102)
    ∨ (65 ≤ c.toNat ∧ c.toNat ≤ 70)

instance (c : Char) : Decidable (IsHexDigit c) := by
  unfold IsHexDigit
  infer_instance

structure IsHexText (s : List Char) : Prop where
  even : s.length % 2 = 0
  digits : ∀ c ∈ s, IsHexDigit c

/-- The reader ends, and gives bytes for hexadecimal texts alone. -/
def Faithful (s : List Char) : Prop :=
  ∃ read, hexDecode s = .ok read ∧ (read.isSome = true ↔ IsHexText s)

/-- Two characters the reader takes for a number. -/
def ReadsAsByte (a b : Char) : Prop := (IsHexDigit a ∨ a = '+') ∧ IsHexDigit b

instance (a b : Char) : Decidable (ReadsAsByte a b) := by
  unfold ReadsAsByte
  infer_instance

/-- Behind pairs that read as bytes comes a character that two bytes reach into. -/
def CutsCharacter : List Char → Prop
  | [] => False
  | [c] => 2 < c.utf8Size
  | a :: b :: rest =>
      if ReadsAsByte a b then CutsCharacter rest
      else 2 < a.utf8Size ∨ a.utf8Size = 1 ∧ b.utf8Size ≠ 1

/-- All of the text is pairs that read as bytes. -/
def AllRead : List Char → Prop
  | [] => True
  | [_] => False
  | a :: b :: rest => ReadsAsByte a b ∧ AllRead rest

/-- The texts on which the reader goes wrong: of an even number of bytes, and one that is cut
inside of a character, or one with a sign that is read all the same.
-/
def Misread (s : List Char) : Prop :=
  (encode s).length % 2 = 0 ∧ (CutsCharacter s ∨ AllRead s ∧ '+' ∈ s)

theorem digitValue_isSome_iff (c : Char) : (digitValue 16 c).isSome = true ↔ IsHexDigit c := by
  rw [digitValue, IsHexDigit]
  generalize c.toNat = n
  split
  case isTrue decimal =>
    simp only [Bool.and_eq_true, decide_eq_true_eq] at decimal
    simp only [Option.isSome_filter, Option.any_some, decide_eq_true_eq]
    omega
  case isFalse =>
    split
    case isTrue small =>
      simp only [Bool.and_eq_true, decide_eq_true_eq] at small
      simp only [Option.isSome_filter, Option.any_some, decide_eq_true_eq]
      omega
    case isFalse notDecimal notSmall =>
      simp only [Bool.and_eq_true, decide_eq_true_eq] at notDecimal notSmall
      split
      case isTrue capital =>
        simp only [Bool.and_eq_true, decide_eq_true_eq] at capital
        simp only [Option.isSome_filter, Option.any_some, decide_eq_true_eq]
        omega
      case isFalse notCapital =>
        simp only [Bool.and_eq_true, decide_eq_true_eq] at notCapital
        simp only [Option.filter_none, Option.isSome_none, Bool.false_eq_true, false_iff]
        omega

theorem digitValue_lt {c : Char} {v : Nat} (is : digitValue 16 c = some v) : v < 16 := by
  rw [digitValue, Option.filter_eq_some_iff] at is
  simpa using is.2

/-- Two characters are a number where both are digits, or the first is a sign. -/
theorem parseHexByte_pair (a b : Char)
    : (parseHexByte [a, b]).isSome = true ↔ ReadsAsByte a b := by
  have last (v : Nat) (small : v < 16)
      : (parseDigits 16 255 v [b]).isSome = true ↔ IsHexDigit b := by
    rw [← digitValue_isSome_iff, parseDigits]
    cases digit : digitValue 16 b with
    | none => simp
    | some w =>
        have fits : v * 16 + w ≤ 255 := by
          have := digitValue_lt digit
          omega
        simp [parseDigits, fits]
  rw [parseHexByte, Option.isSome_map, ReadsAsByte]
  by_cases sign : a = '+'
  · subst sign
    have minus : ¬ IsHexDigit '+' := by decide
    rw [show parseUnsigned 16 255 ['+', b] = parseDigits 16 255 0 [b] from rfl, last 0 (by omega)]
    simp
  · have plain : parseUnsigned 16 255 [a, b] = parseDigits 16 255 0 [a, b] := by
      unfold parseUnsigned
      split
      case h_1 is => cases is
      case h_2 is => cases is
      case h_3 rest is => exact absurd (List.cons.inj is).1 sign
      case h_4 => rfl
    rw [plain, parseDigits, ← digitValue_isSome_iff a]
    cases digit : digitValue 16 a with
    | none => simp [sign]
    | some v =>
        have small := digitValue_lt digit
        have fits : 0 * 16 + v ≤ 255 := by omega
        simp only [Option.bind_some, if_pos fits, Option.isSome_some, true_or, true_and]
        exact last _ (by omega)

/-- A character outside ASCII alone is no number. -/
theorem parseHexByte_wide {c : Char} (wide : c.utf8Size ≠ 1) : parseHexByte [c] = none := by
  have high : 127 < c.toNat := by
    by_contra low
    exact wide (Char.utf8Size_eq_one_iff.mpr (UInt32.le_iff_toNat_le.mpr (by
      have value : c.val.toNat = c.toNat := rfl
      have bound : (127 : UInt32).toNat = 127 := rfl
      omega)))
  have noDigit : digitValue 16 c = none := by
    rw [← Option.not_isSome_iff_eq_none, digitValue_isSome_iff, IsHexDigit]
    omega
  have noSign : c ≠ '+' := by
    intro is
    subst is
    exact absurd high (by decide)
  have read : parseUnsigned 16 255 [c] = parseDigits 16 255 0 [c] := by
    unfold parseUnsigned
    split
    case h_1 is => cases is
    case h_2 is => exact absurd (List.cons.inj is).1 noSign
    case h_3 rest _ is => exact absurd (List.cons.inj is).1 noSign
    case h_4 => rfl
  rw [parseHexByte, read, parseDigits, noDigit]
  rfl

theorem utf8Size_of_hexDigit {c : Char} (digit : IsHexDigit c ∨ c = '+') : c.utf8Size = 1 := by
  have low : c.toNat ≤ 127 := by
    rcases digit with digit | sign
    · rw [IsHexDigit] at digit
      omega
    · subst sign
      decide
  exact Char.utf8Size_eq_one_iff.mpr (UInt32.le_iff_toNat_le.mpr low)

theorem length_encode_cons (c : Char) (rest : List Char)
    : (encode (c :: rest)).length = c.utf8Size + (encode rest).length := by
  rw [encode_cons, List.length_append, String.length_utf8EncodeChar]

/-- Offsets behind a part of the text are offsets in what follows. -/
theorem splitAtByte_append (front rest : List Char) (n : Nat)
    : splitAtByte ((encode front).length + n) (front ++ rest)
      = (splitAtByte n rest).map fun (before, after) => (front ++ before, after) := by
  induction front with
  | nil =>
      cases found : splitAtByte n rest <;> simp [found]
  | cons c front ih =>
      have one : 0 < c.utf8Size := c.utf8Size_pos
      obtain ⟨k, total⟩ : ∃ k, (encode (c :: front)).length + n = k + 1 := by
        refine ⟨(encode (c :: front)).length + n - 1, ?_⟩
        rw [length_encode_cons]
        omega
      have left : k + 1 - c.utf8Size = (encode front).length + n := by
        rw [length_encode_cons] at total
        omega
      have fits : c.utf8Size ≤ k + 1 := by
        rw [length_encode_cons] at total
        omega
      rw [total, List.cons_append, splitAtByte, if_pos fits, left, ih]
      cases splitAtByte n rest <;> rfl

theorem slice_append (front rest : List Char) (n : Nat)
    : slice (front ++ rest) (encode front).length ((encode front).length + n)
      = match splitAtByte n rest with
        | some (part, _) => .ok part
        | none => .error ⟨(encode front).length, (encode front).length + n⟩ := by
  have start (part : List Char)
      : splitAtByte (encode front).length (front ++ part) = some (front, part) := by
    have whole := splitAtByte_append front part 0
    rw [Nat.add_zero] at whole
    rw [whole, splitAtByte]
    simp
  rw [slice, splitAtByte_append]
  cases splitAtByte n rest with
  | none => rfl
  | some parts =>
      obtain ⟨part, back⟩ := parts
      simp only [Option.map_some, start]

/-- The two bytes that are read next: two narrow characters, one that fills them, or a cut. -/
theorem splitAtByte_two (a : Char) (rest : List Char)
    : splitAtByte 2 (a :: rest)
      = if a.utf8Size = 1 then
          match rest with
          | b :: more => if b.utf8Size = 1 then some ([a, b], more) else none
          | [] => none
        else if a.utf8Size = 2 then some ([a], rest) else none := by
  rw [splitAtByte]
  rcases Char.utf8Size_eq a with size | size | size | size
  · rw [size, if_pos (by decide), if_pos rfl]
    cases rest with
    | nil => rfl
    | cons b more =>
        rw [show 2 - 1 = 0 + 1 from rfl, splitAtByte]
        have one : 0 < b.utf8Size := b.utf8Size_pos
        by_cases narrow : b.utf8Size = 1
        · simp [narrow, splitAtByte]
        · simp only [narrow, if_false]
          rw [if_neg (by omega)]
          rfl
  · simp [size, splitAtByte]
  · simp [size]
  · simp [size]

theorem decodeFrom_append (front rest : List Char) (pairs : Nat)
    : decodeFrom (front ++ rest) (pairs + 1) (encode front).length
      = match splitAtByte 2 rest with
        | none => .error ⟨(encode front).length, (encode front).length + 2⟩
        | some (part, _) =>
            match parseHexByte part with
            | none => .ok none
            | some b =>
                decodeFrom (front ++ rest) pairs ((encode front).length + 2) >>= fun later =>
                  .ok (later.map (b :: ·)) := by
  rw [decodeFrom, slice_append]
  cases splitAtByte 2 rest with
  | none => rfl
  | some parts => rfl

theorem length_encode_pair {a b : Char} (reads : ReadsAsByte a b) (front : List Char)
    : (encode (front ++ [a, b])).length = (encode front).length + 2 := by
  have first := utf8Size_of_hexDigit reads.1
  have second := utf8Size_of_hexDigit (.inl reads.2)
  rw [encode_append, List.length_append, length_encode_cons, length_encode_cons, first, second]
  rfl

/-- The loop comes to the end, to a pair that is no number, or to a cut inside of a character: by
induction on the pairs that are left.
-/
theorem decodeFrom_cases (front rest : List Char) (even : (encode rest).length % 2 = 0)
    : (AllRead rest → ∃ bytes,
        decodeFrom (front ++ rest) ((encode rest).length / 2) (encode front).length
          = .ok (some bytes))
      ∧ (CutsCharacter rest → ∃ cut,
        decodeFrom (front ++ rest) ((encode rest).length / 2) (encode front).length = .error cut)
      ∧ (¬ AllRead rest → ¬ CutsCharacter rest →
        decodeFrom (front ++ rest) ((encode rest).length / 2) (encode front).length = .ok none) := by
  induction rest using AllRead.induct generalizing front with
  | case1 => exact ⟨fun _ => ⟨[], rfl⟩, fun cut => cut.elim, fun unread => absurd trivial unread⟩
  | case2 c =>
      have size : (encode [c]).length = c.utf8Size := by
        rw [length_encode_cons]
        rfl
      have one : 0 < c.utf8Size := c.utf8Size_pos
      obtain ⟨k, half⟩ : ∃ k, (encode [c]).length / 2 = k + 1 :=
        ⟨(encode [c]).length / 2 - 1, by omega⟩
      have wide : c.utf8Size ≠ 1 := by omega
      rw [half, decodeFrom_append, splitAtByte_two, if_neg wide]
      refine ⟨fun all => all.elim, ?_, ?_⟩
      · intro cut
        rw [CutsCharacter] at cut
        rw [if_neg (by omega)]
        exact ⟨_, rfl⟩
      · intro _ whole
        rw [CutsCharacter] at whole
        rw [if_pos (by omega)]
        simp only [parseHexByte_wide wide]
  | case3 a b more ih =>
      have one : 0 < a.utf8Size := a.utf8Size_pos
      have two : 0 < b.utf8Size := b.utf8Size_pos
      by_cases reads : ReadsAsByte a b
      · have first := utf8Size_of_hexDigit reads.1
        have second := utf8Size_of_hexDigit (.inl reads.2)
        have total : (encode (a :: b :: more)).length = (encode more).length + 2 := by
          rw [length_encode_cons, length_encode_cons, first, second]
          omega
        have half : (encode (a :: b :: more)).length / 2 = (encode more).length / 2 + 1 := by
          omega
        obtain ⟨value, isValue⟩ := Option.isSome_iff_exists.mp ((parseHexByte_pair a b).mpr reads)
        have later := ih (front ++ [a, b]) (by omega)
        rw [length_encode_pair reads, List.append_assoc] at later
        rw [half, decodeFrom_append, splitAtByte_two, if_pos first]
        simp only [second, ↓reduceIte, isValue, AllRead, CutsCharacter, reads, true_and]
        refine ⟨?_, ?_, ?_⟩
        · intro all
          obtain ⟨bytes, ran⟩ := later.1 all
          exact ⟨value :: bytes, by rw [show a :: b :: more = [a, b] ++ more from rfl, ran]; rfl⟩
        · intro cut
          obtain ⟨at_, ran⟩ := later.2.1 cut
          exact ⟨at_, by rw [show a :: b :: more = [a, b] ++ more from rfl, ran]; rfl⟩
        · intro unread whole
          rw [show a :: b :: more = [a, b] ++ more from rfl, later.2.2 unread whole]
          rfl
      · obtain ⟨k, half⟩ : ∃ k, (encode (a :: b :: more)).length / 2 = k + 1 := by
          refine ⟨(encode (a :: b :: more)).length / 2 - 1, ?_⟩
          rw [length_encode_cons, length_encode_cons] at *
          omega
        rw [half, decodeFrom_append, splitAtByte_two]
        simp only [AllRead, CutsCharacter, reads, false_and, false_implies, ↓reduceIte, true_and,
          not_false_eq_true, true_implies]
        by_cases narrow : a.utf8Size = 1
        · by_cases narrowToo : b.utf8Size = 1
          · have noNumber : parseHexByte [a, b] = none := by
              rw [← Option.not_isSome_iff_eq_none, parseHexByte_pair]
              exact reads
            simp [narrow, narrowToo, noNumber]
          · simp [narrow, narrowToo]
        · by_cases fills : a.utf8Size = 2
          · simp [fills, parseHexByte_wide narrow]
          · have wide : 2 < a.utf8Size := by omega
            simp [narrow, fills, wide]

theorem digit_hexByte (b : Byte) : ∀ c ∈ hexByte b, IsHexDigit c := by
  have each : ∀ d < 16, IsHexDigit (Nat.digitChar d) := by decide
  have small := b.toNat_lt
  intro c member
  rw [hexByte, List.mem_cons, List.mem_singleton] at member
  rcases member with high | low
  · rw [high]
    exact each _ (by omega)
  · rw [low]
    exact each _ (Nat.mod_lt _ (by decide))

theorem parseHexByte_hexByte (b : Byte) : parseHexByte (hexByte b) = some b := by
  have values : ∀ d < 16, digitValue 16 (Nat.digitChar d) = some d := by decide
  have plain : ∀ d < 16, Nat.digitChar d ≠ '+' := by decide
  have small := b.toNat_lt
  have high : b.toNat / 16 < 16 := by omega
  have low : b.toNat % 16 < 16 := Nat.mod_lt _ (by decide)
  have read : parseUnsigned 16 255 (hexByte b) = parseDigits 16 255 0 (hexByte b) := by
    have notSign := plain _ high
    rw [hexByte]
    generalize Nat.digitChar (b.toNat / 16) = d at notSign
    unfold parseUnsigned
    split
    case h_1 is => cases is
    case h_2 is => cases is
    case h_3 rest _ is => exact absurd (List.cons.inj is).1 notSign
    case h_4 => rfl
  have first : 0 * 16 + b.toNat / 16 ≤ 255 := by omega
  have whole : (0 * 16 + b.toNat / 16) * 16 + b.toNat % 16 = b.toNat := by omega
  rw [parseHexByte, read, hexByte, parseDigits, values _ high, Option.bind_some]
  simp only [if_pos first, parseDigits, values _ low, Option.bind_some, whole]
  rw [if_pos (by omega), Option.map_some, UInt8.ofNat_toNat]

theorem reads_hexByte (b : Byte)
    : ReadsAsByte (Nat.digitChar (b.toNat / 16)) (Nat.digitChar (b.toNat % 16)) :=
  ⟨.inl (digit_hexByte b _ List.mem_cons_self),
    digit_hexByte b _ (List.mem_cons_of_mem _ List.mem_cons_self)⟩

theorem length_encode_hexEncode (bytes : List Byte)
    : (encode (hexEncode bytes)).length = 2 * bytes.length := by
  induction bytes with
  | nil => rfl
  | cons b rest ih =>
      have pair := length_encode_pair (reads_hexByte b) []
      rw [hexEncode, List.flatMap_cons, ← hexEncode, encode_append, List.length_append, ih]
      rw [List.nil_append] at pair
      rw [hexByte, pair, List.length_cons, encode_nil, List.length_nil]
      omega

theorem decodeFrom_hexEncode (front : List Char) (bytes : List Byte)
    : decodeFrom (front ++ hexEncode bytes) bytes.length (encode front).length
      = .ok (some bytes) := by
  induction bytes generalizing front with
  | nil => rfl
  | cons b rest ih =>
      have reads := reads_hexByte b
      have later := ih (front ++ hexByte b)
      rw [hexByte, length_encode_pair reads, List.append_assoc] at later
      have whole : hexEncode (b :: rest)
          = Nat.digitChar (b.toNat / 16) :: Nat.digitChar (b.toNat % 16) :: hexEncode rest := rfl
      have value : parseHexByte [Nat.digitChar (b.toNat / 16), Nat.digitChar (b.toNat % 16)]
          = some b := parseHexByte_hexByte b
      rw [List.length_cons, decodeFrom_append, whole, splitAtByte_two,
        if_pos (utf8Size_of_hexDigit reads.1)]
      simp only [utf8Size_of_hexDigit (.inl reads.2), ↓reduceIte, value]
      exact congrArg (· >>= _) later

/-- Bytes come back from the channel. -/
theorem hexDecode_hexEncode (bytes : List Byte)
    : hexDecode (hexEncode bytes) = .ok (some bytes) := by
  have length := length_encode_hexEncode bytes
  have half : (encode (hexEncode bytes)).length / 2 = bytes.length := by omega
  rw [hexDecode, if_neg (by omega), half]
  exact decodeFrom_hexEncode [] bytes

/-- A hexadecimal text is one that is read throughout and has no sign. -/
theorem isHexText_iff (s : List Char) : IsHexText s ↔ AllRead s ∧ '+' ∉ s := by
  have minus : ¬ IsHexDigit '+' := by decide
  have step (a b : Char) (more : List Char)
      : IsHexText (a :: b :: more) ↔ IsHexDigit a ∧ IsHexDigit b ∧ IsHexText more := by
    constructor
    · intro hex
      have digits := List.forall_mem_cons.mp hex.digits
      have later := List.forall_mem_cons.mp digits.2
      have even := hex.even
      simp only [List.length_cons] at even
      exact ⟨digits.1, later.1, by omega, later.2⟩
    · intro hex
      have even := hex.2.2.even
      refine ⟨by simp only [List.length_cons]; omega, ?_⟩
      exact List.forall_mem_cons.mpr ⟨hex.1, List.forall_mem_cons.mpr ⟨hex.2.1, hex.2.2.digits⟩⟩
  induction s using AllRead.induct with
  | case1 => exact iff_of_true ⟨rfl, by simp⟩ ⟨trivial, by simp⟩
  | case2 c => exact iff_of_false (fun hex => absurd hex.even (by simp)) fun all => all.1
  | case3 a b more ih =>
      have later : IsHexText more ↔ AllRead more ∧ '+' ∉ more := ih
      rw [step, later, AllRead, ReadsAsByte, List.mem_cons, List.mem_cons, not_or, not_or]
      constructor
      · intro hex
        have notFirst : '+' ≠ a := fun is => minus (is ▸ hex.1)
        have notSecond : '+' ≠ b := fun is => minus (is ▸ hex.2.1)
        exact ⟨⟨⟨.inl hex.1, hex.2.1⟩, hex.2.2.1⟩, notFirst, notSecond, hex.2.2.2⟩
      · intro read
        have first := read.1.1.1.resolve_right (Ne.symm read.2.1)
        exact ⟨first, read.1.1.2, read.1.2, read.2.2.2⟩

theorem even_of_isHexText {s : List Char} (hex : IsHexText s) : (encode s).length % 2 = 0 := by
  have each : (encode s).length = s.length := by
    have digits := hex.digits
    clear hex
    induction s with
    | nil => rfl
    | cons c rest ih =>
        have later := ih fun d member => digits d (List.mem_cons_of_mem _ member)
        have narrow := utf8Size_of_hexDigit (.inl (digits c List.mem_cons_self))
        rw [length_encode_cons, later, narrow, List.length_cons]
        omega
  rw [each]
  exact hex.even

/-- The codec gives back what was written, and is faithful on exactly the texts that are not
misread.
-/
theorem channel_faithful_iff (bytes : List Byte) (s : List Char)
    : hexDecode (hexEncode bytes) = .ok (some bytes) ∧ (Faithful s ↔ ¬ Misread s) := by
  refine ⟨hexDecode_hexEncode bytes, ?_⟩
  by_cases even : (encode s).length % 2 = 0
  · have ran : hexDecode s = decodeFrom ([] ++ s) ((encode s).length / 2) (encode []).length := by
      rw [hexDecode, if_neg (by omega)]
      rfl
    obtain ⟨whole, cut, unread⟩ := decodeFrom_cases [] s even
    rw [← ran] at whole cut unread
    by_cases cuts : CutsCharacter s
    · refine iff_of_false ?_ fun fine => fine ⟨even, .inl cuts⟩
      intro faithful
      obtain ⟨read, isRead, -⟩ := faithful
      obtain ⟨at_, ended⟩ := cut cuts
      rw [ended] at isRead
      cases isRead
    · by_cases all : AllRead s
      · obtain ⟨bytes, isBytes⟩ := whole all
        have reads : Faithful s ↔ IsHexText s := by
          rw [Faithful, isBytes]
          simp
        rw [reads, isHexText_iff, Misread]
        simp [even, cuts, all]
      · have nothing := unread all cuts
        refine iff_of_true ⟨none, nothing, ?_⟩ ?_
        · rw [isHexText_iff]
          simp [all]
        · rw [Misread]
          simp [cuts, all]
  · refine iff_of_true ⟨none, ?_, ?_⟩ fun misread => even misread.1
    · rw [hexDecode, if_pos even]
    · exact iff_of_false (by simp) fun hex => even (even_of_isHexText hex)

/-- A text of hexadecimal digits around an accented letter ends the process. -/
theorem accent_ends_process : ¬ ∀ s, Faithful s := by
  intro all
  obtain ⟨read, isRead, -⟩ := all "aéb".toList
  have ended : hexDecode "aéb".toList = .error ⟨0, 2⟩ := by rfl
  rw [ended] at isRead
  cases isRead

end Delonix.Networking.HexChannel
