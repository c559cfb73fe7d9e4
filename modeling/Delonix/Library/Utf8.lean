import Mathlib.Data.List.Basic
import Mathlib.Data.Nat.Init
import Mathlib.Tactic.Ring

/-! Text as bytes. A byte that starts a character never continues one, so that a text can be read
off its bytes at the start of a character only.
-/

namespace Delonix.Library.Utf8

/-- The bytes of a text. -/
def encode (s : List Char) : List UInt8 := s.flatMap String.utf8EncodeChar

@[simp] theorem encode_nil : encode [] = [] := rfl

@[simp] theorem encode_cons (c : Char) (s : List Char)
    : encode (c :: s) = String.utf8EncodeChar c ++ encode s :=
  rfl

theorem encode_append (s t : List Char) : encode (s ++ t) = encode s ++ encode t :=
  List.flatMap_append

theorem encodeChar_ne_nil (c : Char) : String.utf8EncodeChar c ≠ [] := by
  fun_cases String.utf8EncodeChar c <;> simp

theorem encode_eq_nil_iff {s : List Char} : encode s = [] ↔ s = [] := by
  cases s <;> simp

/-- A text has more bytes than what it begins with. -/
theorem length_encode_lt {s t : List Char} (inside : s <+: t) (shorter : s.length < t.length)
    : (encode s).length < (encode t).length := by
  obtain ⟨rest, rfl⟩ := inside
  have more : rest ≠ [] := by
    intro empty
    simp [empty] at shorter
  have bytes : (encode rest).length ≠ 0 := by
    rwa [Ne, List.length_eq_zero_iff, encode_eq_nil_iff]
  rw [encode_append, List.length_append]
  omega

/-- A byte inside of a character. -/
def Continues (b : UInt8) : Prop := 128 ≤ b.toNat ∧ b.toNat < 192

theorem encodeChar_ascii {c : Char} (ascii : c.toNat < 128)
    : String.utf8EncodeChar c = [UInt8.ofNat c.toNat] := by
  have small : c.val.toNat ≤ 127 := Nat.le_of_lt_succ ascii
  rw [String.utf8EncodeChar, if_pos small]
  rfl

theorem toNat_byte {n : Nat} (small : n < 256) : (UInt8.ofNat n).toNat = n := by
  rw [UInt8.toNat_ofNat', Nat.mod_eq_of_lt small]

/-- The bytes of a character: one that starts it, and those that continue it. -/
theorem encodeChar_shape (c : Char)
    : ∃ lead rest, String.utf8EncodeChar c = lead :: rest ∧ ¬ Continues lead
        ∧ (∀ b ∈ rest, Continues b) ∧ (128 ≤ c.toNat → 192 ≤ lead.toNat) := by
  have continued (n : Nat) : Continues (UInt8.ofNat (n % 64 + 0x80)) := by
    rw [Continues, toNat_byte (by omega)]
    omega
  have leads (n high : Nat) (low : 192 ≤ high) (small : n + high < 256)
      : ¬ Continues (UInt8.ofNat (n + high)) ∧ 192 ≤ (UInt8.ofNat (n + high)).toNat := by
    rw [Continues, toNat_byte small]
    omega
  have value : c.val.toNat = c.toNat := rfl
  fun_cases String.utf8EncodeChar c with
  | case1 v small =>
      have own : (UInt8.ofNat v).toNat = v := toNat_byte (by omega)
      refine ⟨_, [], rfl, ?_, by simp, fun big => absurd small (by omega)⟩
      rw [Continues, own]
      omega
  | case2 v _ small =>
      obtain ⟨starts, above⟩ := leads (v / 64 % 32) 0xc0 (by decide) (by omega)
      refine ⟨_, _, rfl, starts, ?_, fun _ => above⟩
      simp only [List.forall_mem_cons]
      exact ⟨continued v, by simp⟩
  | case3 v _ _ small =>
      obtain ⟨starts, above⟩ := leads (v / 4096 % 16) 0xe0 (by decide) (by omega)
      refine ⟨_, _, rfl, starts, ?_, fun _ => above⟩
      simp only [List.forall_mem_cons]
      exact ⟨continued (v / 64), continued v, by simp⟩
  | case4 v =>
      obtain ⟨starts, above⟩ := leads (v / 262144 % 8) 0xf0 (by decide) (by omega)
      refine ⟨_, _, rfl, starts, ?_, fun _ => above⟩
      simp only [List.forall_mem_cons]
      exact ⟨continued (v / 4096), continued (v / 64), continued v, by simp⟩

/-- The first character of a text can be read off its bytes. -/
theorem encodeChar_append_inj {c d : Char} {x y : List UInt8}
    (same : String.utf8EncodeChar c ++ x = String.utf8EncodeChar d ++ y)
    : c = d ∧ x = y := by
  have bytes := congrArg List.toByteArray same
  rw [List.toByteArray_append, List.toByteArray_append, ← List.utf8Encode_singleton,
    ← List.utf8Encode_singleton] at bytes
  have read : some c = some d := by
    rw [← @List.utf8DecodeChar?_utf8Encode_singleton_append x.toByteArray c, bytes,
      List.utf8DecodeChar?_utf8Encode_singleton_append]
  obtain rfl := Option.some.inj read
  exact ⟨rfl, List.append_cancel_left same⟩

end Delonix.Library.Utf8

/-! Reading bytes as text. A strict reader refuses bytes that are no text; a lossy one puts the
replacement character in the place of each longest part that could still have become a character.
-/

namespace Delonix.Library.Utf8

/-- The character that the bytes begin with. -/
def firstChar (bytes : List UInt8) : Option Char := bytes.toByteArray.utf8DecodeChar? 0

/-- What the second byte of a character may be, after each first byte. -/
def secondFits (lead second : UInt8) : Bool :=
  let n := second.toNat
  if lead = 0xe0 then 0xa0 ≤ n && n ≤ 0xbf
  else if lead = 0xed then 0x80 ≤ n && n ≤ 0x9f
  else if lead = 0xf0 then 0x90 ≤ n && n ≤ 0xbf
  else if lead = 0xf4 then 0x80 ≤ n && n ≤ 0x8f
  else 0x80 ≤ n && n ≤ 0xbf

/-- How many bytes a character has that begins with this one; no character begins with another. -/
def charWidth (lead : UInt8) : Nat :=
  let n := lead.toNat
  if n < 0x80 then 1
  else if n < 0xc2 then 0
  else if n < 0xe0 then 2
  else if n < 0xf0 then 3
  else if n < 0xf5 then 4
  else 0

/-- How many bytes are replaced at once where no character begins. -/
def badLength : List UInt8 → Nat
  | lead :: second :: third :: _ =>
      if charWidth lead < 3 || !secondFits lead second then 1
      else if charWidth lead = 3 || !(0x80 ≤ third.toNat && third.toNat ≤ 0xbf) then 2
      else 3
  | [lead, second] => if charWidth lead < 3 || !secondFits lead second then 1 else 2
  | _ => 1

def lossyLoop : Nat → List UInt8 → List Char
  | 0, _ => []
  | fuel + 1, bytes =>
      if bytes = [] then []
      else
        match firstChar bytes with
        | some c => c :: lossyLoop fuel (bytes.drop c.utf8Size)
        | none => '\uFFFD' :: lossyLoop fuel (bytes.drop (badLength bytes))

/-- `String::from_utf8_lossy`. -/
def fromUtf8Lossy (bytes : List UInt8) : List Char := lossyLoop bytes.length bytes

def strictLoop : Nat → List UInt8 → Option (List Char)
  | 0, _ => some []
  | fuel + 1, bytes =>
      if bytes = [] then some []
      else (firstChar bytes).bind fun c => (strictLoop fuel (bytes.drop c.utf8Size)).map (c :: ·)

/-- `str::from_utf8`. -/
def fromUtf8 (bytes : List UInt8) : Option (List Char) := strictLoop bytes.length bytes

theorem firstChar_append (c : Char) (rest : List UInt8)
    : firstChar (String.utf8EncodeChar c ++ rest) = some c := by
  rw [firstChar, List.toByteArray_append, ← List.utf8Encode_singleton]
  exact List.utf8DecodeChar?_utf8Encode_singleton_append

theorem drop_utf8Size (c : Char) (rest : List UInt8)
    : (String.utf8EncodeChar c ++ rest).drop c.utf8Size = rest := by
  rw [← String.length_utf8EncodeChar c, List.drop_left]

theorem length_encode_cons (c : Char) (rest : List Char)
    : (encode rest).length < (encode (c :: rest)).length := by
  have one : 0 < (String.utf8EncodeChar c).length :=
    List.length_pos_iff.mpr (encodeChar_ne_nil c)
  rw [encode_cons, List.length_append]
  omega

/-- The lossy reader gives a text back from its bytes, with any fuel that is enough. -/
theorem lossyLoop_encode {fuel : Nat} {s : List Char} (enough : (encode s).length ≤ fuel)
    : lossyLoop fuel (encode s) = s := by
  induction s generalizing fuel with
  | nil => cases fuel <;> rfl
  | cons c rest ih =>
      have shorter := length_encode_cons c rest
      cases fuel with
      | zero => omega
      | succ fuel =>
          rw [lossyLoop, if_neg (by simp), encode_cons, firstChar_append]
          simp only [drop_utf8Size, ih (show (encode rest).length ≤ fuel by omega)]

@[simp] theorem fromUtf8Lossy_encode (s : List Char) : fromUtf8Lossy (encode s) = s :=
  lossyLoop_encode (Nat.le_refl _)

theorem strictLoop_encode {fuel : Nat} {s : List Char} (enough : (encode s).length ≤ fuel)
    : strictLoop fuel (encode s) = some s := by
  induction s generalizing fuel with
  | nil => cases fuel <;> rfl
  | cons c rest ih =>
      have shorter := length_encode_cons c rest
      cases fuel with
      | zero => omega
      | succ fuel =>
          rw [strictLoop, if_neg (by simp), encode_cons, firstChar_append, Option.bind_some,
            drop_utf8Size, ih (show (encode rest).length ≤ fuel by omega), Option.map_some]

@[simp] theorem fromUtf8_encode (s : List Char) : fromUtf8 (encode s) = some s :=
  strictLoop_encode (Nat.le_refl _)

end Delonix.Library.Utf8

/-! Numbers as bytes, the most significant one first, and what shifts and masks give of them. -/

namespace Delonix.Library.Bytes

abbrev Byte := UInt8

/-- The low `width` bytes of a number. -/
def beBytes : Nat → Nat → List Byte
  | 0, _ => []
  | width + 1, n => UInt8.ofNat (n / 256 ^ width) :: beBytes width n

/-- The number that bytes spell. -/
def ofBytes (bytes : List Byte) : Nat := bytes.foldl (fun read b => read * 256 + b.toNat) 0

theorem length_beBytes (width n : Nat) : (beBytes width n).length = width := by
  induction width with
  | zero => rfl
  | succ width ih => rw [beBytes, List.length_cons, ih]

theorem foldl_beBytes (width n read : Nat)
    : (beBytes width n).foldl (fun read b => read * 256 + b.toNat) read
      = read * 256 ^ width + n % 256 ^ width := by
  induction width generalizing read with
  | zero => simp [beBytes, Nat.mod_one]
  | succ width ih =>
      have digit : (UInt8.ofNat (n / 256 ^ width)).toNat = n / 256 ^ width % 256 :=
        UInt8.toNat_ofNat'
      rw [beBytes, List.foldl_cons, ih, digit, Nat.mod_pow_succ, Nat.pow_succ]
      ring

theorem ofBytes_beBytes (width n : Nat) : ofBytes (beBytes width n) = n % 256 ^ width := by
  rw [ofBytes, foldl_beBytes, Nat.zero_mul, Nat.zero_add]

/-- Three bytes put together with shifts are the number they spell. -/
theorem shifted_eq_ofBytes (a b c : Byte)
    : (a.toNat <<< 16) ||| (b.toNat <<< 8) ||| c.toNat = ofBytes [a, b, c] := by
  have low : b.toNat <<< 8 ||| c.toNat = b.toNat * 256 + c.toNat := by
    rw [← Nat.shiftLeft_add_eq_or_of_lt c.toNat_lt, Nat.shiftLeft_eq]
  have under : b.toNat * 256 + c.toNat < 2 ^ 16 := by
    have := b.toNat_lt
    have := c.toNat_lt
    omega
  rw [Nat.or_assoc, low, ← Nat.shiftLeft_add_eq_or_of_lt under, Nat.shiftLeft_eq]
  simp only [ofBytes, List.foldl_cons, List.foldl_nil]
  omega

end Delonix.Library.Bytes
