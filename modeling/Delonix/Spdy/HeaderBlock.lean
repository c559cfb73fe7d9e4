import Delonix.Library.Utf8
import Delonix.Spdy.Exec

/-! The name/value block of a SPDY header as texts. The reader goes by positions in a buffer it
does not trust, and an access outside of it would end the process; it makes none.
-/

namespace Delonix.Spdy

open Delonix.Library.Bytes
open Delonix.Library.Utf8

/-- An index or a slice outside of a buffer, at which the process would end. -/
inductive OutOfRange where
  | index (i : Nat)
  | slice (start stop : Nat)
deriving DecidableEq, Repr

def byteAt (buf : List Byte) (i : Nat) : Except OutOfRange Byte :=
  match buf[i]? with
  | some b => .ok b
  | none => .error (.index i)

def sliceAt (buf : List Byte) (start stop : Nat) : Except OutOfRange (List Byte) :=
  if start ≤ stop ∧ stop ≤ buf.length then .ok ((buf.drop start).take (stop - start))
  else .error (.slice start stop)

/-- `u32::from_be_bytes` of the four bytes at a position. -/
def numberAt (buf : List Byte) (p : Nat) : Except OutOfRange Nat := do
  let a ← byteAt buf p
  let b ← byteAt buf (p + 1)
  let c ← byteAt buf (p + 2)
  let d ← byteAt buf (p + 3)
  .ok (u32 a b c d).toNat

/-- One field at a position, and the position after what was read of it. -/
def rd (buf : List Byte) (p : Nat) : Except OutOfRange (Option (List Byte) × Nat) :=
  if buf.length < p + 4 then .ok (none, p)
  else do
    let n ← numberAt buf p
    if buf.length < p + 4 + n then .ok (none, p + 4)
    else do
      let s ← sliceAt buf (p + 4) (p + 4 + n)
      .ok (some s, p + 4 + n)

def text (bytes : List Byte) : String := String.ofList (fromUtf8Lossy bytes)

/-- Both fields are read before either is looked at. -/
def pairsAt (buf : List Byte) : Nat → Nat → Except OutOfRange (List (String × String))
  | 0, _ => .ok []
  | count + 1, p => do
      let (k, p) ← rd buf p
      let (v, p) ← rd buf p
      match k, v with
      | some k, some v => do
          let rest ← pairsAt buf count p
          .ok ((text k, text v) :: rest)
      | _, _ => .ok []

/-- `decode_nv`. -/
def decodeHeaders (buf : List Byte) : Except OutOfRange (List (String × String)) :=
  if buf.length < 4 then .ok []
  else do
    let count ← numberAt buf 0
    pairsAt buf count 4

/-- `encode_nv`. -/
def encodeHeaders (pairs : List (String × String)) : List Byte :=
  encodeNv (pairs.map fun (k, v) => (encode k.toList, encode v.toList))

theorem numberAt_of_drop {buf rest : List Byte} {p : Nat} {a b c d : Byte}
    (there : buf.drop p = a :: b :: c :: d :: rest)
    : numberAt buf p = .ok (u32 a b c d).toNat := by
  have byte (i : Nat) : buf[p + i]? = (a :: b :: c :: d :: rest)[i]? := by
    rw [← there, List.getElem?_drop]
  have first : buf[p]? = some a := byte 0
  have second : buf[p + 1]? = some b := byte 1
  have third : buf[p + 2]? = some c := byte 2
  have fourth : buf[p + 3]? = some d := byte 3
  simp [numberAt, byteAt, first, second, third, fourth]
  rfl

theorem exists_four_bytes {buf : List Byte} {p : Nat} (enough : ¬ buf.length < p + 4)
    : ∃ a b c d rest, buf.drop p = a :: b :: c :: d :: rest := by
  have long : 4 ≤ (buf.drop p).length := by
    rw [List.length_drop]
    omega
  match buf.drop p, long with
  | a :: b :: c :: d :: rest, _ => exact ⟨a, b, c, d, rest, rfl⟩

/-- Reading at a position never leaves the buffer, and reads what is left there. -/
theorem rd_eq (buf : List Byte) (p : Nat)
    : ∃ next, rd buf p = .ok ((readField (buf.drop p)).map Prod.fst, next)
        ∧ ∀ field rest, readField (buf.drop p) = some (field, rest) → buf.drop next = rest := by
  by_cases short : buf.length < p + 4
  · have few : (buf.drop p).length < 4 := by
      rw [List.length_drop]
      omega
    have nothing : readField (buf.drop p) = none := by
      match buf.drop p, few with
      | [], _ | [_], _ | [_, _], _ | [_, _, _], _ => rfl
    refine ⟨p, by rw [rd, if_pos short, nothing]; rfl, ?_⟩
    simp [nothing]
  · obtain ⟨a, b, c, d, rest, there⟩ := exists_four_bytes short
    have length : buf.length = p + 4 + rest.length := by
      have lengths := congrArg List.length there
      simp only [List.length_drop, List.length_cons] at lengths
      omega
    have after : buf.drop (p + 4) = rest := by
      rw [← List.drop_drop, there]
      rfl
    rw [rd, if_neg short, numberAt_of_drop there, there, readField]
    generalize (u32 a b c d).toNat = n
    by_cases cut : rest.length < n
    · refine ⟨p + 4, ?_, ?_⟩
      · have over_ : buf.length < p + 4 + n := by omega
        simp only [if_pos cut]
        exact if_pos over_
      · simp [cut]
    · refine ⟨p + 4 + n, ?_, ?_⟩
      · have inside : ¬ buf.length < p + 4 + n := by omega
        have slice : sliceAt buf (p + 4) (p + 4 + n) = .ok (rest.take n) := by
          rw [sliceAt, if_pos ⟨by omega, by omega⟩, after, Nat.add_sub_cancel_left]
        simp only [if_neg cut]
        refine (if_neg inside).trans ?_
        rw [slice]
        rfl
      · intro field left read
        simp only [if_neg cut, Option.some.injEq, Prod.mk.injEq] at read
        rw [← List.drop_drop, after, ← read.2]

theorem pairsAt_eq (buf : List Byte) (count p : Nat)
    : pairsAt buf count p
      = .ok ((decodePairs count (buf.drop p)).map fun (k, v) => (text k, text v)) := by
  induction count generalizing p with
  | zero => rfl
  | succ count ih =>
      obtain ⟨afterName, readName, left⟩ := rd_eq buf p
      obtain ⟨afterValue, readValue, leftToo⟩ := rd_eq buf afterName
      rw [pairsAt, readName, decodePairs]
      cases name : readField (buf.drop p) with
      | none =>
          show (rd buf afterName >>= _) = _
          rw [readValue]
          rfl
      | some read =>
          obtain ⟨k, rest⟩ := read
          have at_ : buf.drop afterName = rest := left k rest name
          show (rd buf afterName >>= _) = _
          rw [readValue, at_]
          cases value : readField rest with
          | none =>
              simp only [value]
              rfl
          | some read =>
              obtain ⟨v, more⟩ := read
              have next : buf.drop afterValue = more := leftToo v more (by rw [at_, value])
              show (pairsAt buf count afterValue >>= _) = _
              rw [ih, next]
              simp only [value]
              rfl

/-- The reader ends, and has read the texts of the pairs of bytes that are in the buffer. -/
theorem decodeHeaders_eq (buf : List Byte)
    : decodeHeaders buf = .ok ((decodeNv buf).map fun (k, v) => (text k, text v)) := by
  rw [decodeHeaders]
  by_cases short : buf.length < 4
  · rw [if_pos short]
    match buf, short with
    | [], _ | [_], _ | [_, _], _ | [_, _, _], _ => rfl
  · obtain ⟨a, b, c, d, rest, there⟩ := exists_four_bytes (p := 0) (by omega : ¬ buf.length < 0 + 4)
    rw [if_neg short, numberAt_of_drop there]
    rw [List.drop_zero] at there
    subst there
    exact pairsAt_eq _ _ _

theorem infix_of_readField {buf field rest : List Byte} (read : readField buf = some (field, rest))
    : field <:+: buf ∧ rest <:+: buf := by
  unfold readField at read
  split at read
  case h_1 a b c d left =>
    dsimp only at read
    split at read
    · cases read
    · simp only [Option.some.injEq, Prod.mk.injEq] at read
      obtain ⟨rfl, rfl⟩ := read
      have within : left <:+: a :: b :: c :: d :: left :=
        (List.suffix_append [a, b, c, d] left).isInfix
      exact ⟨(List.take_prefix _ _).isInfix.trans within,
        (List.drop_suffix _ _).isInfix.trans within⟩
  case h_2 => cases read

theorem infix_of_mem_decodePairs {count : Nat} {buf : List Byte} {pair : List Byte × List Byte}
    (member : pair ∈ decodePairs count buf)
    : pair.1 <:+: buf ∧ pair.2 <:+: buf := by
  induction count generalizing buf with
  | zero => simp [decodePairs] at member
  | succ count ih =>
      rw [decodePairs] at member
      cases name : readField buf with
      | none => simp [name] at member
      | some read =>
          obtain ⟨k, rest⟩ := read
          obtain ⟨inName, inRest⟩ := infix_of_readField name
          cases value : readField rest with
          | none => simp [name, value] at member
          | some read =>
              obtain ⟨v, more⟩ := read
              obtain ⟨inValue, inMore⟩ := infix_of_readField value
              simp only [name, value, List.mem_cons] at member
              rcases member with rfl | later
              · exact ⟨inName, inValue.trans inRest⟩
              · obtain ⟨left, right⟩ := ih later
                have within := inMore.trans inRest
                exact ⟨left.trans within, right.trans within⟩

theorem infix_of_mem_decodeNv {buf : List Byte} {pair : List Byte × List Byte}
    (member : pair ∈ decodeNv buf)
    : pair.1 <:+: buf ∧ pair.2 <:+: buf := by
  unfold decodeNv at member
  split at member
  case h_1 a b c d rest =>
    obtain ⟨left, right⟩ := infix_of_mem_decodePairs member
    have within : rest <:+: a :: b :: c :: d :: rest :=
      (List.suffix_append [a, b, c, d] rest).isInfix
    exact ⟨left.trans within, right.trans within⟩
  case h_2 => simp at member

theorem exists_beBytes_four {n : Nat} (small : n < 2 ^ 32)
    : ∃ a b c d, beBytes 4 n = [a, b, c, d] ∧ (u32 a b c d).toNat = n := by
  have length := length_beBytes 4 n
  match is : beBytes 4 n, length with
  | [a, b, c, d], _ =>
      refine ⟨a, b, c, d, rfl, ?_⟩
      have value : ofBytes [a, b, c, d] = n % 256 ^ 4 := by rw [← is, ofBytes_beBytes]
      rw [u32, value, UInt32.toNat_ofNat']
      omega

theorem readField_append {field : List Byte} (rest : List Byte) (small : field.length < 2 ^ 32)
    : readField (beBytes 4 field.length ++ field ++ rest) = some (field, rest) := by
  obtain ⟨a, b, c, d, is, value⟩ := exists_beBytes_four small
  have inside : ¬ (field ++ rest).length < field.length := by simp
  rw [is, List.append_assoc, List.cons_append, List.cons_append, List.cons_append,
    List.cons_append, List.nil_append, readField]
  simp only [value, if_neg inside, List.take_left, List.drop_left]

/-- Pairs whose lengths the format can say. -/
structure FitsU32 (pairs : List (String × String)) : Prop where
  count : pairs.length < 2 ^ 32
  names : ∀ pair ∈ pairs, (encode pair.1.toList).length < 2 ^ 32
  values : ∀ pair ∈ pairs, (encode pair.2.toList).length < 2 ^ 32

theorem decodePairs_append {pairs : List (List Byte × List Byte)}
    (names : ∀ pair ∈ pairs, pair.1.length < 2 ^ 32)
    (values : ∀ pair ∈ pairs, pair.2.length < 2 ^ 32)
    : decodePairs pairs.length
        (pairs.flatMap fun (k, v) => beBytes 4 k.length ++ k ++ beBytes 4 v.length ++ v)
      = pairs := by
  induction pairs with
  | nil => rfl
  | cons pair rest ih =>
      obtain ⟨k, v⟩ := pair
      have later := ih (fun pair member => names pair (List.mem_cons_of_mem _ member))
        fun pair member => values pair (List.mem_cons_of_mem _ member)
      have name : k.length < 2 ^ 32 := names (k, v) List.mem_cons_self
      have value : v.length < 2 ^ 32 := values (k, v) List.mem_cons_self
      rw [List.flatMap_cons, List.length_cons, decodePairs, List.append_assoc, List.append_assoc,
        readField_append _ name]
      simp only
      rw [← List.append_assoc, readField_append _ value]
      simp only [later]

theorem decodeNv_encodeNv {pairs : List (List Byte × List Byte)} (count : pairs.length < 2 ^ 32)
    (names : ∀ pair ∈ pairs, pair.1.length < 2 ^ 32)
    (values : ∀ pair ∈ pairs, pair.2.length < 2 ^ 32)
    : decodeNv (encodeNv pairs) = pairs := by
  obtain ⟨a, b, c, d, is, value⟩ := exists_beBytes_four count
  rw [encodeNv, is, List.cons_append, List.cons_append, List.cons_append, List.cons_append,
    List.nil_append, decodeNv, value]
  exact decodePairs_append names values

theorem decodeHeaders_encodeHeaders {pairs : List (String × String)} (fits : FitsU32 pairs)
    : decodeHeaders (encodeHeaders pairs) = .ok pairs := by
  rw [decodeHeaders_eq, encodeHeaders, decodeNv_encodeNv (by simpa using fits.count) ?_ ?_]
  · simp [text, Function.comp_def]
  · intro pair member
    obtain ⟨texts, held, rfl⟩ := List.mem_map.mp member
    exact fits.names texts held
  · intro pair member
    obtain ⟨texts, held, rfl⟩ := List.mem_map.mp member
    exact fits.values texts held

end Delonix.Spdy
