import Delonix.Library.Utf8

/-! SPDY/3 frames as the server builds them, and the frames it reads off a connection. -/

namespace Delonix.Spdy

open Delonix.Library.Bytes

/-- A stream's number; the wire has 31 bits for it. -/
abbrev Sid := UInt32

inductive Frame where
  | ctrl (kind : UInt16) (flags : Byte) (payload : List Byte)
  | data (sid : Sid) (flags : Byte) (payload : List Byte)
deriving DecidableEq

def SYN_STREAM : UInt16 := 1
def SYN_REPLY : UInt16 := 2
def SETTINGS : UInt16 := 4
def PING : UInt16 := 6
def GOAWAY : UInt16 := 7
def WINDOW_UPDATE : UInt16 := 9
def FLAG_FIN : Byte := 0x01
def MAX_DATA : Nat := 16 * 1024

/-- The 24 bits for a length: the last three of the four bytes of a `u32`. -/
def len24 (payload : List Byte) : List Byte := (beBytes 4 payload.length).drop 1

/-- `ctrl`: the control bit and version 3, then the kind. -/
def ctrl (kind : UInt16) (flags : Byte) (payload : List Byte) : List Byte :=
  beBytes 2 (0x8000 ||| 3) ++ beBytes 2 kind.toNat ++ flags :: len24 payload ++ payload

def dataFrame (sid : Sid) (flags : Byte) (data : List Byte) : List Byte :=
  beBytes 4 (sid &&& 0x7fffffff).toNat ++ flags :: len24 data ++ data

def Frame.bytes : Frame → List Byte
  | .ctrl kind flags payload => Spdy.ctrl kind flags payload
  | .data sid flags payload => dataFrame sid flags payload

/-- `encode_nv`: how many headers there are, then each name and value behind its length. -/
def encodeNv (pairs : List (List Byte × List Byte)) : List Byte :=
  beBytes 4 pairs.length ++ pairs.flatMap fun (k, v) =>
    beBytes 4 k.length ++ k ++ beBytes 4 v.length ++ v

def u32 (a b c d : Byte) : UInt32 := UInt32.ofNat (ofBytes [a, b, c, d])

/-- One turn of the reading loop: eight bytes of header, then the payload they announce. Nothing
is read when the connection ends before that.
-/
def readFrame : List Byte → Option (Frame × List Byte)
  | h0 :: h1 :: h2 :: h3 :: h4 :: h5 :: h6 :: h7 :: rest =>
      let len := (h5.toNat <<< 16) ||| (h6.toNat <<< 8) ||| h7.toNat
      if rest.length < len then none
      else
        let payload := rest.take len
        let frame :=
          if h0 &&& 0x80 ≠ 0 then .ctrl (UInt16.ofNat (ofBytes [h2, h3])) h4 payload
          else .data (u32 h0 h1 h2 h3 &&& 0x7fffffff) h4 payload
        some (frame, rest.drop len)
  | _ => none

theorem readFrame_shorter {bytes rest : List Byte} {frame : Frame}
    (read : readFrame bytes = some (frame, rest))
    : rest.length < bytes.length := by
  unfold readFrame at read
  split at read
  case h_2 => cases read
  case h_1 tail =>
    dsimp only at read
    split at read
    · cases read
    · cases read
      simp only [List.length_drop, List.length_cons]
      omega

/-- Every frame read until the connection ends. -/
def readFrames (bytes : List Byte) : List Frame :=
  match _read : readFrame bytes with
  | none => []
  | some (frame, rest) => frame :: readFrames rest
termination_by bytes.length
decreasing_by exact readFrame_shorter ‹_›

theorem readFrames_of_read {bytes rest : List Byte} {frame : Frame}
    (read : readFrame bytes = some (frame, rest))
    : readFrames bytes = frame :: readFrames rest := by
  rw [readFrames]
  split
  case h_1 none => cases none.symm.trans read
  case h_2 frame' rest' same =>
    cases same.symm.trans read
    rfl

theorem readFrames_of_none {bytes : List Byte} (ends : readFrame bytes = none)
    : readFrames bytes = [] := by
  rw [readFrames]
  split
  case h_1 => rfl
  case h_2 same => cases same.symm.trans ends

/-- The length fits its 24 bits and the stream's number its 31. -/
def Frame.Fits : Frame → Prop
  | .ctrl _ _ payload => payload.length < 2 ^ 24
  | .data sid _ payload => sid.toNat < 2 ^ 31 ∧ payload.length < 2 ^ 24

theorem toNat_masked (sid : Sid) : (sid &&& 0x7fffffff).toNat = sid.toNat % 2 ^ 31 := by
  rw [UInt32.toNat_and]
  exact Nat.and_two_pow_sub_one_eq_mod sid.toNat 31

theorem masked_eq_self {sid : Sid} (low : sid.toNat < 2 ^ 31) : sid &&& 0x7fffffff = sid := by
  apply UInt32.toNat_inj.mp
  rw [toNat_masked, Nat.mod_eq_of_lt low]

/-- A stream's number leaves the control bit alone. -/
theorem control_bit_masked (sid : Sid)
    : UInt8.ofNat ((sid &&& 0x7fffffff).toNat / 256 ^ 3) &&& 0x80 = 0 := by
  have small : (sid &&& 0x7fffffff).toNat / 256 ^ 3 < 128 := by
    have below := Nat.mod_lt sid.toNat (Nat.two_pow_pos 31)
    rw [toNat_masked]
    omega
  have bit : ∀ n < 128, UInt8.ofNat n &&& 0x80 = 0 := by decide
  exact bit _ small

theorem u32_beBytes (n : UInt32)
    : u32 (UInt8.ofNat (n.toNat / 256 ^ 3)) (UInt8.ofNat (n.toNat / 256 ^ 2))
        (UInt8.ofNat (n.toNat / 256 ^ 1)) (UInt8.ofNat (n.toNat / 256 ^ 0))
      = n := by
  have spelled := ofBytes_beBytes 4 n.toNat
  have small : n.toNat < 256 ^ 4 := n.toNat_lt
  rw [Nat.mod_eq_of_lt small] at spelled
  have spelled : ofBytes [_, _, _, _] = n.toNat := spelled
  rw [u32, spelled, UInt32.ofNat_toNat]

/-- The announced length is the payload's. -/
theorem len24_read {payload : List Byte} (short : payload.length < 2 ^ 24)
    : ∃ a b c, len24 payload = [a, b, c]
      ∧ (a.toNat <<< 16) ||| (b.toNat <<< 8) ||| c.toNat = payload.length := by
  refine ⟨_, _, _, rfl, ?_⟩
  rw [shifted_eq_ofBytes]
  exact (ofBytes_beBytes 3 payload.length).trans (Nat.mod_eq_of_lt short)

theorem readFrame_ctrl (kind : UInt16) (flags : Byte) {payload : List Byte}
    (short : payload.length < 2 ^ 24) (rest : List Byte)
    : readFrame (ctrl kind flags payload ++ rest) = some (.ctrl kind flags payload, rest) := by
  obtain ⟨a, b, c, spelled, read⟩ := len24_read short
  have kinds : UInt16.ofNat (ofBytes (beBytes 2 kind.toNat)) = kind := by
    rw [ofBytes_beBytes, Nat.mod_eq_of_lt (show kind.toNat < 256 ^ 2 from kind.toNat_lt)]
    exact UInt16.ofNat_toNat
  rw [ctrl, spelled]
  simp only [beBytes, List.cons_append, List.nil_append, readFrame, read,
    List.length_append, Nat.not_lt.mpr (Nat.le_add_right _ _), if_false, List.take_left,
    List.drop_left]
  simp only [beBytes] at kinds
  rw [kinds, if_pos (by decide)]

theorem readFrame_data {sid : Sid} (flags : Byte) {payload : List Byte}
    (low : sid.toNat < 2 ^ 31) (short : payload.length < 2 ^ 24) (rest : List Byte)
    : readFrame (dataFrame sid flags payload ++ rest)
      = some (.data sid flags payload, rest) := by
  obtain ⟨a, b, c, spelled, read⟩ := len24_read short
  rw [dataFrame, spelled]
  simp only [beBytes, List.cons_append, List.nil_append, readFrame, read,
    List.length_append, Nat.not_lt.mpr (Nat.le_add_right _ _), if_false, List.take_left,
    List.drop_left]
  have bit := control_bit_masked sid
  rw [masked_eq_self low] at bit ⊢
  rw [u32_beBytes, if_neg (not_not_intro bit), masked_eq_self low]

theorem readFrame_bytes {frame : Frame} (fits : frame.Fits) (rest : List Byte)
    : readFrame (frame.bytes ++ rest) = some (frame, rest) := by
  cases frame with
  | ctrl kind flags payload => exact readFrame_ctrl kind flags fits rest
  | data sid flags payload => exact readFrame_data flags fits.1 fits.2 rest

/-- The frames of a connection are read as they were built. -/
theorem readFrames_flatMap_bytes {frames : List Frame} (fits : ∀ frame ∈ frames, frame.Fits)
    : readFrames (frames.flatMap Frame.bytes) = frames := by
  induction frames with
  | nil => exact readFrames_of_none rfl
  | cons frame rest ih =>
      obtain ⟨fits, later⟩ := List.forall_mem_cons.mp fits
      rw [List.flatMap_cons, readFrames_of_read (readFrame_bytes fits _), ih later]

end Delonix.Spdy
