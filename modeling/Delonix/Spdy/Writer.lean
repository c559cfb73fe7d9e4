import Delonix.Library.Runs
import Delonix.Spdy.Frames
import Mathlib.Data.Int.Init
import Mathlib.Logic.Function.Basic

/-! The task that owns the outgoing half of a SPDY connection. What a stream queues waits in its
buffer for two windows, its own and the session's, and leaves in frames of bounded size. The
windows are integers here: the credits a connection receives stay within an `i64`.
-/

namespace Delonix.Spdy

open Delonix.Library.Bytes
open Delonix.Library.Runs

/-- The header compressor, `zlib` with the dictionary of SPDY/3. It turns the four bytes of an
empty header block into a few.
-/
structure Deflater where
  State : Type
  new : State
  block : State → List Byte → List Byte × State
  short : ∀ state nv, nv.length = 4 → (block state nv).1.length < 2 ^ 24 - 4

inductive Out where
  | synReply (sid : Sid)
  | data (sid : Sid) (fin : Bool) (buf : List Byte)
  | credit (sid : Sid) (delta : ℤ)
  | sendWu (sid : Sid) (delta : UInt32)
  | ping (id : UInt32)
  | goaway (last : Sid)
  | close

/-- What a stream has not written yet, whether its end is queued, and whether it is written. -/
structure Entry where
  buf : List Byte
  finPending : Bool
  finSent : Bool

/-- `i64::MAX / 4`, for the session and for every stream. -/
def initialWin : ℤ := (2 ^ 63 - 1) / 4

structure Writer (comp : Deflater) where
  deflate : comp.State
  sessionWin : ℤ
  win : Sid → Option ℤ
  pend : Sid → Option Entry
  written : List Frame
  closed : Bool

/-- What came of draining one stream. -/
structure Drained where
  entry : Entry
  win : ℤ
  sessionWin : ℤ
  frames : List Frame

/-- The loop of `flush_stream`. -/
def drain (sid : Sid) (entry : Entry) (sw sessionWin : ℤ) : Drained :=
  if entry.finSent then ⟨entry, sw, sessionWin, []⟩
  else
    let avail := (max (min sw sessionWin) 0).toNat
    let n := min (min entry.buf.length avail) MAX_DATA
    if n = 0 then
      if entry.buf.isEmpty && entry.finPending then
        ⟨{ entry with finSent := true }, sw, sessionWin, [.data sid FLAG_FIN []]⟩
      else ⟨entry, sw, sessionWin, []⟩
    else
      let chunk := entry.buf.take n
      let left := entry.buf.drop n
      if left.isEmpty && entry.finPending then
        ⟨⟨left, entry.finPending, true⟩, sw - n, sessionWin - n, [.data sid FLAG_FIN chunk]⟩
      else
        let rest := drain sid ⟨left, entry.finPending, entry.finSent⟩ (sw - n) (sessionWin - n)
        { rest with frames := .data sid 0 chunk :: rest.frames }
termination_by entry.buf.length
decreasing_by
  simp only [List.length_drop]
  omega

namespace Writer

variable {comp : Deflater}

/-- A stream's window; one not spoken of yet has the initial one. -/
def window (w : Writer comp) (sid : Sid) : ℤ := (w.win sid).getD initialWin

/-- `flush_stream`. -/
def flushStream (w : Writer comp) (sid : Sid) : Writer comp :=
  match w.pend sid with
  | none => w
  | some entry =>
      let drained := drain sid entry (w.window sid) w.sessionWin
      { w with
        pend := Function.update w.pend sid (some drained.entry)
        win := Function.update w.win sid (some drained.win)
        sessionWin := drained.sessionWin
        written := w.written ++ drained.frames }

/-- The bytes join what the stream has queued. -/
def queue (w : Writer comp) (sid : Sid) (fin : Bool) (buf : List Byte) : Writer comp :=
  let entry := (w.pend sid).getD ⟨[], false, false⟩
  { w with
    pend := Function.update w.pend sid
      (some ⟨entry.buf ++ buf, entry.finPending || fin, entry.finSent⟩) }

def write (w : Writer comp) (frame : Frame) : Writer comp :=
  { w with written := w.written ++ [frame] }

/-- One turn of `writer_task`. The streams with a buffer are visited in the order in which their
map lists them.
-/
def handle (w : Writer comp) (sids : List Sid) : Out → Writer comp
  | .synReply sid =>
      let (cnv, deflate) := comp.block w.deflate (encodeNv [])
      { w with deflate }.write (.ctrl SYN_REPLY 0 (beBytes 4 sid.toNat ++ cnv))
  | .data sid fin buf => (w.queue sid fin buf).flushStream sid
  | .credit sid delta =>
      if sid = 0 then
        sids.foldl flushStream { w with sessionWin := w.sessionWin + delta }
      else
        let win := Function.update w.win sid (some (w.window sid + delta))
        { w with win }.flushStream sid
  | .sendWu sid delta =>
      w.write (.ctrl WINDOW_UPDATE 0
        (beBytes 4 (sid &&& 0x7fffffff).toNat ++ beBytes 4 delta.toNat))
  | .ping id => w.write (.ctrl PING 0 (beBytes 4 id.toNat))
  | .goaway last => w.write (.ctrl GOAWAY 0 (beBytes 4 last.toNat ++ beBytes 4 0))
  | .close => { w with closed := true }

def start (comp : Deflater) : Writer comp :=
  ⟨comp.new, initialWin, fun _ => none, fun _ => none, [], false⟩

/-- A message is handled while the connection is open. -/
def Step (w : Writer comp) (msg : Out) (w' : Writer comp) : Prop :=
  w.closed = false ∧ ∃ sids : List Sid, (∀ sid, sid ∈ sids ↔ (w.pend sid).isSome)
    ∧ w' = w.handle sids msg

/-- Everything the connection has carried. -/
def wire (w : Writer comp) : List Byte := w.written.flatMap Frame.bytes

end Writer

/-- The bytes that frames or messages have for each stream, in order. -/
abbrev Bufs := List (Sid × List Byte)

def bytesOf (sid : Sid) (bufs : Bufs) : List Byte :=
  (bufs.filter (fun buf => buf.1 = sid)).flatMap Prod.snd

def Frame.buf : Frame → Option (Sid × List Byte)
  | .data sid _ payload => some (sid, payload)
  | .ctrl .. => none

/-- The flags of one stream's frames. -/
def Frame.flagsOn (sid : Sid) : Frame → Option Byte
  | .data sid' flags _ => if sid' = sid then some flags else none
  | .ctrl .. => none

def sent (sid : Sid) (frames : List Frame) : List Byte := bytesOf sid (frames.filterMap Frame.buf)

def flags (sid : Sid) (frames : List Frame) : List Byte := frames.filterMap (Frame.flagsOn sid)

theorem bytesOf_append (sid : Sid) (left right : Bufs)
    : bytesOf sid (left ++ right) = bytesOf sid left ++ bytesOf sid right := by
  simp only [bytesOf, List.filter_append, List.flatMap_append]

theorem sent_append (sid : Sid) (left right : List Frame)
    : sent sid (left ++ right) = sent sid left ++ sent sid right := by
  simp only [sent, List.filterMap_append, bytesOf_append]

theorem flags_append (sid : Sid) (left right : List Frame)
    : flags sid (left ++ right) = flags sid left ++ flags sid right :=
  List.filterMap_append

theorem sent_data_cons (sid : Sid) (f : Byte) (chunk : List Byte) (rest : List Frame)
    : sent sid (.data sid f chunk :: rest) = chunk ++ sent sid rest := by
  simp [sent, bytesOf, Frame.buf]

theorem flags_data_cons (sid : Sid) (f : Byte) (chunk : List Byte) (rest : List Frame)
    : flags sid (.data sid f chunk :: rest) = f :: flags sid rest := by
  simp [flags, Frame.flagsOn]

/-- What draining does to a stream whose end is not written: the front of its buffer leaves, in
order, and its end is on the last frame.
-/
structure Drains (sid : Sid) (entry : Entry) (sw sessionWin : ℤ) (d : Drained) : Prop where
  mine : ∀ frame ∈ d.frames, ∃ flags payload, frame = .data sid flags payload
    ∧ payload.length ≤ MAX_DATA
  split : entry.buf = sent sid d.frames ++ d.entry.buf
  spent : d.win = sw - (sent sid d.frames).length
  spentSession : d.sessionWin = sessionWin - (sent sid d.frames).length
  finPending : d.entry.finPending = entry.finPending
  flagged : ∃ k, flags sid d.frames
    = List.replicate k 0 ++ if d.entry.finSent then [FLAG_FIN] else []
  ended : d.entry.finSent = true → d.entry.buf = [] ∧ entry.finPending = true
  idle : d.entry.finSent = false → d.entry.buf = [] → entry.finPending = false
  waits : d.entry.finSent = false → d.entry.buf ≠ [] → d.win ≤ 0 ∨ d.sessionWin ≤ 0
  solvent : 0 ≤ sessionWin → 0 ≤ d.sessionWin

theorem drain_of_finSent (sid : Sid) {entry : Entry} (sw sessionWin : ℤ)
    (ended : entry.finSent = true)
    : drain sid entry sw sessionWin = ⟨entry, sw, sessionWin, []⟩ := by
  rw [drain, if_pos ended]

theorem drains (sid : Sid) {entry : Entry} (sw sessionWin : ℤ) (opened : entry.finSent = false)
    : Drains sid entry sw sessionWin (drain sid entry sw sessionWin) := by
  fun_induction drain sid entry sw sessionWin with
  | case1 entry sw sessionWin ended => cases ended.symm.trans opened
  | case2 entry sw sessionWin _ avail n _ last =>
      rw [Bool.and_eq_true, List.isEmpty_iff] at last
      obtain ⟨empty, pending⟩ := last
      constructor
      case mine =>
        intro frame member
        exact ⟨FLAG_FIN, [], List.mem_singleton.mp member, Nat.zero_le _⟩
      case flagged => exact ⟨0, by simp [flags, Frame.flagsOn]⟩
      case ended => exact fun _ => ⟨empty, pending⟩
      case idle => intro opened; cases opened
      case waits => intro opened; cases opened
      case solvent => exact id
      all_goals simp [sent, bytesOf, Frame.buf]
  | case3 entry sw sessionWin _ avail n stuck last =>
      constructor
      case mine => intro _ member; cases member
      case flagged => exact ⟨0, by simp [flags, opened]⟩
      case ended => intro ended; cases opened.symm.trans ended
      case idle =>
        intro _ empty
        have empty : entry.buf = [] := empty
        simpa [empty] using last
      case waits =>
        intro _ waiting
        show sw ≤ 0 ∨ sessionWin ≤ 0
        have length : 0 < entry.buf.length := List.length_pos_iff.mpr waiting
        have room : 0 < MAX_DATA := by decide
        omega
      case solvent => exact id
      all_goals simp [sent, bytesOf]
  | case4 entry sw sessionWin _ avail n some chunk left last =>
      rw [Bool.and_eq_true, List.isEmpty_iff] at last
      obtain ⟨empty, pending⟩ := last
      have whole : entry.buf = chunk ++ left := (List.take_append_drop n entry.buf).symm
      have length : chunk.length = n := by
        rw [List.length_take]
        omega
      constructor
      case mine =>
        intro frame member
        exact ⟨FLAG_FIN, chunk, List.mem_singleton.mp member, by omega⟩
      case split => simpa [sent, bytesOf, Frame.buf] using whole
      case flagged => exact ⟨0, by simp [flags, Frame.flagsOn]⟩
      case ended => exact fun _ => ⟨empty, pending⟩
      case idle => intro opened; cases opened
      case waits => intro opened; cases opened
      case solvent =>
        intro solvent
        show 0 ≤ sessionWin - (n : ℤ)
        omega
      case finPending => rfl
      all_goals simp [sent, bytesOf, Frame.buf, length]
  | case5 entry sw sessionWin _ avail n some chunk left last drained ih =>
      have rest : Drains sid ⟨left, _, _⟩ (sw - n) (sessionWin - n) drained := ih opened
      have whole : entry.buf = chunk ++ left := (List.take_append_drop n entry.buf).symm
      have length : chunk.length = n := by
        rw [List.length_take]
        omega
      constructor
      case mine =>
        intro frame member
        rcases List.mem_cons.mp member with rfl | later
        · exact ⟨0, chunk, rfl, by omega⟩
        · exact rest.mine frame later
      case split =>
        rw [sent_data_cons, List.append_assoc, whole]
        exact congrArg (chunk ++ ·) rest.split
      case spent =>
        rw [sent_data_cons, List.length_append, length]
        have spent := rest.spent
        push_cast
        omega
      case spentSession =>
        rw [sent_data_cons, List.length_append, length]
        have spent := rest.spentSession
        push_cast
        omega
      case finPending => exact rest.finPending
      case flagged =>
        obtain ⟨k, flagged⟩ := rest.flagged
        exact ⟨k + 1, by rw [flags_data_cons, flagged]; rfl⟩
      case ended => exact rest.ended
      case idle => exact rest.idle
      case waits => exact rest.waits
      case solvent =>
        intro solvent
        exact rest.solvent (by omega)

end Delonix.Spdy
