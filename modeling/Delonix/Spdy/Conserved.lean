import Delonix.Spdy.Writer
import Mathlib.Algebra.BigOperators.Group.Finset.Basic
import Mathlib.Algebra.Order.BigOperators.Group.Finset

/-! What the writer was handed for a stream is what it puts on the wire, in order and once. Bytes
wait only for the windows, so where the windows cover everything queued nothing waits.
-/

namespace Delonix.Spdy

open Delonix.Library.Bytes
open Delonix.Library.Runs

-----------------------------------------------------------------------------------------
-- What the messages of a run ask for
-----------------------------------------------------------------------------------------

def Out.buf : Out → Option (Sid × List Byte)
  | .data sid _ buf => some (sid, buf)
  | _ => none

/-- The message that ends a stream. -/
def Out.ends (sid : Sid) : Out → Bool
  | .data sid' fin _ => sid' = sid && fin
  | _ => false

def Out.credited (sid : Sid) : Out → ℤ
  | .credit sid' delta => if sid' = sid then delta else 0
  | _ => 0

/-- Stream numbers have 31 bits, as the ones a client opens are read. -/
def Out.Low : Out → Prop
  | .data sid _ _ => sid.toNat < 2 ^ 31
  | _ => True

instance : (msg : Out) → Decidable msg.Low
  | .data sid _ _ => inferInstanceAs (Decidable (sid.toNat < 2 ^ 31))
  | .synReply _ => isTrue trivial
  | .credit _ _ => isTrue trivial
  | .sendWu _ _ => isTrue trivial
  | .ping _ => isTrue trivial
  | .goaway _ => isTrue trivial
  | .close => isTrue trivial

/-- The messages of a run, oldest first. -/
def messages {State : Type} (history : List (Event State Out)) : List Out :=
  (history.map Event.action).reverse

/-- Everything queued on a stream. -/
def total (sid : Sid) (msgs : List Out) : List Byte := bytesOf sid (msgs.filterMap Out.buf)

def finished (sid : Sid) (msgs : List Out) : Bool := msgs.any (Out.ends sid)

/-- The messages up to the one that ends the stream, and with it. -/
def upToEnd (sid : Sid) : List Out → List Out
  | [] => []
  | msg :: rest => if msg.ends sid then [msg] else msg :: upToEnd sid rest

/-- What is queued on a stream before it ends. -/
def queued (sid : Sid) (msgs : List Out) : List Byte := total sid (upToEnd sid msgs)

def credits (sid : Sid) (msgs : List Out) : ℤ := (msgs.map (Out.credited sid)).sum

/-- What a client has let one stream send; credit on stream 0 is the session's. -/
def allowance (sid : Sid) (msgs : List Out) : ℤ :=
  initialWin + if sid = 0 then 0 else credits sid msgs

def sessionAllowance (msgs : List Out) : ℤ := initialWin + credits 0 msgs

def bytes (bufs : Bufs) : List Byte := bufs.flatMap Prod.snd

/-- At some point of the run all that the stream gets before its end is queued, nothing else is
queued on it, and the windows cover what all the streams have queued.
-/
def Covered (sid : Sid) (msgs : List Out) : Prop :=
  ∃ before after, msgs = before ++ after ∧ total sid before = queued sid msgs
    ∧ ((total sid before).length : ℤ) ≤ allowance sid before
    ∧ ((bytes (before.filterMap Out.buf)).length : ℤ) ≤ sessionAllowance before

theorem total_concat (sid : Sid) (msgs : List Out) (msg : Out)
    : total sid (msgs ++ [msg]) = total sid msgs ++ total sid [msg] := by
  simp only [total, List.filterMap_append, bytesOf_append]

theorem finished_concat (sid : Sid) (msgs : List Out) (msg : Out)
    : finished sid (msgs ++ [msg]) = (finished sid msgs || msg.ends sid) := by
  simp [finished]

theorem credits_concat (sid : Sid) (msgs : List Out) (msg : Out)
    : credits sid (msgs ++ [msg]) = credits sid msgs + msg.credited sid := by
  simp [credits]

theorem allowance_concat (sid : Sid) (msgs : List Out) (msg : Out)
    : allowance sid (msgs ++ [msg])
      = allowance sid msgs + if sid = 0 then 0 else msg.credited sid := by
  unfold allowance
  rw [credits_concat]
  split <;> omega

theorem sessionAllowance_concat (msgs : List Out) (msg : Out)
    : sessionAllowance (msgs ++ [msg]) = sessionAllowance msgs + msg.credited 0 := by
  rw [sessionAllowance, credits_concat, sessionAllowance, add_assoc]

-----------------------------------------------------------------------------------------
-- The state of a stream
-----------------------------------------------------------------------------------------

/-- What the frames written so far and the buffer of a stream have to do with the messages. A
stream whose end is written stays as it was then.
-/
inductive StreamState (sid : Sid) (msgs : List Out) (frames : List Frame) : Option Entry → Prop where
  | unused (nothing : total sid msgs = []) (endless : finished sid msgs = false)
      (silent : sent sid frames = []) (unflagged : flags sid frames = [])
      : StreamState sid msgs frames none
  | opened {entry : Entry} (k : Nat) (ongoing : entry.finSent = false)
      (conserved : sent sid frames ++ entry.buf = total sid msgs)
      (pending : entry.finPending = finished sid msgs)
      (unflagged : flags sid frames = List.replicate k 0)
      : StreamState sid msgs frames (some entry)
  | ended {entry : Entry} (k : Nat) (earlier : List Out) (over_ : entry.finSent = true)
      (past : earlier <+: msgs) (was : finished sid earlier = true)
      (conserved : sent sid frames = total sid earlier)
      (flagged : flags sid frames = List.replicate k 0 ++ [FLAG_FIN])
      : StreamState sid msgs frames (some entry)

/-- Nothing waits while both windows are open, and an end waits for bytes only. -/
def Entry.Prompt (entry : Entry) (win sessionWin : ℤ) : Prop :=
  entry.finSent = false →
    (entry.buf = [] → entry.finPending = false) ∧ (entry.buf ≠ [] → win ≤ 0 ∨ sessionWin ≤ 0)

variable {comp : Deflater}

/-- What holds of a writer at every point, also between two flushes. -/
structure Kept (msgs : List Out) (w : Writer comp) : Prop where
  stream : ∀ sid, StreamState sid msgs w.written (w.pend sid)
  window : ∀ sid, w.window sid = allowance sid msgs - (sent sid w.written).length
  sessionWin : w.sessionWin
    = sessionAllowance msgs - (bytes (w.written.filterMap Frame.buf)).length

/-- Nothing waits that the windows would let go. -/
def Prompt (w : Writer comp) (sid : Sid) : Prop :=
  ∀ entry, w.pend sid = some entry → entry.Prompt (w.window sid) w.sessionWin

-----------------------------------------------------------------------------------------
-- Flushing
-----------------------------------------------------------------------------------------

/-- Draining adds frames of one stream and takes what they hold from both windows. -/
structure Adds (sid : Sid) (entry : Entry) (sw sessionWin : ℤ) (d : Drained) : Prop where
  mine : ∀ frame ∈ d.frames, ∃ flags payload, frame = .data sid flags payload
    ∧ payload.length ≤ MAX_DATA
  spent : d.win = sw - (sent sid d.frames).length
  spentSession : d.sessionWin = sessionWin - (sent sid d.frames).length

theorem adds_drain (sid : Sid) (entry : Entry) (sw sessionWin : ℤ)
    : Adds sid entry sw sessionWin (drain sid entry sw sessionWin) := by
  cases ended : entry.finSent with
  | true =>
      rw [drain_of_finSent sid sw sessionWin ended]
      exact ⟨by simp, by simp [sent, bytesOf], by simp [sent, bytesOf]⟩
  | false =>
      have drains := drains sid sw sessionWin ended
      exact ⟨drains.mine, drains.spent, drains.spentSession⟩

theorem sent_of_mine {sid other : Sid} {frames : List Frame}
    (mine : ∀ frame ∈ frames, ∃ flags payload, frame = .data sid flags payload
      ∧ payload.length ≤ MAX_DATA)
    (different : other ≠ sid)
    : sent other frames = [] ∧ flags other frames = [] := by
  induction frames with
  | nil => exact ⟨rfl, rfl⟩
  | cons frame rest ih =>
      obtain ⟨⟨f, payload, rfl, -⟩, later⟩ := List.forall_mem_cons.mp mine
      obtain ⟨silent, unflagged⟩ := ih later
      constructor
      · simpa [sent, bytesOf, Frame.buf, different.symm] using silent
      · simpa [flags, Frame.flagsOn, different.symm] using unflagged

theorem bytes_of_mine {sid : Sid} {frames : List Frame}
    (mine : ∀ frame ∈ frames, ∃ flags payload, frame = .data sid flags payload
      ∧ payload.length ≤ MAX_DATA)
    : bytes (frames.filterMap Frame.buf) = sent sid frames := by
  induction frames with
  | nil => rfl
  | cons frame rest ih =>
      obtain ⟨⟨f, payload, rfl, -⟩, later⟩ := List.forall_mem_cons.mp mine
      rw [sent_data_cons, ← ih later]
      rfl

theorem flushStream_of_none {w : Writer comp} {sid : Sid} (unused : w.pend sid = none)
    : w.flushStream sid = w := by
  unfold Writer.flushStream
  rw [unused]

theorem flushStream_of_some {w : Writer comp} {sid : Sid} {entry : Entry}
    (queue : w.pend sid = some entry)
    : w.flushStream sid
      = { w with
        pend := Function.update w.pend sid
          (some (drain sid entry (w.window sid) w.sessionWin).entry)
        win := Function.update w.win sid
          (some (drain sid entry (w.window sid) w.sessionWin).win)
        sessionWin := (drain sid entry (w.window sid) w.sessionWin).sessionWin
        written := w.written ++ (drain sid entry (w.window sid) w.sessionWin).frames } := by
  unfold Writer.flushStream
  rw [queue]

/-- What was left of a stream is shown by the frames drained from it. -/
theorem StreamState.drain {sid : Sid} {msgs : List Out} {frames : List Frame} {entry : Entry}
    (before : StreamState sid msgs frames (some entry)) (sw sessionWin : ℤ)
    : StreamState sid msgs (frames ++ (drain sid entry sw sessionWin).frames)
      (some (Spdy.drain sid entry sw sessionWin).entry) := by
  cases before with
  | ended k earlier over_ past was conserved flagged =>
      rw [drain_of_finSent sid sw sessionWin over_, List.append_nil]
      exact .ended k earlier over_ past was conserved flagged
  | opened k ongoing conserved pending unflagged =>
      have drains := drains sid sw sessionWin ongoing
      obtain ⟨k', flagged⟩ := drains.flagged
      cases over_ : (Spdy.drain sid entry sw sessionWin).entry.finSent with
      | false =>
          rw [over_] at flagged
          refine .opened (k + k') over_ ?_ (drains.finPending.trans pending) ?_
          · rw [sent_append, List.append_assoc, ← drains.split, conserved]
          · simp [flags_append, unflagged, flagged]
      | true =>
          rw [over_] at flagged
          obtain ⟨empty, fin⟩ := drains.ended over_
          refine .ended (k + k') msgs over_ List.prefix_rfl (pending.symm.trans fin) ?_ ?_
          · rw [← conserved, drains.split, empty, List.append_nil, sent_append]
          · rw [flags_append, unflagged, flagged, if_pos rfl, List.replicate_add,
              List.append_assoc]

theorem StreamState.of_same {sid : Sid} {msgs : List Out} {frames frames' : List Frame}
    {entry : Option Entry} (before : StreamState sid msgs frames entry)
    (sents : sent sid frames' = sent sid frames) (flag : flags sid frames' = flags sid frames)
    : StreamState sid msgs frames' entry := by
  cases before with
  | unused nothing endless silent unflagged =>
      exact .unused nothing endless (sents.trans silent) (flag.trans unflagged)
  | opened k ongoing conserved pending unflagged =>
      exact .opened k ongoing (by rw [sents, conserved]) pending (flag.trans unflagged)
  | ended k earlier over_ past was conserved flagged =>
      exact .ended k earlier over_ past was (sents.trans conserved) (flag.trans flagged)

theorem window_update (w : Writer comp) (sid : Sid) (win : ℤ) (other : Sid)
    (pend : Sid → Option Entry) (sessionWin : ℤ) (written : List Frame)
    : ({ w with
        pend := pend
        win := Function.update w.win sid (some win)
        sessionWin := sessionWin
        written := written } : Writer comp).window other
      = if other = sid then win else w.window other := by
  unfold Writer.window
  dsimp only
  by_cases same : other = sid
  · subst same
    rw [if_pos rfl, Function.update_self]
    rfl
  · rw [if_neg same, Function.update_of_ne same]

theorem kept_flush {msgs : List Out} {w : Writer comp} (kept : Kept msgs w) (sid : Sid)
    : Kept msgs (w.flushStream sid) := by
  cases queue : w.pend sid with
  | none =>
      rw [flushStream_of_none queue]
      exact kept
  | some entry =>
      have adds := adds_drain sid entry (w.window sid) w.sessionWin
      rw [flushStream_of_some queue]
      constructor
      case stream =>
        intro other
        by_cases same : other = sid
        · subst same
          have before := kept.stream other
          rw [queue] at before
          simpa only [Function.update_self] using before.drain _ _
        · obtain ⟨silent, unflagged⟩ := sent_of_mine adds.mine same
          simp only [Function.update_of_ne same]
          refine (kept.stream other).of_same ?_ ?_
          · rw [sent_append, silent, List.append_nil]
          · rw [flags_append, unflagged, List.append_nil]
      case window =>
        intro other
        rw [window_update, sent_append, List.length_append]
        split
        case isTrue same =>
          subst same
          rw [adds.spent, kept.window]
          push_cast
          omega
        case isFalse same =>
          rw [(sent_of_mine adds.mine same).1, kept.window]
          rfl
      case sessionWin =>
        have mine := bytes_of_mine adds.mine
        simp only [List.filterMap_append, bytes, List.flatMap_append, List.length_append]
          at mine ⊢
        rw [mine, adds.spentSession, kept.sessionWin, bytes]
        push_cast
        omega

theorem prompt_flush_self (w : Writer comp) (sid : Sid) : Prompt (w.flushStream sid) sid := by
  intro entry queue ongoing
  cases before : w.pend sid with
  | none =>
      rw [flushStream_of_none before, before] at queue
      cases queue
  | some entry =>
      rw [flushStream_of_some before] at queue ⊢
      rw [window_update, if_pos rfl]
      simp only [Function.update_self, Option.some.injEq] at queue
      subst queue
      cases ended : entry.finSent with
      | true =>
          rw [drain_of_finSent sid _ _ ended] at ongoing
          cases ongoing.symm.trans ended
      | false =>
          have drains := drains sid (w.window sid) w.sessionWin ended
          refine ⟨?_, drains.waits ongoing⟩
          intro empty
          rw [drains.finPending]
          exact drains.idle ongoing empty

/-- Flushing one stream takes from the session, so what waited still waits. -/
theorem prompt_flush {w : Writer comp} {other : Sid} (prompt : Prompt w other) (sid : Sid)
    : Prompt (w.flushStream sid) other := by
  by_cases same : other = sid
  · subst same
    exact prompt_flush_self w other
  · cases before : w.pend sid with
    | none =>
        rw [flushStream_of_none before]
        exact prompt
    | some entry =>
        have less := (adds_drain sid entry (w.window sid) w.sessionWin).spentSession
        intro entry' queue ongoing
        rw [flushStream_of_some before] at queue ⊢
        simp only [Function.update_of_ne same] at queue
        rw [window_update, if_neg same]
        obtain ⟨idle, waits⟩ := prompt entry' queue ongoing
        refine ⟨idle, ?_⟩
        intro waiting
        refine (waits waiting).imp_right ?_
        intro exhausted
        show (drain sid entry (w.window sid) w.sessionWin).sessionWin ≤ 0
        omega

theorem kept_foldl_flush {msgs : List Out} {w : Writer comp} (kept : Kept msgs w)
    (sids : List Sid)
    : Kept msgs (sids.foldl Writer.flushStream w) := by
  induction sids generalizing w with
  | nil => exact kept
  | cons sid rest ih => exact ih (kept_flush kept sid)

theorem prompt_foldl_flush {w : Writer comp} {sids : List Sid} {other : Sid}
    (visited : other ∈ sids ∨ Prompt w other)
    : Prompt (sids.foldl Writer.flushStream w) other := by
  induction sids generalizing w with
  | nil => exact visited.resolve_left List.not_mem_nil
  | cons sid rest ih =>
      apply ih
      rcases visited with member | prompt
      · rcases List.mem_cons.mp member with rfl | later
        · exact .inr (prompt_flush_self w other)
        · exact .inl later
      · exact .inr (prompt_flush prompt sid)

-----------------------------------------------------------------------------------------
-- One message
-----------------------------------------------------------------------------------------

/-- A message that queues nothing on a stream leaves what it has to show. -/
theorem StreamState.later {sid : Sid} {msgs : List Out} {frames : List Frame}
    {entry : Option Entry} (before : StreamState sid msgs frames entry) {msg : Out}
    (other : total sid [msg] = []) (goes : msg.ends sid = false)
    : StreamState sid (msgs ++ [msg]) frames entry := by
  cases before with
  | unused nothing endless silent unflagged =>
      refine .unused ?_ ?_ silent unflagged
      · rw [total_concat, nothing, other]
        rfl
      · rw [finished_concat, endless, goes]
        rfl
  | opened k ongoing conserved pending unflagged =>
      refine .opened k ongoing ?_ ?_ unflagged
      · rw [total_concat, other, List.append_nil, conserved]
      · rw [finished_concat, goes, Bool.or_false, pending]
  | ended k earlier over_ past was conserved flagged =>
      exact .ended k earlier over_ (past.trans (List.prefix_append ..)) was conserved flagged

/-- What is queued joins the buffer; behind the end of the stream it has no effect. -/
theorem StreamState.queue {sid : Sid} {msgs : List Out} {frames : List Frame}
    {entry : Option Entry} (before : StreamState sid msgs frames entry) (fin : Bool)
    (buf : List Byte)
    : StreamState sid (msgs ++ [.data sid fin buf]) frames
      (some ⟨(entry.getD ⟨[], false, false⟩).buf ++ buf,
        (entry.getD ⟨[], false, false⟩).finPending || fin,
        (entry.getD ⟨[], false, false⟩).finSent⟩) := by
  have bytes : total sid [.data sid fin buf] = buf := by
    simp [total, Out.buf, bytesOf]
  have ends : (Out.data sid fin buf).ends sid = fin := by
    simp [Out.ends]
  cases before with
  | unused nothing endless silent unflagged =>
      refine .opened 0 rfl ?_ ?_ unflagged
      · rw [total_concat, nothing, bytes, silent]
        rfl
      · rw [finished_concat, endless, ends]
        rfl
  | opened k ongoing conserved pending unflagged =>
      refine .opened k ongoing ?_ ?_ unflagged
      · rw [total_concat, bytes, ← conserved, List.append_assoc]
        rfl
      · rw [finished_concat, ends, ← pending]
        rfl
  | ended k earlier over_ past was conserved flagged =>
      exact .ended k earlier over_ (past.trans (List.prefix_append ..)) was conserved flagged

theorem kept_queue {msgs : List Out} {w : Writer comp} (kept : Kept msgs w) (sid : Sid)
    (fin : Bool) (buf : List Byte)
    : Kept (msgs ++ [.data sid fin buf]) (w.queue sid fin buf) := by
  constructor
  case stream =>
    intro other
    by_cases same : other = sid
    · subst same
      simpa only [Writer.queue, Function.update_self] using (kept.stream other).queue fin buf
    · simp only [Writer.queue, Function.update_of_ne same]
      refine (kept.stream other).later ?_ ?_
      · simp [total, Out.buf, bytesOf, Ne.symm same]
      · simp [Out.ends, Ne.symm same]
  case window =>
    intro other
    rw [allowance_concat, show (Out.data sid fin buf).credited other = 0 from rfl, ite_self,
      add_zero]
    exact kept.window other
  case sessionWin =>
    rw [sessionAllowance_concat, show (Out.data sid fin buf).credited 0 = 0 from rfl, add_zero]
    exact kept.sessionWin

theorem prompt_queue {w : Writer comp} {sid other : Sid} (prompt : Prompt w other)
    (different : other ≠ sid) (fin : Bool) (buf : List Byte)
    : Prompt (w.queue sid fin buf) other := by
  intro entry queue
  simp only [Writer.queue, Function.update_of_ne different] at queue
  exact prompt entry queue

/-- A control frame belongs to no stream. -/
theorem kept_write {msgs : List Out} {w : Writer comp} (kept : Kept msgs w) {msg : Out}
    (queues : msg.buf = none) (ends : ∀ sid, msg.ends sid = false)
    (credit : ∀ sid, msg.credited sid = 0) (kind : UInt16) (flag : Byte) (payload : List Byte)
    : Kept (msgs ++ [msg]) (w.write (.ctrl kind flag payload)) := by
  have silent (sid : Sid) : sent sid [.ctrl kind flag payload] = [] := rfl
  constructor
  case stream =>
    intro sid
    refine ((kept.stream sid).later ?_ (ends sid)).of_same ?_ ?_
    · simp [total, queues, bytesOf]
    · rw [Writer.write, sent_append, silent, List.append_nil]
    · simp [Writer.write, flags, Frame.flagsOn]
  case window =>
    intro sid
    rw [allowance_concat, credit, ite_self, add_zero, Writer.write, sent_append, silent,
      List.append_nil]
    exact kept.window sid
  case sessionWin =>
    have none : [Frame.ctrl kind flag payload].filterMap Frame.buf = [] := rfl
    rw [sessionAllowance_concat, credit, add_zero, Writer.write, List.filterMap_append, none,
      List.append_nil]
    exact kept.sessionWin

theorem kept_session_credit {msgs : List Out} {w : Writer comp} (kept : Kept msgs w) (delta : ℤ)
    : Kept (msgs ++ [.credit 0 delta]) { w with sessionWin := w.sessionWin + delta } := by
  constructor
  case stream =>
    intro sid
    refine (kept.stream sid).later ?_ ?_
    · simp [total, Out.buf, bytesOf]
    · simp [Out.ends]
  case window =>
    intro sid
    rw [allowance_concat]
    have none : (if sid = 0 then 0 else (Out.credit 0 delta).credited sid) = 0 := by
      by_cases zero : sid = 0
      · simp [zero]
      · simp [zero, Out.credited, Ne.symm zero]
    rw [none, add_zero]
    exact kept.window sid
  case sessionWin =>
    rw [sessionAllowance_concat]
    simp only [Out.credited, if_pos, kept.sessionWin]
    omega

theorem kept_stream_credit {msgs : List Out} {w : Writer comp} (kept : Kept msgs w) {sid : Sid}
    (stream : sid ≠ 0) (delta : ℤ)
    : Kept (msgs ++ [.credit sid delta])
      { w with win := Function.update w.win sid (some (w.window sid + delta)) } := by
  constructor
  case stream =>
    intro other
    refine (kept.stream other).later ?_ ?_
    · simp [total, Out.buf, bytesOf]
    · simp [Out.ends]
  case window =>
    intro other
    rw [window_update w sid _ other w.pend w.sessionWin w.written, allowance_concat]
    by_cases same : other = sid
    · subst same
      simp only [if_pos, if_neg stream, Out.credited, kept.window]
      omega
    · simp only [if_neg same, Out.credited, if_neg (Ne.symm same), ite_self, add_zero]
      exact kept.window other
  case sessionWin =>
    rw [sessionAllowance_concat]
    simp only [Out.credited, if_neg stream, add_zero]
    exact kept.sessionWin

theorem kept_close {msgs : List Out} {w : Writer comp} (kept : Kept msgs w)
    : Kept (msgs ++ [.close]) { w with closed := true } := by
  constructor
  case stream =>
    intro sid
    exact (kept.stream sid).later (by simp [total, Out.buf, bytesOf]) rfl
  case window =>
    intro sid
    rw [allowance_concat, show Out.close.credited sid = 0 from rfl, ite_self, add_zero]
    exact kept.window sid
  case sessionWin =>
    rw [sessionAllowance_concat, show Out.close.credited 0 = 0 from rfl, add_zero]
    exact kept.sessionWin

theorem kept_handle {msgs : List Out} {w : Writer comp} (kept : Kept msgs w) (sids : List Sid)
    (msg : Out)
    : Kept (msgs ++ [msg]) (w.handle sids msg) := by
  cases msg with
  | synReply sid =>
      let compressed := comp.block w.deflate (encodeNv [])
      have kept : Kept msgs { w with deflate := compressed.2 } :=
        ⟨kept.stream, kept.window, kept.sessionWin⟩
      exact kept_write kept rfl (fun _ => rfl) (fun _ => rfl) SYN_REPLY 0
        (beBytes 4 sid.toNat ++ compressed.1)
  | data sid fin buf => exact kept_flush (kept_queue kept sid fin buf) sid
  | credit sid delta =>
      rw [Writer.handle]
      split
      case isTrue session =>
        subst session
        exact kept_foldl_flush (kept_session_credit kept delta) sids
      case isFalse stream => exact kept_flush (kept_stream_credit kept stream delta) sid
  | sendWu sid delta => exact kept_write kept rfl (fun _ => rfl) (fun _ => rfl) ..
  | ping id => exact kept_write kept rfl (fun _ => rfl) (fun _ => rfl) ..
  | goaway last => exact kept_write kept rfl (fun _ => rfl) (fun _ => rfl) ..
  | close => exact kept_close kept

theorem prompt_handle {w : Writer comp} (prompt : ∀ sid, Prompt w sid) {sids : List Sid}
    (listed : ∀ sid, sid ∈ sids ↔ (w.pend sid).isSome) (msg : Out) (sid : Sid)
    : Prompt (w.handle sids msg) sid := by
  cases msg with
  | data sid' fin buf =>
      by_cases same : sid = sid'
      · subst same
        exact prompt_flush_self _ sid
      · exact prompt_flush (prompt_queue (prompt sid) same fin buf) sid'
  | credit sid' delta =>
      rw [Writer.handle]
      split
      case isTrue =>
        apply prompt_foldl_flush
        cases queue : w.pend sid with
        | some entry => exact .inl ((listed sid).mpr (by rw [queue]; rfl))
        | none =>
            -- A stream without a buffer has nothing that could wait.
            refine .inr ?_
            intro entry has
            cases queue.symm.trans has
      case isFalse =>
        by_cases same : sid = sid'
        · subst same
          exact prompt_flush_self _ sid
        · refine prompt_flush ?_ sid'
          intro entry queue
          rw [window_update w sid' _ sid w.pend w.sessionWin w.written, if_neg same]
          exact prompt sid entry queue
  | synReply sid' => exact prompt sid
  | sendWu sid' delta => exact prompt sid
  | ping id => exact prompt sid
  | goaway last => exact prompt sid
  | close => exact prompt sid

-----------------------------------------------------------------------------------------
-- Frames that fit
-----------------------------------------------------------------------------------------

/-- Every frame fits its header, and every stream with a buffer has a number of 31 bits. -/
structure Fitting (w : Writer comp) : Prop where
  frames : ∀ frame ∈ w.written, frame.Fits
  low : ∀ sid, (w.pend sid).isSome → sid.toNat < 2 ^ 31

theorem fitting_flush {w : Writer comp} (fitting : Fitting w) (sid : Sid)
    : Fitting (w.flushStream sid) := by
  cases queue : w.pend sid with
  | none =>
      rw [flushStream_of_none queue]
      exact fitting
  | some entry =>
      have low := fitting.low sid (by rw [queue]; rfl)
      rw [flushStream_of_some queue]
      constructor
      case frames =>
        intro frame member
        rcases List.mem_append.mp member with older | newer
        · exact fitting.frames frame older
        · obtain ⟨f, payload, rfl, short⟩ := (adds_drain sid entry _ _).mine frame newer
          have room : MAX_DATA < 2 ^ 24 := by decide
          exact ⟨low, by omega⟩
      case low =>
        intro other queued
        by_cases same : other = sid
        · subst same
          exact low
        · simp only [Function.update_of_ne same] at queued
          exact fitting.low other queued

theorem fitting_foldl_flush {w : Writer comp} (fitting : Fitting w) (sids : List Sid)
    : Fitting (sids.foldl Writer.flushStream w) := by
  induction sids generalizing w with
  | nil => exact fitting
  | cons sid rest ih => exact ih (fitting_flush fitting sid)

theorem fitting_write {w : Writer comp} (fitting : Fitting w) {kind : UInt16} {flag : Byte}
    {payload : List Byte} (short : payload.length < 2 ^ 24)
    : Fitting (w.write (.ctrl kind flag payload)) := by
  constructor
  case frames =>
    intro frame member
    rcases List.mem_append.mp member with older | newer
    · exact fitting.frames frame older
    · rw [List.mem_singleton.mp newer]
      exact short
  case low => exact fitting.low

theorem fitting_queue {w : Writer comp} (fitting : Fitting w) {sid : Sid}
    (low : sid.toNat < 2 ^ 31) (fin : Bool) (buf : List Byte)
    : Fitting (w.queue sid fin buf) := by
  constructor
  case frames => exact fitting.frames
  case low =>
    intro other queued
    by_cases same : other = sid
    · subst same
      exact low
    · simp only [Writer.queue, Function.update_of_ne same] at queued
      exact fitting.low other queued

theorem fitting_handle {w : Writer comp} (fitting : Fitting w) (sids : List Sid) {msg : Out}
    (low : msg.Low)
    : Fitting (w.handle sids msg) := by
  cases msg with
  | synReply sid =>
      have short := comp.short w.deflate (encodeNv []) rfl
      have fitting : Fitting { w with deflate := (comp.block w.deflate (encodeNv [])).2 } :=
        ⟨fitting.frames, fitting.low⟩
      refine fitting_write fitting ?_
      rw [List.length_append, length_beBytes]
      exact Nat.add_lt_of_lt_sub' short
  | data sid fin buf => exact fitting_flush (fitting_queue fitting low fin buf) sid
  | credit sid delta =>
      rw [Writer.handle]
      split
      case isTrue =>
        refine fitting_foldl_flush ?_ sids
        exact ⟨fitting.frames, fitting.low⟩
      case isFalse =>
        refine fitting_flush ?_ sid
        exact ⟨fitting.frames, fitting.low⟩
  | sendWu sid delta =>
      refine fitting_write fitting ?_
      simp [length_beBytes]
  | ping id =>
      refine fitting_write fitting ?_
      simp [length_beBytes]
  | goaway last =>
      refine fitting_write fitting ?_
      simp [length_beBytes]
  | close => exact ⟨fitting.frames, fitting.low⟩

-----------------------------------------------------------------------------------------
-- Where the windows cover what is queued
-----------------------------------------------------------------------------------------

theorem bytesOf_cons (sid : Sid) (buf : Sid × List Byte) (bufs : Bufs)
    : bytesOf sid (buf :: bufs) = (if buf.1 = sid then buf.2 else []) ++ bytesOf sid bufs := by
  by_cases same : buf.1 = sid
  · simp [bytesOf, same]
  · simp [bytesOf, same]

theorem sum_length_bytesOf {sids : Finset Sid} {bufs : Bufs}
    (streams : ∀ buf ∈ bufs, buf.1 ∈ sids)
    : ∑ sid ∈ sids, (bytesOf sid bufs).length = (bytes bufs).length := by
  induction bufs with
  | nil => simp [bytesOf, bytes]
  | cons buf rest ih =>
      obtain ⟨here, later⟩ := List.forall_mem_cons.mp streams
      have own : ∑ sid ∈ sids, (if buf.1 = sid then buf.2 else []).length = buf.2.length := by
        rw [Finset.sum_eq_single_of_mem buf.1 here]
        · rw [if_pos rfl]
        · intro sid _ other
          rw [if_neg other.symm, List.length_nil]
      simp only [bytesOf_cons, List.length_append, Finset.sum_add_distrib, own, ih later]
      exact List.length_append.symm

/-- Streams that have sent no more than they queued, and one less, have together sent less. -/
theorem length_bytes_lt {left right : Bufs}
    (le : ∀ sid, (bytesOf sid left).length ≤ (bytesOf sid right).length) {sid : Sid}
    (lt : (bytesOf sid left).length < (bytesOf sid right).length)
    : (bytes left).length < (bytes right).length := by
  let sids : Finset Sid := insert sid ((left ++ right).map Prod.fst).toFinset
  have streams : ∀ buf ∈ left ++ right, buf.1 ∈ sids := by
    intro buf member
    exact Finset.mem_insert_of_mem (List.mem_toFinset.mpr (List.mem_map_of_mem member))
  obtain ⟨ofLeft, ofRight⟩ := List.forall_mem_append.mp streams
  rw [← sum_length_bytesOf ofLeft, ← sum_length_bytesOf ofRight]
  exact Finset.sum_lt_sum (fun sid _ => le sid) ⟨sid, Finset.mem_insert_self .., lt⟩

theorem total_prefix (sid : Sid) {earlier msgs : List Out} (past : earlier <+: msgs)
    : total sid earlier <+: total sid msgs := by
  obtain ⟨later, rfl⟩ := past
  rw [total, total, List.filterMap_append, bytesOf_append]
  exact List.prefix_append ..

/-- What is on the wire is the front of what was queued. -/
theorem StreamState.sent_starts {sid : Sid} {msgs : List Out} {frames : List Frame}
    {entry : Option Entry} (state : StreamState sid msgs frames entry)
    : sent sid frames <+: total sid msgs := by
  cases state with
  | unused nothing endless silent unflagged =>
      rw [silent]
      exact List.nil_prefix
  | opened k ongoing conserved pending unflagged =>
      rw [← conserved]
      exact List.prefix_append ..
  | ended k earlier over_ past was conserved flagged =>
      rw [conserved]
      exact total_prefix sid past

theorem nothing_waits {msgs : List Out} {w : Writer comp} (kept : Kept msgs w) {sid : Sid}
    (prompt : Prompt w sid) (covered : ((total sid msgs).length : ℤ) ≤ allowance sid msgs)
    (session : ((bytes (msgs.filterMap Out.buf)).length : ℤ) ≤ sessionAllowance msgs)
    {entry : Entry} (queue : w.pend sid = some entry) (ongoing : entry.finSent = false)
    : entry.buf = [] := by
  by_contra waiting
  have state := kept.stream sid
  rw [queue] at state
  cases state with
  | ended k earlier over_ _ _ _ _ => cases ongoing.symm.trans over_
  | opened k _ conserved pending unflagged =>
      have some_ := List.length_pos_iff.mpr waiting
      have less : (sent sid w.written).length < (total sid msgs).length := by
        rw [← conserved, List.length_append]
        omega
      have together := length_bytes_lt (fun sid => (kept.stream sid).sent_starts.length_le) less
      have window := kept.window sid
      have sessionWin := kept.sessionWin
      rcases (prompt entry queue ongoing).2 waiting with exhausted | exhausted
      · omega
      · omega

-----------------------------------------------------------------------------------------
-- A stream that is delivered stays so
-----------------------------------------------------------------------------------------

theorem upToEnd_append (sid : Sid) (earlier later : List Out)
    : upToEnd sid (earlier ++ later)
      = if finished sid earlier then upToEnd sid earlier
        else earlier ++ upToEnd sid later := by
  induction earlier with
  | nil => rfl
  | cons msg rest ih =>
      cases ends : msg.ends sid with
      | true => simp [upToEnd, finished, ends]
      | false =>
          have same : finished sid (msg :: rest) = finished sid rest := by
            simp [finished, ends]
          simp only [List.cons_append, upToEnd, ends, same, ih, Bool.false_eq_true, if_false]
          split <;> rfl

theorem upToEnd_of_finished {sid : Sid} {earlier : List Out} (was : finished sid earlier = true)
    (later : List Out)
    : upToEnd sid (earlier ++ later) = upToEnd sid earlier := by
  rw [upToEnd_append, if_pos was]

theorem upToEnd_starts (sid : Sid) (msgs : List Out) : upToEnd sid msgs <+: msgs := by
  induction msgs with
  | nil => exact List.prefix_rfl
  | cons msg rest ih =>
      rw [upToEnd]
      split
      · exact (List.prefix_cons_inj msg).mpr List.nil_prefix
      · exact (List.prefix_cons_inj msg).mpr ih

theorem upToEnd_of_endless {sid : Sid} {msgs : List Out} (endless : finished sid msgs = false)
    : upToEnd sid msgs = msgs := by
  have := upToEnd_append sid msgs []
  rw [List.append_nil, endless] at this
  simpa [upToEnd] using this

theorem queued_prefix (sid : Sid) (earlier later : List Out)
    : queued sid earlier <+: queued sid (earlier ++ later) := by
  apply total_prefix
  rw [upToEnd_append]
  split
  · exact List.prefix_rfl
  · exact (upToEnd_starts sid earlier).trans (List.prefix_append ..)

/-- All that a stream got before its end is on the wire, with the end on the last frame. -/
structure Delivered (sid : Sid) (msgs : List Out) (frames : List Frame) : Prop where
  sent : sent sid frames = queued sid msgs
  flagged : ∃ k, flags sid frames
    = List.replicate k 0 ++ if finished sid msgs then [FLAG_FIN] else []

theorem delivered_of_nothing_waits {msgs : List Out} {w : Writer comp} (kept : Kept msgs w)
    {sid : Sid} (prompt : Prompt w sid) (whole : total sid msgs = queued sid msgs)
    (drained : ∀ entry, w.pend sid = some entry → entry.finSent = false → entry.buf = [])
    : Delivered sid msgs w.written := by
  have state := kept.stream sid
  cases queue : w.pend sid with
  | none =>
      rw [queue] at state
      cases state with
      | unused nothing endless silent unflagged =>
          refine ⟨?_, 0, ?_⟩
          · rw [silent, ← whole, nothing]
          · simp [unflagged, endless]
  | some entry =>
      rw [queue] at state
      cases state with
      | opened k ongoing conserved pending unflagged =>
          have empty := drained entry queue ongoing
          have endless : finished sid msgs = false := by
            rw [← pending]
            exact (prompt entry queue ongoing).1 empty
          refine ⟨?_, k, ?_⟩
          · rw [← whole, ← conserved, empty, List.append_nil]
          · simp [unflagged, endless]
      | ended k earlier over_ past was conserved flagged =>
          obtain ⟨later, rfl⟩ := past
          have finishes : finished sid (earlier ++ later) = true := by
            rw [finished, List.any_append, ← finished, was, Bool.true_or]
          refine ⟨?_, k, ?_⟩
          · -- What was sent lies between the front up to the end and all that was queued.
            rw [conserved]
            have all := total_prefix sid (List.prefix_append earlier later)
            rw [whole] at all
            refine all.eq_of_length_le (List.IsPrefix.length_le ?_)
            rw [queued, upToEnd_of_finished was]
            exact total_prefix sid (upToEnd_starts sid _)
          · rw [flagged, finishes, if_pos rfl]

theorem sent_of_unflagged {sid : Sid} {frames : List Frame} (unflagged : flags sid frames = [])
    : sent sid frames = [] := by
  induction frames with
  | nil => rfl
  | cons frame rest ih =>
      cases frame with
      | ctrl kind f payload => exact ih unflagged
      | data sid' f payload =>
          by_cases same : sid' = sid
          · subst same
            rw [flags_data_cons] at unflagged
            cases unflagged
          · have later : flags sid rest = [] := by
              simpa [flags, Frame.flagsOn, same] using unflagged
            simpa [sent, bytesOf, Frame.buf, same] using ih later

theorem FLAG_FIN_notMem_replicate (k : Nat) : FLAG_FIN ∉ List.replicate k (0 : Byte) := by
  intro member
  cases (List.mem_replicate.mp member).2

/-- Nothing follows the frame with the end. -/
theorem StreamState.nothing_follows {sid : Sid} {msgs : List Out} {frames newer : List Frame}
    {entry : Option Entry} (state : StreamState sid msgs (frames ++ newer) entry) {k : Nat}
    (flagged : flags sid frames = List.replicate k 0 ++ [FLAG_FIN])
    : flags sid newer = [] := by
  have inside : FLAG_FIN ∈ flags sid (frames ++ newer) := by
    rw [flags_append, flagged]
    simp
  cases state with
  | unused nothing endless silent unflagged =>
      rw [unflagged] at inside
      cases inside
  | opened k' ongoing conserved pending unflagged =>
      rw [unflagged] at inside
      exact absurd inside (FLAG_FIN_notMem_replicate k')
  | ended k' earlier over_ past was conserved ends =>
      rw [flags_append, flagged] at ends
      cases last : flags sid newer using List.reverseRecOn with
      | nil => rfl
      | append_singleton front final =>
          rw [last, ← List.append_assoc] at ends
          have front := (List.append_inj' ends rfl).1
          have inside : FLAG_FIN ∈ List.replicate k' (0 : Byte) := by
            rw [← front]
            simp
          exact absurd inside (FLAG_FIN_notMem_replicate k')

/-- A delivered stream is delivered after the next message, unless that one brings it bytes. -/
theorem delivered_later {sid : Sid} {msgs : List Out} {msg : Out} {frames : List Frame}
    (before : Delivered sid msgs frames) {w : Writer comp} (kept : Kept (msgs ++ [msg]) w)
    (prompt : Prompt w sid) (grown : frames <+: w.written)
    (same : queued sid (msgs ++ [msg]) = queued sid msgs)
    : Delivered sid (msgs ++ [msg]) w.written := by
  obtain ⟨k, flagged⟩ := before.flagged
  cases was : finished sid msgs with
  | true =>
      rw [was, if_pos rfl] at flagged
      obtain ⟨newer, is⟩ := grown
      have state := kept.stream sid
      rw [← is] at state ⊢
      have silent := state.nothing_follows flagged
      refine ⟨?_, k, ?_⟩
      · rw [sent_append, sent_of_unflagged silent, List.append_nil, before.sent, same]
      · rw [flags_append, silent, List.append_nil, flagged, finished_concat, was]
        rfl
  | false =>
      have whole : total sid (msgs ++ [msg]) = queued sid (msgs ++ [msg]) := by
        rw [queued, upToEnd_append, was]
        cases ends : msg.ends sid <;> simp [upToEnd, ends]
      refine delivered_of_nothing_waits kept prompt whole ?_
      intro entry queue ongoing
      have state := kept.stream sid
      rw [queue] at state
      cases state with
      | ended k' earlier over_ _ _ _ _ => cases ongoing.symm.trans over_
      | opened k' _ conserved pending unflagged =>
          -- All of it was on the wire before the message came.
          have sents : (sent sid frames).length ≤ (sent sid w.written).length := by
            obtain ⟨newer, is⟩ := grown
            rw [← is, sent_append, List.length_append]
            exact Nat.le_add_right ..
          have lengths := congrArg List.length conserved
          rw [whole, same, ← before.sent, List.length_append] at lengths
          exact List.length_eq_zero_iff.mp (by omega)

-----------------------------------------------------------------------------------------
-- Whole runs
-----------------------------------------------------------------------------------------

theorem messages_cons {State : Type} (event : Event State Out) (history : List (Event State Out))
    : messages (event :: history) = messages history ++ [event.action] := by
  simp [messages]

/-- Nothing on the wire is taken back. -/
theorem written_flush (w : Writer comp) (sid : Sid)
    : w.written <+: (w.flushStream sid).written := by
  cases queue : w.pend sid with
  | none => rw [flushStream_of_none queue]
  | some entry =>
      rw [flushStream_of_some queue]
      exact List.prefix_append ..

theorem written_foldl_flush (w : Writer comp) (sids : List Sid)
    : w.written <+: (sids.foldl Writer.flushStream w).written := by
  induction sids generalizing w with
  | nil => exact List.prefix_rfl
  | cons sid rest ih => exact (written_flush w sid).trans (ih _)

theorem written_handle (w : Writer comp) (sids : List Sid) (msg : Out)
    : w.written <+: (w.handle sids msg).written := by
  cases msg with
  | data sid fin buf => exact written_flush (w.queue sid fin buf) sid
  | credit sid delta =>
      rw [Writer.handle]
      split
      · exact written_foldl_flush { w with sessionWin := w.sessionWin + delta } sids
      · exact written_flush { w with win := Function.update w.win sid (some _) } sid
  | synReply sid => exact List.prefix_append ..
  | sendWu sid delta => exact List.prefix_append ..
  | ping id => exact List.prefix_append ..
  | goaway last => exact List.prefix_append ..
  | close => exact List.prefix_rfl

/-- What holds between two messages. -/
structure Sound (msgs : List Out) (w : Writer comp) : Prop where
  kept : Kept msgs w
  prompt : ∀ sid, Prompt w sid

theorem sound_start : Sound [] (Writer.start comp) where
  kept := by
    constructor
    case stream => exact fun sid => .unused rfl rfl rfl rfl
    case window =>
      intro sid
      simp [Writer.window, Writer.start, allowance, credits, sent, bytesOf]
    case sessionWin => simp [Writer.start, sessionAllowance, credits, bytes]
  prompt := by
    intro sid entry queue
    cases queue

theorem sound_step {msgs : List Out} {w w' : Writer comp} {msg : Out} (sound : Sound msgs w)
    (step : w.Step msg w')
    : Sound (msgs ++ [msg]) w' := by
  obtain ⟨-, sids, listed, rfl⟩ := step
  exact ⟨kept_handle sound.kept sids msg, prompt_handle sound.prompt listed msg⟩

theorem sound_run {history : List (Event (Writer comp) Out)} {w : Writer comp}
    (run : Run Writer.Step (Writer.start comp) history w)
    : Sound (messages history) w := by
  induction run with
  | start => exact sound_start
  | step earlier taken ih =>
      rw [messages_cons]
      exact sound_step ih taken

theorem fitting_run {history : List (Event (Writer comp) Out)} {w : Writer comp}
    (run : Run Writer.Step (Writer.start comp) history w)
    (low : ∀ msg ∈ messages history, msg.Low)
    : Fitting w := by
  induction run with
  | start =>
      constructor
      · intro _ member
        cases member
      · intro _ queue
        cases queue
  | step earlier taken ih =>
      rw [messages_cons] at low
      obtain ⟨older, newest⟩ := List.forall_mem_append.mp low
      obtain ⟨-, sids, -, rfl⟩ := taken
      exact fitting_handle (ih older) sids (newest _ (List.mem_singleton_self _))

/-- A stream delivered at some point of a run that brings it no bytes later is delivered at the
end of the run.
-/
theorem delivered_run {sid : Sid} {newer older : List (Event (Writer comp) Out)}
    {w : Writer comp} (run : Run Writer.Step (Writer.start comp) (newer ++ older) w)
    (delivered : ∀ w, Run Writer.Step (Writer.start comp) older w →
      Delivered sid (messages older) w.written)
    (same : queued sid (messages (newer ++ older)) = queued sid (messages older))
    : Delivered sid (messages (newer ++ older)) w.written := by
  induction newer generalizing w with
  | nil => exact delivered w run
  | cons event newer ih =>
      cases run with
      | @step _ before _ msg earlier taken =>
          have sound := sound_step (sound_run earlier) taken
          obtain ⟨-, sids, -, rfl⟩ := taken
          rw [List.cons_append, messages_cons] at same ⊢
          have between : queued sid (messages (newer ++ older)) = queued sid (messages older) := by
            have split : messages (newer ++ older) = messages older ++ messages newer := by
              simp [messages]
            have up := queued_prefix sid (messages older) (messages newer)
            have down := queued_prefix sid (messages (newer ++ older)) [msg]
            rw [same] at down
            rw [← split] at up
            exact down.eq_of_length_le up.length_le
          exact delivered_later (ih earlier between) sound.kept (sound.prompt sid)
            (written_handle before sids msg) (same.trans between.symm)

theorem delivered_of_covered {sid : Sid} {history : List (Event (Writer comp) Out)}
    {w : Writer comp} (run : Run Writer.Step (Writer.start comp) history w)
    (covered : Covered sid (messages history))
    : Delivered sid (messages history) w.written := by
  obtain ⟨before, after, split, whole, stream, session⟩ := covered
  have split : history.map Event.action = after.reverse ++ before.reverse := by
    rw [← List.reverse_append, ← split, messages, List.reverse_reverse]
  obtain ⟨newer, older, rfl, -, olderIs⟩ := List.map_eq_append_iff.mp split
  have is : messages older = before := by rw [messages, olderIs, List.reverse_reverse]
  subst is
  -- At that point the stream has nothing behind its end.
  have same : queued sid (messages (newer ++ older)) = queued sid (messages older) := by
    have front : messages (newer ++ older) = messages older ++ messages newer := by
      simp [messages]
    cases was : finished sid (messages older) with
    | true => rw [front, queued, upToEnd_of_finished was, ← queued]
    | false => rw [← whole, queued, upToEnd_of_endless was]
  refine delivered_run run ?_ same
  intro w earlier
  have sound := sound_run earlier
  refine delivered_of_nothing_waits sound.kept (sound.prompt sid) (whole.trans same) ?_
  intro entry queue ongoing
  exact nothing_waits sound.kept (sound.prompt sid) stream session queue ongoing

/-- What the client reads of a stream: the front of what was queued, in order, with at most one
end and nothing behind it; and all that was queued before the end, once the windows cover it.
-/
structure Conserved (sid : Sid) (msgs : List Out) (frames : List Frame) : Prop where
  inOrder : sent sid frames <+: total sid msgs
  oneEnd : ∃ k, flags sid frames = List.replicate k 0
    ∨ flags sid frames = List.replicate k 0 ++ [FLAG_FIN]
  delivered : Covered sid msgs → Delivered sid msgs frames

theorem conserved_run {sid : Sid} {history : List (Event (Writer comp) Out)} {w : Writer comp}
    (run : Run Writer.Step (Writer.start comp) history w)
    : Conserved sid (messages history) w.written := by
  have state := (sound_run run).kept.stream sid
  refine ⟨state.sent_starts, ?_, delivered_of_covered run⟩
  generalize w.pend sid = entry at state
  cases state with
  | unused nothing endless silent unflagged => exact ⟨0, .inl unflagged⟩
  | opened k ongoing conserved pending unflagged => exact ⟨k, .inl unflagged⟩
  | ended k earlier over_ past was conserved flagged => exact ⟨k, .inr flagged⟩

/-- The frames read off the wire are the frames that were built, and they conserve every stream. -/
theorem output_conserved {history : List (Event (Writer comp) Out)} {w : Writer comp}
    (run : Run Writer.Step (Writer.start comp) history w)
    (low : ∀ msg ∈ messages history, msg.Low)
    : readFrames w.wire = w.written
      ∧ ∀ sid, Conserved sid (messages history) (readFrames w.wire) := by
  have back : readFrames w.wire = w.written :=
    readFrames_flatMap_bytes (fitting_run run low).frames
  refine ⟨back, ?_⟩
  intro sid
  rw [back]
  exact conserved_run run

/-- `zlib` without compression: a stored block, then an empty one as the sync marker. -/
def stored : Deflater where
  State := Unit
  new := ()
  block _ nv := ([0, 4, 0, 0xfb, 0xff] ++ nv ++ [0, 0, 0, 0xff, 0xff], ())
  short := by
    intro _ nv four
    simp [four]

/-- One message on an unused stream, whatever the map lists. -/
theorem run_one (comp : Deflater) (msg : Out)
    : Run Writer.Step (Writer.start comp)
      [⟨Writer.start comp, msg, (Writer.start comp).handle [] msg⟩]
      ((Writer.start comp).handle [] msg) := by
  refine Run.start.step ⟨rfl, [], ?_, rfl⟩
  intro sid
  simp [Writer.start]

/-- The connection can take a message: it is open, and its streams can be listed. -/
structure Ready (w : Writer comp) : Prop where
  ongoing : w.closed = false
  listed : ∃ sids : List Sid, ∀ sid, sid ∈ sids ↔ (w.pend sid).isSome

theorem ready_flush {w : Writer comp} (ready : Ready w) (sid : Sid)
    : Ready (w.flushStream sid) := by
  cases queue : w.pend sid with
  | none => rwa [flushStream_of_none queue]
  | some entry =>
      rw [flushStream_of_some queue]
      obtain ⟨sids, listed⟩ := ready.listed
      refine ⟨ready.ongoing, sids, fun other => ?_⟩
      by_cases same : other = sid
      · simp [listed, same, queue]
      · simp [listed, same]

theorem ready_foldl_flush {w : Writer comp} (ready : Ready w) (sids : List Sid)
    : Ready (sids.foldl Writer.flushStream w) := by
  induction sids generalizing w with
  | nil => exact ready
  | cons sid rest ih => exact ih (ready_flush ready sid)

theorem ready_queue {w : Writer comp} (ready : Ready w) (sid : Sid) (fin : Bool) (buf : List Byte)
    : Ready (w.queue sid fin buf) := by
  obtain ⟨sids, listed⟩ := ready.listed
  refine ⟨ready.ongoing, sid :: sids, fun other => ?_⟩
  rw [Writer.queue, List.mem_cons, listed]
  by_cases same : other = sid
  · simp [same]
  · simp [same]

theorem ready_handle {w : Writer comp} (ready : Ready w) (sids : List Sid) {msg : Out}
    (ongoing : msg ≠ .close)
    : Ready (w.handle sids msg) := by
  cases msg with
  | data sid fin buf => exact ready_flush (ready_queue ready sid fin buf) sid
  | credit sid delta =>
      rw [Writer.handle]
      split
      · exact @ready_foldl_flush _ { w with sessionWin := w.sessionWin + delta }
          ⟨ready.ongoing, ready.listed⟩ sids
      · exact @ready_flush _ { w with win := Function.update w.win sid (some _) }
          ⟨ready.ongoing, ready.listed⟩ sid
  | synReply sid => exact ⟨ready.ongoing, ready.listed⟩
  | sendWu sid delta => exact ⟨ready.ongoing, ready.listed⟩
  | ping id => exact ⟨ready.ongoing, ready.listed⟩
  | goaway last => exact ⟨ready.ongoing, ready.listed⟩
  | close => exact absurd rfl ongoing

/-- The writer takes any messages as long as none of them closes the connection. -/
theorem exists_run (comp : Deflater) {msgs : List Out} (ongoing : ∀ msg ∈ msgs, msg ≠ .close)
    : ∃ history w, Run Writer.Step (Writer.start comp) history w ∧ messages history = msgs := by
  suffices taken : ∃ history w, Run Writer.Step (Writer.start comp) history w
      ∧ messages history = msgs ∧ Ready w by
    obtain ⟨history, w, run, is, -⟩ := taken
    exact ⟨history, w, run, is⟩
  induction msgs using List.reverseRecOn with
  | nil =>
      refine ⟨[], _, .start, rfl, rfl, [], fun sid => ?_⟩
      simp [Writer.start]
  | append_singleton earlier msg ih =>
      obtain ⟨older, newest⟩ := List.forall_mem_append.mp ongoing
      obtain ⟨history, w, run, rfl, ready⟩ := ih older
      obtain ⟨sids, listed⟩ := ready.listed
      refine ⟨_, _, run.step ⟨ready.ongoing, sids, listed, rfl⟩, messages_cons _ history, ?_⟩
      exact ready_handle ready sids (newest msg (List.mem_singleton_self msg))

/-- The outputs of two commands in turns, and a credit for the session in between. -/
def twoOutputs : List Out := [
  .data 1 false [0x61],
  .data 3 false [0x6f, 0x6b],
  .credit 0 65536,
  .data 1 true [0x62],
  .data 3 false [0x21],
  .data 3 true []
]

theorem output_conserved_twoOutputs
    : ∃ history w, Run Writer.Step (Writer.start stored) history w
      ∧ messages history = twoOutputs
      ∧ sent 1 (readFrames w.wire) = [0x61, 0x62]
      ∧ sent 3 (readFrames w.wire) = [0x6f, 0x6b, 0x21]
      ∧ Delivered 1 twoOutputs (readFrames w.wire)
      ∧ Delivered 3 twoOutputs (readFrames w.wire) := by
  have ongoing : ∀ msg ∈ twoOutputs, msg ≠ .close := by simp [twoOutputs]
  obtain ⟨history, w, run, is⟩ := exists_run stored ongoing
  have conserved := (output_conserved run (by rw [is]; decide)).2
  rw [is] at conserved
  have covered (sid : Sid) (all : total sid twoOutputs = queued sid twoOutputs)
      (stream : ((total sid twoOutputs).length : ℤ) ≤ allowance sid twoOutputs)
      : Covered sid twoOutputs :=
    ⟨twoOutputs, [], rfl, all, stream, by decide⟩
  have first := (conserved 1).delivered (covered 1 rfl (by decide))
  have second := (conserved 3).delivered (covered 3 rfl (by decide))
  exact ⟨history, w, run, is, first.sent, second.sent, first, second⟩

/-- What is longer than the session's window waits. -/
theorem sent_ne_of_oversize (comp : Deflater) {buf : List Byte} (long : initialWin < buf.length)
    : sent 1 ((Writer.start comp).handle [] (.data 1 false buf)).written ≠ buf := by
  intro all
  have queue : ((Writer.start comp).queue 1 false buf).pend 1
      = some ⟨buf, false, false⟩ := by
    simp [Writer.queue, Writer.start]
  rw [Writer.handle, flushStream_of_some queue] at all
  have drains := drains 1 (((Writer.start comp).queue 1 false buf).window 1) initialWin
    (show (⟨buf, false, false⟩ : Entry).finSent = false from rfl)
  have solvent := drains.solvent (by decide)
  rw [drains.spentSession] at solvent
  have all : sent 1 (drain 1 ⟨buf, false, false⟩
      (((Writer.start comp).queue 1 false buf).window 1) initialWin).frames = buf := all
  rw [all] at solvent
  omega

/-- A stream's number with the highest bit set loses it on the wire. -/
theorem highBit_lost
    : readFrames ((Writer.start stored).handle [] (.data 0x80000001 false [65])).wire
      ≠ ((Writer.start stored).handle [] (.data 0x80000001 false [65])).written := by
  have queue : ((Writer.start stored).queue 0x80000001 false [65]).pend 0x80000001
      = some ⟨[65], false, false⟩ := by
    simp [Writer.queue, Writer.start]
  have window : ((Writer.start stored).queue 0x80000001 false [65]).window 0x80000001
      = initialWin := rfl
  have session : ((Writer.start stored).queue 0x80000001 false [65]).sessionWin
      = initialWin := rfl
  have first : drain 0x80000001 ⟨[65], false, false⟩ initialWin initialWin
      = ⟨⟨[], false, false⟩, initialWin - 1, initialWin - 1, [.data 0x80000001 0 [65]]⟩ := by
    have one : min (min [(65 : Byte)].length (max (min initialWin initialWin) 0).toNat) MAX_DATA
        = 1 := by
      decide
    have none (room : ℤ) : drain 0x80000001 ⟨[], false, false⟩ room room
        = ⟨⟨[], false, false⟩, room, room, []⟩ := by
      rw [drain]
      simp
    rw [drain]
    simp only [one]
    exact congrArg (fun rest : Drained =>
      { rest with frames := .data 0x80000001 0 [65] :: rest.frames }) (none (initialWin - 1))
  have written : ((Writer.start stored).handle [] (.data 0x80000001 false [65])).written
      = [.data 0x80000001 0 [65]] := by
    rw [Writer.handle, flushStream_of_some queue, window, session, first]
    rfl
  have read : readFrame ([Frame.data 0x80000001 0 [65]].flatMap Frame.bytes)
      = some (.data 1 0 [65], []) := by
    decide
  rw [Writer.wire, written, readFrames_of_read read]
  intro same
  cases (List.cons.inj same).1

/-- Stream numbers above 31 bits are not read back, and of one message longer than the windows
not everything is written.
-/
theorem output_not_conserved
    : (¬ ∀ (comp : Deflater) (history : List (Event (Writer comp) Out)) (w : Writer comp),
        Run Writer.Step (Writer.start comp) history w → readFrames w.wire = w.written)
      ∧ ¬ ∀ (comp : Deflater) (history : List (Event (Writer comp) Out)) (w : Writer comp),
        Run Writer.Step (Writer.start comp) history w → (∀ msg ∈ messages history, msg.Low) →
        ∀ sid, sent sid w.written = queued sid (messages history) := by
  constructor
  · intro always
    exact highBit_lost (always stored _ _ (run_one stored (.data 0x80000001 false [65])))
  · intro always
    obtain ⟨buf, long⟩ : ∃ buf : List Byte, initialWin < buf.length := by
      refine ⟨List.replicate (2 ^ 61) 0, ?_⟩
      rw [List.length_replicate]
      decide
    have low : ∀ msg ∈ [Out.data 1 false buf], msg.Low := by
      intro msg member
      rw [List.mem_singleton.mp member]
      exact (by decide : (1 : Sid).toNat < 2 ^ 31)
    have all := always stored _ _ (run_one stored (.data 1 false buf)) low 1
    refine sent_ne_of_oversize stored long (all.trans ?_)
    simp [messages, queued, upToEnd, Out.ends, total, Out.buf, bytesOf]

end Delonix.Spdy
