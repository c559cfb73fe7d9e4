import Delonix.Images.Sessions
import Delonix.Library.Runs

/-! Whether an upload ends. Attempts are counted, and within an attempt the requests go one way; the
chunks of a session are the one loop. A chunk that is accepted with a `Range` that confirms no byte
of it is sent again, and no attempt is spent on it.
-/

namespace Delonix.Images

open Delonix.Library.Progress

section

variable (digest : String) (blob : Bytes)

/-- An upload along an endless stream of answers, before each of its requests. -/
def pushAlong (push : Push) (reactions : Nat → Reaction) : Nat → Push
  | 0 => push
  | n + 1 => pushBlobWith digest blob (pushAlong push reactions n) (reactions n)

/-- No request is left to send. -/
def Push.Over (push : Push) : Prop := ∃ result, push.stage = .ended result

/-- A chunk is out, and is accepted with no more confirmed than was before it. -/
def Stands (push : Push) (reaction : Reaction) : Prop :=
  ∃ resumedFrom session answer, push.stage = .sending resumedFrom
    ∧ push.session = some session ∧ session.offset < blob.length
    ∧ reaction.reply = .answer answer ∧ isSuccess answer.status = true
    ∧ (answer.range.bind confirmedUploadOffset).getD
        (session.offset + chunkLen blob push.client session.offset) = session.offset

end

/-- How far a stage is from the end of its attempt. -/
def PushStage.rank : PushStage → Nat
  | .heading => 4
  | .asking => 3
  | .opening => 2
  | .whole _ | .sending _ => 1
  | .ended _ => 0

/-- The attempts that are left, the stages of this one, and the bytes not yet confirmed. -/
def Push.left (blob : Bytes) (push : Push) : ℕ ×ₗ ℕ ×ₗ ℕ :=
  toLex (pushAttempts - push.attempt,
    toLex (push.stage.rank, blob.length - (push.session.map UploadSession.offset).getD 0))

/-- The upload is over, or less of it is left. -/
def Push.Nearer (blob : Bytes) (before after : Push) : Prop :=
  after.Over ∨ after.left blob < before.left blob

section

variable {digest : String} {blob : Bytes} {push before : Push}

/-- A later stage of the same attempt leaves less. -/
theorem Push.left_lt_of_rank (attempt : push.attempt = before.attempt)
    (rank : push.stage.rank < before.stage.rank)
    : push.left blob < before.left blob := by
  simp only [Push.left, Prod.Lex.toLex_lt_toLex, attempt]
  exact .inr ⟨trivial, .inl rank⟩

/-- The end of an attempt is the end, or begins the next one. -/
theorem Push.attempted_nearer (attempt : push.attempt = before.attempt)
    (result : Except UploadFailure Unit)
    : before.Nearer blob (push.attempted digest result) := by
  match result with
  | .ok () => exact .inl ⟨_, rfl⟩
  | .error (.fatal why) => exact .inl ⟨_, rfl⟩
  | .error (.retry why) =>
      by_cases more : push.attempt < pushAttempts
      · right
        simp only [Push.attempted, if_pos more, Push.left, Prod.Lex.toLex_lt_toLex]
        left
        omega
      · left
        simp only [Push.attempted, if_neg more]
        exact ⟨_, rfl⟩

theorem Push.chunksEnded_nearer (attempt : push.attempt = before.attempt)
    (resumedFrom : Option Nat) (result : Except UploadFailure Unit)
    : before.Nearer blob (push.chunksEnded digest resumedFrom result) := by
  unfold Push.chunksEnded
  refine Push.attempted_nearer ?_ result
  exact attempt

/-- An attempt opens an upload, unless it has a session to ask about. -/
theorem Push.uploadOnce_nearer (attempt : push.attempt = before.attempt)
    (rank : 2 < before.stage.rank) (asks : push.session = none ∨ 3 < before.stage.rank)
    : before.Nearer blob (push.uploadOnce blob) := by
  right
  unfold Push.uploadOnce
  split
  · exact Push.left_lt_of_rank attempt rank
  · cases is : push.session with
    | none => exact Push.left_lt_of_rank attempt rank
    | some session =>
        rcases asks with none | above
        · rw [is] at none
          cases none
        · exact Push.left_lt_of_rank attempt above

/-- A session goes on behind the offset it had when the chunk was confirmed. -/
theorem Push.left_confirmed {session : UploadSession} (is : push.session = some session)
    (more : session.offset < blob.length) (location : String) {confirmed : Nat}
    (ge : session.offset ≤ confirmed)
    : ({ push with session := some ⟨location, confirmed⟩ } : Push).left blob < push.left blob
      ∨ confirmed = session.offset
        ∧ ({ push with session := some ⟨location, confirmed⟩ } : Push).left blob
          = push.left blob := by
  rcases ge.lt_or_eq with moved | stood
  · left
    simp only [Push.left, Prod.Lex.toLex_lt_toLex, is, Option.map_some, Option.getD_some]
    exact .inr ⟨trivial, .inr ⟨trivial, by omega⟩⟩
  · right
    refine ⟨stood.symm, ?_⟩
    simp only [Push.left, is, Option.map_some, Option.getD_some, stood]

/-- A `PATCH` that has ended ends the attempt, confirms some of its bytes, or stands. -/
theorem Push.patched_nearer {resumedFrom : Option Nat} {session : UploadSession}
    {reaction : Reaction} (stage : push.stage = .sending resumedFrom)
    (is : push.session = some session) (more : session.offset < blob.length)
    : push.Nearer blob (push.patched digest blob resumedFrom session reaction.reply)
      ∨ Stands blob push reaction
        ∧ (push.patched digest blob resumedFrom session reaction.reply).left blob
          = push.left blob := by
  cases reply : reaction.reply with
  | failed why => exact .inl (Push.chunksEnded_nearer (by rfl) _ _)
  | lost why sent => exact .inl (Push.chunksEnded_nearer (by rfl) _ _)
  | answer answer =>
      simp only [Push.patched]
      split
      case isTrue => exact .inl (Push.chunksEnded_nearer (by rfl) _ _)
      split
      case isTrue => exact .inl (Push.chunksEnded_nearer (by rfl) _ _)
      split
      case isTrue => exact .inl (Push.chunksEnded_nearer (by rfl) _ _)
      split
      case isTrue => exact .inl (Push.chunksEnded_nearer (by rfl) _ _)
      case isFalse success =>
        split
        case isTrue => exact .inl (Push.chunksEnded_nearer (by rfl) _ _)
        case isFalse between =>
          rcases Push.left_confirmed is more _ (Nat.le_of_not_lt (not_or.mp between).2)
            with moved | ⟨stood, same⟩
          · exact .inl (.inr moved)
          · have stands : Stands blob push reaction :=
              ⟨resumedFrom, session, answer, stage, is, more, reply, by simpa using success, stood⟩
            exact .inr ⟨stands, same⟩

/-- Each request is the last one, or brings the upload forward, or is a chunk that stands. -/
theorem Push.step_nearer (reaction : Reaction)
    : push.Nearer blob (pushBlobWith digest blob push reaction)
      ∨ Stands blob push reaction
        ∧ (pushBlobWith digest blob push reaction).left blob = push.left blob := by
  obtain ⟨client, attempt, last, session, stage, held⟩ := push
  cases stage with
  | heading =>
      left
      simp only [pushBlobWith]
      split
      · exact Push.attempted_nearer (by rfl) _
      · exact Push.uploadOnce_nearer (by rfl) (by simp [PushStage.rank]) (.inr (by simp [PushStage.rank]))
      · exact Push.attempted_nearer (by rfl) _
  | opening =>
      left
      simp only [pushBlobWith]
      split
      · exact Push.attempted_nearer (by rfl) _
      · exact Push.attempted_nearer (by rfl) _
      · split <;> exact .inr (Push.left_lt_of_rank (by rfl) (by simp [Push.sendFrom, PushStage.rank]))
  | whole base =>
      left
      simp only [pushBlobWith]
      split
      · split <;> exact Push.attempted_nearer (by rfl) _
      · exact Push.attempted_nearer (by rfl) _
  | asking =>
      left
      have later (session : UploadSession)
          : Push.Nearer blob ⟨client, attempt, last, session, .asking, held⟩
            (Push.sendFrom ⟨client, attempt, last, session, .asking, reaction.held⟩ session) :=
        .inr (Push.left_lt_of_rank (by rfl) (by simp [Push.sendFrom, PushStage.rank]))
      simp only [pushBlobWith]
      cases session with
      | none => exact Push.uploadOnce_nearer (by rfl) (by simp [PushStage.rank]) (.inl rfl)
      | some session =>
          dsimp only
          split
          · split <;> exact .inr (Push.left_lt_of_rank (by rfl) (by simp [Push.sendFrom, PushStage.rank]))
          · exact Push.uploadOnce_nearer (by rfl) (by simp [PushStage.rank]) (.inl rfl)
          · exact later session
  | sending resumedFrom =>
      simp only [pushBlobWith]
      cases session with
      | none => exact .inl (Push.chunksEnded_nearer (by rfl) _ _)
      | some session =>
          dsimp only
          split
          case isTrue more => exact Push.patched_nearer (by rfl) rfl more
          case isFalse => exact .inl (Push.chunksEnded_nearer (by rfl) _ _)
  | ended result => exact .inl (.inl ⟨result, rfl⟩)

/-- An upload that is over stays over. -/
theorem Push.Over.step (finished : push.Over) (reaction : Reaction)
    : (pushBlobWith digest blob push reaction).Over := by
  obtain ⟨result, stage⟩ := finished
  obtain ⟨client, attempt, last, session, _, held⟩ := push
  cases stage
  exact ⟨result, rfl⟩

theorem Push.Over.along {reactions : Nat → Reaction} {n : Nat}
    (finished : (pushAlong digest blob push reactions n).Over) (k : Nat)
    : (pushAlong digest blob push reactions (n + k)).Over := by
  induction k with
  | zero => exact finished
  | succ k ih => exact ih.step _

/-- A chunk that is out is no end. -/
theorem Stands.not_over {reaction : Reaction} (stands : Stands blob push reaction)
    : ¬ push.Over := by
  rintro ⟨result, finished⟩
  obtain ⟨resumedFrom, _, _, sending, -⟩ := stands
  rw [sending] at finished
  cases finished

end

/-- An upload is over after finitely many requests exactly where no place of the stream of answers
is followed by chunks that stand alone.
-/
theorem upload_over_iff (digest : String) (blob : Bytes) (client : Client)
    (held : String → Option Bytes) (reactions : Nat → Reaction)
    : (∃ n, (pushAlong digest blob (.start client held) reactions n).Over)
      ↔ ¬ ∃ n, ∀ i, n ≤ i →
          Stands blob (pushAlong digest blob (.start client held) reactions i) (reactions i) := by
  constructor
  · rintro ⟨n, finished⟩ ⟨m, stands⟩
    exact (stands (n + m) (Nat.le_add_left m n)).not_over (finished.along m)
  · intro moves
    have step (n : Nat)
        : let push := pushAlong digest blob (.start client held) reactions
          (push (n + 1)).Over ∨ (push (n + 1)).left blob < (push n).left blob
            ∨ Stands blob (push n) (reactions n) ∧ (push (n + 1)).left blob = (push n).left blob :=
      or_assoc.mp (Push.step_nearer (reactions n))
    exact (done_or_idle step).resolve_right moves

/-- The first chunk is accepted again and again, with nothing of it kept. -/
def nothingKept : Nat → Reaction
  | 0 => ⟨answered 404 none, asked.held⟩
  | 1 => ⟨answered 202 none, sendsFirst.held⟩
  | _ => ⟨answered 202 (some "0-0".toList), sendsFirst.held⟩

theorem resends
    : pushBlobWith "sha256:0" longBlob sendsFirst
        ⟨answered 202 (some "0-0".toList), sendsFirst.held⟩
      = sendsFirst := by
  have offset : confirmedUploadOffset "0-0".toList = some 0 := by decide
  have len : chunkLen longBlob chunkingClient 0 = uploadChunk := by
    rw [chunkLen, length_longBlob]
    decide
  generalize "0-0".toList = range at offset
  simp [pushBlobWith, posted, asked, Push.start, answered, sendsFirst, Push.patched, isSuccess,
    offset, len, length_longBlob, absolute_sessionUrl]

/-- An accepted chunk whose `Range` stays at the start is sent for ever. -/
theorem unconfirmed_chunk_endless
    : ¬ ∃ n, (pushAlong "sha256:0" longBlob (.start chunkingClient fun _ => none) nothingKept n).Over
    := by
  have stays (n : Nat)
      : pushAlong "sha256:0" longBlob asked nothingKept (n + 2) = sendsFirst := by
    induction n with
    | zero =>
        simp only [pushAlong, nothingKept]
        rw [← posts, ← opens]
    | succ n ih =>
        rw [pushAlong, ih]
        exact resends
  rintro ⟨n, finished⟩
  obtain ⟨result, ended⟩ := finished.along 2
  have sending := congrArg Push.stage (stays n)
  rw [show sendsFirst.stage = .sending none from rfl] at sending
  exact absurd (ended.symm.trans sending) (by simp)

end Delonix.Images
