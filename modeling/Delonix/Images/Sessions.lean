import Delonix.Images.Upload

/-! What a session holds while a blob goes up in chunks. A registry puts an accepted chunk where
the request says, whole or in part, and tells in a `Range` answer how far it got; the client never
goes on from beyond that.
-/

namespace Delonix.Images

open Delonix.Library.Runs

abbrev PushHistory := List (Event Push Reaction)

-----------------------------------------------------------------------------------------
-- The registry
-----------------------------------------------------------------------------------------

/-- The session is gone or holds what it held. -/
def Spared (before after : String → Option Bytes) (location : String) : Prop :=
  after location = none ∨ after location = before location

/-- What a session holds after a part of a chunk was put at `start`. -/
def placed (held : Bytes) (start : Nat) (kept : Bytes) : Bytes := held.take start ++ kept

/-- A `Range` that can be read tells the first and the last byte there is. -/
def Answer.Tells (answer : Answer) (held : Bytes) : Prop :=
  ∀ range first last, answer.range = some range → rangeBounds range = some (first, last) →
    first = 0 ∧ last = held.length - 1

/-- Where a session is found after an answer. -/
def Client.movedTo (client : Client) (answer : Answer) (location : String) : String :=
  (answer.location.map client.absolute).getD location

/-- A registry keeps, in each session, exactly the bytes its `Range` answers tell. Sessions may be
lost at any time; a chunk may be refused, and a connection cut, with or without a part of the
chunk kept.
-/
structure Truthful (digest : String) (blob : Bytes) (push : Push) (reaction : Reaction)
    : Prop where
  /-- A session is changed by its own chunks only. -/
  spared : ∀ s, push.session = some s →
    (∀ start chunk, push.request digest blob ≠ some (.patch s.location start chunk)) →
    Spared push.held reaction.held s.location
  /-- A new session is empty. -/
  opened : push.request digest blob = some .post → ∀ location,
    push.client.openUpload reaction.reply = .ok (some location) →
    reaction.held location = none ∨ reaction.held location = some []
  /-- A session that is asked tells what it holds. -/
  told : ∀ location answer, push.request digest blob = some (.status location) →
    reaction.reply = .answer answer → answer.redirected = false → answer.status = 204 →
    ∀ held, reaction.held location = some held → answer.Tells held
  /-- An accepted chunk, or the part of it that is told, is at its place. -/
  accepted : ∀ location start chunk answer,
    push.request digest blob = some (.patch location start chunk) →
    reaction.reply = .answer answer → isSuccess answer.status = true →
    ∃ held kept, push.held location = some held ∧ start ≤ held.length ∧ kept <+: chunk
      ∧ answer.Tells (placed held start kept)
      ∧ (reaction.held (push.client.movedTo answer location) = none
        ∨ reaction.held (push.client.movedTo answer location) = some (placed held start kept))
  /-- Of any other chunk a part may be there. -/
  refused : ∀ location start chunk,
    push.request digest blob = some (.patch location start chunk) →
    (∀ answer, reaction.reply = .answer answer → isSuccess answer.status = false) →
    Spared push.held reaction.held location
    ∨ ∃ held kept, push.held location = some held ∧ start ≤ held.length ∧ kept <+: chunk
      ∧ reaction.held location = some (placed held start kept)

/-- A chunk that is accepted without a `Range` that can be read is kept whole. -/
def KeepsAccepted (digest : String) (blob : Bytes) (push : Push) (reaction : Reaction) : Prop :=
  ∀ location start chunk answer, push.request digest blob = some (.patch location start chunk) →
    reaction.reply = .answer answer → isSuccess answer.status = true →
    answer.range.bind confirmedUploadOffset = none →
    ∀ held, push.held location = some held →
      reaction.held (push.client.movedTo answer location) = none
      ∨ reaction.held (push.client.movedTo answer location) = some (placed held start chunk)

/-- Whenever the closing `PUT` is out, the session is gone or holds exactly the blob. -/
def ClosedWhole (digest : String) (blob : Bytes) (history : PushHistory) : Prop :=
  ∀ event ∈ history, ∀ location url,
    event.before.request digest blob = some (.close location url) →
    event.before.held location = none ∨ event.before.held location = some blob

-----------------------------------------------------------------------------------------
-- Offsets
-----------------------------------------------------------------------------------------

/-- What a session holds is a start of the blob, and reaches at least to its offset. -/
def Backs (blob : Bytes) (held : String → Option Bytes) (session : UploadSession) : Prop :=
  ∀ bytes, held session.location = some bytes → bytes <+: blob ∧ session.offset ≤ bytes.length

def Push.Backed (blob : Bytes) (push : Push) : Prop :=
  ∀ session, push.session = some session → Backs blob push.held session

/-- The offset read from a truthful answer is not beyond what is held. -/
theorem Answer.Tells.offset_le {answer : Answer} {held : Bytes} (tells : answer.Tells held)
    {offset : Nat} (confirmed : answer.range.bind confirmedUploadOffset = some offset)
    : offset ≤ held.length := by
  obtain ⟨range, is, reads⟩ := Option.bind_eq_some_iff.mp confirmed
  obtain ⟨⟨first, last⟩, bounds, reads⟩ := Option.bind_eq_some_iff.mp reads
  obtain ⟨rfl, told⟩ := tells range first last is bounds
  simp only [ne_eq, not_true_eq_false, if_false, Option.some.injEq] at reads
  have bounded : (last + 1) % 2 ^ 64 ≤ last + 1 := Nat.mod_le _ _
  split at reads <;> omega

/-- A part of the blob's chunk at `start`, put at `start`, leaves a start of the blob. -/
theorem placed_start {blob held kept : Bytes} {start len : Nat} (prior : held <+: blob)
    (le : start ≤ held.length) (part : kept <+: (blob.drop start).take len)
    : placed held start kept <+: blob ∧ (placed held start kept).length = start + kept.length := by
  refine ⟨?_, by simp [placed, le]⟩
  have front : held.take start = blob.take start := by
    obtain ⟨rest, rfl⟩ := prior
    rw [List.take_append_of_le_length le]
  obtain ⟨more, is⟩ := part
  refine ⟨more ++ (blob.drop start).drop len, ?_⟩
  calc
    placed held start kept ++ (more ++ (blob.drop start).drop len)
        = blob.take start ++ (kept ++ more ++ (blob.drop start).drop len) := by
      simp [placed, front]
    _ = blob.take start ++ blob.drop start := by rw [is, List.take_append_drop]
    _ = blob := List.take_append_drop _ _

-----------------------------------------------------------------------------------------
-- One request
-----------------------------------------------------------------------------------------

section

variable {digest : String} {blob : Bytes} {push : Push} {reaction : Reaction}

/-- Dropping the session, or going on with it as it is, leaves it backed. -/
theorem Push.Backed.carry {after : Push} (backed : push.Backed blob) (held : after.held = push.held)
    (kept : after.session = none ∨ after.session = push.session)
    : after.Backed blob := by
  intro session is
  rw [held]
  rcases kept with none | same
  · rw [none] at is
    cases is
  · exact backed session (same ▸ is)

theorem attempted_carries (digest : String) (push : Push) (result : Except UploadFailure Unit)
    : (push.attempted digest result).held = push.held
      ∧ (push.attempted digest result).session = push.session := by
  unfold Push.attempted
  split
  · exact ⟨rfl, rfl⟩
  · exact ⟨rfl, rfl⟩
  · split <;> exact ⟨rfl, rfl⟩

theorem Push.Backed.attempted (backed : push.Backed blob) (result : Except UploadFailure Unit)
    : (push.attempted digest result).Backed blob := by
  obtain ⟨held, session⟩ := attempted_carries digest push result
  exact backed.carry held (.inr session)

theorem Push.Backed.uploadOnce (backed : push.Backed blob) : (push.uploadOnce blob).Backed blob := by
  unfold Push.uploadOnce
  split
  · exact backed
  · split <;> exact backed

theorem Push.Backed.chunksEnded (backed : push.Backed blob) (resumedFrom : Option Nat)
    (result : Except UploadFailure Unit)
    : (push.chunksEnded digest resumedFrom result).Backed blob := by
  refine Push.Backed.attempted ?_ result
  refine backed.carry rfl ?_
  dsimp only
  split
  · split
    · exact .inl rfl
    · exact .inr rfl
  · exact .inl rfl

theorem Push.Backed.dropped (dropped : push.session = none) : push.Backed blob := by
  intro session is
  rw [dropped] at is
  cases is

theorem Push.Backed.sendFrom {session : UploadSession} (backs : Backs blob push.held session)
    : (push.sendFrom session).Backed blob := by
  intro other is
  obtain rfl := Option.some.inj is
  exact backs

/-- What is gone or untouched backs a session as before. -/
theorem Backs.spared {before after : String → Option Bytes} {session : UploadSession}
    (backs : Backs blob before session) (spared : Spared before after session.location)
    : Backs blob after session := by
  intro bytes holds
  rcases spared with gone | same
  · rw [gone] at holds
    cases holds
  · exact backs bytes (same ▸ holds)

/-- A request that is no chunk leaves the session backed. -/
theorem Truthful.backed (truthful : Truthful digest blob push reaction) (backed : push.Backed blob)
    (other : ∀ location start chunk,
      push.request digest blob ≠ some (.patch location start chunk))
    : { push with held := reaction.held }.Backed blob := by
  intro session is
  exact (backed session is).spared (truthful.spared session is fun start chunk =>
    other session.location start chunk)

theorem uploadStatus_eq_reached {reply : Reply} {offset : Nat}
    (reached : uploadStatus reply = .reached offset)
    : ∃ answer, reply = .answer answer ∧ answer.redirected = false ∧ answer.status = 204
      ∧ answer.range.bind confirmedUploadOffset = some offset := by
  cases reply with
  | failed | lost => cases reached
  | answer answer =>
      simp only [uploadStatus] at reached
      split at reached
      · cases reached
      case isFalse direct =>
        split at reached
        case isTrue status =>
          split at reached
          case h_1 found =>
            cases reached
            exact ⟨answer, rfl, by simpa using direct, status, found⟩
          case h_2 => cases reached
        case isFalse => split at reached <;> cases reached

/-- The session's own chunk was not taken: what there is of it is at its place. -/
theorem Truthful.refused_backs (truthful : Truthful digest blob push reaction)
    {session : UploadSession} (backs : Backs blob push.held session) {len : Nat}
    (request : push.request digest blob
      = some (.patch session.location session.offset ((blob.drop session.offset).take len)))
    (unanswered : ∀ answer, reaction.reply = .answer answer → isSuccess answer.status = false)
    : Backs blob reaction.held session := by
  rcases truthful.refused _ _ _ request unanswered with spared | ⟨held, kept, was, le, part, is⟩
  · exact backs.spared spared
  · intro bytes holds
    rw [is] at holds
    obtain rfl := Option.some.inj holds
    obtain ⟨start, length⟩ := placed_start (backs held was).1 le part
    exact ⟨start, by omega⟩

/-- After an accepted chunk the session holds all the client takes as confirmed. -/
theorem Truthful.accepted_backs (truthful : Truthful digest blob push reaction)
    (keeps : KeepsAccepted digest blob push reaction) {session : UploadSession}
    (backs : Backs blob push.held session) {len : Nat} (short : len ≤ blob.length - session.offset)
    (request : push.request digest blob
      = some (.patch session.location session.offset ((blob.drop session.offset).take len)))
    {answer : Answer} (reply : reaction.reply = .answer answer)
    (success : isSuccess answer.status = true)
    : Backs blob reaction.held ⟨push.client.movedTo answer session.location,
      (answer.range.bind confirmedUploadOffset).getD (session.offset + len)⟩ := by
  obtain ⟨held, kept, was, le, part, tells, after⟩ :=
    truthful.accepted _ _ _ _ request reply success
  intro bytes holds
  dsimp only at holds ⊢
  rcases after with gone | is
  · rw [gone] at holds
    cases holds
  rw [is] at holds
  obtain rfl := Option.some.inj holds
  obtain ⟨start, length⟩ := placed_start (backs held was).1 le part
  refine ⟨start, ?_⟩
  cases confirmed : answer.range.bind confirmedUploadOffset with
  | some offset => exact tells.offset_le confirmed
  | none =>
      -- Nothing was told: the chunk was kept whole.
      rcases keeps _ _ _ _ request reply success confirmed held was with gone | whole
      · rw [gone] at is
        cases is
      · rw [is] at whole
        rw [Option.some.inj whole, placed]
        simp only [Option.getD_none, List.length_append, List.length_take, List.length_drop]
        omega

theorem Push.Backed.patched (backed : push.Backed blob)
    (truthful : Truthful digest blob push reaction) (keeps : KeepsAccepted digest blob push reaction)
    {resumedFrom : Option Nat} {session : UploadSession} (is : push.session = some session)
    (request : push.request digest blob = some (.patch session.location session.offset
      ((blob.drop session.offset).take (chunkLen blob push.client session.offset))))
    : ({ push with held := reaction.held }.patched digest blob resumedFrom session
      reaction.reply).Backed blob := by
  have backs := backed session is
  have refused (unanswered : ∀ answer, reaction.reply = .answer answer →
      isSuccess answer.status = false)
      : { push with held := reaction.held }.Backed blob := by
    intro other same
    obtain rfl := Option.some.inj (is.symm.trans same)
    exact truthful.refused_backs backs request unanswered
  cases reply : reaction.reply with
  | failed why => exact (refused (by simp [reply])).chunksEnded _ _
  | lost why sent => exact (refused (by simp [reply])).chunksEnded _ _
  | answer answer =>
      simp only [Push.patched]
      split
      case isTrue => exact (Push.Backed.dropped rfl).chunksEnded _ _
      split
      case isTrue => exact (Push.Backed.dropped rfl).chunksEnded _ _
      split
      case isTrue => exact (Push.Backed.dropped rfl).chunksEnded _ _
      split
      case isTrue failed =>
        refine (refused ?_).chunksEnded _ _
        intro other same
        rw [reply] at same
        cases same
        simpa using failed
      case isFalse success =>
        split
        case isTrue => exact (Push.Backed.dropped rfl).chunksEnded _ _
        case isFalse =>
          intro other same
          obtain rfl := Option.some.inj same
          exact truthful.accepted_backs keeps backs (min_le_right _ _) request reply
            (by simpa using success)

/-- One request leaves the session backed. -/
theorem Push.Backed.step (backed : push.Backed blob)
    (truthful : Truthful digest blob push reaction) (keeps : KeepsAccepted digest blob push reaction)
    : (pushBlobWith digest blob push reaction).Backed blob := by
  obtain ⟨client, attempt, last, session, stage, held⟩ := push
  cases stage with
  | heading =>
      have spared := truthful.backed backed (by simp [Push.request])
      simp only [pushBlobWith]
      split
      · exact spared.attempted _
      · exact spared.uploadOnce
      · exact spared.attempted _
  | opening =>
      have spared := truthful.backed backed (by simp [Push.request])
      have fresh := truthful.opened (by simp [Push.request])
      simp only [pushBlobWith]
      split
      · exact spared.attempted _
      · exact spared.attempted _
      case h_3 location opened =>
        split
        · exact spared
        · refine Push.Backed.sendFrom ?_
          intro bytes holds
          rcases fresh location opened with gone | empty
          · exact absurd (gone.symm.trans holds) (by simp)
          · obtain rfl := Option.some.inj (empty.symm.trans holds)
            exact ⟨⟨blob, rfl⟩, Nat.zero_le _⟩
  | whole base =>
      have spared := truthful.backed backed (by simp [Push.request])
      simp only [pushBlobWith]
      split
      · split
        · refine Push.Backed.attempted ?_ _
          exact spared.carry rfl (.inr rfl)
        · exact spared.attempted _
      · exact spared.attempted _
  | asking =>
      have spared := truthful.backed backed (by simp [Push.request])
      simp only [pushBlobWith]
      cases session with
      | none => exact spared.uploadOnce
      | some session =>
        have backs := spared session rfl
        dsimp only
        split
        case h_1 offset reached =>
          split
          · refine Push.Backed.sendFrom ?_
            intro bytes holds
            obtain ⟨answer, reply, direct, status, confirmed⟩ := uploadStatus_eq_reached reached
            have request : Push.request digest blob ⟨client, attempt, last, some session, .asking, held⟩
                = some (.status session.location) := by
              simp [Push.request]
            have tells := truthful.told _ _ request reply direct status bytes holds
            exact ⟨(backs bytes holds).1, tells.offset_le confirmed⟩
          · exact Push.Backed.sendFrom backs
        case h_2 => exact (Push.Backed.dropped rfl).uploadOnce
        case h_3 => exact Push.Backed.sendFrom backs
  | sending resumedFrom =>
      simp only [pushBlobWith]
      cases session with
      | none => exact (Push.Backed.dropped rfl).chunksEnded _ _
      | some session =>
          dsimp only
          split
          case isTrue short => exact backed.patched truthful keeps rfl (by simp [Push.request, short])
          case isFalse whole =>
            have spared := truthful.backed backed (by simp [Push.request, whole])
            exact spared.chunksEnded _ _
  | ended result =>
      have spared := truthful.backed backed (by simp [Push.request])
      simp only [pushBlobWith]
      exact spared

/-- A backed session whose offset has reached the size of the blob holds the blob. -/
theorem Push.Backed.closes (backed : push.Backed blob) {location url : String}
    (request : push.request digest blob = some (.close location url))
    : push.held location = none ∨ push.held location = some blob := by
  simp only [Push.request] at request
  split at request <;> try cases request
  case h_4 =>
    obtain ⟨_, _, request⟩ := Option.map_eq_some_iff.mp request
    cases request
  case h_5 =>
    obtain ⟨session, is, request⟩ := Option.map_eq_some_iff.mp request
    split at request <;> cases request
    case isFalse reached =>
      cases holds : push.held session.location with
      | none => exact .inl rfl
      | some bytes =>
          obtain ⟨start, offset⟩ := backed session is bytes holds
          right
          rw [start.eq_of_length_le (by omega)]

end

/-- Whatever is cut, lost or refused, and however often the upload is resumed, every closing
`PUT` is sent to a session that holds the blob.
-/
theorem closing_put_whole {digest : String} {blob : Bytes} {client : Client}
    {held : String → Option Bytes} {history : PushHistory} {push : Push}
    (run : Run (StepOf (pushBlobWith digest blob)) (.start client held) history push)
    (truthful : Meets (Truthful digest blob) history)
    (keeps : Meets (KeepsAccepted digest blob) history)
    : ClosedWhole digest blob history := by
  have allowed : Meets (fun push reaction => Truthful digest blob push reaction
      ∧ KeepsAccepted digest blob push reaction) history :=
    fun event member => ⟨truthful event member, keeps event member⟩
  intro event member location url request
  obtain ⟨older, earlier, met, -⟩ := run.upBefore allowed member
  have backed : event.before.Backed blob := by
    refine earlier.invariant (fun _ push => push.Backed blob) (Push.Backed.dropped rfl) ?_ met
    rintro _ push reaction _ backed rfl ⟨truthful, keeps⟩
    exact backed.step truthful keeps
  exact backed.closes request

/-- A client that an earlier blob has taught to send chunks. -/
def chunkingClient : Client where
  scheme := "https"
  host := "registry.test"
  mountFrom := none
  uploadChunk := uploadChunk
  chunked := true

/-- One byte more than a chunk. -/
def longBlob : Bytes := List.replicate (uploadChunk + 1) 7

def sessionUrl : String := "https://registry.test/v2/r/blobs/uploads/1"

def answered (status : Nat) (range : Option (List Char)) : Reply :=
  .answer ⟨status, some sessionUrl, range, false, ""⟩

def firstRange : List Char := "0-4194303".toList

def holding (bytes : Bytes) (location : String) : Option Bytes :=
  if location = sessionUrl then some bytes else none

/-- The upload before each of its requests: the blob is not there, a session is opened, the first
chunk is confirmed, and the second is accepted without a `Range`, with `kept` of it kept.
-/
def asked : Push := .start chunkingClient fun _ => none

def posted : Push := { asked with stage := .opening }

def sendsFirst : Push :=
  { posted with
    session := some ⟨sessionUrl, 0⟩
    stage := .sending none
    held := holding [] }

def sendsSecond : Push :=
  { sendsFirst with
    session := some ⟨sessionUrl, uploadChunk⟩
    held := holding (longBlob.take uploadChunk) }

def closes (kept : Bytes) : Push :=
  { sendsSecond with
    session := some ⟨sessionUrl, uploadChunk + 1⟩
    held := holding (longBlob.take uploadChunk ++ kept) }

def closed (kept : Bytes) : Push := { closes kept with session := none, stage := .ended (.ok ()) }

def twoChunks (kept : Bytes) : PushHistory :=
  [⟨closes kept, ⟨answered 201 none, (closes kept).held⟩, closed kept⟩,
    ⟨sendsSecond, ⟨answered 202 none, (closes kept).held⟩, closes kept⟩,
    ⟨sendsFirst, ⟨answered 202 (some firstRange), sendsSecond.held⟩, sendsSecond⟩,
    ⟨posted, ⟨answered 202 none, sendsFirst.held⟩, sendsFirst⟩,
    ⟨asked, ⟨answered 404 none, asked.held⟩, posted⟩]

theorem length_longBlob : longBlob.length = uploadChunk + 1 := List.length_replicate

theorem sendsWhole_longBlob : chunkingClient.sendsWhole longBlob.length = false := by
  rw [length_longBlob]
  decide

theorem absolute_sessionUrl : chunkingClient.absolute sessionUrl = sessionUrl := by decide

theorem posts : posted = pushBlobWith "sha256:0" longBlob asked ⟨answered 404 none, asked.held⟩ := by
  simp [pushBlobWith, posted, asked, Push.start, answered, blobPresent, retryableStatus, isSuccess,
    Push.uploadOnce, sendsWhole_longBlob]

theorem opens
    : sendsFirst
      = pushBlobWith "sha256:0" longBlob posted ⟨answered 202 none, sendsFirst.held⟩ := by
  simp [pushBlobWith, posted, asked, Push.start, answered, Client.openUpload, sendsFirst,
    Push.sendFrom, sendsWhole_longBlob, absolute_sessionUrl]

theorem confirms
    : sendsSecond = pushBlobWith "sha256:0" longBlob sendsFirst
      ⟨answered 202 (some firstRange), sendsSecond.held⟩ := by
  have offset : confirmedUploadOffset firstRange = some uploadChunk := by decide
  have len : chunkLen longBlob chunkingClient 0 = uploadChunk := by
    rw [chunkLen, length_longBlob]
    decide
  simp [pushBlobWith, posted, asked, Push.start, answered, sendsFirst, sendsSecond, Push.patched,
    isSuccess, offset, len, length_longBlob, absolute_sessionUrl]

theorem accepts (kept : Bytes)
    : closes kept = pushBlobWith "sha256:0" longBlob sendsSecond
      ⟨answered 202 none, (closes kept).held⟩ := by
  have len : chunkLen longBlob chunkingClient uploadChunk = 1 := by
    rw [chunkLen, length_longBlob]
    decide
  simp [pushBlobWith, posted, asked, Push.start, answered, sendsFirst, sendsSecond, closes,
    Push.patched, isSuccess, len, length_longBlob, absolute_sessionUrl]

theorem ends (kept : Bytes)
    : closed kept = pushBlobWith "sha256:0" longBlob (closes kept)
      ⟨answered 201 none, (closes kept).held⟩ := by
  simp [pushBlobWith, posted, asked, Push.start, answered, sendsFirst, sendsSecond, closes, closed,
    Push.chunksEnded, Push.attempted, putEnded, isSuccess, length_longBlob]

theorem twoChunks_run (kept : Bytes)
    : Run (StepOf (pushBlobWith "sha256:0" longBlob)) asked (twoChunks kept) (closed kept) :=
  ((((Run.start.step posts).step opens).step confirms).step (accepts kept)).step (ends kept)

theorem first_request
    : sendsFirst.request "sha256:0" longBlob
      = some (.patch sessionUrl 0 (longBlob.take uploadChunk)) := by
  have len : chunkLen longBlob chunkingClient 0 = uploadChunk := by
    rw [chunkLen, length_longBlob]
    decide
  simp [Push.request, sendsFirst, posted, asked, Push.start, length_longBlob, len]

theorem second_request
    : sendsSecond.request "sha256:0" longBlob = some (.patch sessionUrl uploadChunk [7]) := by
  have len : chunkLen longBlob chunkingClient uploadChunk = 1 := by
    rw [chunkLen, length_longBlob]
    decide
  have chunk : (longBlob.drop uploadChunk).take 1 = [7] := by simp [longBlob]
  simp [Push.request, sendsSecond, sendsFirst, posted, asked, Push.start, length_longBlob, len, chunk]

theorem closing_request (kept : Bytes)
    : (closes kept).request "sha256:0" longBlob
      = some (.close sessionUrl (putUrl sessionUrl "sha256:0")) := by
  simp [Push.request, closes, sendsSecond, sendsFirst, posted, asked, Push.start, length_longBlob]

/-- The session is where its answers say, and an accepted chunk is all the request changes. -/
theorem truthful_of_accepted {push : Push} {start : Nat} {chunk held kept : Bytes}
    {range : Option (List Char)} {digest : String} {blob : Bytes}
    (client : push.client = chunkingClient) (session : push.session = some ⟨sessionUrl, start⟩)
    (request : push.request digest blob = some (.patch sessionUrl start chunk))
    (was : push.held = holding held) (le : start ≤ held.length) (part : kept <+: chunk)
    (tells : ∀ first last, range.bind rangeBounds = some (first, last) →
      first = 0 ∧ last = (placed held start kept).length - 1)
    : Truthful digest blob push ⟨answered 202 range, holding (placed held start kept)⟩ where
  spared s is other := by
    rw [session] at is
    cases is
    exact absurd request (other start chunk)
  opened post := by
    rw [request] at post
    cases post
  told location answer asks := by
    rw [request] at asks
    cases asks
  accepted location start' chunk' answer asks reply _ := by
    rw [request] at asks
    cases asks
    cases reply
    refine ⟨held, kept, by simp [was, holding], le, part, ?_, .inr ?_⟩
    · intro range' first last is bounds
      exact tells first last (by rw [show range = some range' from is]; exact bounds)
    · simp [Client.movedTo, client, absolute_sessionUrl, holding]
  refused location start' chunk' asks unanswered := nomatch unanswered _ rfl

theorem held_sendsSecond : sendsSecond.held = holding (placed [] 0 (longBlob.take uploadChunk)) := by
  simp [sendsSecond, placed]

theorem held_closes (kept : Bytes)
    : (closes kept).held = holding (placed (longBlob.take uploadChunk) uploadChunk kept) := by
  simp [closes, placed, List.take_take]

theorem twoChunks_truthful {kept : Bytes} (part : kept <+: [7])
    : Meets (Truthful "sha256:0" longBlob) (twoChunks kept) := by
  have held : (longBlob.take uploadChunk).length = uploadChunk := by
    simp [length_longBlob]
  refine meets_cons.mpr ⟨?_, meets_cons.mpr ⟨?_, meets_cons.mpr ⟨?_, meets_cons.mpr ⟨?_,
    meets_cons.mpr ⟨?_, fun _ member => absurd member List.not_mem_nil⟩⟩⟩⟩⟩
  · constructor <;> simp [closing_request, Spared]
  · dsimp only
    rw [held_closes]
    exact truthful_of_accepted rfl rfl second_request rfl held.ge part fun _ _ none => nomatch none
  · dsimp only
    rw [held_sendsSecond]
    refine truthful_of_accepted rfl rfl first_request rfl le_rfl ⟨[], List.append_nil _⟩ ?_
    intro first last bounds
    have reads : (some firstRange).bind rangeBounds = some (0, 4194303) := by decide
    rw [reads] at bounds
    cases bounds
    refine ⟨rfl, ?_⟩
    simp only [placed, List.take_nil, List.nil_append, held]
    rfl
  · constructor <;>
      simp [sendsFirst, posted, asked, Push.start, Push.request, holding, answered,
        Client.openUpload, absolute_sessionUrl]
  · constructor <;> simp [asked, Push.start, Push.request]

/-- The second chunk is accepted in silence and kept. -/
theorem closing_put_whole_twoChunks : ClosedWhole "sha256:0" longBlob (twoChunks [7]) := by
  refine closing_put_whole (twoChunks_run [7]) (twoChunks_truthful ⟨[], rfl⟩) ?_
  refine meets_cons.mpr ⟨?_, meets_cons.mpr ⟨?_, meets_cons.mpr ⟨?_, meets_cons.mpr ⟨?_,
    meets_cons.mpr ⟨?_, fun _ member => absurd member List.not_mem_nil⟩⟩⟩⟩⟩
  · simp [KeepsAccepted, closing_request]
  · intro location start chunk answer request reply _ _ held was
    obtain ⟨rfl, rfl, rfl⟩ := Request.patch.inj (Option.some.inj (second_request.symm.trans request))
    cases reply
    have is : longBlob.take uploadChunk = held := by simpa [sendsSecond, holding] using was
    right
    have client : sendsSecond.client = chunkingClient := rfl
    simp [held_closes, is, Client.movedTo, client, absolute_sessionUrl, holding]
  · intro location start chunk answer request reply _ silent
    cases reply
    exact absurd silent (by decide)
  · simp [KeepsAccepted, posted, asked, Push.start, Push.request]
  · simp [KeepsAccepted, asked, Push.start, Push.request]

/-- Every answer that tells anything tells what is held. The last chunk is accepted in silence and
dropped, and the closing `PUT` is sent for a blob that is a byte short.
-/
theorem silent_chunk_missing
    : Run (StepOf (pushBlobWith "sha256:0" longBlob)) asked (twoChunks []) (closed [])
      ∧ Meets (Truthful "sha256:0" longBlob) (twoChunks [])
      ∧ ¬ ClosedWhole "sha256:0" longBlob (twoChunks []) := by
  refine ⟨twoChunks_run [], twoChunks_truthful ⟨[7], rfl⟩, ?_⟩
  intro whole
  have held := whole _ List.mem_cons_self _ _ (closing_request [])
  rcases held with gone | same
  · cases gone
  · have length := congrArg List.length (Option.some.inj same)
    simp [length_longBlob] at length

end Delonix.Images
