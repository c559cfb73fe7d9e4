import Delonix.Images.Download

/-! The upload of a blob, resumed in chunks once sending it whole has failed. The session and the
offset the registry confirmed are kept from one attempt to the next. The client is a machine that
has one request out at a time; what the registry answers and what it holds afterwards are the
actions.
-/

namespace Delonix.Images

open Delonix.Library.Text
open Delonix.Library.Runs

/-- A text without any of its leading copies of `start`. -/
def trimStartOf (start : List Char) : Nat → List Char → List Char
  | 0, s => s
  | fuel + 1, s =>
      match stripStart start s with
      | some rest => trimStartOf start fuel rest
      | none => s

/-- The first and the last byte a `Range` answer speaks of. -/
def rangeBounds (range : List Char) : Option (Nat × Nat) := do
  let range := trim range
  let (first, last) ← splitOnce '-' (trimStartOf "bytes=".toList range.length range)
  return (← parseUnsigned 10 u64Max first, ← parseUnsigned 10 u64Max last)

/-- The offset an upload continues from. `0-0` is read as nothing kept. -/
def confirmedUploadOffset (range : List Char) : Option Nat := do
  let (first, last) ← rangeBounds range
  if first ≠ 0 then none else some (if last = 0 then 0 else (last + 1) % 2 ^ 64)

def isSuccess (status : Nat) : Bool := 200 ≤ status && status < 300

/-- Answers worth another attempt. -/
def retryableStatus (status : Nat) : Bool :=
  500 ≤ status && status < 600 || status == 408 || status == 429

/-- What an answer says: its status, the headers that are read, whether it comes from another URL
than the one that was asked, and how a failure of it is told.
-/
structure Answer where
  status : Nat
  location : Option String
  range : Option (List Char)
  redirected : Bool
  failure : String
  deriving DecidableEq, Repr

/-- How a request ends: an answer, a connection that was lost with so many bytes of the body
sent, or a request that could not be made.
-/
inductive Reply where
  | answer (answer : Answer)
  | lost (why : String) (sent : Nat)
  | failed (why : String)
  deriving DecidableEq, Repr

/-- What one attempt ended in, when it did not succeed. -/
inductive UploadFailure where
  | retry (why : String)
  | fatal (why : String)
  deriving DecidableEq, Repr

/-- An answer that is no success, under the words of what was tried. -/
def refused (what : String) (answer : Answer) : UploadFailure :=
  if retryableStatus answer.status then .retry (what ++ ": " ++ answer.failure)
  else .fatal (what ++ ": " ++ answer.failure)

/-- The `HEAD` of a blob: whether the registry has it. -/
def blobPresent : Reply → Except UploadFailure Bool
  | .failed why => .error (.fatal why)
  | .lost why _ => .error (.retry ("blob HEAD: " ++ why))
  | .answer answer =>
      if retryableStatus answer.status then .error (.retry ("blob HEAD: " ++ answer.failure))
      else .ok (isSuccess answer.status)

/-- Where a session stands, as far as the registry says. -/
inductive SessionStatus where
  | reached (offset : Nat)
  | unknown
  | gone
  deriving DecidableEq, Repr

def uploadStatus : Reply → SessionStatus
  | .failed _ | .lost _ _ => .unknown
  | .answer answer =>
      if answer.redirected then .unknown
      else if answer.status = 204 then
        match answer.range.bind confirmedUploadOffset with
        | some offset => .reached offset
        | none => .unknown
      else if answer.status = 404 ∨ answer.status = 400 ∨ answer.status = 416 then .gone
      else .unknown

/-- What follows a `PUT`, with the text of a connection that was lost. -/
def putEnded (what lost : String) : Reply → Except UploadFailure Unit
  | .failed why => .error (.fatal why)
  | .lost why _ => .error (.retry (what ++ ": " ++ why ++ lost))
  | .answer answer => if isSuccess answer.status then .ok () else .error (refused what answer)

def pushAttempts : Nat := 5

def uploadChunk : Nat := 4 * 1024 * 1024

def minUploadChunk : Nat := 1024 * 1024

structure Client where
  scheme : String
  host : String
  mountFrom : Option String
  uploadChunk : Nat
  chunked : Bool
  deriving DecidableEq, Repr

/-- A chunked upload session: where the next chunk goes, and the offset it continues from. -/
structure UploadSession where
  location : String
  offset : Nat
  deriving DecidableEq, Repr

/-- `Location` may come absolute or relative to the host. -/
def Client.absolute (client : Client) (location : String) : String :=
  if "http".toList.isPrefixOf location.toList then location
  else client.scheme ++ "://" ++ client.host ++ location

/-- A session's URL, or none when the registry mounted the blob. -/
def Client.openUpload (client : Client) : Reply → Except UploadFailure (Option String)
  | .failed why => .error (.fatal why)
  | .lost why _ => .error (.retry ("upload start: " ++ why))
  | .answer answer =>
      if client.mountFrom.isSome ∧ answer.status = 201 then .ok none
      else if answer.status ≠ 202 then
        let hint := if answer.status = 401 ∨ answer.status = 403 then
          " (run \x60delonix login " ++ client.host ++ "\x60?)" else ""
        .error (refused "upload start" { answer with failure := answer.failure ++ hint })
      else
        match answer.location with
        | some location => .ok (some (client.absolute location))
        | none => .error (.fatal "upload without Location header")

/-- Whether blobs of this size go up in one `PUT`. -/
def Client.sendsWhole (client : Client) (size : Nat) : Bool :=
  !client.chunked || size ≤ client.uploadChunk

def putUrl (location digest : String) : String :=
  location ++ (if location.contains '?' then "&" else "?") ++ "digest=" ++ digest

/-- What the client sends. A `PATCH` is sent with the `Content-Range` of its chunk. -/
inductive Request where
  | head
  | post
  | putWhole (url : String) (blob : Bytes)
  | status (location : String)
  | patch (location : String) (start : Nat) (chunk : Bytes)
  | close (location url : String)
  deriving DecidableEq, Repr

inductive PushStage where
  | heading
  | opening
  | whole (base : String)
  | asking
  /-- Sends chunks, and closes the upload behind the last one. -/
  | sending (resumedFrom : Option Nat)
  | ended (result : Except String Unit)

/-- An upload under way. `held` is the registry's side: the content of each session. -/
structure Push where
  client : Client
  attempt : Nat
  last : String
  session : Option UploadSession
  stage : PushStage
  held : String → Option Bytes

/-- What the registry does with a request: how the request ends, and what is held after it. -/
structure Reaction where
  reply : Reply
  held : String → Option Bytes

section

variable (digest : String) (blob : Bytes)

def chunkLen (client : Client) (start : Nat) : Nat := min client.uploadChunk (blob.length - start)

/-- The request that is out. -/
def Push.request (push : Push) : Option Request :=
  match push.stage with
  | .heading => some .head
  | .opening => some .post
  | .whole base => some (.putWhole (putUrl base digest) blob)
  | .asking => push.session.map fun s => .status s.location
  | .sending _ => push.session.map fun s =>
      if s.offset < blob.length then
        .patch s.location s.offset ((blob.drop s.offset).take (chunkLen blob push.client s.offset))
      else .close s.location (putUrl s.location digest)
  | .ended _ => none

/-- The end of an attempt, in `push_blob_with`. -/
def Push.attempted (push : Push) : Except UploadFailure Unit → Push
  | .ok () => { push with stage := .ended (.ok ()) }
  | .error (.fatal why) => { push with stage := .ended (.error why) }
  | .error (.retry why) =>
      if push.attempt < pushAttempts then
        { push with attempt := push.attempt + 1, last := why, stage := .heading }
      else
        { push with
          last := why
          stage := .ended (.error ("blob " ++ digest ++ ": upload gave up after "
            ++ toString pushAttempts ++ " attempts — last error: " ++ why)) }

/-- The start of `upload_once`: a whole blob and a new session are opened, a session that an
earlier attempt left is asked where it stands.
-/
def Push.uploadOnce (push : Push) : Push :=
  if push.client.sendsWhole blob.length then { push with stage := .opening }
  else
    match push.session with
    | none => { push with stage := .opening }
    | some _ => { push with stage := .asking }

/-- The end of `upload_once` in chunks. A resume that did not move is given up. -/
def Push.chunksEnded (push : Push) (resumedFrom : Option Nat) (result : Except UploadFailure Unit)
    : Push :=
  let session := match result with
    | .error (.retry _) =>
        if resumedFrom.isSome ∧ push.session.map UploadSession.offset = resumedFrom then none
        else push.session
    | _ => none
  { push with session := session }.attempted digest result

/-- Goes on with the chunks of a session. -/
def Push.sendFrom (push : Push) (session : UploadSession) : Push :=
  { push with
    session := some session
    stage := .sending (if 0 < session.offset then some session.offset else none) }

/-- What `upload_chunks` does when a `PATCH` has ended. -/
def Push.patched (push : Push) (resumedFrom : Option Nat) (session : UploadSession)
    (reply : Reply) : Push :=
  let start := session.offset
  let what := "blob PATCH " ++ digest
  let wherePatched := what ++ " at byte " ++ toString start
  let dropped := { push with session := none }
  match reply with
  | .failed why => push.chunksEnded digest resumedFrom (.error (.fatal why))
  | .lost why _ =>
      push.chunksEnded digest resumedFrom (.error (.retry (wherePatched ++ ": " ++ why
        ++ " (connection lost with " ++ toString start ++ " of " ++ toString blob.length
        ++ " bytes confirmed)")))
  | .answer answer =>
      if answer.status = 416 ∧ start = 0 ∧ minUploadChunk ≤ push.client.uploadChunk / 2 then
        -- Refused at byte 0: it is the chunk's size.
        let half := push.client.uploadChunk / 2
        { dropped with client.uploadChunk := half }.chunksEnded digest resumedFrom
          (.error (.retry (what ++ ": " ++ answer.failure ++ "; trying chunks of "
            ++ toString half ++ " bytes")))
      else if answer.status = 416 ∨ answer.status = 404 then
        dropped.chunksEnded digest resumedFrom (.error (.retry (wherePatched ++ ": "
          ++ answer.failure ++ "; starting a new upload session")))
      else if start = 0 ∧ (answer.status = 405 ∨ answer.status = 501) then
        { dropped with client.uploadChunk := u64Max }.chunksEnded digest resumedFrom
          (.error (.retry (what ++ ": " ++ answer.failure
            ++ "; the registry does not take chunked uploads, sending the blob whole")))
      else if !isSuccess answer.status then
        push.chunksEnded digest resumedFrom (.error (refused wherePatched answer))
      else
        let sentTo := start + chunkLen blob push.client start
        let confirmed := (answer.range.bind confirmedUploadOffset).getD sentTo
        if sentTo < confirmed ∨ confirmed < start then
          dropped.chunksEnded digest resumedFrom (.error (.retry (what
            ++ ": the registry confirmed byte " ++ toString confirmed ++ " after a chunk "
            ++ toString start ++ ".." ++ toString sentTo ++ "; starting a new upload session")))
        else
          let location := (answer.location.map push.client.absolute).getD session.location
          { push with session := some ⟨location, confirmed⟩ }

/-- One request of `push_blob_with` and what follows it. -/
def pushBlobWith (push : Push) (reaction : Reaction) : Push :=
  let push := { push with held := reaction.held }
  match push.stage with
  | .heading =>
      match blobPresent reaction.reply with
      | .ok true => push.attempted digest (.ok ())
      | .ok false => push.uploadOnce blob
      | .error failure => push.attempted digest (.error failure)
  | .opening =>
      match push.client.openUpload reaction.reply with
      | .error failure => push.attempted digest (.error failure)
      | .ok none => push.attempted digest (.ok ())
      | .ok (some location) =>
          if push.client.sendsWhole blob.length then { push with stage := .whole location }
          else push.sendFrom ⟨location, 0⟩
  | .whole _ =>
      let sent := match reaction.reply with
        | .lost _ sent => sent
        | _ => 0
      let result := putEnded ("blob PUT " ++ digest) (" (connection lost with "
        ++ toString sent ++ " of " ++ toString blob.length ++ " bytes sent)") reaction.reply
      match result with
      | .error (.retry _) =>
          if push.client.uploadChunk < blob.length then
            { push with client.chunked := true }.attempted digest result
          else push.attempted digest result
      | _ => push.attempted digest result
  | .asking =>
      match push.session with
      | none => push.uploadOnce blob
      | some session =>
          match uploadStatus reaction.reply with
          | .reached offset =>
              if offset ≤ blob.length then push.sendFrom { session with offset := offset }
              else push.sendFrom session
          | .gone => { push with session := none }.uploadOnce blob
          | .unknown => push.sendFrom session
  | .sending resumedFrom =>
      match push.session with
      | none => push.chunksEnded digest resumedFrom (.error (.retry "no upload session"))
      | some session =>
          if session.offset < blob.length then
            push.patched digest blob resumedFrom session reaction.reply
          else
            push.chunksEnded digest resumedFrom
              (putEnded ("blob PUT " ++ digest ++ " (closing the upload)") "" reaction.reply)
  | .ended _ => push

end

/-- An upload before its first request. -/
def Push.start (client : Client) (held : String → Option Bytes) : Push :=
  ⟨client, 1, "", none, .heading, held⟩

end Delonix.Images
