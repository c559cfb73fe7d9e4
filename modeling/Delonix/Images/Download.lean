import Delonix.Images.Pinning
import Delonix.Library.Runs

/-! The download of a blob, resumed by `Range` where a connection is cut. What was received stays
in a sink from one attempt to the next. A server may honour the range, ignore it or answer for
another one; its answers and the reads of their bodies are the actions of the machine.
-/

namespace Delonix.Images

open Delonix.Library.Text
open Delonix.Library.Runs

/-- Where a downloaded blob goes: `len` is what a resume continues from. -/
structure BlobSink (Sink : Type) where
  len : Sink → Nat
  reset : Option Nat → Sink → Except PullError Sink
  append : Sink → Bytes → Except PullError Sink

/-- What a sink holds: nothing after a reset, and what was appended since. -/
structure BlobSink.Holds {Sink : Type} (ops : BlobSink Sink) (held : Sink → Bytes) : Prop where
  len : ∀ sink, ops.len sink = (held sink).length
  reset : ∀ hint sink after, ops.reset hint sink = .ok after → held after = []
  append : ∀ sink bytes after, ops.append sink bytes = .ok after →
    held after = held sink ++ bytes

/-- The whole blob in memory. -/
def memSink : BlobSink Bytes where
  len buf := buf.length
  reset _ _ := .ok []
  append buf bytes := .ok (buf ++ bytes)

theorem memSink_holds : memSink.Holds id where
  len _ := rfl
  reset hint sink after done := by
    cases done
    rfl
  append sink bytes after done := by
    cases done
    rfl

/-- Bytes a `StreamingBlob` gathers before it hands one block to its writer. -/
def streamBuf : Nat := 2 ^ 20

/-- A blob being written to disk as it arrives. `file` is what the writer was handed since the
last truncation, `hashed` what went through the hasher, `ops` how much was sent so far.
-/
structure StreamingBlob where
  file : Bytes
  pending : Bytes
  hashed : Bytes
  len : Nat
  ops : Nat
  deriving DecidableEq, Repr

inductive WriteOp where
  | data (block : Bytes)
  | truncate

section

-- Whether the writer still takes the n-th operation: it stops at an I/O error.
variable (writes : Nat → Bool) (sha256Hex : Bytes → List Char)

def StreamingBlob.create : StreamingBlob := ⟨[], [], [], 0, 0⟩

def StreamingBlob.send (blob : StreamingBlob) (op : WriteOp) : Except PullError StreamingBlob :=
  if writes blob.ops then
    .ok {
      blob with
      ops := blob.ops + 1
      file := match op with
        | .data block => blob.file ++ block
        | .truncate => [] }
  else .error (.registry "blob writer stopped unexpectedly")

/-- Starts over from zero. What is pending belongs to the attempt that is thrown away. -/
def StreamingBlob.reset (blob : StreamingBlob) : Except PullError StreamingBlob := do
  let blob ← StreamingBlob.send writes { blob with pending := [] } .truncate
  return { blob with hashed := [], len := 0 }

def StreamingBlob.append (blob : StreamingBlob) (bytes : Bytes)
    : Except PullError StreamingBlob := do
  let blob := {
    blob with
    hashed := blob.hashed ++ bytes
    len := blob.len + bytes.length
    pending := blob.pending ++ bytes }
  if streamBuf ≤ blob.pending.length then
    StreamingBlob.send writes { blob with pending := [] } (.data blob.pending)
  else return blob

/-- Writes what is left, and returns the file and the hash of everything written. -/
def StreamingBlob.finish (blob : StreamingBlob) : Except PullError (Bytes × List Char) := do
  let blob ← if blob.pending.isEmpty then .ok blob
    else StreamingBlob.send writes { blob with pending := [] } (.data blob.pending)
  return (blob.file, sha256Hex blob.hashed)

abbrev StreamingBlob.held (blob : StreamingBlob) : Bytes := blob.file ++ blob.pending

/-- The length and the hasher keep up with what is held. -/
structure StreamingBlob.Sound (blob : StreamingBlob) : Prop where
  len : blob.len = blob.held.length
  hashed : blob.hashed = blob.held

variable {writes sha256Hex} {blob after : StreamingBlob}

theorem StreamingBlob.reset_eq_ok (done : blob.reset writes = .ok after)
    : after.held = [] ∧ after.Sound := by
  unfold StreamingBlob.reset StreamingBlob.send at done
  dsimp only at done
  split at done <;> cases done
  exact ⟨rfl, rfl, rfl⟩

theorem StreamingBlob.append_eq_ok (sound : blob.Sound) {bytes : Bytes}
    (done : blob.append writes bytes = .ok after)
    : after.held = blob.held ++ bytes ∧ after.Sound := by
  unfold StreamingBlob.append StreamingBlob.send at done
  dsimp only at done
  repeat' split at done
  all_goals cases done
  -- With a block handed over or without, nothing but its place changes.
  all_goals
    refine ⟨by simp, ⟨?_, ?_⟩⟩
    · simp [sound.len, Nat.add_assoc]
    · simp [sound.hashed]

/-- What was received is what the file holds in the end and what was hashed. -/
theorem StreamingBlob.finish_eq_ok (sound : blob.Sound) {file : Bytes} {hash : List Char}
    (done : blob.finish writes sha256Hex = .ok (file, hash))
    : file = blob.held ∧ hash = sha256Hex blob.held := by
  unfold StreamingBlob.finish StreamingBlob.send at done
  dsimp only at done
  repeat' split at done
  · cases done
    rename_i written
    rw [StreamingBlob.held, List.isEmpty_iff.mp written, List.append_nil, sound.hashed,
      StreamingBlob.held, List.isEmpty_iff.mp written, List.append_nil]
    exact ⟨rfl, rfl⟩
  · cases done
    rw [sound.hashed]
    exact ⟨rfl, rfl⟩
  · cases done

variable (writes)

def streamingSink : BlobSink {blob : StreamingBlob // blob.Sound} where
  len blob := blob.val.len
  reset _ blob :=
    match done : blob.val.reset writes with
    | .ok after => .ok ⟨after, (StreamingBlob.reset_eq_ok done).2⟩
    | .error why => .error why
  append blob bytes :=
    match done : blob.val.append writes bytes with
    | .ok after => .ok ⟨after, (StreamingBlob.append_eq_ok blob.property done).2⟩
    | .error why => .error why

theorem streamingSink_holds : (streamingSink writes).Holds (fun blob => blob.val.held) where
  len blob := blob.property.len
  reset hint blob after done := by
    simp only [streamingSink] at done
    split at done <;> cases done
    exact (StreamingBlob.reset_eq_ok ‹_›).1
  append blob bytes after done := by
    simp only [streamingSink] at done
    split at done <;> cases done
    exact (StreamingBlob.append_eq_ok blob.property ‹_›).1

end

def u64Max : Nat := 2 ^ 64 - 1

/-- Start offset and whole size declared by a `Content-Range` header; no size for the `*` form.
-/
def parseContentRange (v : List Char) : Option (Nat × Option Nat) := do
  let rest ← stripStart "bytes".toList (trim v)
  let (range, total) ← splitOnce '/' (trimStart rest)
  let start ← parseUnsigned 10 u64Max (trim (range.takeWhile (· != '-')))
  let total := trim total
  return (start, if total = ['*'] then none else parseUnsigned 10 u64Max total)

/-- What one read of a body gives. No bytes are the end of the body. -/
inductive Read where
  | bytes (chunk : Bytes)
  | failed (why : String)
  deriving DecidableEq, Repr

/-- The bytes a body brings before it ends, is cut or fails. -/
def bytesOf : List Read → Bytes
  | [] => []
  | .failed _ :: _ => []
  | .bytes [] :: _ => []
  | .bytes chunk :: rest => chunk ++ bytesOf rest

/-- A successful answer: its status, its headers and the reads of its body. -/
structure Response where
  status : Nat
  contentRange : Option (List Char)
  contentLength : Option Nat
  reads : List Read
  deriving DecidableEq, Repr

def Response.range (resp : Response) : Option (Nat × Option Nat) :=
  resp.contentRange.bind parseContentRange

/-- How a request ends: an answer, or an error and whether it means that nothing is there. -/
inductive Opened where
  | answer (resp : Response)
  | failed (notFound : Bool) (why : String)
  deriving DecidableEq, Repr

def blobAttempts : Nat := 5

inductive DownloadStage where
  | opening
  | reading (reads : List Read)
  | finished (result : Except PullError Unit)

/-- A download under way. `total` is the size of the whole blob, as far as it is known. -/
structure Download (Sink : Type) where
  attempt : Nat
  sink : Sink
  total : Option Nat
  lastErr : String
  stage : DownloadStage

/-- What the server or the connection does next. -/
inductive DownloadAct where
  | opened (opened : Opened)
  | read

section

variable {Sink : Type} (ops : BlobSink Sink) (digest : String) (maxBytes : Nat)

/-- The next attempt, or the end of them. -/
def Download.retry (d : Download Sink) (why : String) : Download Sink :=
  if d.attempt < blobAttempts then
    { d with attempt := d.attempt + 1, lastErr := why, stage := .opening }
  else
    let whole := match d.total with
      | some total => toString total
      | none => "?"
    { d with
      lastErr := why
      stage := .finished (.error (.registry ("blob " ++ digest ++ ": gave up after "
        ++ toString blobAttempts ++ " attempts with " ++ toString (ops.len d.sink) ++ " of "
        ++ whole ++ " bytes — last error: " ++ why))) }

def Download.fail (d : Download Sink) (why : PullError) : Download Sink :=
  { d with stage := .finished (.error why) }

/-- Where a resume continues: what the sink holds, if it holds anything. -/
def Download.from (d : Download Sink) : Option Nat :=
  if 0 < ops.len d.sink then some (ops.len d.sink) else none

/-- Whether the server honoured the range: a 206 at the offset that was asked for. -/
def honours (resp : Response) : Option Nat → Option (Option Nat)
  | some off =>
      if resp.status = 206 then
        match resp.range with
        | some (start, whole) => if start = off then some whole else none
        | none => none
      else none
  | none => none

/-- An answer that resumes goes on where the sink ends. Every other one is read as the start of
the blob.
-/
def Download.answered (d : Download Sink) (resp : Response) : Download Sink :=
  match honours resp (d.from ops) with
  | some whole =>
      { d with total := if whole.isSome then whole else d.total, stage := .reading resp.reads }
  | none =>
      match ops.reset resp.contentLength d.sink with
      | .ok sink =>
          { d with sink := sink, total := resp.contentLength, stage := .reading resp.reads }
      | .error why => d.fail why

/-- The end of a body: short of the announced size it is a cut connection. -/
def Download.ended (d : Download Sink) : Download Sink :=
  match d.total with
  | some total =>
      if ops.len d.sink < total then
        d.retry ops digest ("connection closed at " ++ toString (ops.len d.sink) ++ " of "
          ++ toString total ++ " bytes")
      else { d with stage := .finished (.ok ()) }
  | none => { d with stage := .finished (.ok ()) }

/-- One read of a body. -/
def Download.readOne (d : Download Sink) : List Read → Download Sink
  | [] => d.ended ops digest
  | .failed why :: _ => d.retry ops digest ("blob read: " ++ why)
  | .bytes [] :: _ => d.ended ops digest
  | .bytes chunk :: rest =>
      if maxBytes < ops.len d.sink + chunk.length then
        d.fail (.registry ("blob " ++ digest ++ " exceeds the " ++ toString maxBytes
          ++ "-byte limit — aborted"))
      else
        match ops.append d.sink chunk with
        | .ok sink => { d with sink := sink, stage := .reading rest }
        | .error why => d.fail why

/-- One step of `fetch_blob_into`. A request that cannot be opened is tried again only while
there is something to resume.
-/
def fetchBlobInto (d : Download Sink) : DownloadAct → Download Sink
  | .opened opened =>
      match d.stage, opened with
      | .opening, .answer resp => d.answered ops resp
      | .opening, .failed notFound why =>
          if (d.from ops).isNone || notFound then d.fail (.registry why)
          else d.retry ops digest why
      | _, _ => d
  | .read =>
      match d.stage with
      | .reading reads => d.readOne ops digest maxBytes reads
      | _ => d

end

def Download.start {Sink : Type} (sink : Sink) : Download Sink :=
  ⟨1, sink, none, "", .opening⟩

end Delonix.Images
