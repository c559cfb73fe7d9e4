import Delonix.Images.Download
import Delonix.Library.Collections

/-! What a resumed download holds. While every answer that is read as the start of the blob is
one, the sink is a start of the blob at every point. The range of a misplaced answer is checked,
but its body is read all the same.
-/

namespace Delonix.Images

open Delonix.Library.Collections
open Delonix.Library.Runs

variable {Sink : Type}

abbrev DownloadHistory (Sink : Type) := List (Event (Download Sink) DownloadAct)

/-- A 200 brings a start of the blob, and a 206 a run of it from where its header says. -/
structure Response.Honest (blob : Bytes) (resp : Response) : Prop where
  whole : resp.status = 200 → bytesOf resp.reads <+: blob
  part : ∀ start size, resp.status = 206 → resp.range = some (start, size) →
    bytesOf resp.reads <+: blob.drop start

def HonestServer (blob : Bytes) (_ : Download Sink) : DownloadAct → Prop
  | .opened (.answer resp) => resp.Honest blob
  | _ => True

/-- The size of the whole blob, as an answer announces it. -/
def Response.announced (resp : Response) : Option Nat :=
  if resp.status = 206 then resp.range.bind (·.2) else resp.contentLength

/-- An answer that may be read as the start of the blob: a 200, or a 206 from offset zero that
announces no other size than the length of its body.
-/
def Response.StartsBlob (resp : Response) : Prop :=
  resp.status = 200
    ∨ resp.status = 206 ∧ ∃ size, resp.range = some (0, size)
      ∧ (size = none ∨ size = resp.contentLength)

/-- Every answer either resumes where the sink ends or starts the blob. -/
def Aligned (ops : BlobSink Sink) (d : Download Sink) : DownloadAct → Prop
  | .opened (.answer resp) => honours resp (d.from ops) = none → resp.StartsBlob
  | _ => True

/-- The newest answer that was used. -/
def lastAnswer : DownloadHistory Sink → Option Response
  | [] => none
  | event :: older =>
      match event.before.stage, event.action with
      | .opening, .opened (.answer resp) => some resp
      | _, _ => lastAnswer older

/-- The sink holds a start of the blob, and the whole of it once the download has succeeded with
an answer that announced the blob's size.
-/
structure Intact (held : Sink → Bytes) (blob : Bytes) (history : DownloadHistory Sink)
    (d : Download Sink) : Prop where
  start : held d.sink <+: blob
  whole : d.stage = .finished (.ok ()) → ∀ resp, lastAnswer history = some resp →
    resp.announced = some blob.length → held d.sink = blob

section

variable {ops : BlobSink Sink} {digest : String} {maxBytes : Nat}

/-- A stage that follows the blob: the body goes on where the sink ends, and the announced size
is the one that is waited for.
-/
def Download.Follows (held : Sink → Bytes) (blob : Bytes) (answer : Option Response)
    (d : Download Sink) : Prop :=
  match d.stage with
  | .opening => True
  | .reading reads =>
      bytesOf reads <+: blob.drop (held d.sink).length
        ∧ ∀ resp size, answer = some resp → resp.announced = some size → d.total = some size
  | .finished (.ok ()) =>
      ∀ resp, answer = some resp → resp.announced = some blob.length → held d.sink = blob
  | .finished (.error _) => True

/-- The sink is a start of the blob and the stage follows it. -/
structure Download.OnBlob (held : Sink → Bytes) (blob : Bytes) (answer : Option Response)
    (d : Download Sink) : Prop where
  start : held d.sink <+: blob
  follows : d.Follows held blob answer

variable {held : Sink → Bytes} {blob : Bytes} {answer : Option Response} {d : Download Sink}

theorem Download.OnBlob.fail (start : held d.sink <+: blob) (why : PullError)
    : (d.fail why).OnBlob held blob answer :=
  ⟨start, trivial⟩

theorem Download.OnBlob.retry (start : held d.sink <+: blob) (why : String)
    : (d.retry ops digest why).OnBlob held blob answer := by
  unfold Download.retry
  split <;> exact ⟨start, trivial⟩

/-- A body that ends short of the size is taken up again, so a success has all of it. -/
theorem Download.OnBlob.ended (holds : ops.Holds held) (start : held d.sink <+: blob)
    (sized : ∀ resp size, answer = some resp → resp.announced = some size →
      d.total = some size)
    : (d.ended ops digest).OnBlob held blob answer := by
  unfold Download.ended
  split
  case h_1 total known =>
    split
    case isTrue => exact .retry start _
    case isFalse reached =>
      refine ⟨start, ?_⟩
      intro resp is announces
      have size := sized resp _ is announces
      rw [known] at size
      obtain rfl := Option.some.inj size
      rw [holds.len] at reached
      exact start.eq_of_length_le (by omega)
  case h_2 unknown =>
    refine ⟨start, ?_⟩
    intro resp is announces
    rw [sized resp _ is announces] at unknown
    cases unknown

theorem Download.OnBlob.readOne (holds : ops.Holds held) {reads : List Read}
    (start : held d.sink <+: blob)
    (follows : bytesOf reads <+: blob.drop (held d.sink).length)
    (sized : ∀ resp size, answer = some resp → resp.announced = some size →
      d.total = some size)
    : (d.readOne ops digest maxBytes reads).OnBlob held blob answer := by
  unfold Download.readOne
  split
  case h_1 => exact .ended holds start sized
  case h_2 => exact .retry start _
  case h_3 => exact .ended holds start sized
  case h_4 chunk rest nonempty =>
    split
    case isTrue => exact .fail start _
    case isFalse =>
      split
      case h_1 sink taken =>
        have brings : bytesOf (.bytes chunk :: rest) = chunk ++ bytesOf rest := by
          cases chunk with
          | nil => exact absurd rfl nonempty
          | cons => rfl
        rw [brings] at follows
        obtain ⟨longer, goes_on⟩ := start_append start follows
        rw [← holds.append _ _ _ taken] at longer goes_on
        exact ⟨longer, goes_on, sized⟩
      case h_2 => exact .fail start _

/-- An answer at the offset that was asked for goes on there. -/
theorem honours_eq_some {resp : Response} {size : Option Nat}
    (honoured : honours resp (d.from ops) = some size)
    : resp.status = 206 ∧ resp.range = some (ops.len d.sink, size) := by
  unfold Download.from at honoured
  split at honoured
  · simp only [honours] at honoured
    split at honoured
    case isTrue partial_answer =>
      split at honoured
      case h_1 start whole range =>
        split at honoured
        case isTrue same =>
          rw [range, same, Option.some.inj honoured]
          exact ⟨partial_answer, rfl⟩
        case isFalse => cases honoured
      case h_2 => cases honoured
    case isFalse => cases honoured
  · cases honoured

theorem Download.OnBlob.answered (holds : ops.Holds held) {resp : Response}
    (start : held d.sink <+: blob) (honest : resp.Honest blob)
    (aligned : honours resp (d.from ops) = none → resp.StartsBlob)
    : (d.answered ops resp).OnBlob held blob (some resp) := by
  unfold Download.answered
  split
  case h_1 size honoured =>
    obtain ⟨partial_answer, range⟩ := honours_eq_some honoured
    refine ⟨start, ?_, ?_⟩
    · rw [← holds.len]
      exact honest.part _ _ partial_answer range
    · rintro resp' announced ⟨⟩ is
      rw [Response.announced, if_pos partial_answer, range] at is
      have same : size = some announced := is
      simp [same]
  case h_2 restarted =>
    split
    case h_2 => exact .fail start _
    case h_1 sink cleared =>
      have empty := holds.reset _ _ _ cleared
      refine ⟨by simp [empty], ?_, ?_⟩
      · simp only [empty, List.length_nil, List.drop_zero]
        rcases aligned restarted with whole | ⟨partial_answer, size, range, -⟩
        · exact honest.whole whole
        · simpa using honest.part _ _ partial_answer range
      · rintro resp' announced ⟨⟩ is
        rcases aligned restarted with whole | ⟨partial_answer, size, range, agrees⟩
        · rwa [Response.announced, if_neg (by simp [whole])] at is
        · rw [Response.announced, if_pos partial_answer, range] at is
          have same : size = some announced := is
          rcases agrees with none | agrees
          · rw [none] at same
            cases same
          · rw [← agrees, same]

end

/-- What every step keeps, the newest answer being the one the stage reads. -/
theorem onBlob_of_run {ops : BlobSink Sink} {held : Sink → Bytes} (holds : ops.Holds held)
    {digest : String} {maxBytes : Nat} {blob : Bytes} {sink : Sink} (fresh : held sink <+: blob)
    {history : DownloadHistory Sink} {d : Download Sink}
    (run : Run (StepOf (fetchBlobInto ops digest maxBytes)) (.start sink) history d)
    (honest : Meets (HonestServer blob) history) (aligned : Meets (Aligned ops) history)
    : d.OnBlob held blob (lastAnswer history) := by
  have both : Meets (fun d act => HonestServer blob d act ∧ Aligned ops d act) history :=
    fun event member => ⟨honest event member, aligned event member⟩
  refine run.invariant (fun history d => d.OnBlob held blob (lastAnswer history))
    ⟨fresh, trivial⟩ ?_ both
  rintro history d act _ ⟨start, follows⟩ rfl ⟨honest, aligned⟩
  cases act with
  | opened opened =>
      cases stage : d.stage with
      | opening =>
          cases opened with
          | answer resp =>
              simp only [fetchBlobInto, lastAnswer, stage]
              exact .answered holds start honest aligned
          | failed notFound why =>
              simp only [fetchBlobInto, stage]
              split
              · exact .fail start _
              · exact .retry start _
      | reading reads =>
          simp only [fetchBlobInto, lastAnswer, stage]
          exact ⟨start, follows⟩
      | finished result =>
          simp only [fetchBlobInto, lastAnswer, stage]
          exact ⟨start, follows⟩
  | read =>
      cases stage : d.stage with
      | reading reads =>
          rw [Download.Follows, stage] at follows
          simp only [fetchBlobInto, lastAnswer, stage]
          exact .readOne holds start follows.1 follows.2
      | opening =>
          simp only [fetchBlobInto, lastAnswer, stage]
          exact ⟨start, follows⟩
      | finished result =>
          simp only [fetchBlobInto, lastAnswer, stage]
          exact ⟨start, follows⟩

/-- A resumed download of an honest server is intact at every point, as long as every answer
resumes where the sink ends or starts the blob.
-/
theorem download_intact {ops : BlobSink Sink} {held : Sink → Bytes} (holds : ops.Holds held)
    (digest : String) (maxBytes : Nat) {blob : Bytes} {sink : Sink} (fresh : held sink <+: blob)
    {history : DownloadHistory Sink} {d : Download Sink}
    (run : Run (StepOf (fetchBlobInto ops digest maxBytes)) (.start sink) history d)
    (honest : Meets (HonestServer blob) history) (aligned : Meets (Aligned ops) history)
    : Intact held blob history d := by
  obtain ⟨start, follows⟩ := onBlob_of_run holds fresh run honest aligned
  refine ⟨start, ?_⟩
  intro succeeded resp is announces
  rw [Download.Follows, succeeded] at follows
  exact follows resp is announces

def fourBytes : Bytes := [1, 2, 3, 4]

/-- The first answer of a download that is cut after two bytes. -/
def cutAnswer : Response := ⟨200, none, some 4, [.bytes [1, 2], .failed "reset"]⟩

def cutThen (second : Response) : List DownloadAct :=
  [.opened (.answer cutAnswer), .read, .read, .opened (.answer second), .read, .read]

def resumedAt (range : String) (length : Nat) (chunk : Bytes) : Response :=
  ⟨206, some range.toList, some length, [.bytes chunk]⟩

abbrev memTrace (second : Response) : DownloadHistory Bytes :=
  trace (fetchBlobInto memSink "sha256:ab" 100) (.start []) [] (cutThen second)

abbrev memEnd (second : Response) : Download Bytes :=
  (cutThen second).foldl (fetchBlobInto memSink "sha256:ab" 100) (.start [])

theorem honest_cutThen {second : Response} (honest : second.Honest fourBytes)
    : Meets (HonestServer fourBytes) (memTrace second) := by
  have first : cutAnswer.Honest fourBytes :=
    ⟨by decide, fun _ _ wrong => absurd wrong (by decide)⟩
  refine meets_trace (fun _ member => absurd member List.not_mem_nil) ?_
  simp [cutThen, HonestServer, first, honest]

theorem honest_resumedAt {range : String} {length start : Nat} {size : Option Nat} {chunk : Bytes}
    (read : parseContentRange range.toList = some (start, size))
    (run : bytesOf [.bytes chunk] <+: fourBytes.drop start)
    : (resumedAt range length chunk).Honest fourBytes := by
  refine ⟨fun wrong => absurd wrong (by simp [resumedAt]), ?_⟩
  intro start' size' _ is
  cases Eq.symm read |>.trans is
  exact run

theorem download_intact_resumed
    : Intact id fourBytes (memTrace (resumedAt "bytes 2-3/4" 2 [3, 4]))
        (memEnd (resumedAt "bytes 2-3/4" 2 [3, 4]))
      ∧ (memEnd (resumedAt "bytes 2-3/4" 2 [3, 4])).stage = .finished (.ok ()) := by
  have honest := honest_cutThen
    (show (resumedAt "bytes 2-3/4" 2 [3, 4]).Honest fourBytes from
      honest_resumedAt (by decide : _ = some (2, some 4)) (by decide))
  refine ⟨download_intact memSink_holds _ _ (by decide) (Run.start.trace _) honest ?_, rfl⟩
  refine meets_cons.mpr ⟨trivial, meets_cons.mpr ⟨trivial, meets_cons.mpr ⟨?_, ?_⟩⟩⟩
  · intro restarted
    exact absurd restarted (by decide)
  · refine meets_cons.mpr ⟨trivial, meets_cons.mpr ⟨trivial, meets_cons.mpr ⟨?_, ?_⟩⟩⟩
    · intro _
      exact .inl rfl
    · intro event member
      cases member

/-- An answer for another range than the one asked for: the sink is emptied, its body is taken
for the start of the blob, and one byte of four is a success.
-/
theorem misplaced_answer_kept
    : Run (StepOf (fetchBlobInto memSink "sha256:ab" 100)) (.start [])
        (memTrace (resumedAt "bytes 3-3/4" 1 [4])) (memEnd (resumedAt "bytes 3-3/4" 1 [4]))
      ∧ Meets (HonestServer fourBytes) (memTrace (resumedAt "bytes 3-3/4" 1 [4]))
      ∧ (memEnd (resumedAt "bytes 3-3/4" 1 [4])).stage = .finished (.ok ())
      ∧ ¬ (memEnd (resumedAt "bytes 3-3/4" 1 [4])).sink <+: fourBytes :=
  ⟨Run.start.trace _,
    honest_cutThen (honest_resumedAt (by decide : _ = some (3, some 4)) (by decide)),
    rfl, by decide⟩

end Delonix.Images
