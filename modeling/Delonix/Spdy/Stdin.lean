import Delonix.Spdy.Exec
import Mathlib.Data.List.Infix

/-! What a client sends on the stdin stream is what the process reads, from the moment the process
is there to read it. A pipe is closed by the end of the stream; a terminal has no half to close.
-/

namespace Delonix.Spdy

open Delonix.Library.Bytes

/-- A DATA frame on the stream that has the role when it comes: whether it ends the stream, and
its bytes.
-/
def onStream (role : Role) (opened : Opened) : Heard → List (Bool × List Byte)
  | .data sid flags payload => if opened role = some sid then [(fin flags, payload)] else []
  | _ => []

def received (role : Role) : Opened → List Heard → List (Bool × List Byte)
  | _, [] => []
  | opened, heard :: rest => onStream role opened heard ++ received role (opened.after heard) rest

/-- What came on stdin before every stream was open. -/
def early (p : Pending) : Opened → List Heard → List (Bool × List Byte)
  | _, [] => []
  | opened, heard :: rest =>
      if p.ready opened then []
      else onStream .stdin opened heard ++ early p (opened.after heard) rest

/-- The frames up to the one that ends the stream, and with it. -/
def upToFin : List (Bool × List Byte) → List (Bool × List Byte)
  | [] => []
  | frame :: rest => if frame.1 then [frame] else frame :: upToFin rest

def payloads (frames : List (Bool × List Byte)) : List Byte := frames.flatMap Prod.snd

/-- What the process was handed, of what came on its streams. -/
structure Fed (p : Pending) (opened : Opened) (heard : List Heard) (process : Process) : Prop where
  tty : p.tty = true →
    process.stdin = payloads (received .stdin opened heard) ∧ process.closed = false
  pipe : p.tty = false →
    process.stdin = payloads (upToFin (received .stdin opened heard))
      ∧ process.closed = (received .stdin opened heard).any Prod.fst
  own : process.resizes.Sublist ((received .resize opened heard).map Prod.snd)

variable (p : Pending) (spawns : Bool)

theorem step_opened (e : Exec) (heard : Heard)
    : (e.step p spawns heard).opened = e.opened.after heard := by
  cases heard with
  | syn sid role =>
      rw [Exec.step]
      split <;> rfl
  | data sid flags payload =>
      rw [Exec.step]
      split
      · rfl
      · split <;> rfl
  | ping id => rfl
  | credit sid delta => rfl
  | goaway => rfl
  | nothing => rfl

/-- A running exec hands a frame to the sink of its stream, or to none. -/
theorem step_started {e : Exec} (started : e.started = true) (heard : Heard)
    : (e.step p spawns heard).started = true
      ∧ ((∃ ends payload, onStream .stdin e.opened heard = [(ends, payload)]
          ∧ (e.step p spawns heard).input
            = if ends then (e.input.writeStdin payload).closeStdin
              else e.input.writeStdin payload)
        ∨ (onStream .stdin e.opened heard = []
          ∧ ∃ ends payload, onStream .resize e.opened heard = [(ends, payload)]
            ∧ (e.step p spawns heard).input = e.input.resize payload)
        ∨ (onStream .stdin e.opened heard = [] ∧ onStream .resize e.opened heard = []
          ∧ (e.step p spawns heard).input = e.input)) := by
  cases heard with
  | syn sid role => simp [Exec.step, started, onStream]
  | data sid flags payload =>
      by_cases stdin : e.opened .stdin = some sid
      · simp [Exec.step, onStream, stdin, started]
      · by_cases resize : e.opened .resize = some sid
        · simp [Exec.step, onStream, stdin, resize, started]
        · simp [Exec.step, onStream, stdin, resize, started]
  | ping id => exact ⟨started, .inr (.inr ⟨rfl, rfl, rfl⟩)⟩
  | credit sid delta => exact ⟨started, .inr (.inr ⟨rfl, rfl, rfl⟩)⟩
  | goaway => exact ⟨started, .inr (.inr ⟨rfl, rfl, rfl⟩)⟩
  | nothing => exact ⟨started, .inr (.inr ⟨rfl, rfl, rfl⟩)⟩

/-- What a terminal gets of the frames still to come. -/
theorem tty_run {e : Exec} (started : e.started = true) {process : Process}
    (input : e.input = .tty process) (rest : List Heard)
    : ∃ resizes, (rest.foldl (Exec.step p spawns) e).input
        = .tty ⟨process.stdin ++ payloads (received .stdin e.opened rest), process.closed,
          process.resizes ++ resizes⟩
      ∧ resizes.Sublist ((received .resize e.opened rest).map Prod.snd) := by
  induction rest generalizing e process with
  | nil =>
      refine ⟨[], ?_, List.nil_sublist _⟩
      simp [input, received, payloads]
  | cons heard rest ih =>
      obtain ⟨started, hands⟩ := step_started p spawns started heard
      rw [List.foldl_cons, received, received]
      rcases hands with ⟨ends, payload, stdin, hands⟩ | ⟨stdin, ends, payload, resize, hands⟩
        | ⟨stdin, resize, hands⟩
      · -- The end of the stream closes nothing: a terminal is not a pipe.
        have hands : (e.step p spawns heard).input
            = .tty { process with stdin := process.stdin ++ payload } := by
          rw [hands, input]
          cases ends <;> rfl
        obtain ⟨resizes, is, own⟩ := ih started hands
        rw [step_opened] at is own
        refine ⟨resizes, ?_, ?_⟩
        · rw [is, stdin]
          simp [payloads]
        · rw [List.map_append]
          exact own.trans (List.sublist_append_right ..)
      · rw [input] at hands
        obtain ⟨resizes, is, own⟩ := ih started hands
        rw [step_opened] at is own
        refine ⟨payload :: resizes, ?_, ?_⟩
        · rw [is, stdin]
          simp
        · rw [resize]
          exact own.cons_cons payload
      · obtain ⟨resizes, is, own⟩ := ih started (hands.trans input)
        rw [step_opened] at is own
        refine ⟨resizes, ?_, ?_⟩
        · rw [is, stdin, List.nil_append]
        · rw [resize, List.nil_append]
          exact own

theorem upToFin_cons (ends : Bool) (payload : List Byte) (rest : List (Bool × List Byte))
    : payloads (upToFin ((ends, payload) :: rest))
      = payload ++ if ends then [] else payloads (upToFin rest) := by
  rw [upToFin]
  cases ends <;> simp [payloads]

/-- What a pipe gets of the frames still to come. -/
theorem pipe_run {e : Exec} (started : e.started = true) {process : Process}
    (input : e.input = .pipe process) (rest : List Heard)
    : (rest.foldl (Exec.step p spawns) e).input
      = .pipe ⟨process.stdin
          ++ (if process.closed then [] else payloads (upToFin (received .stdin e.opened rest))),
        process.closed || (received .stdin e.opened rest).any Prod.fst, process.resizes⟩ := by
  induction rest generalizing e process with
  | nil => simp [input, received, payloads, upToFin]
  | cons heard rest ih =>
      obtain ⟨started, hands⟩ := step_started p spawns started heard
      rw [List.foldl_cons, received]
      rcases hands with ⟨ends, payload, stdin, hands⟩ | ⟨stdin, ends, payload, resize, hands⟩
        | ⟨stdin, resize, hands⟩
      · cases closed : process.closed with
        | true =>
            have hands : (e.step p spawns heard).input = .pipe process := by
              rw [hands, input, Input.writeStdin, closed]
              cases ends with
              | false => rfl
              | true => simp [Input.closeStdin, ← closed]
            rw [ih started hands, step_opened, closed]
            rfl
        | false =>
            have hands : (e.step p spawns heard).input
                = .pipe ⟨process.stdin ++ payload, ends, process.resizes⟩ := by
              rw [hands, input, Input.writeStdin, closed]
              cases ends <;> simp [Input.closeStdin]
            rw [ih started hands, step_opened, stdin, List.singleton_append, upToFin_cons]
            simp
      · rw [input] at hands
        rw [ih started hands, step_opened, stdin, List.nil_append]
      · rw [ih started (hands.trans input), step_opened, stdin, List.nil_append]

/-- The process is handed what comes after its start. -/
theorem fed_of_started {e : Exec} (started : e.started = true)
    (input : e.input = spawnAndPump p true) (rest : List Heard)
    : ∃ process, (rest.foldl (Exec.step p spawns) e).input.process = some process
      ∧ Fed p e.opened rest process := by
  cases tty : p.tty with
  | true =>
      rw [spawnAndPump, if_pos rfl, if_pos tty] at input
      obtain ⟨resizes, is, own⟩ := tty_run p spawns started input rest
      refine ⟨_, by rw [is]; rfl, ?_, ?_, own⟩
      · exact fun _ => ⟨rfl, rfl⟩
      · intro piped
        cases tty.symm.trans piped
  | false =>
      rw [spawnAndPump, if_pos rfl, tty, if_neg Bool.false_ne_true] at input
      have is := pipe_run p spawns started input rest
      refine ⟨_, by rw [is]; rfl, ?_, ?_, List.nil_sublist _⟩
      · intro terminal
        cases tty.symm.trans terminal
      · exact fun _ => ⟨rfl, Bool.false_or _⟩

/-- Only a stream that is opened changes what is open. -/
theorem after_of_not_ready {opened : Opened} {heard : Heard} (before : p.ready opened = false)
    (ready : p.ready (opened.after heard) = true)
    : ∃ sid role, heard = .syn sid role := by
  cases heard with
  | syn sid role => exact ⟨sid, role, rfl⟩
  | data sid flags payload => cases before.symm.trans ready
  | ping id => cases before.symm.trans ready
  | credit sid delta => cases before.symm.trans ready
  | goaway => cases before.symm.trans ready
  | nothing => cases before.symm.trans ready

/-- A frame that leaves a stream missing and is not on stdin changes what is open and no more. -/
theorem step_waiting {e : Exec} (waits : e.started = false) (none : e.input = .none)
    {heard : Heard} (missing : p.ready (e.opened.after heard) = false)
    (quiet : onStream .stdin e.opened heard = [])
    : (e.step p spawns heard).started = false ∧ (e.step p spawns heard).input = .none := by
  cases heard with
  | syn sid role =>
      rw [Exec.step]
      simp [missing, waits, none]
  | data sid flags payload =>
      have elsewhere : ¬ e.opened .stdin = some sid := by
        intro here
        simp [onStream, here] at quiet
      rw [Exec.step, if_neg elsewhere]
      split
      · exact ⟨waits, by rw [none]; rfl⟩
      · exact ⟨waits, none⟩
  | ping id => exact ⟨waits, none⟩
  | credit sid delta => exact ⟨waits, none⟩
  | goaway => exact ⟨waits, none⟩
  | nothing => exact ⟨waits, none⟩

theorem fed_of_waiting {e : Exec} (waits : e.started = false) (none : e.input = .none)
    (before : p.ready e.opened = false) {rest : List Heard}
    (ready : p.ready (rest.foldl Opened.after e.opened) = true)
    (quiet : early p e.opened rest = [])
    : ∃ process, (rest.foldl (Exec.step p true) e).input.process = some process
      ∧ Fed p e.opened rest process := by
  induction rest generalizing e with
  | nil => cases before.symm.trans ready
  | cons heard rest ih =>
      rw [early, before, if_neg Bool.false_ne_true, List.append_eq_nil_iff] at quiet
      obtain ⟨here, later⟩ := quiet
      have same : received .stdin e.opened (heard :: rest)
          = received .stdin (e.opened.after heard) rest := by
        rw [received, here, List.nil_append]
      have fed : ∃ process, (rest.foldl (Exec.step p true) (e.step p true heard)).input.process
            = some process
          ∧ Fed p (e.step p true heard).opened rest process := by
        cases now : p.ready (e.opened.after heard) with
        | true =>
            obtain ⟨sid, role, rfl⟩ := after_of_not_ready p before now
            have starts : (e.step p true (.syn sid role)).started = true
                ∧ (e.step p true (.syn sid role)).input = spawnAndPump p true := by
              rw [Exec.step]
              simp [now, waits]
            exact fed_of_started p true starts.1 starts.2 rest
        | false =>
            obtain ⟨waits, none⟩ := step_waiting p true waits none now here
            rw [← step_opened p true] at now later
            rw [List.foldl_cons, ← step_opened p true] at ready
            exact ih waits none now ready later
      obtain ⟨process, is, fed⟩ := fed
      rw [step_opened] at fed
      refine ⟨process, is, ?_, ?_, ?_⟩
      · rw [same]
        exact fed.tty
      · rw [same]
        exact fed.pipe
      · rw [received, List.map_append]
        exact fed.own.trans (List.sublist_append_right ..)

def nothingOpen : Opened := fun _ => none

/-- Once every stream the client wants is open and nothing came on stdin before that, the process
has what came on its streams: all of stdin on a terminal, stdin up to its end on a pipe, which the
end closes.
-/
theorem stdin_delivered (inf : Inflater) (p : Pending) (frames : List Frame)
    (ready : p.ready ((hearAll inf inf.new frames).foldl Opened.after nothingOpen) = true)
    (quiet : early p nothingOpen (hearAll inf inf.new frames) = [])
    : ∃ process, (runExec inf p true frames).input.process = some process
      ∧ Fed p nothingOpen (hearAll inf inf.new frames) process :=
  fed_of_waiting p rfl rfl rfl ready quiet

/-- `zlib` of blocks that are stored: the header with the dictionary's number before the first,
then length, bytes and sync marker.
-/
def inflateStored : Inflater where
  State := Bool
  new := false
  block began bytes :=
    let body := if began then bytes else bytes.drop 6
    (((body.drop 5).take (body.getD 1 0).toNat), true)

/-- A client opens a stream, with its headers stored. -/
def opens (sid : Sid) (first : Bool) (streamtype : String) : Frame :=
  let nv := encodeNv [(ascii "streamtype", ascii streamtype)]
  let header := if first then [0x78, 0xbb, 0xe3, 0xc6, 0xa7, 0xc2] else []
  let length := UInt8.ofNat nv.length
  .ctrl SYN_STREAM 0 (beBytes 4 sid.toNat ++ List.replicate 6 0 ++ header
    ++ [0, length, 0, 255 - length, 255] ++ nv ++ [0, 0, 0, 255, 255])

/-- `kubectl exec -i`: two lines for a pipe, the second with the end. -/
def piped : Pending := ⟨false, true, true, false⟩

def typed : List Frame :=
  [opens 1 true "error", opens 3 false "stdin", opens 5 false "stdout", .data 3 0 [0x68, 0x69],
    .data 3 FLAG_FIN [0x0a]]

theorem stdin_delivered_typed
    : early piped nothingOpen (hearAll inflateStored inflateStored.new typed) = []
      ∧ ∃ process, (runExec inflateStored piped true typed).input.process = some process
        ∧ Fed piped nothingOpen (hearAll inflateStored inflateStored.new typed) process := by
  have quiet : early piped nothingOpen (hearAll inflateStored inflateStored.new typed) = [] := by
    decide +kernel
  exact ⟨quiet, stdin_delivered inflateStored piped typed (by decide +kernel) quiet⟩

/-- All that came on stdin was written, and it was closed exactly if its end came. -/
def AllDelivered (inf : Inflater) (p : Pending) (frames : List Frame) : Prop :=
  ∃ process, (runExec inf p true frames).input.process = some process
    ∧ process.stdin = payloads (received .stdin nothingOpen (hearAll inf inf.new frames))
    ∧ process.closed = (received .stdin nothingOpen (hearAll inf inf.new frames)).any Prod.fst

/-- What comes on stdin before the last stream is open is lost; the end of stdin does not close a
terminal; and nothing can be written to a pipe behind the end.
-/
theorem stdin_not_delivered
    : (¬ ∀ inf p frames,
        p.ready ((hearAll inf inf.new frames).foldl Opened.after nothingOpen) = true →
        AllDelivered inf p frames)
      ∧ (¬ ∀ inf p frames,
        p.ready ((hearAll inf inf.new frames).foldl Opened.after nothingOpen) = true →
        early p nothingOpen (hearAll inf inf.new frames) = [] → AllDelivered inf p frames)
      ∧ ¬ ∀ inf p frames,
        p.ready ((hearAll inf inf.new frames).foldl Opened.after nothingOpen) = true →
        early p nothingOpen (hearAll inf inf.new frames) = [] → p.tty = false →
        AllDelivered inf p frames := by
  refine ⟨?_, ?_, ?_⟩
  · intro always
    have fed := always inflateStored piped
      [opens 1 true "error", opens 3 false "stdin", .data 3 0 [0x68], opens 5 false "stdout"]
      (by decide +kernel)
    obtain ⟨process, is, stdin, -⟩ := fed
    have nothing : (runExec inflateStored piped true [opens 1 true "error",
        opens 3 false "stdin", .data 3 0 [0x68], opens 5 false "stdout"]).input.process
        = some ⟨[], false, []⟩ := by
      decide +kernel
    cases is.symm.trans nothing
    exact absurd stdin (by decide +kernel)
  · intro always
    have fed := always inflateStored ⟨true, true, true, false⟩
      [opens 1 true "error", opens 3 false "stdin", opens 5 false "stdout",
        opens 7 false "resize", .data 3 FLAG_FIN []]
      (by decide +kernel) (by decide +kernel)
    obtain ⟨process, is, -, closed⟩ := fed
    have terminal : (runExec inflateStored ⟨true, true, true, false⟩ true
        [opens 1 true "error", opens 3 false "stdin", opens 5 false "stdout",
          opens 7 false "resize", .data 3 FLAG_FIN []]).input.process
        = some ⟨[], false, []⟩ := by
      decide +kernel
    cases is.symm.trans terminal
    exact absurd closed (by decide +kernel)
  · intro always
    have fed := always inflateStored piped (typed ++ [.data 3 0 [0x68]])
      (by decide +kernel) (by decide +kernel) rfl
    obtain ⟨process, is, stdin, -⟩ := fed
    have before : (runExec inflateStored piped true (typed ++ [.data 3 0 [0x68]])).input.process
        = some ⟨[0x68, 0x69, 0x0a], true, []⟩ := by
      decide +kernel
    cases is.symm.trans before
    exact absurd stdin (by decide +kernel)

end Delonix.Spdy
