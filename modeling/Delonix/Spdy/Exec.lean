import Delonix.Spdy.Writer

/-! The reading half of a SPDY exec: which streams the client opens, when the process starts, and
where each DATA frame goes. The process starts when the last stream it needs is open. Header names
and values stay bytes: they are only compared with ASCII words, which no broken UTF-8 turns into.
-/

namespace Delonix.Spdy

open Delonix.Library.Bytes

def ascii (s : String) : List Byte := s.toList.map fun c => UInt8.ofNat c.toNat

/-- `to_ascii_lowercase`. -/
def asciiLower (bytes : List Byte) : List Byte :=
  bytes.map fun b => if 65 ≤ b ∧ b ≤ 90 then b + 32 else b

/-- A `u32` length and as many bytes. -/
def readField (buf : List Byte) : Option (List Byte × List Byte) :=
  match buf with
  | a :: b :: c :: d :: rest =>
      let n := (u32 a b c d).toNat
      if rest.length < n then none else some (rest.take n, rest.drop n)
  | _ => none

def decodePairs : Nat → List Byte → List (List Byte × List Byte)
  | 0, _ => []
  | count + 1, buf =>
      match readField buf with
      | none => []
      | some (k, buf) =>
          match readField buf with
          | none => []
          | some (v, buf) => (k, v) :: decodePairs count buf

/-- `decode_nv`: it stops at the first header that is cut off. -/
def decodeNv (buf : List Byte) : List (List Byte × List Byte) :=
  match buf with
  | a :: b :: c :: d :: rest => decodePairs (u32 a b c d).toNat rest
  | _ => []

/-- The header decompressor, `zlib` with the dictionary of SPDY/3. -/
structure Inflater where
  State : Type
  new : State
  block : State → List Byte → List Byte × State

inductive Role where
  | error
  | stdout
  | stderr
  | stdin
  | resize
deriving DecidableEq

/-- The `streamtype` header, in any case of its letters. -/
def streamType (headers : List (List Byte × List Byte)) : Option Role :=
  let stype := ((headers.find? fun header => asciiLower header.1 == ascii "streamtype").map
    fun header => asciiLower header.2).getD []
  if stype = ascii "error" then some .error
  else if stype = ascii "stdout" then some .stdout
  else if stype = ascii "stderr" then some .stderr
  else if stype = ascii "stdin" then some .stdin
  else if stype = ascii "resize" then some .resize
  else none

inductive Heard where
  | syn (sid : Sid) (role : Option Role)
  | ping (id : UInt32)
  | credit (sid : Sid) (delta : UInt32)
  | goaway
  | data (sid : Sid) (flags : Byte) (payload : List Byte)
  | nothing
deriving DecidableEq

def u32At (payload : List Byte) (at_ : Nat) : UInt32 :=
  UInt32.ofNat (ofBytes ((payload.drop at_).take 4))

/-- One frame of the client. Only the headers of a stream that is opened go through the
decompressor.
-/
def hear (inf : Inflater) (state : inf.State) : Frame → Heard × inf.State
  | .ctrl kind _ payload =>
      if kind = SYN_STREAM then
        if payload.length < 10 then (.nothing, state)
        else
          let (nv, state) := inf.block state (payload.drop 10)
          (.syn (u32At payload 0 &&& 0x7fffffff) (streamType (decodeNv nv)), state)
      else if kind = PING then
        (if 4 ≤ payload.length then .ping (u32At payload 0) else .nothing, state)
      else if kind = WINDOW_UPDATE then
        (if 8 ≤ payload.length then .credit (u32At payload 0 &&& 0x7fffffff) (u32At payload 4)
          else .nothing, state)
      else if kind = GOAWAY then (.goaway, state)
      else (.nothing, state)
  | .data sid flags payload => (.data sid flags payload, state)

/-- The frames of a client up to its GOAWAY. -/
def hearAll (inf : Inflater) : inf.State → List Frame → List Heard
  | _, [] => []
  | state, frame :: rest =>
      match hear inf state frame with
      | (.goaway, _) => []
      | (heard, state) => heard :: hearAll inf state rest

/-- What the client asked for. -/
structure Pending where
  tty : Bool
  stdin : Bool
  stdout : Bool
  stderr : Bool

/-- What a process has been handed. -/
structure Process where
  stdin : List Byte
  closed : Bool
  resizes : List (List Byte)
deriving DecidableEq

inductive Input where
  | none
  | tty (process : Process)
  | pipe (process : Process)

namespace Input

/-- `write_stdin`: a pipe that is closed takes nothing. -/
def writeStdin (data : List Byte) : Input → Input
  | .tty process => .tty { process with stdin := process.stdin ++ data }
  | .pipe process =>
      if process.closed then .pipe process
      else .pipe { process with stdin := process.stdin ++ data }
  | .none => .none

def closeStdin : Input → Input
  | .pipe process => .pipe { process with closed := true }
  | input => input

def resize (data : List Byte) : Input → Input
  | .tty process => .tty { process with resizes := process.resizes ++ [data] }
  | input => input

def process : Input → Option Process
  | .none => Option.none
  | .tty process => some process
  | .pipe process => some process

end Input

/-- The stream that has each role; a later one takes the role over. -/
abbrev Opened := Role → Option Sid

def Opened.after (opened : Opened) : Heard → Opened
  | .syn sid (some role) => Function.update opened role (some sid)
  | _ => opened

/-- Every stream the client wants is open. -/
def Pending.ready (p : Pending) (opened : Opened) : Bool :=
  (opened .error).isSome
    && (!p.stdout || (opened .stdout).isSome)
    && (!(p.stderr && !p.tty) || (opened .stderr).isSome)
    && (!p.stdin || (opened .stdin).isSome)
    && (!p.tty || (opened .resize).isSome)

structure Exec where
  opened : Opened
  started : Bool
  input : Input
  /-- What the writer was told. -/
  told : List Out

/-- `spawn_and_pump`: a pty when the client asked for a terminal, pipes otherwise, and nothing to
write to when the process cannot be started.
-/
def spawnAndPump (p : Pending) (spawns : Bool) : Input :=
  if spawns then
    if p.tty then .tty ⟨[], false, []⟩ else .pipe ⟨[], false, []⟩
  else .none

def fin (flags : Byte) : Bool := flags &&& FLAG_FIN ≠ 0

/-- One turn of `run_exec`. -/
def Exec.step (p : Pending) (spawns : Bool) (e : Exec) (heard : Heard) : Exec :=
  match heard with
  | .syn sid _ =>
      let opened := e.opened.after heard
      let told := e.told ++ [.synReply sid]
      if p.ready opened && !e.started then ⟨opened, true, spawnAndPump p spawns, told⟩
      else { e with opened, told }
  | .ping id => { e with told := e.told ++ [.ping id] }
  | .credit sid delta => { e with told := e.told ++ [.credit sid delta.toNat] }
  | .data sid flags payload =>
      if e.opened .stdin = some sid then
        let written := e.input.writeStdin payload
        let input := if fin flags then written.closeStdin else written
        let replenished :=
          if payload.isEmpty then []
          else
            [.sendWu sid (UInt32.ofNat payload.length), .sendWu 0 (UInt32.ofNat payload.length)]
        { e with input, told := e.told ++ replenished }
      else if e.opened .resize = some sid then { e with input := e.input.resize payload }
      else e
  | .goaway | .nothing => e

def Exec.start : Exec := ⟨fun _ => none, false, .none, []⟩

/-- `run_exec`, from the frames of the client to its GOAWAY. -/
def runExec (inf : Inflater) (p : Pending) (spawns : Bool) (frames : List Frame) : Exec :=
  (hearAll inf inf.new frames).foldl (Exec.step p spawns) Exec.start

end Delonix.Spdy
