import Delonix.Library.DebugText
import Mathlib.Data.BitVec

/-! Linux capabilities, and the node's bound on those that a container may end up with.
A set of capabilities is a mask of 64 bits. The highest capability that the kernel reports is
`last`.
-/

namespace Delonix.Security.Capabilities

open Delonix.Library
open Delonix.Library.Text

abbrev Text := List Char
abbrev Mask := BitVec 64

/-- The capabilities a container may keep. -/
def keptCaps : List Nat := [0, 1, 3, 4, 5, 6, 7, 8, 10, 11, 13, 18, 29, 31]

/-- The numbers of the names. -/
def numbers : List (String × Nat) :=
  [ ("CHOWN", 0), ("DAC_OVERRIDE", 1), ("DAC_READ_SEARCH", 2), ("FOWNER", 3), ("FSETID", 4),
    ("KILL", 5), ("SETGID", 6), ("SETUID", 7), ("SETPCAP", 8), ("LINUX_IMMUTABLE", 9),
    ("NET_BIND_SERVICE", 10), ("NET_BROADCAST", 11), ("NET_ADMIN", 12), ("NET_RAW", 13),
    ("IPC_LOCK", 14), ("IPC_OWNER", 15), ("SYS_MODULE", 16), ("SYS_RAWIO", 17),
    ("SYS_CHROOT", 18), ("SYS_PTRACE", 19), ("SYS_PACCT", 20), ("SYS_ADMIN", 21),
    ("SYS_BOOT", 22), ("SYS_NICE", 23), ("SYS_RESOURCE", 24), ("SYS_TIME", 25),
    ("SYS_TTY_CONFIG", 26), ("MKNOD", 27), ("LEASE", 28), ("AUDIT_WRITE", 29),
    ("AUDIT_CONTROL", 30), ("SETFCAP", 31), ("MAC_OVERRIDE", 32), ("MAC_ADMIN", 33),
    ("SYSLOG", 34), ("WAKE_ALARM", 35), ("BLOCK_SUSPEND", 36), ("AUDIT_READ", 37),
    ("PERFMON", 38), ("BPF", 39), ("CHECKPOINT_RESTORE", 40) ]

/-- The names of the numbers, in their order. -/
def names : List String :=
  [ "CHOWN", "DAC_OVERRIDE", "DAC_READ_SEARCH", "FOWNER", "FSETID", "KILL", "SETGID", "SETUID",
    "SETPCAP", "LINUX_IMMUTABLE", "NET_BIND_SERVICE", "NET_BROADCAST", "NET_ADMIN", "NET_RAW",
    "IPC_LOCK", "IPC_OWNER", "SYS_MODULE", "SYS_RAWIO", "SYS_CHROOT", "SYS_PTRACE", "SYS_PACCT",
    "SYS_ADMIN", "SYS_BOOT", "SYS_NICE", "SYS_RESOURCE", "SYS_TIME", "SYS_TTY_CONFIG", "MKNOD",
    "LEASE", "AUDIT_WRITE", "AUDIT_CONTROL", "SETFCAP", "MAC_OVERRIDE", "MAC_ADMIN", "SYSLOG",
    "WAKE_ALARM", "BLOCK_SUSPEND", "AUDIT_READ", "PERFMON", "BPF", "CHECKPOINT_RESTORE" ]

def toAsciiUppercase (s : Text) : Text := s.map Char.toUpper

def toAsciiLowercase (s : Text) : Text := s.map Char.toLower

def isAll (c : Text) : Bool := toAsciiLowercase c == "all".toList

/-- The number of a capability from its name, with or without `CAP_`. -/
def capNum (name : Text) : Option Nat :=
  let n := toAsciiUppercase (trim name)
  let n := (stripStart "CAP_".toList n).getD n
  numbers.lookup (String.ofList n)

def capName (n : Nat) : Option Text := (names[n]?).map String.toList

def bit (n : Nat) : Mask := 1#64 <<< n

def allCapsMask (last : Nat) : Mask :=
  let last := min last 63
  if last ≥ 63 then BitVec.allOnes 64 else bit (last + 1) - 1#64

def defaultKeptMask : Mask := keptCaps.foldl (fun m c => m ||| bit c) 0#64

/-- A mask with the capabilities of the names that are known. -/
def addCaps (mask : Mask) (caps : List Text) : Mask :=
  caps.foldl (fun m c => (capNum c).elim m (fun n => m ||| bit n)) mask

def dropCaps (mask : Mask) (caps : List Text) : Mask :=
  caps.foldl (fun m c => (capNum c).elim m (fun n => m &&& ~~~ bit n)) mask

/-- The capabilities to keep: the drops first, then the additions. -/
def resolveCapKeep (last : Nat) (capDrop capAdd : List Text) : Mask :=
  let keep := if capDrop.any isAll then 0#64 else dropCaps defaultKeptMask capDrop
  if capAdd.any isAll then allCapsMask last else addCaps keep capAdd

def namesFromMask (mask : Mask) : List Text :=
  ((List.range 64).filter mask.getLsbD).filterMap capName

inductive CeilingMode where
  | reject
  | clamp
  deriving DecidableEq

/-- Why a ceiling is refused. -/
inductive CeilingError where
  | mode (word : Text)
  | unknown (tok : Text)
  | empty
  deriving DecidableEq

def ceilingEnv : String := "DELONIX_CRI_CAP_CEILING"

def CeilingError.message (unprintable : Char → Bool) : CeilingError → String
  | .mode word =>
      "invalid capability ceiling mode "
        ++ String.ofList (DebugText.debugString unprintable (String.ofList word))
        ++ ": expected `reject` or `clamp`"
  | .unknown tok =>
      "unknown capability "
        ++ String.ofList (DebugText.debugString unprintable (String.ofList tok))
        ++ " in " ++ ceilingEnv ++ ": use names like NET_ADMIN or CAP_NET_ADMIN, "
        ++ "or the keywords all/none/default"
  | .empty => "empty capability ceiling in " ++ ceilingEnv

def CeilingMode.parse (s : Text) : Except CeilingError CeilingMode :=
  let word := toAsciiLowercase (trim s)
  if word = [] ∨ word = "reject".toList ∨ word = "enforce".toList then .ok .reject
  else if word = "clamp".toList ∨ word = "trim".toList then .ok .clamp
  else .error (.mode word)

/-- The node's bound; without a mask there is none. -/
structure CapCeiling where
  mask : Option Mask
  mode : CeilingMode
  deriving DecidableEq

def isSeparator (c : Char) : Bool := [',', ' ', '\t', ';'].contains c

/-- The words of a ceiling. -/
def tokens (spec : Text) : List Text :=
  (((trim spec).splitOnP isSeparator).map trim).filter (· ≠ [])

/-- One word: what it adds to the mask, and whether it lifts the bound. -/
def readToken (seen : Mask × Bool) (tok : Text) : Except CeilingError (Mask × Bool) :=
  let word := toAsciiLowercase tok
  if word = "all".toList then .ok (seen.1, true)
  else if word = "none".toList then .ok seen
  else if word = "default".toList then .ok (seen.1 ||| defaultKeptMask, seen.2)
  else
    match capNum tok with
    | some n => .ok (seen.1 ||| bit n, seen.2)
    | none => .error (.unknown tok)

def CapCeiling.parse (spec mode : Text) : Except CeilingError CapCeiling := do
  let mode ← CeilingMode.parse mode
  if trim spec = [] then .ok ⟨some defaultKeptMask, mode⟩
  else
    let (mask, unlimited) ← (tokens spec).foldlM readToken (0#64, false)
    if tokens spec = [] then .error .empty
    else .ok ⟨if unlimited then none else some mask, mode⟩

/-- The capabilities of an explicit request that the ceiling forbids. -/
def CapCeiling.rejected (ceiling : CapCeiling) (last : Nat) (capAdd : List Text)
    (privileged : Bool) : List Text :=
  match ceiling.mask with
  | none => []
  | some mask =>
      if ceiling.mode ≠ .reject then []
      else
        let wantsAll := privileged || capAdd.any isAll
        let requested := if wantsAll then allCapsMask last else addCaps 0#64 capAdd
        namesFromMask (requested &&& ~~~ mask)

/-- What the engine grants of its own. -/
def granted (last : Nat) (capAdd capDrop : List Text) (privileged : Bool) : Mask :=
  if privileged then allCapsMask last else resolveCapKeep last capDrop capAdd

/-- The arguments for the engine, where there is a ceiling. -/
def CapCeiling.capArgs (ceiling : CapCeiling) (last : Nat) (capAdd capDrop : List Text)
    (privileged : Bool) : Option (List Text) :=
  ceiling.mask.map fun mask =>
    "--cap-drop".toList :: "ALL".toList
      :: (namesFromMask (granted last capAdd capDrop privileged &&& mask)).flatMap
        fun name => ["--cap-add".toList, name]

/-- The drops and additions of a list of arguments. -/
def readArgs : List Text → List Text × List Text
  | flag :: value :: rest =>
      let (drops, adds) := readArgs rest
      if flag = "--cap-drop".toList then (value :: drops, adds)
      else if flag = "--cap-add".toList then (drops, value :: adds)
      else (drops, adds)
  | _ => ([], [])

/-- What the engine keeps when it is given these arguments. -/
def replay (last : Nat) (args : List Text) : Mask :=
  resolveCapKeep last (readArgs args).1 (readArgs args).2

end Delonix.Security.Capabilities
