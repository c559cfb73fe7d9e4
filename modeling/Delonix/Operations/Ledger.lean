import Delonix.Library.Runs
import Delonix.Library.Text
import Mathlib.Data.List.Sort
import Mathlib.Logic.Function.Basic

/-! The operation records of the node API, one file an operation, written before the work starts.
Any number of processes begin, finish and read operations over one directory without a lock. What
is atomic is one file: a record is created by a link that fails when the name exists, and
replaced by a rename.
-/

namespace Delonix.Operations

open Delonix.Library.Interleaving
open Delonix.Library.Runs

/-- How long a finished operation stays readable. -/
def retentionSecs : Nat := 7 * 24 * 3600

inductive OpState where
  | running
  | succeeded
  | failed
  deriving DecidableEq, Repr

structure Failure where
  reason : String
  dx : String
  message : String
  deriving DecidableEq, Repr

/-- One operation, as persisted. -/
structure Record where
  id : String
  state : OpState
  target : String
  verb : String
  targetHref : String
  createdMs : Nat
  endedMs : Option Nat
  failure : Option Failure
  requestId : String
  fingerprint : String
  ownerPid : Int
  ownerStarttime : Nat
  deriving DecidableEq, Repr

def Record.owner (rec : Record) : Int × Nat := (rec.ownerPid, rec.ownerStarttime)

inductive Status where
  | invalidArgument (why : String)
  | alreadyExists (why : String)
  | notFound (why : String)
  | failedPrecondition (why : String)
  | internal (why : String)
  deriving DecidableEq, Repr

/-- An id is a file name. -/
def validId (id : String) : Bool :=
  !id.isEmpty && id.utf8ByteSize ≤ 80 && id.toList.head? != some '.'
    && id.toList.all fun c => c.isAlphanum || c == '.' || c == '_' || c == '-'

def checkRequestId (requestId : String) : Except Status Unit :=
  if requestId.utf8ByteSize ≤ 64 && validId requestId then .ok ()
  else
    .error (.invalidArgument ("request_id '" ++ requestId
      ++ "': 1 to 64 characters of letters, digits, '.', '_' and '-' (a UUID), not starting "
      ++ "with '.'"))

/-- The id of an operation with a request id. -/
def requestOp (requestId : String) : String := "r-" ++ requestId

/-- What a mutation asks for. -/
structure Ask where
  verb : String
  target : String
  requestId : String
  fingerprint : String
  deriving DecidableEq, Repr

/-- The record a request id already produced, if it answers this same request. A stored empty
fingerprint is never compared.
-/
def Ask.found (ask : Ask) (files : String → Option Record) : Except Status (Option Record) := do
  if ask.requestId.isEmpty then return none
  checkRequestId ask.requestId
  match files (requestOp ask.requestId) with
  | none => return none
  | some found =>
      if found.verb ≠ ask.verb ∨ found.target ≠ ask.target then
        throw (.invalidArgument ("request_id '" ++ ask.requestId ++ "' already answered '"
          ++ found.verb ++ " " ++ found.target ++ "': a request_id names one request"))
      if found.fingerprint ≠ "" ∧ found.fingerprint ≠ ask.fingerprint then
        throw (.alreadyExists ("request_id '" ++ ask.requestId ++ "' was already used for a '"
          ++ ask.verb ++ " " ++ ask.target ++ "' request whose content does not match this one "
          ++ "— a request_id must name one exact request, not just one resource; generate a new "
          ++ "request_id for this request"))
      return some found

theorem found_eq_some {ask : Ask} {files : String → Option Record} {r : Record}
    (found : ask.found files = .ok (some r))
    : files (requestOp ask.requestId) = some r ∧ r.verb = ask.verb ∧ r.target = ask.target
      ∧ (r.fingerprint ≠ "" → r.fingerprint = ask.fingerprint) := by
  unfold Ask.found at found
  split at found
  · cases found
  cases checked : checkRequestId ask.requestId with
  | error => simp [checked, bind, Except.bind] at found
  | ok =>
      simp only [checked, bind, Except.bind, pure, Except.pure] at found
      split at found
      · cases found
      case h_2 r' holds =>
        split at found
        · cases found
        case isFalse same =>
          split at found
          · cases found
          case isFalse matching =>
            obtain rfl := Option.some.inj (Except.ok.inj found)
            push Not at same
            refine ⟨holds, same.1, same.2, ?_⟩
            intro stored
            by_contra differs
            exact matching ⟨stored, differs⟩

def interrupted : Failure where
  reason := "Interrupted"
  dx := ""
  message := "the process doing this operation exited before it finished; read the target to "
    ++ "see what it left, and send the request again"

/-- The record of an operation whose owner is gone. -/
def Record.interrupt (rec : Record) (now : Nat) : Record :=
  { rec with state := .failed, endedMs := some now, failure := some interrupted }

/-- The record with the outcome of its work. -/
def Record.finish (rec : Record) (outcome : Except Failure String) (now : Nat) : Record :=
  match outcome with
  | .ok href => { rec with endedMs := some now, state := .succeeded, targetHref := href }
  | .error failure => { rec with endedMs := some now, state := .failed, failure := some failure }

def Record.expired (rec : Record) (now : Nat) : Bool :=
  rec.endedMs.any (· < now - retentionSecs * 1000)

/-- Oldest first. -/
def byAge (records : List Record) : List Record :=
  records.insertionSort fun a b =>
    a.createdMs < b.createdMs ∨ a.createdMs = b.createdMs ∧ a.id ≤ b.id

/-- The directory and the process table. `past` are the processes that have exited: a start time
tells the processes of one pid apart.
-/
structure Node where
  files : String → Option Record
  procs : Int → Option Nat
  past : List (Int × Nat)

def Node.write (node : Node) (id : String) (content : Option Record) : Node :=
  { node with files := Function.update node.files id content }

@[simp]
theorem Node.write_self (node : Node) (id : String) (content : Option Record)
    : (node.write id content).files id = content :=
  Function.update_self ..

theorem Node.write_other (node : Node) {id file : String} (content : Option Record)
    (other : file ≠ id)
    : (node.write id content).files file = node.files file :=
  Function.update_of_ne other ..

def Node.alive (node : Node) (process : Int × Nat) : Prop :=
  node.procs process.1 = some process.2

instance (node : Node) (process : Int × Nat) : Decidable (node.alive process) :=
  inferInstanceAs (Decidable (_ = _))

inductive Reply where
  | operation (rec : Record)
  | replayed (rec : Record)
  | listed (recs : List Record)
  | nothing
  deriving DecidableEq, Repr

/-- What a reader does with a record once it is settled. -/
inductive Then where
  | get
  | cancel
  | replay (ask : Ask)
  | list (rest seen : List Record)
  deriving DecidableEq, Repr

/-- A replay by itself, the one `begin` starts with, or the one after a lost race. -/
inductive Looking where
  | alone
  | before (id : String)
  | after
  deriving DecidableEq, Repr

inductive Stage where
  | idle
  | looking (ask : Ask) (looking : Looking)
  | pruning (ask : Ask) (id : String) (found : List Record)
  | removing (ask : Ask) (id : String) (ids : List String)
  | linking (ask : Ask) (rec : Record)
  | working (rec : Record)
  | finishing (rec : Record)
  | reading (id : String) (next : Then)
  | listing (found : List Record)
  | testing (rec : Record) (next : Then)
  | writing (rec : Record) (next : Then)
  | returned (answer : Except Status Reply)

/-- A mutation begins an operation, does the work and finishes it. `generated` is the id it gets
without a request id.
-/
inductive Call where
  | mutate (ask : Ask) (generated : String)
  | replay (ask : Ask)
  | get (id : String)
  | cancel (id : String)
  | list
  deriving DecidableEq, Repr

/-- What a process does next: a step of its call at an instant, one entry of a directory that is
read, an I/O failure, or the end of its work.
-/
inductive Act where
  | start (call : Call)
  | go (now : Nat)
  | visit (id : String)
  | fail
  | worked (outcome : Except Failure String) (now : Nat)

def Call.opId : Call → String
  | .mutate ask generated =>
      if ask.requestId.isEmpty then "op-" ++ generated else requestOp ask.requestId
  | .replay ask => requestOp ask.requestId
  | .get id => id
  | .cancel id => id
  | .list => ""

/-- How a call starts. -/
def begun : Call → Stage
  | .mutate ask generated => .looking ask (.before (Call.mutate ask generated).opId)
  | .replay ask => .looking ask .alone
  | .get id =>
      if validId id then .reading id .get
      else .returned (.error (.notFound ("operation '" ++ id ++ "'")))
  | .cancel id =>
      if validId id then .reading id .cancel
      else .returned (.error (.notFound ("operation '" ++ id ++ "'")))
  | .list => .listing []

/-- Nothing is cancelled: the answer says where the operation stands. -/
def cancelRefusal (rec : Record) : Status :=
  .failedPrecondition (match rec.state with
    | .running => "operation '" ++ rec.id ++ "' (" ++ rec.verb ++ " " ++ rec.target
        ++ ") is running and past its point of no return: the work runs to its end once "
        ++ "acknowledged; watch it to the end, then undo it with the inverse request"
    | .succeeded => "operation '" ++ rec.id ++ "' (" ++ rec.verb ++ " " ++ rec.target
        ++ ") already ended SUCCEEDED; there is nothing to cancel"
    | .failed => "operation '" ++ rec.id ++ "' (" ++ rec.verb ++ " " ++ rec.target
        ++ ") already ended FAILED; there is nothing to cancel")

/-- Where a reader stands once a record is settled. -/
def settledTo (rec : Record) : Then → Stage
  | .get => .returned (.ok (.operation rec))
  | .cancel => .returned (.error (cancelRefusal rec))
  | .replay _ => .returned (.ok (.replayed rec))
  | .list [] seen => .returned (.ok (.listed (seen ++ [rec])))
  | .list (next :: rest) seen => .testing next (.list rest (seen ++ [rec]))

/-- The record of a new operation, owned by the process that begins it. -/
def newRecord (node : Node) (pid : Int) (ask : Ask) (id : String) (now : Nat) : Record where
  id := id
  state := .running
  target := ask.target
  verb := ask.verb
  targetHref := ""
  createdMs := now
  endedMs := none
  failure := none
  requestId := ask.requestId
  fingerprint := ask.fingerprint
  ownerPid := pid
  ownerStarttime := (node.procs pid).getD 0

def ioError (what : String) : Except Status Reply :=
  .error (.internal ("operation record: " ++ what))

/-- A step of a call at an instant. -/
def proceed (pid : Int) (node : Node) (now : Nat) : Stage → Node × Stage
  | .idle => (node, .idle)
  | .looking ask looking =>
      match ask.found node.files, looking with
      | .error why, _ => (node, .returned (.error why))
      | .ok (some rec), _ => (node, .testing rec (.replay ask))
      | .ok none, .alone => (node, .returned (.ok .nothing))
      | .ok none, .before id => (node, .pruning ask id [])
      | .ok none, .after => (node, .returned (ioError "creating"))
  | .pruning ask id found =>
      (node, .removing ask id (((byAge found).filter (·.expired now)).map (·.id)))
  | .removing ask id (old :: rest) => (node.write old none, .removing ask id rest)
  | .removing ask id [] => (node, .linking ask (newRecord node pid ask id now))
  | .linking ask rec =>
      match node.files rec.id with
      | none => (node.write rec.id (some rec), .working rec)
      | some _ => (node, .looking ask .after)
  | .working rec => (node, .working rec)
  | .finishing rec => (node.write rec.id (some rec), .returned (.ok (.operation rec)))
  | .reading id next =>
      match node.files id with
      | some rec => (node, .testing rec next)
      | none => (node, .returned (.error (.notFound ("operation '" ++ id ++ "'"))))
  | .listing found =>
      match byAge found with
      | [] => (node, .returned (.ok (.listed [])))
      | rec :: rest => (node, .testing rec (.list rest []))
  | .testing rec next =>
      if rec.state = .running ∧ ¬ node.alive rec.owner then
        (node, .writing (rec.interrupt now) next)
      else (node, settledTo rec next)
  | .writing rec next => (node.write rec.id (some rec), settledTo rec next)
  | .returned answer => (node, .returned answer)

/-- What an I/O failure does. Pruning goes on without the record it failed on. -/
def failing : Stage → Stage
  | .idle => .idle
  | .pruning ask id _ => .removing ask id []
  | .removing ask id (_ :: rest) => .removing ask id rest
  | .working rec => .working rec
  | .returned answer => .returned answer
  | _ => .returned (ioError "writing")

/-- One step of a process that runs. -/
def act (pid : Int) (node : Node) (stage : Stage) : Act → Node × Stage
  | .start call =>
      match stage with
      | .idle => (node, begun call)
      | .returned _ => (node, begun call)
      | stage => (node, stage)
  | .go now => proceed pid node now stage
  | .visit id =>
      match stage, if validId id then node.files id else none with
      | .pruning ask op found, some rec => (node, .pruning ask op (found ++ [rec]))
      | .listing found, some rec => (node, .listing (found ++ [rec]))
      | stage, _ => (node, stage)
  | .fail => (node, failing stage)
  | .worked outcome now =>
      match stage with
      | .working rec => (node, .finishing (rec.finish outcome now))
      | stage => (node, stage)

/-- Processes come and go without the ledger. -/
inductive Kernel where
  | spawn (pid : Int) (starttime : Nat)
  | exit (pid : Int)
  deriving DecidableEq, Repr

/-- What becomes of the process table. No process comes back. -/
def kernel (node : Node) : Kernel → Node
  | .spawn pid starttime =>
      if node.procs pid = none ∧ (pid, starttime) ∉ node.past then
        { node with procs := Function.update node.procs pid (some starttime) }
      else node
  | .exit pid =>
      match node.procs pid with
      | some starttime =>
          { node with
            procs := Function.update node.procs pid none
            past := (pid, starttime) :: node.past }
      | none => node

/-- Any number of calls, each in the process `proc` gives it. A call whose process is not running
does nothing.
-/
def ledger (proc : Nat → Int × Nat) : System Node Stage Act Kernel where
  advance i node stage step :=
    if node.alive (proc i) then act (proc i).1 node stage step else (node, stage)
  stir := kernel

abbrev LedgerState := State Node Stage

abbrev LedgerAction := Action Act Kernel

abbrev LedgerHistory := List (Event LedgerState LedgerAction)

/-- The file a step writes and what it leaves there. -/
def written (node : Node) (stage : Stage) : Act → Option (String × Option Record)
  | .go _ =>
      match stage with
      | .removing _ _ (old :: _) => some (old, none)
      | .linking _ rec => if (node.files rec.id).isNone then some (rec.id, some rec) else none
      | .finishing rec => some (rec.id, some rec)
      | .writing rec _ => some (rec.id, some rec)
      | _ => none
  | _ => none

/-- A step changes the file it writes and no other, and leaves the process table as it is. -/
theorem act_node (pid : Int) (node : Node) (stage : Stage) (step : Act)
    : (act pid node stage step).1 = match written node stage step with
      | some (id, content) => node.write id content
      | none => node := by
  cases step with
  | go now =>
      cases stage with
      | removing ask id ids => cases ids <;> rfl
      | linking ask rec =>
          cases holds : node.files rec.id <;> simp [act, proceed, written, holds]
      | looking ask looking =>
          simp only [act, proceed, written]
          split <;> rfl
      | reading id next =>
          simp only [act, proceed, written]
          split <;> rfl
      | listing found =>
          simp only [act, proceed, written]
          split <;> rfl
      | testing rec next =>
          simp only [act, proceed, written]
          split <;> rfl
      | _ => rfl
  | start call =>
      simp only [act, written]
      split <;> rfl
  | visit id =>
      simp only [act, written]
      split <;> rfl
  | fail => rfl
  | worked outcome now =>
      simp only [act, written]
      split <;> rfl

theorem kernel_files (node : Node) (event : Kernel) : (kernel node event).files = node.files := by
  cases event with
  | spawn pid starttime =>
      simp only [kernel]
      split <;> rfl
  | exit pid =>
      simp only [kernel]
      split <;> rfl

end Delonix.Operations
