import Delonix.Library.Checks
import Delonix.Library.Json
import Mathlib.Data.List.Dedup

/-! Custom seccomp profiles: a JSON document read into rules on system calls, and compiled into a
filter with one action for the numbers in its map and another for the rest.
-/

namespace Delonix.Security.Seccomp

open Delonix.Library.Json

inductive Act where
  | allow
  | errno (code : Nat)
  | killThread
  | log
  | trap
  deriving DecidableEq

structure Profile where
  defaultAction : Act
  rules : List (Int × Act)

/-- What a filter is built from. -/
structure Filter where
  numbers : List Int
  defaultAction : Act
  matchAction : Act

/-- The answer to a system call. -/
def Filter.answer (filter : Filter) (number : Int) : Act :=
  if number ∈ filter.numbers then filter.matchAction else filter.defaultAction

/-- The tables of the machine, and what its filter library refuses to build. -/
structure Host where
  syscallNumber : String → Option Int
  archSupported : Bool
  newFilter : Filter → Option String

def eperm : Nat := 1

def parseAction (s : String) (errnoRet : Option Nat) : Except String Act :=
  if s = "SCMP_ACT_ALLOW" then .ok .allow
  else if s = "SCMP_ACT_ERRNO" then .ok (.errno (errnoRet.getD eperm))
  else if s = "SCMP_ACT_KILL" ∨ s = "SCMP_ACT_KILL_THREAD" then .ok .killThread
  else if s = "SCMP_ACT_LOG" then .ok .log
  else if s = "SCMP_ACT_TRAP" then .ok .trap
  else if s = "SCMP_ACT_KILL_PROCESS" then
    .error "SCMP_ACT_KILL_PROCESS is not supported (use SCMP_ACT_KILL for kill-thread)"
  else .error ("unsupported seccomp action '" ++ s ++ "'")

/-- A value that has to be there. -/
def required {α : Type} (message : String) : Option α → Except String α
  | some value => .ok value
  | none => .error message

variable (host : Host)

/-- The names of one entry: the rules of those this machine has, and the others. -/
def parseNames (act : Act) : List Value → Except String (List (Int × Act) × List String)
  | [] => .ok ([], [])
  | item :: rest => do
      let name ← required "syscall name is not a string" item.asStr
      let (rules, unknown) ← parseNames act rest
      match host.syscallNumber name with
      | some number => .ok ((number, act) :: rules, unknown)
      | none => .ok (rules, name :: unknown)

def parseEntry (entry : Value) : Except String (List (Int × Act) × List String) := do
  let action ← required "syscall entry has no 'action'" ((entry.get? "action").bind Value.asStr)
  -- The number is cut to 32 bits.
  let errnoRet := ((entry.get? "errnoRet").bind Value.asU64).map (· % 2 ^ 32)
  let act ← parseAction action errnoRet
  if (entry.get? "args").any (fun args => !(args.asArray.all List.isEmpty)) then
    .error "seccomp rule with 'args' is not supported (argument-filtered rules)"
  else
    let names ← required "syscall entry has no 'names'" ((entry.get? "names").bind Value.asArray)
    parseNames host act names

def parseEntries : List Value → Except String (List (Int × Act) × List String)
  | [] => .ok ([], [])
  | entry :: rest => do
      let (rules, unknown) ← parseEntry host entry
      let (rules', unknown') ← parseEntries rest
      .ok (rules ++ rules', unknown ++ unknown')

/-- The entries of a document, none where there is no list of them. -/
def entries (doc : Value) : List Value := ((doc.get? "syscalls").bind Value.asArray).getD []

def parse (doc : Value) : Except String (Profile × List String) := do
  let defaultAction ← required "seccomp profile has no 'defaultAction'"
    ((doc.get? "defaultAction").bind Value.asStr)
  let defaultAction ← parseAction defaultAction none
  let (rules, unknown) ← parseEntries host (entries doc)
  .ok (⟨defaultAction, rules⟩, unknown)

def compile (p : Profile) : Except String Filter :=
  if host.archSupported then
    let effective := p.rules.filter (fun rule => rule.2 ≠ p.defaultAction)
    let ruleActions := (effective.map Prod.snd).dedup
    if ruleActions.length > 1 then
      .error ("profile mixes " ++ toString ruleActions.length
        ++ " different rule actions; only one non-default action is supported")
    else
      let matchAction := ruleActions.head?.getD
        (if p.defaultAction = .allow then .errno eperm else .allow)
      let filter := ⟨effective.map Prod.fst, p.defaultAction, matchAction⟩
      match host.newFilter filter with
      | some e => .error ("failed to build the seccomp filter: " ++ e)
      | none => .ok filter
  else .error "architecture without seccomp support"

/-- A document loaded into a filter. -/
def load (doc : Value) : Except String Filter := do
  let (p, _) ← parse host doc
  compile host p

end Delonix.Security.Seccomp
