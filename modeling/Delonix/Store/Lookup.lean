import Delonix.Library.Text

/-! Looking a container up in the state store, one record a file. An exact id is one file; a name
or the start of an id is found by walking the directory. Other processes write while a lookup
walks, so it is a machine of steps over whatever the files hold at each of them.
-/

namespace Delonix.Store

open Delonix.Library.Text

/-- A container record: what a lookup reads of it, and the rest. -/
structure Container (Body : Type) where
  id : String
  name : String
  namespaceName : String
  createdUnix : Nat
  body : Body
  deriving DecidableEq, Repr

/-- Just the fields a lookup needs to decide. -/
structure Ident where
  id : String
  name : String
  namespaceName : String
  createdUnix : Nat
  deriving DecidableEq, Repr

def Container.ident {Body : Type} (c : Container Body) : Ident :=
  ⟨c.id, c.name, c.namespaceName, c.createdUnix⟩

inductive StoreError where
  | noSuchContainer (key : String)
  | ambiguousContainer (name options : String)
  | lock
  | io
  deriving DecidableEq, Repr

def safeChar (c : Char) : Char :=
  if c.isAlphanum || c == '.' || c == '_' || c == '-' then c else '-'

/-- A key as a file name: what is not allowed in one becomes a dash. -/
def safeKey (key : String) : String := String.ofList (key.toList.map safeChar)

/-- The records of the store, by file name without its extension. -/
abbrev Files (Body : Type) := String → Option (Container Body)

/-- The namespace and the name of a qualified key. -/
def qualified (key : String) : Option (List Char × List Char) := splitOnce '/' key.toList

/-- What a walk found so far: records of that name, and records whose id starts so. -/
structure Found where
  named : List Ident := []
  hits : List Ident := []
  deriving DecidableEq, Repr

def Found.add (found : Found) (key : String) (idt : Ident) : Found :=
  match qualified key with
  | some (ns, name) =>
      if idt.namespaceName.toList = ns ∧ idt.name.toList = name then
        { found with named := found.named ++ [idt] }
      else found
  | none =>
      { named := if idt.name = key then found.named ++ [idt] else found.named
        hits := if key.toList <+: idt.id.toList then found.hits ++ [idt] else found.hits }

/-- The newest of the records whose id starts so, the first found of those. -/
def newest (hits : List Ident) : Option Ident :=
  (hits.mergeSort fun a b => b.createdUnix ≤ a.createdUnix).head?

/-- The record a finished walk settles on. An exact name wins over the start of an id, but only
when it names one container.
-/
def Found.pick (found : Found) (key : String) : Except StoreError Ident :=
  match found.named with
  | [hit] => .ok hit
  | _ :: _ :: _ =>
      let options := found.named.map fun i => i.namespaceName ++ "/" ++ i.name
      .error (.ambiguousContainer key
        (", ".intercalate (options.mergeSort fun a b => a ≤ b)))
  | [] =>
      if (qualified key).isSome then .error (.noSuchContainer key)
      else
        match newest found.hits with
        | some hit => .ok hit
        | none => .error (.noSuchContainer key)

/-- Where a lookup stands. -/
inductive LoadStage where
  | lookup
  | scan (found : Found)
  | read (file : String)
  deriving DecidableEq, Repr

/-- What the next step of a lookup meets: its own progress, one entry of the directory, or an
I/O failure. The directory is walked in any order, and what comes or goes meanwhile may be
missed.
-/
inductive LoadAct where
  | next
  | visit (file : String)
  | fail
  deriving DecidableEq, Repr

inductive Loading (Body : Type) where
  | going (stage : LoadStage)
  | loaded (c : Container Body)
  | failed (error : StoreError)
  deriving DecidableEq, Repr

/-- One step of `load` on what the files hold now. -/
def load {Body : Type} (files : Files Body) (key : String) : LoadStage → LoadAct → Loading Body
  | _, .fail => .failed .io
  | .lookup, .next =>
      if (files (safeKey key)).isSome then .going (.read (safeKey key)) else .going (.scan {})
  | .scan found, .visit file =>
      match files file with
      | some c => .going (.scan (found.add key c.ident))
      | none => .going (.scan found)
  | .scan found, .next =>
      match found.pick key with
      | .ok hit => .going (.read (safeKey hit.id))
      | .error error => .failed error
  | .read file, .next =>
      match files file with
      | some c => .loaded c
      | none => .failed .io
  | stage, .visit _ => .going stage

/-- A record is loaded from the file the lookup was about to read. -/
theorem load_eq_loaded {Body : Type} {files : Files Body} {key : String} {look : LoadStage}
    {act : LoadAct} {c : Container Body} (loaded : load files key look act = .loaded c)
    : act = .next ∧ ∃ file, look = .read file ∧ files file = some c := by
  unfold load at loaded
  repeat' split at loaded
  all_goals cases loaded
  exact ⟨rfl, _, rfl, ‹_›⟩

/-- How a lookup comes to read a file: the exact one is there, the walk settled on a record, or
it was about to read it before.
-/
theorem load_eq_going_read {Body : Type} {files : Files Body} {key file : String}
    {look : LoadStage} {act : LoadAct}
    (going : load files key look act = .going (.read file))
    : file = safeKey key
      ∨ (∃ found hit, look = .scan found ∧ act = .next ∧ found.pick key = .ok hit
        ∧ file = safeKey hit.id)
      ∨ look = .read file := by
  unfold load at going
  repeat' split at going
  all_goals cases going
  · exact .inl rfl
  · exact .inr (.inl ⟨_, _, rfl, rfl, ‹_›, rfl⟩)
  · exact .inr (.inr rfl)

end Delonix.Store
