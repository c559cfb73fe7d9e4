import Delonix.Library.Runs
import Delonix.Secrets.Vault
import Mathlib.Data.List.AList

/-! Several processes on one secret store. Each opens it, which creates the master key on first
use, and works with the key it found then. A file is read, written or removed in one step; only
`update` takes the lock of the name it changes.
-/

namespace Delonix.Secrets

open Delonix.Library.Interleaving

abbrev Pairs := List (String × String)

/-- What a name should hold, by the changes that were made to it. -/
abbrev Ledger := String → Option (String → Option String)

/-- How far a rotation has come, and who makes it. -/
inductive Rotation where
  | none
  | reading (i : Nat)
  /-- The new key is on disk; these names are still under the old one. -/
  | resealing (i : Nat) (left : List String)

def Rotation.owner : Rotation → Option Nat
  | .none => Option.none
  | .reading i => some i
  | .resealing i _ => some i

/-- The files, the locks, and what an observer notes beside them: the ledger and the rotation that
is under way. No operation reads the notes.
-/
structure World (Key : Type) where
  key : Option Key
  secrets : AList fun _ : String => Blob Key Secret
  locks : String → Option Nat
  ledger : Ledger
  rotation : Rotation

/-- A write comes from `save`, or from `update` with its lock and the pairs it read. -/
inductive Origin where
  | save
  | update (lock : String) (read : Pairs)

/-- Where a process stands. -/
inductive Stage (Key : Type) where
  | idle
  /-- There was no key file; this one is about to be written. -/
  | creating (key : Key)
  /-- The store is open with this key. -/
  | ready (key : Key)
  | locking (key : Key) (name : String) (change : Pairs → Option Pairs)
  | locked (key : Key) (name : String) (change : Pairs → Option Pairs)
  /-- `write` is called, and is about to read the version that is stored. -/
  | saving (key : Key) (origin : Origin) (s : Secret)
  /-- It has read the file, and is about to write it. -/
  | writing (key : Key) (origin : Origin) (s : Secret) (seen : Option (Blob Key Secret))
  | unlocking (key : Key) (name : String)
  /-- `rotate_key` has listed the names and is reading them. -/
  | reading (key new : Key) (todo : List String) (loaded : List Secret)
  | resealing (new : Key) (left : List Secret)

inductive Act (Key : Type) where
  | opens (fresh : Key)
  | update (name : String) (change : Pairs → Option Pairs)
  | save (s : Secret)
  | remove (name : String)
  | rotate (new : Key)
  /-- The next step of what is under way. -/
  | go

variable {Key : Type}

namespace World

/-- The disk of the secret store; the credentials are files of their own. -/
def disk (w : World Key) : Disk Key := ⟨w.key, fun _ => none, fun name => w.secrets.lookup name⟩

def put (w : World Key) (name : String) (blob : Blob Key Secret) : World Key :=
  { w with secrets := w.secrets.insert name blob }

/-- A `save` gives a name its pairs; an `update` gives it those it changed. -/
def note (w : World Key) (origin : Origin) (s : Secret) : World Key :=
  let pairs : String → Option String :=
    match origin with
    | .save => fun key => s.data.lookup key
    | .update _ read => fun key =>
        if s.data.lookup key = read.lookup key then (w.ledger s.name).bind (· key)
        else s.data.lookup key
  { w with ledger := Function.update w.ledger s.name (some pairs) }

end World

section

variable [DecidableEq Key]

/-- What `load` makes of a file it has read. -/
def loadFile (key : Key) (name : String) (file : Option (Blob Key Secret))
    : Except Refusal Secret :=
  if validName name then
    match file with
    | none => .error (.noSuchSecret name)
    | some blob => decode key blob
  else .error (.invalidSecretName name)

/-- Where a write leads when it is over. -/
def Origin.leave (origin : Origin) (key : Key) : Stage Key :=
  match origin with
  | .save => .ready key
  | .update lock _ => .unlocking key lock

/-- One step of the process `i`. -/
def advance (i : Nat) (w : World Key) (stage : Stage Key) (act : Act Key) : World Key × Stage Key :=
  match stage, act with
  | .idle, .opens fresh =>
      match w.key with
      | some key => (w, .ready key)
      | none => (w, .creating fresh)
  | .creating key, .go => ({ w with key := some key }, .ready key)
  | .ready key, .update name change =>
      if validName name then (w, .locking key name change) else (w, .ready key)
  | .ready key, .save s => (w, .saving key .save s)
  | .ready key, .remove name =>
      if validName name && (w.secrets.lookup name).isSome then
        ({ w with
            secrets := w.secrets.erase name
            ledger := Function.update w.ledger name none }, .ready key)
      else (w, .ready key)
  | .ready key, .rotate new =>
      ({ w with rotation := .reading i }, .reading key new w.secrets.keys [])
  | .locking key name change, .go =>
      match w.locks name with
      | none => ({ w with locks := Function.update w.locks name (some i) }, .locked key name change)
      | some _ => (w, .locking key name change)
  | .locked key name change, .go =>
      -- What cannot be read counts as a secret that is not there yet.
      let s := match load w.disk key name with
        | .ok s => s
        | .error _ => ⟨name, [], 0⟩
      match change s.data with
      | none => (w, .unlocking key name)
      | some data => (w, .saving key (.update name s.data) { s with data })
  | .saving key origin s, .go =>
      match checkSecret s with
      | .error _ => (w, origin.leave key)
      | .ok _ => (w, .writing key origin s (w.secrets.lookup s.name))
  | .writing key origin s seen, .go =>
      let version := assignVersion none (loadFile key s.name seen) s
      ((w.note origin s).put s.name (.sealed key { s with version }), origin.leave key)
  | .unlocking key name, .go =>
      ({ w with locks := Function.update w.locks name none }, .ready key)
  | .reading key new (name :: todo) loaded, .go =>
      match load w.disk key name with
      | .ok s => (w, .reading key new todo (loaded ++ [s]))
      | .error _ => ({ w with rotation := .none }, .ready key)
  | .reading _ new [] loaded, .go =>
      ({ w with key := some new, rotation := .resealing i (loaded.map Secret.name) },
        .resealing new loaded)
  | .resealing new (s :: left), .go =>
      match checkSecret s with
      | .error _ => ({ w with rotation := .none }, .ready new)
      | .ok _ =>
          let version := assignVersion (some s.version) (.ok s) s
          ({ w.put s.name (.sealed new { s with version }) with
              rotation := .resealing i (left.map Secret.name) }, .resealing new left)
  | .resealing new [], .go => ({ w with rotation := .none }, .ready new)
  | stage, _ => (w, stage)

/-- All the processes of a host. -/
def processes : System (World Key) (Stage Key) (Act Key) Empty where
  advance := advance
  stir w _ := w

end

/-- The key a process has in memory. -/
def Stage.key : Stage Key → Option Key
  | .idle => none
  | .creating key => some key
  | .ready key => some key
  | .locking key _ _ => some key
  | .locked key _ _ => some key
  | .saving key _ _ => some key
  | .writing key _ _ _ => some key
  | .unlocking key _ => some key
  | .reading key _ _ _ => some key
  | .resealing new _ => some new

/-- A process with nothing under way. -/
def Stage.AtRest : Stage Key → Prop
  | .idle => True
  | .ready _ => True
  | _ => False

end Delonix.Secrets
