import Delonix.Library.Faults
import Delonix.Storage.Pools

/-! The `dir` driver: one directory per volume, with the owner's stamp in a file beside the data.
A call works on the directory of one name, and each look at it or change of it is a step.
-/

namespace Delonix.Storage

open Delonix.Library.Faults

/-- Who a directory says it is for; what is no stamp of this engine does not decode. -/
structure Stamp where
  pool : String
  volume : String
  owner : String
deriving DecidableEq, Repr

def Stamp.isFor (stamp : Stamp) (pool volume : String) (owner : Owner) : Bool :=
  stamp.pool == pool && stamp.volume == volume && stamp.owner == owner.id

/-- The data entry of a volume. -/
inductive Data where
  | folder (content : List String)
  /-- Anything that is no directory. -/
  | other
deriving DecidableEq, Repr

/-- What is in the directory of a volume: the stamp file with what it decodes to, the data, the
files left from writing the stamp, and what anyone else put there.
-/
structure Dir where
  stamp : Option (Option Stamp)
  data : Option Data
  temps : Nat
  rest : List String
deriving DecidableEq, Repr

inductive Node where
  | dir (dir : Dir)
  | other
deriving DecidableEq, Repr

def Dir.isEmpty (dir : Dir) : Bool :=
  dir.stamp.isNone && dir.data.isNone && dir.temps == 0 && dir.rest.isEmpty

inductive DirStep where
  | lookDir
  | readStamp
  | listDir
  | makeDir
  | makeTemp
  | writeTemp
  | renameTemp
  | dropTemp
  | lookData
  | makeData
  | clearData
  | mappedClear
  | lookDataAgain
  | clearDataAgain
  | dropStamp
  | dropDir
deriving DecidableEq, Repr

/-- What a call meets: the steps that go wrong, what a removal of a tree that fails leaves of it,
the system's words for a failure, and whether a mapped remover is there.
-/
structure DirHost where
  faults : FaultPlan DirStep
  remains : List String → List String
  why : DirStep → String
  rmtree : Bool

/-- The same host on a day when nothing goes wrong. -/
def DirHost.calm (host : DirHost) : DirHost := { host with faults := noFaults }

abbrev DirProg := Prog (Option Node) Error

def Node.stamp : Option Node → Option Stamp
  | some (.dir d) => d.stamp.join
  | _ => none

def Node.data : Option Node → Option Data
  | some (.dir d) => d.data
  | _ => none

def Node.isEmptyDir : Option Node → Bool
  | some (.dir d) => d.isEmpty
  | _ => false

def Node.hasFolder (w : Option Node) : Bool :=
  match Node.data w with
  | some (.folder _) => true
  | _ => false

/-- A change of what is in the directory. -/
def Node.change (f : Dir → Option Dir) : Option Node → Option (Unit × Option Node)
  | some (.dir d) => (f d).map fun d => ((), some (.dir d))
  | _ => none

namespace DirHost

variable (host : DirHost)

/-- A step that only looks; one that fails answers `default`. -/
def look {α : Type} (step : DirStep) (default : α) (see : Option Node → α) : DirProg α := do
  return (← Prog.attempt host.faults step (fun w => some (see w, w)) id).getD default

/-- A step that must be done. -/
def must (step : DirStep) (error : String → Error) (does : Option Node → Option (Unit × Option Node))
    (left : Option Node → Option Node) : DirProg Unit := do
  match ← Prog.attempt host.faults step does left with
  | some () => return ()
  | none => Prog.refuse (error (host.why step))

/-- A step whose failure is passed over. -/
def tryTo (step : DirStep) (does : Option Node → Option (Unit × Option Node))
    (left : Option Node → Option Node) : DirProg Bool := do
  return (← Prog.attempt host.faults step does left).isSome

end DirHost

def io (why : String) : Error := ⟨.engine, why⟩

/-- `create_dir`. -/
def makeDir : Option Node → Option (Unit × Option Node)
  | none => some ((), some (.dir ⟨none, none, 0, []⟩))
  | some _ => none

def makeTemp : Option Node → Option (Unit × Option Node) :=
  Node.change fun dir => some { dir with temps := dir.temps + 1 }

def dropTemp : Option Node → Option (Unit × Option Node) :=
  Node.change fun dir => some { dir with temps := dir.temps - 1 }

/-- The temporary file becomes the stamp. -/
def renameTemp (stamp : Stamp) : Option Node → Option (Unit × Option Node) :=
  Node.change fun dir => some { dir with temps := dir.temps - 1, stamp := some (some stamp) }

def makeData : Option Node → Option (Unit × Option Node) :=
  Node.change fun dir =>
    match dir.data with
    | none => some { dir with data := some (.folder []) }
    | some _ => none

/-- `remove_dir_all`, which removes directories only. -/
def clearData : Option Node → Option (Unit × Option Node) :=
  Node.change fun dir =>
    match dir.data with
    | some (.folder _) => some { dir with data := none }
    | _ => none

/-- The mapped remover takes anything. -/
def mappedClear : Option Node → Option (Unit × Option Node) :=
  Node.change fun dir => some { dir with data := none }

/-- A removal of the data that failed has removed some of it. -/
def DirHost.leaves (host : DirHost) : Option Node → Option Node
  | some (.dir dir) =>
      match dir.data with
      | some (.folder content) => some (.dir { dir with data := some (.folder (host.remains content)) })
      | _ => some (.dir dir)
  | w => w

def dropStamp : Option Node → Option (Unit × Option Node) :=
  Node.change fun dir =>
    match dir.stamp with
    | some _ => some { dir with stamp := none }
    | none => none

/-- `remove_dir`, which removes an empty directory only. -/
def dropDir : Option Node → Option (Unit × Option Node)
  | some (.dir dir) => if dir.isEmpty then some ((), none) else none
  | _ => none

/-- One path component of the pool. -/
def safeComponent (name : String) : Bool :=
  !name.isEmpty && name.toList.head? != some '.' && name.toList.head? != some '-'
    && !decide ("..".toList <:+: name.toList)
    && name.toList.all fun c => c.isAlphanum || c == '-' || c == '_' || c == '.'

def rootOf (pool : PoolRef) : DirProg String :=
  match pool.entry.path with
  | some path => pure path
  | none => Prog.refuse ⟨.invalidAllowlist, s!"pool '{pool.name}': driver 'dir' needs `path`"⟩

/-- The atomic write of the stamp: a temporary file beside it, renamed over it, and removed when
something failed.
-/
def writeStamp (host : DirHost) (dir : String) (stamp : Stamp) : DirProg Unit := do
  let unstamped (step : DirStep) : Error :=
    ⟨.engine, s!"could not stamp {dir}: {host.why step}"⟩
  if !(← host.tryTo .makeTemp makeTemp id) then Prog.refuse (unstamped .makeTemp)
  else if !(← host.tryTo .writeTemp (fun w => some ((), w)) id) then do
    let _ ← host.tryTo .dropTemp dropTemp id
    Prog.refuse (unstamped .writeTemp)
  else if !(← host.tryTo .renameTemp (renameTemp stamp) id) then do
    let _ ← host.tryTo .dropTemp dropTemp id
    Prog.refuse (unstamped .renameTemp)
  else return ()

/-- Whether the directory is this owner's already; one that is not there is made, and an empty one
is nobody's.
-/
def claimDir (host : DirHost) (pool : PoolRef) (name : String) (owner : Owner) (dir : String)
    : DirProg Bool := do
  if ← host.look .lookDir false Option.isSome then
    match ← host.look .readStamp none Node.stamp with
    | some s =>
        if s.isFor pool.name name owner then return true
        else Prog.refuse ⟨.poolConflict, s!"storage pool '{pool.name}' already holds a volume "
          ++ s!"'{name}' that belongs to another engine state root ({s.owner}) — pick another name"⟩
    | none =>
        if ← host.look .listDir false Node.isEmptyDir then return false
        else Prog.refuse ⟨.poolConflict, s!"{dir} exists and carries no stamp of this engine — it is "
          ++ "never adopted by its name; pick another volume name or have its owner remove it"⟩
  else do
    host.must .makeDir io makeDir id
    return false

def ensureData (host : DirHost) : DirProg Unit := do
  if ← host.look .lookData false Node.hasFolder then return ()
  else host.must .makeData io makeData id

/-- `DirPoolDriver::allocate`. -/
def allocateDir (host : DirHost) (pool : PoolRef) (req : VolumeRequest) (owner : Owner)
    : DirProg Allocation := do
  if req.shape = .block then
    Prog.refuse ⟨.poolUnavailable, s!"storage pool '{pool.name}': driver 'dir' does not hand out "
      ++ "block volumes in this version (VM disks in pools are ADR-0067 P5)"⟩
  else if !safeComponent req.name then
    Prog.refuse ⟨.invalidPoolRequest, s!"'{req.name}' is not a volume name a pool can hold"⟩
  else do
    let root ← rootOf pool
    let dir := root ++ "/" ++ req.name
    let adopted ← claimDir host pool req.name owner dir
    -- The stamp before the data: data without a stamp could be anyone's.
    (if adopted then pure () else writeStamp host dir ⟨pool.name, req.name, owner.id⟩)
    ensureData host
    return ⟨pool.name, req.name, .filesystem, dir ++ "/_data", adopted⟩

def Node.hasData (w : Option Node) : Bool := (Node.data w).isSome

/-- A tree this process cannot unlink goes to the mapped remover. -/
def removeData (host : DirHost) : DirProg Bool := do
  if ← host.tryTo .clearData clearData host.leaves then return true
  else if host.rmtree then host.tryTo .mappedClear mappedClear host.leaves
  else return false

def clearAll (host : DirHost) : DirProg Unit := do
  if ← host.look .lookData false Node.hasData then do
    let _ ← removeData host
    if ← host.look .lookDataAgain false Node.hasData then
      host.must .clearDataAgain io clearData host.leaves
    else return ()
  else return ()

/-- `DirPoolDriver::release`. -/
def releaseDir (host : DirHost) (pool : PoolRef) (volume : String) (owner : Owner)
    : DirProg Unit := do
  if !safeComponent volume then
    Prog.refuse ⟨.invalidPoolRequest, s!"'{volume}' is not a volume name a pool can hold"⟩
  else do
    let root ← rootOf pool
    if !(← host.look .lookDir false Option.isSome) then return ()
    else
      let stamp ← host.look .readStamp none Node.stamp
      if !stamp.any (·.isFor pool.name volume owner) then
        Prog.refuse ⟨.poolConflict, s!"{root}/{volume} does not carry this engine's stamp for "
          ++ s!"volume '{volume}' — it is not released; nothing was deleted"⟩
      else do
        -- The data first, the stamp last.
        clearAll host
        host.must .dropStamp io dropStamp id
        host.must .dropDir io dropDir id

end Delonix.Storage
