import Delonix.Library.Sorting
import Delonix.Volumes.Store
import Mathlib.Data.String.Basic
import Mathlib.Order.OrderDual

/-! Which volumes a prune takes. The store is read namespace by namespace and the container
registry volume by volume; what is taken is decided by the paths of all of them. Some of the reads
answer with nothing when they fail, and a listing leaves out the records it cannot read.
-/

namespace Delonix.Prune

open Delonix.Library.Sorting Delonix.Volumes

/-- The records of one directory of volumes that can be read, each in the directory of its name.
-/
structure Records where
  all : List Volume
  named : (all.map (·.name)).Nodup

/-- A namespace's own store: `none` where it cannot be opened or listed. -/
inductive Namespace where
  | records (records : Records)
  | unopened
  | unlisted

/-- An entry of the directory of namespaces. -/
inductive NsEntry where
  | namespace (name : String) (ns : Namespace)
  | file
  | unreadable

def NsEntry.named : NsEntry → Option (String × Namespace)
  | .namespace name ns => some (name, ns)
  | .file | .unreadable => none

/-- The directory of namespaces; it is made with the first of them. -/
inductive NsDir where
  | absent
  | unreadable
  | listed (entries : List NsEntry) (named : ((entries.filterMap NsEntry.named).map (·.1)).Nodup)

structure Store where
  /-- The volumes without an owner, when the root can be listed. -/
  root : Option Records
  nsDir : NsDir
  /-- The namespace and directory of each record that cannot be read; listings pass over them. -/
  unread : List (Option String × String)

structure Container where
  name : String
  live : Bool
  /-- The source of each of its mounts. -/
  sources : List String
deriving DecidableEq, Repr

/-- A directory of container records. -/
structure Containers where
  /-- The records that can be read. -/
  all : List Container
  /-- The files of the others; a listing passes over them. -/
  unread : List String

/-- The container registry, when it can be opened and listed. -/
abbrev Registry := Option Containers

/-- The containers that are seen; none where the registry fails. -/
def containersOf : Registry → List Container
  | some records => records.all
  | none => []

structure OwnedVolume where
  ns : Option String
  volume : Volume
deriving DecidableEq, Repr

inductive Error where
  | unopened
  | unlisted
deriving DecidableEq, Repr

/-- `namespaces`: an unreadable directory holds none, and an unreadable entry is none. -/
def NsDir.namespaces : NsDir → List (String × Namespace)
  | .absent | .unreadable => []
  | .listed entries _ => sortByKey (·.1) (entries.filterMap NsEntry.named)

/-- Newest first. -/
def list : Option Records → Except Error (List Volume)
  | none => .error .unlisted
  | some records => .ok (sortByKey (fun v => OrderDual.toDual v.createdUnix) records.all)

def scopedList : Namespace → Except Error (List Volume)
  | .unopened => .error .unopened
  | .unlisted => list none
  | .records records => list (some records)

def ownedBy (ns : String × Namespace) : Except Error (List OwnedVolume) := do
  return (← scopedList ns.2).map (OwnedVolume.mk (some ns.1))

def listAll (store : Store) : Except Error (List OwnedVolume) := do
  let root ← list store.root
  let owned ← store.nsDir.namespaces.mapM ownedBy
  return root.map (OwnedVolume.mk none) ++ owned.flatten

/-- `inspect` in a store whose directory of volumes is given. -/
def inspect (records : Option Records) (name : String) : Option Volume :=
  records.bind fun records => records.all.find? (·.name = name)

/-- The components of a path, with its root or the dot it starts with. -/
def pathParts (path : String) : List String :=
  (if path.toList.head? = some '/' then ["/"]
    else if ((path.toList.splitOn '/').headD []) = ['.'] then ["."]
    else []) ++ components path

/-- `Path::starts_with`: by component, and true of the path itself. -/
def startsWith (path base : String) : Bool := pathParts base <+: pathParts path

structure VolumeRefs where
  containers : List String
  shares : List String
deriving DecidableEq, Repr

def Container.uses (c : Container) (mountpoint : String) : Bool :=
  c.sources.any fun source => startsWith source mountpoint

def Container.describe (c : Container) : String :=
  let state := if c.live then "running" else "stopped"
  s!"{c.name} ({state})"

def OwnedVolume.planName (owned : OwnedVolume) : String :=
  match owned.ns with
  | some ns => s!"{ns}/{owned.volume.name}"
  | none => owned.volume.name

/-- What refers to a volume; a store or a registry that cannot be read refers to nothing. -/
def volumeRefs (store : Store) (registry : Registry) (home : Option Records) (name : String)
    : VolumeRefs :=
  match inspect home name with
  | none => ⟨[], []⟩
  | some vol =>
      { containers := ((containersOf registry).filter (·.uses vol.mountpoint)).map Container.describe
        shares :=
          (((listAll store).toOption.getD []).filter fun owned =>
            owned.volume.mountpoint ≠ vol.mountpoint
              && startsWith owned.volume.mountpoint vol.mountpoint).map OwnedVolume.planName }

inductive Scope where
  | unowned
  | ofNamespace (ns : String)
  | everything
deriving DecidableEq, Repr

def Scope.covers (scope : Scope) (ns : Option String) : Bool :=
  match scope with
  | .unowned => ns.isNone
  | .ofNamespace mine => ns == some mine
  | .everything => true

structure VolumeFacts where
  name : String
  ns : Option String
  mountpoint : String
  driver : String
  provisioned : Bool
  /-- A container references it, running or stopped. -/
  referenced : Bool
  pool : Option String
  inScope : Bool
deriving DecidableEq, Repr

def VolumeFacts.qualified (v : VolumeFacts) : String :=
  match v.ns with
  | some ns => s!"{ns}/{v.name}"
  | none => v.name

def provenanceAnnotation : String := "delonix.io/provisioned-by"

/-- The store a volume lives in. -/
def homeOf (store : Store) (ns : Option String) (inScope : Bool) : Except Error (Option Records) :=
  match ns with
  | none => .ok store.root
  | some name =>
      if inScope then
        match store.nsDir.namespaces.find? (·.1 = name) with
        | some (_, .records records) => .ok (some records)
        | some (_, .unlisted) => .ok none
        | some (_, .unopened) | none => .error .unopened
      else .ok store.root

def factsOf (store : Store) (registry : Registry) (scope : Scope) (owned : OwnedVolume)
    : Except Error VolumeFacts := do
  let inScope := scope.covers owned.ns
  let home ← homeOf store owned.ns inScope
  return {
    name := owned.volume.name
    ns := owned.ns
    mountpoint := owned.volume.mountpoint
    driver := owned.volume.driver
    provisioned := owned.volume.annotations.any fun pair => pair.1 == provenanceAnnotation
    referenced :=
      inScope && !(volumeRefs store registry home owned.volume.name).containers.isEmpty
    pool := owned.volume.pool
    inScope }

def volumeFacts (store : Store) (registry : Registry) (scope : Scope)
    : Except Error (List VolumeFacts) := do
  (← listAll store).mapM (factsOf store registry scope)

inductive Keep where
  | inUse
  | shareOf (parent : String)
  | holdsShares (children : List String)
  | provisioned
  | networkDriver (driver : String)
  | inPool (pool : String)
deriving DecidableEq, Repr

/-- Another volume whose mountpoint this one's lies under; a volume is told by its mountpoint. -/
def parentOf (vols : List VolumeFacts) (v : VolumeFacts) : Option VolumeFacts :=
  vols.find? fun o => o.mountpoint ≠ v.mountpoint && startsWith v.mountpoint o.mountpoint

def childrenOf (vols : List VolumeFacts) (v : VolumeFacts) : List VolumeFacts :=
  vols.filter fun o => o.mountpoint ≠ v.mountpoint && startsWith o.mountpoint v.mountpoint

/-- Why a volume in scope is kept; none when it is taken. -/
def keepReason (vols : List VolumeFacts) (v : VolumeFacts) : Option Keep :=
  if v.referenced then some .inUse
  else
    match parentOf vols v with
    | some p => some (.shareOf p.qualified)
    | none =>
        if !(childrenOf vols v).isEmpty then
          some (.holdsShares ((childrenOf vols v).map VolumeFacts.qualified))
        else
          match v.pool with
          | some pool => some (.inPool pool)
          | none =>
              if v.provisioned then some .provisioned
              else if isNetworkDriver v.driver then some (.networkDriver v.driver)
              else none

/-- What is taken, and what is kept with the reason; a volume out of scope is neither. -/
def classifyVolumes (vols : List VolumeFacts) : List VolumeFacts × List (VolumeFacts × Keep) :=
  let mine := vols.filter (·.inScope)
  (mine.filter fun v => (keepReason vols v).isNone,
    mine.filterMap fun v => (keepReason vols v).map fun why => (v, why))

/-- What a prune takes; nothing when it cannot tell. -/
def taken (store : Store) (registry : Registry) (scope : Scope) : List VolumeFacts :=
  match volumeFacts store registry scope with
  | .ok vols => (classifyVolumes vols).1
  | .error _ => []

end Delonix.Prune
