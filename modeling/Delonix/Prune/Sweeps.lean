import Delonix.Images.Records
import Delonix.Library.Words
import Mathlib.Data.List.Infix

/-! The sweeps of a prune: stopped containers and the directories nobody owns, images with their
blobs and extracted layers, networks and build cache; and the plan behind a dry run, which reads
the same stores before any of them ran.
-/

namespace Delonix.Prune.Sweeps

open Delonix.Images Delonix.Library.Text Delonix.Library.Words

/-- A registered container, with the layers its `overlay-lowers` file names. -/
structure Registered where
  id : String
  name : String
  image : String
  live : Bool
  network : Option String
  lowers : List Digest
deriving DecidableEq

structure Registry where
  all : List Registered
  unique : (all.map (·.id)).Nodup

structure Entry where
  name : String
  isDir : Bool
  /-- The seconds since it was last modified, when that can be told. -/
  age : Option Nat
deriving DecidableEq

/-- A directory; one that does not exist has no entries. -/
@[ext] structure Listing where
  entries : List Entry
  unique : (entries.map (·.name)).Nodup

def Listing.without (doomed : Entry → Bool) (listing : Listing) : Listing where
  entries := listing.entries.filter fun e => !doomed e
  unique := listing.unique.sublist (List.filter_sublist.map _)

/-- A line of some process's mount table. -/
structure Mount where
  line : String
  /-- The container whose `merged` it is mounted on, where an unmount of that reaches it. -/
  mergedOf : Option String
deriving DecidableEq

structure World where
  registry : Registry
  containers : Listing
  images : Records
  blobs : Listing
  layersDir : String
  layers : Listing
  mounts : List Mount
  networks : List String
  buildCache : Listing

def contains (needle text : String) : Bool := needle.toList <:+: text.toList

/-- The images the given containers were made from, as their records spell them. -/
def inUse (containers : List Registered) : List String := containers.map (·.image)

/-- Dangling images, or all of them, where no container spells the image as its record does. -/
def imageIsDoomed (id : String) (repoTags : List String) (inUse : List String) (all : Bool)
    : Bool :=
  let dangling := repoTags.isEmpty || repoTags.all (contains "<none>")
  let used := inUse.contains id || repoTags.any inUse.contains
  (dangling || all) && !used

/-- The image as its record gives it to `imageIsDoomed`. -/
def doomed (used : List String) (all : Bool) (img : Image) : Bool :=
  imageIsDoomed img.id.text img.repoTags used all

/-- What an image is removed by: each of its tags, or its id when it has none. -/
def removalNames (img : Image) : List String :=
  if img.repoTags.isEmpty then [img.id.text] else img.repoTags

def doomedImages (used : List String) (all : Bool) (images : Records) : List Image :=
  images.list.filter (doomed used all)

def sweptNames (used : List String) (all : Bool) (images : Records) : List String :=
  (doomedImages used all images).flatMap removalNames

def referenced (images : List Image) : List String :=
  images.flatMap fun img => strip img.id.text :: img.layers.map fun l => strip l.text

def orphanBlob (referenced : List String) (blob : Entry) : Bool :=
  !(['.'].isPrefixOf blob.name.toList) && !referenced.contains blob.name

/-- The digests that follow the needle; the scan goes on behind each needle it finds. -/
def hexesAfter (needle : List Char) : (skip : Nat) → List Char → List (List Char)
  | _, [] => []
  | skip + 1, _ :: rest => hexesAfter needle skip rest
  | 0, c :: rest =>
      match stripStart needle (c :: rest) with
      | some after =>
          after.takeWhile isHexDigit :: hexesAfter needle (needle.length - 1) rest
      | none => hexesAfter needle 0 rest

def parseMountedLayerHexes (mountinfo layersDir : String) : List String :=
  (lines mountinfo.toList).flatMap fun line =>
    ((hexesAfter (layersDir ++ "/").toList 0 line).filter (·.length = 64)).map String.ofList

def layersInUseNow (layersDir : String) (mounts : List Mount) : List String :=
  mounts.flatMap fun mount => parseMountedLayerHexes mount.line layersDir

def layersToKeep (layersDir : String) (mounts : List Mount) (referenced : List String)
    : List String :=
  referenced ++ layersInUseNow layersDir mounts

/-- Scratch of an extraction under way. -/
def isScratch (name : String) : Bool :=
  ['.'].isPrefixOf name.toList || ".tmp".toList.isSuffixOf name.toList

/-- The layer an entry of `layers` belongs to. -/
def layerOf (name : String) : String :=
  match stripSuffix ".owners".toList name.toList with
  | some hex => String.ofList hex
  | none =>
      match stripSuffix ".modes".toList name.toList with
      | some hex => String.ofList hex
      | none => name

def orphanLayer (keep : List String) (entry : Entry) : Bool :=
  !isScratch entry.name && !keep.contains (layerOf entry.name)

def sweepImages (all : Bool) (world : World) : World :=
  let images := world.images.removeAll (sweptNames (inUse world.registry.all) all world.images)
  let referenced := referenced images.list
  { world with
    images
    blobs := world.blobs.without (orphanBlob referenced)
    layers := world.layers.without
      (orphanLayer (layersToKeep world.layersDir world.mounts referenced)) }

def Registry.live (registry : Registry) : List Registered := registry.all.filter (·.live)

def Registry.stopped (registry : Registry) : List Registered :=
  registry.all.filter fun c => !c.live

/-- The directory of the container. -/
def ownDir (ids : List String) (entry : Entry) : Bool := entry.isDir && ids.contains entry.name

/-- The directories of no such container. -/
def orphanContainerDir (live : List String) (entry : Entry) : Bool :=
  entry.isDir && !live.contains entry.name

/-- The stopped containers go with their directories and mounts, then the directories of
containers that are not registered.
-/
def sweepContainers (world : World) : World :=
  let stopped := world.registry.stopped.map (·.id)
  let registry : Registry :=
    ⟨world.registry.live, world.registry.unique.sublist (List.filter_sublist.map _)⟩
  { world with
    registry
    mounts := world.mounts.filter fun mount => !(mount.mergedOf.any stopped.contains)
    containers := (world.containers.without (ownDir stopped)).without
      (orphanContainerDir (registry.all.map (·.id))) }

def attached (containers : List Registered) : List String := containers.filterMap (·.network)

def doomedNetwork (attached : List String) (network : String) : Bool :=
  "dlx-".toList.isPrefixOf network.toList && !attached.contains network

def sweepNetworks (world : World) : World :=
  { world with
    networks :=
      world.networks.filter fun net => !doomedNetwork (attached world.registry.all) net }

def buildCacheTtlDays : Nat := 7

def buildCacheIsStale (ageSecs : Option Nat) (ttlDays : Nat) : Bool :=
  ageSecs.any fun age => ttlDays * 24 * 60 * 60 < age

/-- Interrupted snapshots, and entries no build has used for a week. -/
def doomedCache (entry : Entry) : Bool :=
  ['.'].isPrefixOf entry.name.toList || buildCacheIsStale entry.age buildCacheTtlDays

def sweepBuildCache (world : World) : World :=
  { world with buildCache := world.buildCache.without doomedCache }

/-- One prune, every removal of which succeeds. -/
def prune (all : Bool) (world : World) : World :=
  sweepBuildCache (sweepNetworks (sweepImages all (sweepContainers world)))

inductive Place where
  | containers
  | blobs
  | layers
  | buildCache
deriving DecidableEq

structure Path where
  place : Place
  name : String
deriving DecidableEq

/-- What a prune would take: each list of paths is what a count and its bytes are taken of. -/
structure PrunePlan where
  containers : List String
  containersMeasured : List Path
  images : List String
  dirs : List Path
  blobs : List Path
  layers : List Path
  networks : List String
  buildCache : List Path

/-- An image by its tags, or by its id when it has none. -/
def label (img : Image) : String :=
  if img.repoTags.isEmpty then img.id.text else String.intercalate ", " img.repoTags

def Listing.paths (place : Place) (listing : Listing) (counted : Entry → Bool) : List Path :=
  (listing.entries.filter counted).map fun e => ⟨place, e.name⟩

def plan (all : Bool) (world : World) : PrunePlan :=
  let liveIds := world.registry.live.map (·.id)
  let used := inUse world.registry.all
  let referenced := referenced (world.images.list.filter fun img => !doomed used all img)
  { containers := world.registry.stopped.map (·.name)
    containersMeasured := world.registry.stopped.map fun c => ⟨.containers, c.id⟩
    images := (doomedImages used all world.images).map label
    dirs := world.containers.paths .containers (orphanContainerDir liveIds)
    blobs := world.blobs.paths .blobs (orphanBlob referenced)
    layers := world.layers.paths .layers
      (orphanLayer (layersToKeep world.layersDir world.mounts referenced))
    networks := world.networks.filter (doomedNetwork (attached world.registry.all))
    buildCache := world.buildCache.paths .buildCache doomedCache }

def PrunePlan.bytesA (measure : Path → Nat) (plan : PrunePlan) : Nat :=
  (plan.containersMeasured.map measure).sum

def PrunePlan.bytesB (measure : Path → Nat) (plan : PrunePlan) : Nat :=
  (plan.dirs.map measure).sum + (plan.blobs.map measure).sum + (plan.buildCache.map measure).sum
    + (plan.layers.map measure).sum

end Delonix.Prune.Sweeps
