import Delonix.Library.FileTree
import Delonix.Volumes.Store

/-! Removing a volume, on a file tree with mounts. The tree is what is seen from the root, through
whatever is mounted; a mount point and what stands above it cannot be unlinked. A look is answered
by what is there, and any other call may fail. What a removal unlinks is recorded with the mount
points of that moment.
-/

namespace Delonix.Volumes

open Delonix.Library.Faults Delonix.Library.FileTree

structure World where
  tree : Tree
  mounted : List Location
  unlinked : List (Location × List Location)
deriving DecidableEq, Repr

namespace World

variable (w : World)

def seen (location : Location) : Bool := (w.tree.lookup location).isSome

/-- At or above a mount point. -/
def busy (location : Location) : Bool := w.mounted.any fun point => location <+: point

/-- The names of the entries of a directory. -/
def entries (directory : Location) : List String :=
  (w.tree.filterMap fun entry =>
    if entry.1.dropLast = directory then entry.1.getLast? else none).dedup

/-- Unlinks what is seen and chosen, and is not busy. -/
def unlink (chosen : Location → Bool) : World :=
  let gone := fun location => chosen location && !w.busy location
  { w with
    tree := w.tree.without gone
    unlinked := (((w.tree.map Prod.fst).filter gone).map fun location => (location, w.mounted))
      ++ w.unlinked }

/-- What goes of a tree when these of its entries can be unlinked: a directory after all that it
holds.
-/
def part (picks : Location → Bool) (top location : Location) : Bool :=
  top <+: location
    && w.tree.all fun entry => !decide (location <+: entry.1) || picks entry.1

end World

/-- A volume that stands in its store, whether its record can be read, what the mount table says,
and what `umount` makes of the tree and the mounts.
-/
structure Scene where
  store : Path
  name : String
  volume : Volume
  inspects : Bool
  table : Option (List Char)
  umount : Tree → List Location → Tree × List Location
  tree : Tree
  mounted : List Location
  standing : tree.lookup (dir store name) = some .dir
  recorded : tree.lookup (metaPath store name) = some .file

inductive Step where
  | list
  | removeTree (path : Path)
  | removeFile (path : Path)
  | removeDir (path : Path)
deriving DecidableEq, Repr

/-- Which steps go wrong, in which order a directory is listed and where the listing breaks off,
what a removal that fails has unlinked by then, and what the injected remover, if any, unlinks.
-/
structure Host where
  faults : FaultPlan Step
  order : List String → List String
  perm : ∀ names, (order names).Perm names
  breaks : Option Nat
  picks : Location → Bool
  mapped : Option (Location → Bool)

abbrev WorldProg := Prog World Error

namespace Scene

variable (scene : Scene)

def start : World := ⟨scene.tree, scene.mounted, []⟩

/-- A removal that says whether it was done, or failed on the way. -/
def removing (host : Host) (step : Step) (does : World → Bool × World) (left : World → World)
    : WorldProg Unit := do
  match ← Prog.attempt host.faults step (fun w => some (does w)) left with
  | some true => pure ()
  | _ => Prog.refuse (.engine "remove")

/-- `remove_dir_all`, which ends with the directory gone or at something busy. -/
def treeRemoved (host : Host) (path : Path) (w : World) : Bool × World :=
  if w.busy path then (false, w.unlink (w.part host.picks path))
  else (true, w.unlink fun location => path <+: location)

/-- `remove_file`: anything but a directory. -/
def fileRemoved (path : Path) (w : World) : Bool × World :=
  match w.tree.lookup path with
  | some .dir | none => (false, w)
  | some _ => if w.busy path then (false, w) else (true, w.unlink (· == path))

/-- `remove_dir`: an empty directory. -/
def dirRemoved (path : Path) (w : World) : Bool × World :=
  if w.tree.lookup path = some .dir ∧ (w.entries path).isEmpty ∧ w.busy path = false then
    (true, w.unlink (· == path))
  else (false, w)

def listed (host : Host) (names : List String) : List (Option String) :=
  match host.breaks with
  | none => (host.order names).map some
  | some count => ((host.order names).take count).map some ++ [none]

def fs (host : Host) : Fs World where
  stands path := fun w => (.ok (w.seen path), w)
  readRecord _ := fun w =>
    (if scene.inspects then .ok scene.volume else .error (.refused (.engine "meta.json")), w)
  mountTable := fun w => (.ok scene.table, w)
  command name _ := fun w =>
    if name = "umount" then
      (.ok (.ok ⟨true, [], []⟩),
        { w with
          tree := (scene.umount w.tree w.mounted).1
          mounted := (scene.umount w.tree w.mounted).2 })
    else (.ok (.error name), w)
  listing path := do
    match ← Prog.attempt host.faults .list (fun w => some (w.entries path, w)) id with
    | some names => pure (listed host names)
    | none => Prog.refuse (.engine "read_dir")
  isDir path := fun w => (.ok (w.tree.lookup path == some .dir), w)
  removeTree path :=
    removing host (.removeTree path) (treeRemoved host path)
      fun w => w.unlink (w.part host.picks path)
  removeFile path := removing host (.removeFile path) (fileRemoved path) id
  removeDir path := removing host (.removeDir path) (dirRemoved path) id

def rmtree (host : Host) : Option (Path → WorldProg Unit) :=
  host.mapped.map fun picks path => fun w => (.ok (), w.unlink (w.part picks path))

def removeWith (host : Host) : Except (Stop Error) Unit × World :=
  (scene.fs host).removeWith scene.store (rmtree host) scene.name scene.start

def volumeDir : Location := dir scene.store scene.name

def record : Location := metaPath scene.store scene.name

def mountpoint : Location := components scene.volume.mountpoint

/-- Nothing below the mountpoint was unlinked while something was mounted there, and a removal that
stopped left the record or nothing in the directory.
-/
structure OwnData (host : Host) : Prop where
  unmounted : ∀ event ∈ (scene.removeWith host).2.unlinked,
    Below scene.mountpoint event.1 → scene.mountpoint ∉ event.2
  recorded : ∀ stop, (scene.removeWith host).1 = .error stop →
    (scene.removeWith host).2.seen scene.record = true
      ∨ (scene.removeWith host).2.entries scene.volumeDir = []

/-- Whether `umount` is run: the record was read and names a share or a quota, and the table lists
its mountpoint under the record's own spelling.
-/
def asksUmount : Bool :=
  scene.inspects
    && (isNetworkDriver scene.volume.driver || scene.volume.quotaBytes.isSome)
    && scene.table.any fun table => listsMount table scene.volume.mountpoint

/-- What the deletion finds. -/
def found : World :=
  if scene.asksUmount then
    { scene.start with
      tree := (scene.umount scene.tree scene.mounted).1
      mounted := (scene.umount scene.tree scene.mounted).2 }
  else scene.start

theorem inspect_start (host : Host)
    : (scene.fs host).inspect scene.store scene.name scene.start
      = (if scene.inspects then .ok scene.volume
          else .error (.refused (.engine "meta.json")), scene.start) := by
  have stands : (scene.fs host).stands (metaPath scene.store scene.name) scene.start
      = (.ok true, scene.start) := by
    simp [fs, World.seen, start, scene.recorded]
  rw [Fs.inspect, Prog.bind_apply, stands]
  rfl

theorem isMounted_start (host : Host) (path : String)
    : (scene.fs host).isMounted path scene.start
      = (.ok (scene.table.any fun table => listsMount table path), scene.start) := by
  have read : (scene.fs host).mountTable scene.start = (.ok scene.table, scene.start) := rfl
  rw [Fs.isMounted, Prog.bind_apply, read]
  cases scene.table <;> rfl

theorem unmount_found (host : Host)
    : (scene.fs host).unmount scene.store scene.name scene.start = (.ok (), scene.found) := by
  rw [Fs.unmount, Prog.bind_apply, tried_apply, inspect_start, found, asksUmount]
  cases scene.inspects
  case false => rfl
  case true =>
    simp only [if_true, Bool.true_and]
    cases isNetworkDriver scene.volume.driver || scene.volume.quotaBytes.isSome
    case false => rfl
    case true =>
      simp only [if_true, Bool.true_and]
      rw [Prog.bind_apply, isMounted_start]
      cases scene.table.any fun table => listsMount table scene.volume.mountpoint <;> rfl

end Scene

end Delonix.Volumes
