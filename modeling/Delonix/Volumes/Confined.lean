import Delonix.Library.FileTree
import Delonix.Library.Faults
import Delonix.Volumes.Store

/-! Where the store's calls go. A call runs against a file system that may answer anything, and
every path it reads, writes or deletes is logged. What the mount table, a host tool's device or a
bind source names is no path made of a volume's name, and is not.
-/

namespace Delonix.Volumes

open Delonix.Library.Faults Delonix.Library.FileTree Delonix.Library.Logged

inductive Access where
  | touch (path : Path)
  | write (path : Path) (vol : Volume)
deriving DecidableEq, Repr

def Access.path : Access → Path
  | .touch p => p
  | .write p _ => p

/-- A record as the store writes it: the name in it was checked. -/
abbrev NamedVolume := { vol : Volume // validName vol.name = true }

/-- What the system answers, whatever it was asked before. A directory lists no dots. -/
structure Disk where
  stands : List Access → Path → Bool
  record : List Access → Path → Except Error NamedVolume
  mountTable : List Access → Option (List Char)
  command : List Access → String → List Arg → Except String Output
  listing : List Access → Path → Except Error (List (Option { name : String // plainName name = true }))
  isDir : List Access → Path → Bool
  removed : List Access → Path → Except Error Unit
  written : List Access → Path → Except Error Unit
  usage : List Access → Path → Usage
  size : List Access → Path → Option Nat
  canonicalize : List Access → String → Except Error String
  now : List Access → Nat

abbrev DiskProg := LogProg Access Error

def Arg.access : Arg → Option Access
  | .path p => some (.touch p)
  | .text _ => none

namespace Disk

variable (disk : Disk)

def touching {α : Type} (path : Path) (answer : List Access → Path → α) : DiskProg α :=
  entry (.touch path) fun log => .ok (answer log path)

def trying {α : Type} (path : Path) (answer : List Access → Path → Except Error α) : DiskProg α :=
  entry (.touch path) fun log => answer log path

def fs : FullFs (List Access) where
  stands path := touching path disk.stands
  readRecord path := trying path fun log p => (disk.record log p).map (·.1)
  mountTable := entries [] disk.mountTable
  command name args := entries (args.filterMap Arg.access) fun log => disk.command log name args
  listing path :=
    trying path fun log p => (disk.listing log p).map fun names => names.map (·.map (·.1))
  isDir path := touching path disk.isDir
  removeTree path := trying path disk.removed
  removeFile path := trying path disk.removed
  removeDir path := trying path disk.removed
  writeRecord path vol := entry (.write path vol) fun log => disk.written log path
  makeDirs path := trying path disk.written
  usage path := touching path disk.usage
  size path := touching path disk.size
  canonicalize text := fun log =>
    (match disk.canonicalize log text with
      | .ok real => .ok real
      | .error reason => .error (.refused reason), log)
  now := entries [] disk.now

/-- A mapped remover is handed the path and answers nothing. -/
def mappedRemover : Path → DiskProg Unit := fun path => entries [.touch path] fun _ => ()

end Disk

/-- The entries allowed include all those of a volume. -/
structure Covers (each : Access → Prop) (store : Path) (name : String) : Prop where
  touched : ∀ rest, Descends rest → each (.touch (dir store name ++ rest))
  wrote : ∀ vol, validName vol.name = true → each (.write (metaPath store name) vol)

/-- A record that names a checked volume. -/
def Named (vol : Volume) : Prop := validName vol.name = true

section

variable {α : Type} {start : List Access} {each : Access → Prop} {post : α → Prop} {disk : Disk}
  {store : Path} {name : String}

theorem adds_touching {path : Path} {answer : List Access → Path → α}
    (answers : ∀ log, post (answer log path))
    : Adds [.touch path] each post (Disk.touching path answer) :=
  Adds.entry fun log a is => by cases is; exact answers log

theorem opens_look {path : Path} {answer : List Access → Path → α}
    : Adds [.touch path] each (fun _ => True) (Disk.touching path answer) :=
  adds_touching fun _ => trivial

theorem adds_trying {path : Path} {answer : List Access → Path → Except Error α}
    : Adds [.touch path] each (fun _ => True) (Disk.trying path answer) :=
  Adds.entry fun _ _ _ => trivial

/-- Looking at a path that may be touched. -/
theorem adds_look {path : Path} {answer : List Access → Path → α} (may : each (.touch path))
    : Adds [] each (fun _ => True) (Disk.touching path answer) :=
  opens_look.allowed may

theorem adds_tried {prog : DiskProg α} (adds : Adds start each post prog)
    : Adds start each (fun _ => True) (tried prog) := by
  refine Adds.onRefusal ?_ fun _ => Adds.pure trivial
  exact Adds.bind adds fun _ _ => Adds.pure trivial

theorem adds_refuseUnless {good : Bool} {error : Error}
    : Adds [] each (fun _ => True) (refuseUnless good error) := by
  cases good
  · exact Adds.refuse
  · exact Adds.pure trivial

theorem adds_isMounted (path : String)
    : Adds [] each (fun _ => True) (disk.fs.isMounted path) := by
  refine Adds.next Adds.entries_any ?_
  intro table
  cases table <;> exact Adds.pure trivial

theorem adds_command {cmd : String} {args : List Arg}
    (may : ∀ arg ∈ args, ∀ access, arg.access = some access → each access)
    : Adds [] each (fun _ => True) (disk.fs.command cmd args) := by
  refine Adds.entries_any.anywhere ?_
  intro access member
  obtain ⟨arg, inArgs, is⟩ := List.mem_filterMap.mp member
  exact may arg inArgs access is

theorem adds_run {cmd : String} {args : List Arg}
    (may : ∀ arg ∈ args, ∀ access, arg.access = some access → each access)
    : Adds [] each (fun _ => True) (disk.fs.run cmd args) := by
  refine Adds.next (adds_command may) ?_
  intro result
  cases result with
  | error => exact Adds.refuse
  | ok out => exact adds_refuseUnless

theorem Covers.inDir (covers : Covers each store name) {part : String} (down : part ≠ "..")
    : each (.touch (dir store name ++ [part])) :=
  covers.touched [part] (by simpa [Descends] using Ne.symm down)

theorem Covers.dir (covers : Covers each store name) : each (.touch (dir store name)) := by
  have all := covers.touched [] (by simp [Descends])
  rwa [List.append_nil] at all

theorem Covers.meta (covers : Covers each store name) : each (.touch (metaPath store name)) :=
  covers.inDir (by decide)

theorem Covers.data (covers : Covers each store name) : each (.touch (dataDir store name)) :=
  covers.inDir (by decide)

theorem Covers.img (covers : Covers each store name) : each (.touch (loopImg store name)) :=
  covers.inDir (by decide)

/-- Reading a volume begins with its record. -/
theorem opens_inspect (covers : Covers each store name)
    : Adds [.touch (metaPath store name)] each Named (disk.fs.inspect store name) := by
  refine Adds.next opens_look ?_
  intro found
  cases found
  case false => exact Adds.refuse
  case true =>
    refine Adds.allowed ?_ covers.meta
    refine Adds.entry ?_
    intro log vol is
    cases read : disk.record log (metaPath store name) with
    | error => simp [read, Except.map] at is
    | ok named =>
        simp only [read, Except.map, Except.ok.injEq] at is
        exact is ▸ named.2

theorem adds_inspect (covers : Covers each store name)
    : Adds [] each Named (disk.fs.inspect store name) :=
  (opens_inspect covers).allowed covers.meta

theorem adds_unmount (covers : Covers each store name)
    : Adds [] each (fun _ => True) (disk.fs.unmount store name) := by
  refine Adds.next (adds_tried (adds_inspect covers)) ?_
  intro found
  cases found with
  | none => exact Adds.pure trivial
  | some vol =>
      dsimp only
      split
      case isFalse => exact Adds.pure trivial
      case isTrue =>
        refine Adds.next (adds_isMounted _) ?_
        intro mounted
        cases mounted
        case false => exact Adds.pure trivial
        case true =>
          refine Adds.next (adds_command ?_) fun _ => Adds.pure trivial
          simp [Arg.access]

theorem adds_removeEntry {rmtree : Option (Path → DiskProg Unit)} {path : Path}
    (mapped : ∀ rm, rmtree = some rm → Adds [.touch path] each (fun _ => True) (rm path))
    (may : each (.touch path))
    : Adds [] each (fun _ => True) (disk.fs.removeEntry rmtree path) := by
  refine Adds.next (adds_look may) ?_
  intro isDir
  cases isDir
  case false => exact adds_trying.allowed may
  case true =>
    refine Adds.next ?_ ?_
    · cases rmtree with
      | none => exact Adds.pure trivial
      | some rm => exact (mapped rm rfl).allowed may
    · intro _
      refine Adds.next (adds_look may) ?_
      intro left
      cases left
      · exact Adds.pure trivial
      · exact adds_trying.allowed may

/-- Every entry of the directory is removed there, by induction over them. -/
theorem adds_removeEntries {rmtree : Option (Path → DiskProg Unit)} (covers : Covers each store name)
    (mapped : ∀ rm, rmtree = some rm → ∀ path, Adds [.touch path] each (fun _ => True) (rm path))
    {entries : List (Option String)} (plain : ∀ entry, some entry ∈ entries → entry ≠ "..")
    : Adds [] each (fun _ => True) (disk.fs.removeEntries rmtree (dir store name) entries) := by
  induction entries with
  | nil => exact Adds.pure trivial
  | cons head rest ih =>
      cases head with
      | none => exact Adds.refuse
      | some entry =>
          refine Adds.next ?_ ?_
          · split
            · exact Adds.pure trivial
            · exact adds_removeEntry (fun rm is => mapped rm is _)
                (covers.inDir (plain entry List.mem_cons_self))
          · intro _
            exact ih fun later member => plain later (List.mem_cons_of_mem _ member)

theorem adds_listing (path : Path)
    : Adds [.touch path] each (fun entries => ∀ entry, some entry ∈ entries → entry ≠ "..")
        (disk.fs.listing path) := by
  refine Adds.entry ?_
  intro log entries is entry member
  cases listed : disk.listing log path with
  | error => simp [listed, Except.map] at is
  | ok names =>
      simp only [listed, Except.map, Except.ok.injEq] at is
      subst is
      obtain ⟨name, _, is⟩ := List.mem_map.mp member
      cases name with
      | none => cases is
      | some plain =>
          have kept := plain.2
          simp only [plainName, Bool.and_eq_true, decide_eq_true_eq] at kept
          cases is
          exact kept.2

theorem opens_removeWith {rmtree : Option (Path → DiskProg Unit)} (covers : Covers each store name)
    (mapped : ∀ rm, rmtree = some rm → ∀ path, Adds [.touch path] each (fun _ => True) (rm path))
    : Adds [.touch (dir store name)] each (fun _ => True)
        (disk.fs.removeWith store rmtree name) := by
  refine Adds.next opens_look ?_
  intro found
  cases found
  case false => exact Adds.refuse
  case true =>
    refine Adds.next (adds_unmount covers) fun _ => ?_
    refine Adds.bind ((adds_listing _).allowed covers.dir) fun entries plain => ?_
    refine Adds.next (adds_removeEntries covers mapped plain) fun _ => ?_
    refine Adds.next ?_ fun _ => adds_trying.allowed covers.dir
    refine Adds.next (adds_look covers.meta) ?_
    intro left
    cases left
    · exact Adds.pure trivial
    · exact adds_trying.allowed covers.meta

end

end Delonix.Volumes
