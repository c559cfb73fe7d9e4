import Delonix.Library.FileTree
import Delonix.Library.Text

/-! Whiteouts of a layer. An entry `.wh.<name>` asks to delete `<name>` beside it. The flat export
deletes it from the tree being built; the unpacker of single layers deletes whatever it already
unpacked there and leaves a device node for the overlay driver. What an entry that is no whiteout
unpacks to is up to the tar library, and is a parameter here.
-/

namespace Delonix.Images

open Delonix.Library.FileTree
open Delonix.Library.Text

-----------------------------------------------------------------------------------------
-- Entry paths
-----------------------------------------------------------------------------------------

inductive Component where
  | rootDir
  | curDir
  | parentDir
  | normal (name : String)
  deriving DecidableEq, Repr

def pieceComponent (piece : List Char) : Option Component :=
  match String.ofList piece with
  | "" | "." => none
  | ".." => some .parentDir
  | name => some (.normal name)

/-- `Path::components`: a dot counts only where it leads a relative path. -/
def components (path : String) : List Component :=
  let pieces := path.toList.splitOn '/'
  let lead :=
    if path.toList.head? = some '/' then [.rootDir]
    else if pieces.head? = some ['.'] then [.curDir] else []
  lead ++ pieces.filterMap pieceComponent

def fileName (path : List Component) : Option String :=
  match path.getLast? with
  | some (.normal name) => some name
  | _ => none

/-- The names of a path, or nothing if it has a component that is neither a name nor skipped. -/
def namesOf (skips : Component → Bool) : List Component → Option (List String)
  | [] => some []
  | .normal name :: rest => (namesOf skips rest).map (name :: ·)
  | component :: rest => if skips component then namesOf skips rest else none

/-- A relative path without `..`, that names something. -/
def safeRel (path : List Component) : Option (List String) :=
  (namesOf (· == .curDir) path).filter (· ≠ [])

/-- As `safeRel`, but a leading slash is dropped. -/
def relative (path : List Component) : Option (List String) :=
  (namesOf (fun c => c == .curDir || c == .rootDir) path).filter (· ≠ [])

/-- What a whiteout's name asks to delete. -/
def whiteoutTarget (name : String) : Option String :=
  (stripStart ".wh.".toList name.toList).map String.ofList

-----------------------------------------------------------------------------------------
-- Deleting
-----------------------------------------------------------------------------------------

/-- `Path::join`: joined with nothing, a path ends in a slash. -/
def joined (parent : List String) (name : String) : List String × Bool :=
  if name = "" then (parent, true) else (parent ++ [name], false)

/-- `remove_dir_all`, and `remove_file` if that fails. -/
def dirElseFile (tree : Tree) (path : List String) (slash : Bool) : Tree :=
  match tree.removeDirAll path slash with
  | (after, true) => after
  | (after, false) => (after.removeFile path slash).1

/-- `remove_file`, and then `remove_dir_all`. -/
def fileThenDir (tree : Tree) (path : List String) (slash : Bool) : Tree :=
  ((tree.removeFile path slash).1.removeDirAll path slash).1

/-- The names `read_dir` lists. -/
def children (tree : Tree) (directory : Location) : List String :=
  tree.filterMap fun (location, _) =>
    match location.getLast? with
    | some name =>
        if location.dropLast = directory ∧ plainName name = true then some name else none
    | none => none

/-- Every entry of an opaque directory goes. -/
def removeEach (tree : Tree) (parent : List String) (names : List String) : Tree :=
  names.foldl (fun tree name => dirElseFile tree (parent ++ [name]) false) tree

/-- `create_dir_all`, from a directory on. -/
def createDirsFrom (tree : Tree) : Location → List String → Tree
  | _, [] => tree
  | here, name :: rest =>
      match walk tree maxLinks here [name] with
      | some next => if tree.node next = some .dir then createDirsFrom tree next rest else tree
      | none =>
          if tree.node (here ++ [name]) = none ∧ plainName name = true then
            createDirsFrom ((here ++ [name], .dir) :: tree) (here ++ [name]) rest
          else tree

def createDirAll (tree : Tree) (path : List String) : Tree := createDirsFrom tree [] path

/-- One deletion for a whiteout: the tree it finds and the tree it leaves, the destination, the
directory the whiteout stands in and the name it asks to delete.
-/
structure Deletion where
  moment : Tree
  after : Tree
  dest : List String
  parent : List String
  name : String

-----------------------------------------------------------------------------------------
-- The two unpackers
-----------------------------------------------------------------------------------------

/-- A tar entry: its path, and what it unpacks to. -/
structure Entry where
  path : String
  content : Node
  deriving DecidableEq, Repr

inductive Unpacked where
  | done
  | failed
  | exceeded
  deriving DecidableEq, Repr

/-- `Entry::unpack_in` of the tar library: what it makes of the tree and how it ends. -/
abbrev UnpackIn := Tree → List String → Entry → Tree × Unpacked

/-- What one entry leads to: a deletion if it is a whiteout, the state after it, and whether the
unpacker goes on.
-/
structure Handled (State : Type) where
  deletion : Option Deletion
  state : State
  goesOn : Bool

/-- What an unpacker did: its deletions in order, the state it left, and whether it ended well. -/
structure Unpacking (State : Type) where
  deletions : List Deletion
  state : State
  ok : Bool

/-- The loop of both unpackers over the entries of the archive, under the ceiling on their
number.
-/
def entryLoop {State : Type} (handle : State → Entry → Handled State) (maxEntries : Nat)
    : Nat → State → List Entry → Unpacking State
  | _, state, [] => ⟨[], state, true⟩
  | count, state, entry :: rest =>
      if maxEntries < count + 1 then ⟨[], state, false⟩
      else
        let handled := handle state entry
        if handled.goesOn then
          let later := entryLoop handle maxEntries (count + 1) handled.state rest
          { later with deletions := handled.deletion.toList ++ later.deletions }
        else ⟨handled.deletion.toList, handled.state, false⟩

/-- The whiteout branch of the flat export. The directory the whiteout stands in must resolve
inside the destination.
-/
def flatWhiteout (tree : Tree) (dest : List String) (safe : List String) (target : String)
    : Option Deletion :=
  let parent := dest ++ safe.dropLast
  match tree.resolve parent, tree.resolve dest with
  | some canonParent, some canonDest =>
      if canonDest <+: canonParent then
        let after :=
          if target = ".wh..opq" then removeEach tree parent (children tree canonParent)
          else dirElseFile tree (joined parent target).1 (joined parent target).2
        some ⟨tree, after, dest, parent, target⟩
      else none
  | _, _ => none

/-- Before an entry is unpacked, the directory it stands in is made. -/
def prepared (tree : Tree) (dest : List String) (path : List Component) : Tree :=
  match safeRel path with
  | some rel =>
      if rel.dropLast = [] then tree else createDirAll tree (dest ++ rel.dropLast)
  | none => tree

/-- One entry of the flat export. An entry that cannot be unpacked is skipped, unless the layer
went past a limit.
-/
def flatEntry (unpackIn : UnpackIn) (dest : List String) (tree : Tree) (entry : Entry)
    : Handled Tree :=
  let path := components entry.path
  match whiteoutTarget ((fileName path).getD "") with
  | some target =>
      let deletion := (safeRel path).bind (flatWhiteout tree dest · target)
      ⟨deletion, (deletion.map Deletion.after).getD tree, true⟩
  | none =>
      let (tree, unpacked) := unpackIn (prepared tree dest path) dest entry
      ⟨none, tree, unpacked != .exceeded⟩

def applyLayerFlatLimited (unpackIn : UnpackIn) (dest : List String) (maxEntries : Nat)
    (tree : Tree) (entries : List Entry)
    : Unpacking Tree :=
  entryLoop (flatEntry unpackIn dest) maxEntries 0 tree entries

/-- `write_overlay_whiteout` up to the device node, at a name beside the whiteout. -/
def overlayDeletion (tree : Tree) (dst parent : List String) (name : String) : Deletion :=
  let moment := createDirAll tree (if name = "" ∨ name = "." then parent.dropLast else parent)
  ⟨moment, fileThenDir moment (joined parent name).1 (joined parent name).2, dst, parent, name⟩

/-- Then the device node, where the host lets the caller make one. -/
def mknod (tree : Tree) (allowed : Bool) (path : List String) (slash : Bool) : Tree :=
  match tree.look path slash with
  | some location =>
      if allowed && namesEntry path slash && (tree.node location).isNone then
        (location, .device) :: tree
      else tree
  | none => tree

/-- The tree of a single layer, and the directories still to be unpacked. -/
structure LayerState where
  tree : Tree
  directories : List Entry

/-- An entry that is no whiteout: directories wait, and nothing may fail. -/
def plainEntry (unpackIn : UnpackIn) (dst : List String) (state : LayerState) (entry : Entry)
    : Handled LayerState :=
  if entry.content = .dir then
    ⟨none, { state with directories := state.directories ++ [entry] }, true⟩
  else
    let (tree, unpacked) := unpackIn state.tree dst entry
    ⟨none, { state with tree := tree }, unpacked == .done⟩

/-- One entry of a single layer. -/
def layerEntry (unpackIn : UnpackIn) (allowed : Bool) (dst : List String) (state : LayerState)
    (entry : Entry)
    : Handled LayerState :=
  match relative (components entry.path) with
  | none => plainEntry unpackIn dst state entry
  | some rel =>
      let base := rel.getLast?.getD ""
      if base = ".wh..wh..opq" then ⟨none, state, true⟩
      else
        match whiteoutTarget base with
        | none => plainEntry unpackIn dst state entry
        | some name =>
            let parent := dst ++ rel.dropLast
            let deletion := overlayDeletion state.tree dst parent name
            let (path, slash) := joined parent name
            ⟨some deletion, { state with tree := mknod deletion.after allowed path slash }, true⟩

/-- The directories come last, deepest first. -/
def unpackDirectories (unpackIn : UnpackIn) (dst : List String)
    : Tree → List Entry → Tree × Bool
  | tree, [] => (tree, true)
  | tree, entry :: rest =>
      match unpackIn tree dst entry with
      | (tree, .done) => unpackDirectories unpackIn dst tree rest
      | (tree, _) => (tree, false)

/-- The destination is made if nothing stands there. -/
def ensured (tree : Tree) (dst : List String) : Tree :=
  if (tree.look dst false).bind tree.node = none then createDirAll tree dst else tree

def unpackRecordingLimited (unpackIn : UnpackIn) (allowed : Bool) (dst : List String)
    (maxEntries : Nat) (tree : Tree) (entries : List Entry)
    : Unpacking Tree :=
  let tree := ensured tree dst
  let dst := (tree.resolve dst).getD dst
  let unpacked := entryLoop (layerEntry unpackIn allowed dst) maxEntries 0 ⟨tree, []⟩ entries
  if unpacked.ok then
    let directories := unpacked.state.directories.mergeSort fun a b => b.path ≤ a.path
    let (tree, ok) := unpackDirectories unpackIn dst unpacked.state.tree directories
    ⟨unpacked.deletions, tree, ok⟩
  else ⟨unpacked.deletions, unpacked.state.tree, false⟩

-----------------------------------------------------------------------------------------
-- Deletions inside the destination
-----------------------------------------------------------------------------------------

/-- Everything the deletion takes away lies strictly below where the destination is. -/
def Deletion.Confined (deletion : Deletion) : Prop :=
  ∀ location, Lost deletion.moment deletion.after location
    → ∃ top, deletion.moment.resolve deletion.dest = some top ∧ Below top location

instance (deletion : Deletion) : Decidable deletion.Confined :=
  decidable_of_iff (∀ location ∈ deletion.moment.map Prod.fst,
      location ∈ deletion.after.map Prod.fst
      ∨ (deletion.moment.resolve deletion.dest).any (fun top => Below top location) = true)
    (by
      simp only [Deletion.Confined, Lost, Option.any_eq_true, decide_eq_true_eq, and_imp]
      exact forall₂_congr fun _ _ => or_iff_not_imp_left)

/-- A whiteout that stands in the destination itself does not name it: a `.wh.` there would
remove the destination, a `.wh...` what lies beside it.
-/
def Deletion.RootKept (deletion : Deletion) : Prop :=
  ∀ top, deletion.moment.resolve deletion.dest = some top
    → deletion.moment.resolve deletion.parent = some top
    → (deletion.name = "" → ¬ NamesDir deletion.moment deletion.parent top)
      ∧ (deletion.name = ".." → top = [])

/-- The directory the whiteout stands in resolves inside the destination. -/
def Deletion.Inside (deletion : Deletion) : Prop :=
  ∀ directory, deletion.moment.resolve deletion.parent = some directory
    → ∃ top, deletion.moment.resolve deletion.dest = some top ∧ top <+: directory

theorem lost_dirElseFile {tree : Tree} {path : List String} {slash : Bool} {location : Location}
    (lost : Lost tree (dirElseFile tree path slash) location)
    : Reaches tree path slash location := by
  simp only [dirElseFile] at lost
  split at lost
  case h_1 after removed =>
    obtain rfl : (tree.removeDirAll path slash).1 = after := congrArg Prod.fst removed
    exact lost_removeDirAll lost
  case h_2 after removed =>
    obtain rfl : (tree.removeDirAll path slash).1 = after := congrArg Prod.fst removed
    rcases lost.split (tree.removeDirAll path slash).1 with first | second
    · exact lost_removeDirAll first
    · exact (lost_removeFile second).mono (within_removeDirAll tree path slash)

theorem within_dirElseFile (tree : Tree) (path : List String) (slash : Bool)
    : (dirElseFile tree path slash).Within tree := by
  have within := within_removeDirAll tree path slash
  simp only [dirElseFile]
  split
  case h_1 after removed =>
    rw [removed] at within
    exact within
  case h_2 after removed =>
    rw [removed] at within
    exact (within_removeFile after path slash).trans within

theorem lost_fileThenDir {tree : Tree} {path : List String} {slash : Bool} {location : Location}
    (lost : Lost tree (fileThenDir tree path slash) location)
    : Reaches tree path slash location := by
  rcases lost.split (tree.removeFile path slash).1 with first | second
  · exact lost_removeFile first
  · exact (lost_removeDirAll second).mono (within_removeFile tree path slash)

theorem lost_removeEach {tree : Tree} {parent : List String} {names : List String}
    {location : Location} (lost : Lost tree (removeEach tree parent names) location)
    : ∃ name ∈ names, Reaches tree (parent ++ [name]) false location := by
  induction names generalizing tree with
  | nil => exact absurd lost not_lost_self
  | cons name rest ih =>
      rcases lost.split (dirElseFile tree (parent ++ [name]) false) with first | later
      · exact ⟨name, List.mem_cons_self, lost_dirElseFile first⟩
      · obtain ⟨other, member, reaches⟩ := ih later
        exact ⟨other, List.mem_cons_of_mem _ member, reaches.mono (within_dirElseFile _ _ _)⟩

/-- A deletion by name stays inside, if the directory is inside and the name is not the
destination's own.
-/
theorem below_of_reaches {deletion : Deletion} (inside : deletion.Inside)
    (kept : deletion.RootKept) {location : Location}
    (reaches : Reaches deletion.moment (joined deletion.parent deletion.name).1
      (joined deletion.parent deletion.name).2 location)
    : ∃ top, deletion.moment.resolve deletion.dest = some top ∧ Below top location := by
  by_cases plain : plainName deletion.name = true
  · have named : deletion.name ≠ "" := by
      intro empty
      simp [empty, plainName] at plain
    simp only [joined, named, if_false] at reaches
    obtain ⟨directory, walked, within⟩ := reaches_plain plain reaches
    obtain ⟨top, dest, above⟩ := inside directory walked
    exact ⟨top, dest, below_concat above within⟩
  · have special : deletion.name = "" ∨ deletion.name = "." ∨ deletion.name = ".." := by
      simp only [plainName, Bool.and_eq_true, decide_eq_true_eq] at plain
      tauto
    rcases special with empty | dot | dots
    · simp only [joined, empty, if_true] at reaches
      obtain ⟨directory, walked, below | ⟨rfl, names⟩⟩ := reaches_slash reaches
      · obtain ⟨top, dest, above⟩ := inside directory walked
        exact ⟨top, dest, below_of_start above below⟩
      · obtain ⟨top, dest, above⟩ := inside location walked
        refine ⟨top, dest, above, ?_⟩
        rintro rfl
        exact (kept top dest walked).1 empty names
    · simp only [joined, dot] at reaches
      obtain ⟨directory, links, target, walked, last, below⟩ :=
        reaches_special (by decide) reaches
      obtain rfl := walk_dot last
      obtain ⟨top, dest, above⟩ := inside target walked
      exact ⟨top, dest, below_of_start above below⟩
    · simp only [joined, dots] at reaches
      obtain ⟨directory, links, target, walked, last, below⟩ :=
        reaches_special (by decide) reaches
      obtain rfl := walk_dots last
      obtain ⟨top, dest, above⟩ := inside directory walked
      refine ⟨top, dest, below_of_start ?_ below⟩
      by_cases same : directory = top
      · subst same
        simp [(kept directory dest walked).2 dots]
      · exact prefix_dropLast above (Ne.symm same)

/-- Each deletion of the loop was made for some entry. -/
theorem mem_entryLoop {State : Type} {handle : State → Entry → Handled State}
    {maxEntries count : Nat} {state : State} {entries : List Entry} {deletion : Deletion}
    (member : deletion ∈ (entryLoop handle maxEntries count state entries).deletions)
    : ∃ state, ∃ entry ∈ entries, (handle state entry).deletion = some deletion := by
  induction entries generalizing count state with
  | nil => simp [entryLoop] at member
  | cons entry rest ih =>
      simp only [entryLoop] at member
      split at member
      · simp at member
      · split at member
        · rcases List.mem_append.mp member with now | later
          · exact ⟨state, entry, List.mem_cons_self, by simpa using now⟩
          · obtain ⟨state, other, among, made⟩ := ih later
            exact ⟨state, other, List.mem_cons_of_mem _ among, made⟩
        · exact ⟨state, entry, List.mem_cons_self, by simpa using member⟩

/-- What the flat export checked and did for a deletion. -/
theorem flatWhiteout_eq_some {tree : Tree} {dest safe : List String} {target : String}
    {deletion : Deletion} (made : flatWhiteout tree dest safe target = some deletion)
    : ∃ canonParent canonDest, deletion.moment.resolve deletion.parent = some canonParent
      ∧ deletion.moment.resolve deletion.dest = some canonDest
      ∧ canonDest <+: canonParent
      ∧ deletion.after = (if deletion.name = ".wh..opq" then
          removeEach deletion.moment deletion.parent (children deletion.moment canonParent)
        else dirElseFile deletion.moment (joined deletion.parent deletion.name).1
          (joined deletion.parent deletion.name).2) := by
  simp only [flatWhiteout] at made
  split at made
  case h_2 => cases made
  case h_1 canonParent canonDest parent dest =>
    split at made
    case isFalse => cases made
    case isTrue above =>
      obtain rfl := Option.some.inj made
      exact ⟨canonParent, canonDest, parent, dest, above, rfl⟩

theorem plain_of_mem_children {tree : Tree} {directory : Location} {name : String}
    (member : name ∈ children tree directory)
    : plainName name = true := by
  obtain ⟨⟨location, node⟩, _, found⟩ := List.mem_filterMap.mp member
  dsimp only at found
  split at found
  case h_1 last _ =>
    split at found
    case isTrue plain =>
      obtain rfl := Option.some.inj found
      exact plain.2
    case isFalse => cases found
  case h_2 => cases found

/-- A deletion of the flat export stays inside unless it names the destination itself. -/
theorem flatWhiteout_confined {tree : Tree} {dest safe : List String} {target : String}
    {deletion : Deletion} (made : flatWhiteout tree dest safe target = some deletion)
    (kept : deletion.RootKept)
    : deletion.Confined := by
  obtain ⟨canonParent, canonDest, parent, top, above, after⟩ := flatWhiteout_eq_some made
  have inside : deletion.Inside := by
    intro directory walked
    obtain rfl := Option.some.inj (parent.symm.trans walked)
    exact ⟨canonDest, top, above⟩
  intro location lost
  rw [after] at lost
  split at lost
  · obtain ⟨name, member, reaches⟩ := lost_removeEach lost
    obtain ⟨directory, walked, within⟩ := reaches_plain (plain_of_mem_children member) reaches
    obtain rfl := Option.some.inj (parent.symm.trans walked)
    exact ⟨canonDest, top, below_concat above within⟩
  · exact below_of_reaches inside kept (lost_dirElseFile lost)

/-- A deletion for a single layer stays inside if the directory the whiteout stands in does. -/
theorem overlayDeletion_confined {tree : Tree} {dst parent : List String} {name : String}
    (inside : (overlayDeletion tree dst parent name).Inside)
    (kept : (overlayDeletion tree dst parent name).RootKept)
    : (overlayDeletion tree dst parent name).Confined := by
  intro location lost
  exact below_of_reaches inside kept (lost_fileThenDir lost)

theorem flatEntry_deletion {unpackIn : UnpackIn} {dest : List String} {tree : Tree}
    {entry : Entry} {deletion : Deletion}
    (made : (flatEntry unpackIn dest tree entry).deletion = some deletion)
    : ∃ safe target, flatWhiteout tree dest safe target = some deletion := by
  unfold flatEntry at made
  dsimp only at made
  split at made
  case h_1 target _ =>
    obtain ⟨safe, _, made⟩ := Option.bind_eq_some_iff.mp made
    exact ⟨safe, target, made⟩
  case h_2 => cases made

theorem plainEntry_deletion (unpackIn : UnpackIn) (dst : List String) (state : LayerState)
    (entry : Entry)
    : (plainEntry unpackIn dst state entry).deletion = none := by
  unfold plainEntry
  split <;> rfl

theorem layerEntry_deletion {unpackIn : UnpackIn} {allowed : Bool} {dst : List String}
    {state : LayerState} {entry : Entry} {deletion : Deletion}
    (made : (layerEntry unpackIn allowed dst state entry).deletion = some deletion)
    : ∃ parent name, overlayDeletion state.tree dst parent name = deletion := by
  unfold layerEntry at made
  split at made
  case h_1 => simp [plainEntry_deletion] at made
  case h_2 rel _ =>
    dsimp only at made
    split at made
    case isTrue => cases made
    case isFalse =>
      split at made
      case h_1 => simp [plainEntry_deletion] at made
      case h_2 name _ => exact ⟨dst ++ rel.dropLast, name, Option.some.inj made⟩

/-- The deletions are those of the loop; the directories unpacked last delete nothing. -/
theorem unpackRecordingLimited_deletions (unpackIn : UnpackIn) (allowed : Bool)
    (dst : List String) (maxEntries : Nat) (tree : Tree) (entries : List Entry)
    : ∃ canon state,
        (unpackRecordingLimited unpackIn allowed dst maxEntries tree entries).deletions
          = (entryLoop (layerEntry unpackIn allowed canon) maxEntries 0 state entries).deletions := by
  refine ⟨((ensured tree dst).resolve dst).getD dst, ⟨ensured tree dst, []⟩, ?_⟩
  unfold unpackRecordingLimited
  dsimp only
  split <;> rfl

/-- All deletions of an unpacker stay strictly inside its destination. -/
def Unpacking.Confined {State : Type} (unpacking : Unpacking State) : Prop :=
  ∀ deletion ∈ unpacking.deletions, deletion.Confined

instance {State : Type} (unpacking : Unpacking State) : Decidable unpacking.Confined :=
  inferInstanceAs (Decidable (∀ deletion ∈ unpacking.deletions, deletion.Confined))

/-- The whiteouts of a flat export delete only inside the tree being built, as long as none names
the destination itself.
-/
theorem applyLayerFlatLimited_confined {unpackIn : UnpackIn} {dest : List String}
    {maxEntries : Nat} {tree : Tree} {entries : List Entry}
    (kept : ∀ deletion ∈ (applyLayerFlatLimited unpackIn dest maxEntries tree entries).deletions,
      deletion.RootKept)
    : (applyLayerFlatLimited unpackIn dest maxEntries tree entries).Confined := by
  intro deletion member
  obtain ⟨_, _, _, handled⟩ := mem_entryLoop member
  obtain ⟨_, _, made⟩ := flatEntry_deletion handled
  exact flatWhiteout_confined made (kept deletion member)

/-- Those of a single layer do, as long as besides none stands in a directory that leads outside. -/
theorem unpackRecordingLimited_confined {unpackIn : UnpackIn} {allowed : Bool}
    {dest : List String} {maxEntries : Nat} {tree : Tree} {entries : List Entry}
    (kept : ∀ deletion
      ∈ (unpackRecordingLimited unpackIn allowed dest maxEntries tree entries).deletions,
      deletion.Inside ∧ deletion.RootKept)
    : (unpackRecordingLimited unpackIn allowed dest maxEntries tree entries).Confined := by
  intro deletion member
  obtain ⟨inside, root⟩ := kept deletion member
  obtain ⟨dst, state, same⟩ :=
    unpackRecordingLimited_deletions unpackIn allowed dest maxEntries tree entries
  rw [same] at member
  obtain ⟨_, _, _, handled⟩ := mem_entryLoop member
  obtain ⟨_, _, rfl⟩ := layerEntry_deletion handled
  exact overlayDeletion_confined inside root

/-- Whiteouts delete only inside the tree being built, each unpacker's under a condition of its
own.
-/
theorem whiteouts_confined (unpackIn : UnpackIn) (allowed : Bool) (dest : List String)
    (maxEntries : Nat) (tree : Tree) (entries : List Entry)
    : ((∀ deletion ∈ (applyLayerFlatLimited unpackIn dest maxEntries tree entries).deletions,
          deletion.RootKept)
        → (applyLayerFlatLimited unpackIn dest maxEntries tree entries).Confined)
      ∧ ((∀ deletion
            ∈ (unpackRecordingLimited unpackIn allowed dest maxEntries tree entries).deletions,
          deletion.Inside ∧ deletion.RootKept)
        → (unpackRecordingLimited unpackIn allowed dest maxEntries tree entries).Confined) :=
  ⟨applyLayerFlatLimited_confined, unpackRecordingLimited_confined⟩

/-- An entry is put where its path leads. -/
def placeEntry : UnpackIn := fun tree dest entry =>
  match safeRel (components entry.path) with
  | none => (tree, .done)
  | some rel =>
      match tree.resolve (dest ++ rel.dropLast) with
      | none => (tree, .failed)
      | some parent =>
          let location := parent ++ [rel.getLast?.getD ""]
          ((location, entry.content) :: tree.without (· == location), .done)

def hostTree : Tree :=
  [(["out"], .dir), (["out", "etc"], .dir), (["out", "etc", "motd"], .file), (["etc"], .dir),
    (["etc", "passwd"], .file)]

def motdWhiteout : List Entry := [⟨"etc/.wh.motd", .file⟩]

theorem whiteouts_confined_motd
    : (applyLayerFlatLimited placeEntry ["out"] 10 hostTree motdWhiteout).Confined
      ∧ (unpackRecordingLimited placeEntry true ["out"] 10 hostTree motdWhiteout).Confined := by
  have kept (deletion : Deletion) (named : deletion.name = "motd") : deletion.RootKept := by
    intro top _ _
    simp [named]
  have confined := whiteouts_confined placeEntry true ["out"] 10 hostTree motdWhiteout
  refine ⟨confined.1 ?_, confined.2 ?_⟩
  · intro deletion member
    refine kept deletion ?_
    revert deletion
    decide +kernel
  · intro deletion member
    have found : deletion.name = "motd"
        ∧ deletion.moment.resolve deletion.parent = some ["out", "etc"]
        ∧ deletion.moment.resolve deletion.dest = some ["out"] := by
      revert deletion
      decide +kernel
    obtain ⟨named, parent, dest⟩ := found
    refine ⟨?_, kept deletion named⟩
    intro directory walked
    obtain rfl := Option.some.inj (parent.symm.trans walked)
    exact ⟨["out"], dest, by decide⟩

/-- A whiteout of nothing in the destination itself. -/
def rootWhiteout : List Entry := [⟨".wh.", .file⟩]

/-- A link that leads outside, and a whiteout through it. -/
def linkedWhiteout : List Entry := [⟨"a", .symlink true ["etc"]⟩, ⟨"a/.wh.passwd", .file⟩]

theorem whiteouts_escape
    : ¬ (applyLayerFlatLimited placeEntry ["out"] 10 hostTree rootWhiteout).Confined
      ∧ ¬ (unpackRecordingLimited placeEntry true ["out"] 10 hostTree linkedWhiteout).Confined := by
  constructor <;> decide +kernel

end Delonix.Images
