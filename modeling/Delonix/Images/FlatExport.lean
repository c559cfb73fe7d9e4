import Delonix.Images.Whiteouts
import Delonix.Library.FileTree
import Delonix.Library.LayeredPaths
import Mathlib.Data.List.Forall2

/-! What the flat export of an image leaves. Layers whose entries are directories, files and
whiteouts of named entries are executed entry by entry; what is there in the end is what the layers
provide, unless a whiteout takes what its own layer put there before it, or a file stands where a
directory is needed.
-/

namespace Delonix.Images

open Delonix.Library
open Delonix.Library.FileTree Delonix.Library.LayeredPaths

-----------------------------------------------------------------------------------------
-- The export
-----------------------------------------------------------------------------------------

/-- `export_rootfs`, for layers that could be read: they are applied in order, up to the first
failure.
-/
def exportRootfs (unpackIn : UnpackIn) (maxEntries : Nat) (dest : List String) (tree : Tree)
    (layers : List (List Entry))
    : Option Tree :=
  layers.foldlM (fun tree layer =>
      let unpacking := applyLayerFlatLimited unpackIn dest maxEntries tree layer
      if unpacking.ok then some unpacking.state else none)
    (createDirAll tree dest)

/-- A relative path. -/
def relNames (path : List Component) : Option (List String) := namesOf (· == .curDir) path

/-- What an entry is to the export, if its path is plain and it is a directory, a file or the
whiteout of a name.
-/
def Entry.mark (entry : Entry) : Option (Mark String) := do
  let path := components entry.path
  let names ← relNames path
  match whiteoutTarget ((fileName path).getD "") with
  | some target =>
      if target = ".wh..opq" then return .clear names.dropLast
      else if plainName target then return .drop (names.dropLast ++ [target])
      else none
  | none =>
      match entry.content with
      | .dir => return .put names true
      | .file => return .put names false
      | _ => none

structure PlainEntry where
  entry : Entry
  mark : Mark String
  plain : entry.mark = some mark

def entriesOf (layers : List (List PlainEntry)) : List (List Entry) :=
  layers.map (List.map PlainEntry.entry)

def marksOf (layers : List (List PlainEntry)) : List (List (Mark String)) :=
  layers.map (List.map PlainEntry.mark)

-----------------------------------------------------------------------------------------
-- The tree below the destination
-----------------------------------------------------------------------------------------

/-- What stands below a location, as relative paths. -/
def shapeOf (tree : Tree) (top : Location) : Shape String :=
  fun rel => (tree.node (top ++ rel)).map (· == .dir)

/-- An empty directory. -/
structure Fresh (tree : Tree) (dest : List String) (top : Location) : Prop where
  arrives : tree.resolve dest = some top
  dir : tree.node top = some .dir
  empty : ∀ location, Below top location → tree.node location = none

/-- The tree during an export: what was there at the start is there, and below the destination
stand directories and files with names of their own, each in a directory.
-/
structure Exporting (start : Tree) (dest : List String) (top : Location) (tree : Tree)
    : Prop where
  fresh : Fresh start dest top
  kept : ∀ location, ¬ Below top location → tree.node location = start.node location
  kinds : ∀ rel node, tree.node (top ++ rel) = some node → node = .dir ∨ node = .file
  closed : (shapeOf tree top).Closed
  plain : ∀ rel, (tree.node (top ++ rel)).isSome → ∀ name ∈ rel, plainName name = true

/-- What `unpack_in` of the tar library does with a directory or a file whose path is plain, where
no link is in the way: it stands there afterwards, unless the directory it belongs in does not, or
one is a directory and the other is not. What stands there stays as it is then.
-/
def Unpacks (unpackIn : UnpackIn) : Prop :=
  ∀ start dest top tree entry names, Exporting start dest top tree →
    relNames (components entry.path) = some names → (∀ name ∈ names, plainName name = true) →
    entry.content = .dir ∨ entry.content = .file → (unpackIn tree dest entry).2 ≠ .exceeded →
    ∀ location, (unpackIn tree dest entry).1.node location
      = if names ≠ [] ∧ location = top ++ names ∧ tree.node (top ++ names.dropLast) = some .dir then
          (tree.node location).or (some entry.content)
        else tree.node location

theorem shapeOf_eq_dir {tree : Tree} {top : Location} {rel : List String}
    : shapeOf tree top rel = some true ↔ tree.node (top ++ rel) = some .dir := by
  simp [shapeOf, Option.map_eq_some_iff]

theorem isSome_shapeOf {tree : Tree} {top : Location} {rel : List String}
    : (shapeOf tree top rel).isSome = (tree.node (top ++ rel)).isSome := by
  simp [shapeOf]

theorem below_top {top : Location} {rel : List String} : Below top (top ++ rel) ↔ rel ≠ [] := by
  simp [Below]

namespace Exporting

variable {start tree : Tree} {dest : List String} {top : Location}

theorem dir (exporting : Exporting start dest top tree) : tree.node top = some .dir := by
  rw [exporting.kept top fun below => below.2 rfl]
  exact exporting.fresh.dir

theorem arrives (exporting : Exporting start dest top tree) : tree.resolve dest = some top := by
  have within : start.Within tree := by
    intro location node stands
    rw [exporting.kept location ?_]
    · exact stands
    · intro below
      rw [exporting.fresh.empty location below] at stands
      cases stands
  exact walk_mono within exporting.fresh.arrives

/-- What happens below the destination, to names of their own, keeps the rest. -/
theorem of_apply (exporting : Exporting start dest top tree) {after : Tree} {m : Mark String}
    (kept : ∀ location, ¬ Below top location → after.node location = tree.node location)
    (kinds : ∀ rel node, after.node (top ++ rel) = some node → node = .dir ∨ node = .file)
    (shape : shapeOf after top = (shapeOf tree top).apply m)
    (names : ∀ rel, m.Gives rel → ∀ name ∈ rel, plainName name = true)
    : Exporting start dest top after where
  fresh := exporting.fresh
  kept location apart := (kept location apart).trans (exporting.kept location apart)
  kinds := kinds
  closed := shape ▸ exporting.closed.apply m
  plain rel there := by
    rw [← isSome_shapeOf, shape, Shape.apply_isSome exporting.closed] at there
    rcases there.2 with old | ⟨gives, -⟩
    · rw [isSome_shapeOf] at old
      exact exporting.plain rel old
    · exact names rel gives

/-- A plain path below the destination is walked where it stands. -/
theorem walk_rel (exporting : Exporting start dest top tree)
    (follow : Location → List String → Option Location) {done rel : List String}
    (dir : tree.node (top ++ done) = some .dir) (plain : ∀ name ∈ rel, plainName name = true)
    : walkWith follow tree (top ++ done) rel
      = if (tree.node (top ++ (done ++ rel))).isSome then some (top ++ (done ++ rel))
        else none := by
  induction rel generalizing done with
  | nil => simp [walkWith, dir]
  | cons name rest ih =>
      obtain ⟨own, others⟩ := List.forall_mem_cons.mp plain
      simp only [plainName, Bool.and_eq_true, decide_eq_true_eq, ne_eq] at own
      obtain ⟨⟨notEmpty, notDot⟩, notDots⟩ := own
      have deeper (more : rest ≠ [])
          (apart : tree.node (top ++ (done ++ [name])) ≠ some .dir)
          : ¬ (tree.node (top ++ (done ++ name :: rest))).isSome := by
        intro there
        have above : Above (done ++ [name]) (done ++ name :: rest) :=
          ⟨⟨rest, by simp⟩, fun same => more (by simpa using same)⟩
        exact apart (shapeOf_eq_dir.mp (exporting.closed _ _ above (isSome_shapeOf ▸ there)))
      simp only [walkWith, notEmpty, notDot, notDots, or_false, if_false, List.append_assoc]
      cases stands : tree.node (top ++ (done ++ [name])) with
      | none =>
          by_cases more : rest = []
          · simp [more, stands]
          · rw [if_neg (deeper more (by simp [stands]))]
      | some node =>
          rcases exporting.kinds _ node stands with rfl | rfl
          · dsimp only
            rw [ih stands others, List.append_assoc]
            rfl
          · by_cases more : rest = []
            · simp [more, stands]
            · rw [if_neg (deeper more (by simp [stands]))]
              simp [more]

theorem resolve (exporting : Exporting start dest top tree) {rel : List String}
    (plain : ∀ name ∈ rel, plainName name = true)
    : tree.resolve (dest ++ rel)
      = if (tree.node (top ++ rel)).isSome then some (top ++ rel) else none := by
  refine walk_join exporting.dir ?_ exporting.arrives
  intro links
  have walked (follow : Location → List String → Option Location) :=
    @walk_rel _ _ _ _ exporting follow [] rel (by simpa using exporting.dir) plain
  cases links <;> simpa [walk] using walked _

theorem look (exporting : Exporting start dest top tree) {parent : List String} {name : String}
    (plain : ∀ name ∈ parent, plainName name = true) (own : plainName name = true)
    : tree.look (dest ++ (parent ++ [name])) false
      = if (tree.node (top ++ parent)).isSome then some (top ++ (parent ++ [name])) else none := by
  have last : (dest ++ parent ++ [name]).getLast? = some name := List.getLast?_concat
  rw [← List.append_assoc]
  simp only [Tree.look, last, own, if_true, List.dropLast_concat, exporting.resolve plain]
  split <;> simp

/-- Where nothing but what a mark takes is removed, the mark is executed. -/
theorem removed (exporting : Exporting start dest top tree) {after : Tree} {m : Mark String}
    (outside : ∀ location, ¬ Below top location → after.node location = tree.node location)
    (inside : ∀ rel, after.node (top ++ rel) = if m.Takes rel then none else tree.node (top ++ rel))
    (takes : ∀ rel, (shapeOf tree top).apply m rel
      = if m.Takes rel then none else shapeOf tree top rel)
    (gives : ∀ rel, ¬ m.Gives rel)
    : Exporting start dest top after ∧ shapeOf after top = (shapeOf tree top).apply m := by
  have shape : shapeOf after top = (shapeOf tree top).apply m := by
    funext rel
    rw [takes, shapeOf, inside]
    split
    · rfl
    · rfl
  refine ⟨exporting.of_apply outside ?_ shape fun rel given => absurd given (gives rel), shape⟩
  intro rel node stands
  rw [inside] at stands
  split at stands
  · cases stands
  · exact exporting.kinds rel node stands

/-- A named entry that stands nowhere takes nothing with it. -/
theorem absent_below (exporting : Exporting start dest top tree) {path rel : List String}
    (absent : tree.node (top ++ path) = none) (start : path <+: rel)
    : tree.node (top ++ rel) = none := by
  by_cases same : path = rel
  · exact same ▸ absent
  · rw [← Option.not_isSome_iff_eq_none]
    intro there
    have dir := exporting.closed path rel ⟨start, same⟩ (isSome_shapeOf ▸ there)
    rw [shapeOf_eq_dir, absent] at dir
    cases dir

/-- The removal of what stands strictly below a named entry. -/
theorem emptied (exporting : Exporting start dest top tree) (path : List String)
    : Exporting start dest top (tree.without fun location => Below (top ++ path) location) := by
  have root : (decide (Below (top ++ path) [])) = false := by simp [Below]
  have takes : ∀ rel, Below (top ++ path) (top ++ rel) ↔ (Mark.clear path).Takes rel := by
    intro rel
    simp [Below, Mark.Takes, Above, List.prefix_append_right_inj]
  have inside (rel : List String)
      : (tree.without fun location => Below (top ++ path) location).node (top ++ rel)
        = if (Mark.clear path).Takes rel then none else tree.node (top ++ rel) := by
    rw [node_without tree root]
    simp only [takes, decide_eq_true_eq]
  refine (exporting.removed ?_ inside (fun _ => rfl) fun _ => id).1
  intro location apart
  rw [node_without tree root, if_neg]
  intro below
  exact apart (below_of_start (List.prefix_append top path) (of_decide_eq_true below))

/-- `rmdir` of a directory with nothing below it. -/
theorem rmdir_empty (exporting : Exporting start dest top tree) {parent : List String}
    {name : String} (plain : ∀ name ∈ parent, plainName name = true)
    (own : plainName name = true) (holds : (tree.node (top ++ parent)).isSome)
    (dir : tree.node (top ++ (parent ++ [name])) = some .dir)
    (empty : ∀ entry ∈ tree, ¬ Below (top ++ (parent ++ [name])) entry.1)
    : tree.rmdir (dest ++ (parent ++ [name]))
      = (tree.without (· == top ++ (parent ++ [name])), true) := by
  have last : (dest ++ parent ++ [name]).getLast? = some name := List.getLast?_concat
  have resolved : tree.resolve (dest ++ parent) = some (top ++ parent) := by
    rw [exporting.resolve plain, if_pos holds]
  rw [← List.append_assoc] at dir empty ⊢
  rw [← List.append_assoc]
  simp only [Tree.rmdir, last, own, List.dropLast_concat, resolved, dir, true_and, if_pos empty]
  rfl

/-- `remove_dir_all` of a directory empties it, and then removes it. -/
theorem removeDirAll_dir (exporting : Exporting start dest top tree) {parent : List String}
    {name : String} (plain : ∀ name ∈ parent, plainName name = true)
    (own : plainName name = true) (dir : tree.node (top ++ (parent ++ [name])) = some .dir)
    : tree.removeDirAll (dest ++ (parent ++ [name])) false
      = ((tree.without fun location => Below (top ++ (parent ++ [name])) location).without
          (· == top ++ (parent ++ [name])), true) := by
  have root : (decide (Below (top ++ (parent ++ [name])) [])) = false := by simp [Below]
  have keeps (path : List String) (short : path.length ≤ parent.length + 1)
      : (tree.without fun l => Below (top ++ (parent ++ [name])) l).node (top ++ path)
        = tree.node (top ++ path) := by
    rw [node_without tree root, if_neg]
    intro below
    have below := of_decide_eq_true below
    exact below.2 (below.1.eq_of_length_le (by simp; omega))
  have holds : (tree.node (top ++ parent)).isSome := by
    by_contra gone
    rw [exporting.absent_below (by simpa using gone) (List.prefix_append _ _)] at dir
    cases dir
  have looked := exporting.look plain own
  rw [if_pos holds] at looked
  have emptied := exporting.emptied (parent ++ [name])
  have holds' := (keeps parent (by simp)).symm ▸ holds
  have still := emptied.look plain own
  rw [if_pos holds'] at still
  have gone := emptied.rmdir_empty plain own holds'
    ((keeps (parent ++ [name]) (by simp)).trans dir) fun entry member below => by
      have kept := (List.mem_filter.mp member).2
      simp [below] at kept
  simp [Tree.removeDirAll, looked, dir, still, gone]

/-- Nothing stands below a file. -/
theorem absent_below_file (exporting : Exporting start dest top tree) {path rel : List String}
    (file : tree.node (top ++ path) = some .file) (above : Above path rel)
    : tree.node (top ++ rel) = none := by
  rw [← Option.not_isSome_iff_eq_none]
  intro there
  have dir := exporting.closed path rel above (isSome_shapeOf ▸ there)
  rw [shapeOf_eq_dir, file] at dir
  cases dir

/-- `remove_dir_all`, or else `remove_file`, of a named entry removes it with what is below. -/
theorem node_dirElseFile (exporting : Exporting start dest top tree) {parent : List String}
    {name : String} (plain : ∀ name ∈ parent, plainName name = true)
    (own : plainName name = true) (location : Location)
    : (dirElseFile tree (dest ++ (parent ++ [name])) false).node location
      = if top ++ (parent ++ [name]) <+: location then none else tree.node location := by
  have last : (dest ++ (parent ++ [name])).getLast? = some name := by
    rw [← List.append_assoc, List.getLast?_concat]
  have names : namesEntry (dest ++ (parent ++ [name])) false = true := by
    simp only [namesEntry, last, Option.any_some, own]
    rfl
  have untouched (absent : tree.node (top ++ (parent ++ [name])) = none)
      : tree.node location
        = if top ++ (parent ++ [name]) <+: location then none else tree.node location := by
    split
    case isTrue start =>
      obtain ⟨more, rfl⟩ := start
      rw [List.append_assoc]
      exact exporting.absent_below absent (List.prefix_append _ more)
    case isFalse => rfl
  have looked := exporting.look plain own
  by_cases holds : (tree.node (top ++ parent)).isSome
  · rw [if_pos holds] at looked
    cases stands : tree.node (top ++ (parent ++ [name])) with
    | none =>
        simpa [dirElseFile, Tree.removeDirAll, Tree.removeFile, looked, stands]
          using untouched stands
    | some node =>
        rcases exporting.kinds _ node stands with rfl | rfl
        · simp only [dirElseFile, exporting.removeDirAll_dir plain own stands]
          rw [node_without _ (by simp), node_without tree (by simp [Below])]
          by_cases start : top ++ (parent ++ [name]) <+: location
          · by_cases same : location = top ++ (parent ++ [name])
            · simp [same]
            · simp [start, same, Below, Ne.symm same]
          · have apart : location ≠ top ++ (parent ++ [name]) := by
              rintro rfl
              exact start List.prefix_rfl
            simp [start, apart, Below]
        · have fileElse : dirElseFile tree (dest ++ (parent ++ [name])) false
              = tree.without (· == top ++ (parent ++ [name])) := by
            simp [dirElseFile, Tree.removeDirAll, Tree.removeFile, looked, stands, names]
          rw [fileElse, node_without tree (by simp)]
          by_cases same : location = top ++ (parent ++ [name])
          · simp [same]
          · rw [if_neg (by simpa using same)]
            split
            case isFalse => rfl
            case isTrue start =>
              obtain ⟨more, rfl⟩ := start
              rw [List.append_assoc]
              refine exporting.absent_below_file stands ⟨List.prefix_append _ more, ?_⟩
              exact fun is => same (by rw [List.append_assoc, ← is])
  · rw [if_neg holds] at looked
    have absent : tree.node (top ++ (parent ++ [name])) = none :=
      exporting.absent_below (by simpa using holds) (List.prefix_append _ _)
    simpa [dirElseFile, Tree.removeDirAll, Tree.removeFile, looked] using untouched absent

/-- The whiteout of a name. -/
theorem drop (exporting : Exporting start dest top tree) {parent : List String} {name : String}
    (plain : ∀ name ∈ parent, plainName name = true) (own : plainName name = true)
    : Exporting start dest top (dirElseFile tree (dest ++ (parent ++ [name])) false)
      ∧ shapeOf (dirElseFile tree (dest ++ (parent ++ [name])) false) top
        = (shapeOf tree top).apply (.drop (parent ++ [name])) := by
  refine exporting.removed ?_ ?_ (fun _ => rfl) fun _ => id
  · intro location apart
    rw [exporting.node_dirElseFile plain own, if_neg]
    rintro ⟨more, rfl⟩
    exact apart (by simp [Below])
  · intro rel
    rw [exporting.node_dirElseFile plain own]
    simp only [List.prefix_append_right_inj]
    rfl

/-- Entries removed one after the other. -/
theorem removeEach (exporting : Exporting start dest top tree) {parent names : List String}
    (plain : ∀ name ∈ parent, plainName name = true)
    (owns : ∀ name ∈ names, plainName name = true) (location : Location)
    : (removeEach tree (dest ++ parent) names).node location
      = if ∃ name ∈ names, top ++ (parent ++ [name]) <+: location then none
        else tree.node location := by
  induction names generalizing tree with
  | nil => simp [Images.removeEach]
  | cons name rest ih =>
      obtain ⟨own, others⟩ := List.forall_mem_cons.mp owns
      have step : Images.removeEach tree (dest ++ parent) (name :: rest)
          = Images.removeEach (dirElseFile tree (dest ++ (parent ++ [name])) false)
            (dest ++ parent) rest := by
        simp [Images.removeEach]
      rw [step, ih (exporting.drop plain own).1 others, exporting.node_dirElseFile plain own]
      by_cases first : top ++ (parent ++ [name]) <+: location
      · simp [first]
      · simp [first]

theorem mem_children {directory : Location} {name : String}
    : name ∈ children tree directory
      ↔ plainName name = true ∧ (tree.node (directory ++ [name])).isSome := by
  have node : tree.node (directory ++ [name]) = tree.lookup (directory ++ [name]) := by
    simp [FileTree.Tree.node]
  rw [node, List.lookup_isSome_iff]
  constructor
  · intro member
    obtain ⟨⟨location, kind⟩, among, found⟩ := List.mem_filterMap.mp member
    dsimp only at found
    split at found
    case h_2 => cases found
    case h_1 last isLast =>
      split at found
      case isFalse => cases found
      case isTrue holds =>
        obtain rfl := Option.some.inj found
        refine ⟨holds.2, _, among, beq_iff_eq.mpr ?_⟩
        rw [← holds.1, List.dropLast_append_getLast? last isLast]
  · rintro ⟨plain, ⟨location, kind⟩, among, same⟩
    obtain rfl := beq_iff_eq.mp same
    exact List.mem_filterMap.mpr ⟨_, among, by simp [plain]⟩

/-- An opaque directory that is there is emptied. -/
theorem clear (exporting : Exporting start dest top tree) {parent : List String}
    (plain : ∀ name ∈ parent, plainName name = true)
    : Exporting start dest top
        (Images.removeEach tree (dest ++ parent) (children tree (top ++ parent)))
      ∧ shapeOf (Images.removeEach tree (dest ++ parent) (children tree (top ++ parent))) top
        = (shapeOf tree top).apply (.clear parent) := by
  have owns : ∀ name ∈ children tree (top ++ parent), plainName name = true :=
    fun name member => plain_of_mem_children member
  refine exporting.removed ?_ ?_ (fun _ => rfl) fun _ => id
  · intro location apart
    rw [exporting.removeEach plain owns, if_neg]
    rintro ⟨name, -, more, rfl⟩
    exact apart (by simp [Below])
  · intro rel
    rw [exporting.removeEach plain owns]
    by_cases taken : (Mark.clear parent).Takes rel
    · rw [if_pos taken]
      split
      case isTrue => rfl
      case isFalse none =>
        -- What is below the directory is below one of its children.
        rw [← Option.not_isSome_iff_eq_none]
        intro there
        obtain ⟨more, rfl⟩ := taken.1
        cases more with
        | nil => exact taken.2 (List.append_nil parent).symm
        | cons name more =>
            have start : parent ++ [name] <+: parent ++ name :: more := ⟨more, by simp⟩
            have stands : (tree.node (top ++ (parent ++ [name]))).isSome := by
              by_contra gone
              rw [exporting.absent_below (by simpa using gone) start] at there
              cases there
            refine none ⟨name, mem_children.mpr ⟨?_, ?_⟩, ?_⟩
            · exact exporting.plain _ stands name (by simp)
            · rw [List.append_assoc]
              exact stands
            · exact (List.prefix_append_right_inj top).mpr start
    · rw [if_neg taken, if_neg]
      rintro ⟨name, -, start⟩
      rw [List.prefix_append_right_inj] at start
      exact taken ⟨(List.prefix_append _ _).trans start, by
        rintro rfl
        have := start.length_le
        simp at this⟩

/-- A new directory in one that is there. -/
theorem mkdir (exporting : Exporting start dest top tree) {done : List String} {name : String}
    (dir : tree.node (top ++ done) = some .dir) (own : plainName name = true)
    (absent : tree.node (top ++ (done ++ [name])) = none)
    : Exporting start dest top ((top ++ (done ++ [name]), .dir) :: tree)
      ∧ shapeOf ((top ++ (done ++ [name]), .dir) :: tree) top
        = (shapeOf tree top).apply (.put (done ++ [name]) true) := by
  have node (location : Location)
      : FileTree.Tree.node ((top ++ (done ++ [name]), .dir) :: tree) location
        = if location = top ++ (done ++ [name]) then some .dir else tree.node location := by
    unfold FileTree.Tree.node
    by_cases root : location = []
    · simp [root]
    · by_cases same : location = top ++ (done ++ [name])
      · simp [same]
      · simp [root, same, List.lookup_cons, beq_false_of_ne same]
  have isDir : shapeOf tree top done = some true := shapeOf_eq_dir.mpr dir
  have gone : shapeOf tree top (done ++ [name]) = none := by simp [shapeOf, absent]
  have shape : shapeOf ((top ++ (done ++ [name]), .dir) :: tree) top
      = (shapeOf tree top).apply (.put (done ++ [name]) true) := by
    funext rel
    rw [Shape.apply, if_neg (exporting.closed.free isDir gone)]
    by_cases same : rel = done ++ [name]
    · simp [shapeOf, node, same, absent]
    · have kept : shapeOf ((top ++ (done ++ [name]), .dir) :: tree) top rel
          = shapeOf tree top rel := by
        simp [shapeOf, node, same]
      rw [kept, if_neg same]
      by_cases start : rel <+: done ++ [name]
      · have above := (List.prefix_concat_iff.mp start).resolve_left same
        have there : shapeOf tree top rel = some true := by
          by_cases is : rel = done
          · exact is ▸ isDir
          · exact exporting.closed rel done ⟨above, is⟩ (by rw [isDir]; rfl)
        simp [there]
      · simp [start]
  refine ⟨exporting.of_apply ?_ ?_ shape ?_, shape⟩
  · intro location apart
    rw [node, if_neg]
    rintro rfl
    exact apart (by simp [Below])
  · intro rel kind stands
    rw [node] at stands
    split at stands
    · exact .inl (Option.some.inj stands).symm
    · exact exporting.kinds rel kind stands
  · intro rel gives part member
    rcases List.mem_append.mp (gives.subset member) with early | last
    · exact exporting.plain done (by rw [dir]; rfl) part early
    · exact List.mem_singleton.mp last ▸ own

/-- `create_dir_all` below the destination. -/
theorem createDirsFrom (exporting : Exporting start dest top tree) {done rest : List String}
    (dir : tree.node (top ++ done) = some .dir) (plain : ∀ name ∈ rest, plainName name = true)
    : Exporting start dest top (createDirsFrom tree (top ++ done) rest)
      ∧ shapeOf (createDirsFrom tree (top ++ done) rest) top
        = (shapeOf tree top).apply (.put (done ++ rest) true) := by
  induction rest generalizing tree done with
  | nil =>
      have there : (shapeOf tree top done).isSome := by rw [isSome_shapeOf, dir]; rfl
      refine ⟨exporting, ?_⟩
      rw [List.append_nil, exporting.closed.apply_put there]
      rfl
  | cons name rest ih =>
      obtain ⟨own, others⟩ := List.forall_mem_cons.mp plain
      have step : done ++ name :: rest = (done ++ [name]) ++ rest := by simp
      have walked : walk tree maxLinks (top ++ done) [name]
          = if (tree.node (top ++ (done ++ [name]))).isSome then some (top ++ (done ++ [name]))
            else none :=
        exporting.walk_rel _ dir (by simpa using own)
      simp only [Images.createDirsFrom, walked]
      cases stands : tree.node (top ++ (done ++ [name])) with
      | none =>
          obtain ⟨made, shape⟩ := exporting.mkdir dir own stands
          have made_dir
              : FileTree.Tree.node ((top ++ (done ++ [name]), .dir) :: tree) (top ++ (done ++ [name]))
                = some .dir := by
            simp [FileTree.Tree.node]
          obtain ⟨later, is⟩ := ih made made_dir others
          simp only [Option.isSome_none, Bool.false_eq_true, if_false, List.append_assoc, stands,
            own, and_self, if_true]
          refine ⟨later, ?_⟩
          have isDir : shapeOf tree top done = some true := shapeOf_eq_dir.mpr dir
          have gone : shapeOf tree top (done ++ [name]) = none := by simp [shapeOf, stands]
          rw [is, shape, step, Shape.apply_put_put _ (List.prefix_append _ rest)]
          rw [← step]
          exact exporting.closed.free isDir gone
      | some node =>
          simp only [Option.isSome_some, if_true]
          by_cases isDir : tree.node (top ++ (done ++ [name])) = some .dir
          · rw [if_pos isDir, step]
            exact ih exporting isDir others
          · rw [if_neg isDir]
            refine ⟨exporting, ?_⟩
            have file : shapeOf tree top (done ++ [name]) = some false := by
              rw [stands] at isDir
              rcases exporting.kinds _ node stands with rfl | rfl
              · exact absurd rfl isDir
              · simp [shapeOf, stands]
            by_cases more : rest = []
            · rw [more, exporting.closed.apply_put (by rw [file]; rfl)]
            · have blocks : (shapeOf tree top).Blocks (done ++ name :: rest) :=
                ⟨done ++ [name], ⟨⟨rest, step.symm⟩, by simpa using Ne.symm more⟩, file⟩
              rw [Shape.apply, if_pos blocks]

end Exporting

/-- `create_dir_all` follows a path to where it leads, and goes on from there. -/
theorem createDirsFrom_append {tree : Tree} {here middle : Location} {path rest : List String}
    {links : Nat} (le : links ≤ maxLinks) (reached : Reached tree here)
    (dir : tree.node middle = some .dir) (found : walk tree links here path = some middle)
    : createDirsFrom tree here (path ++ rest) = createDirsFrom tree middle rest := by
  induction path generalizing here links with
  | nil =>
      have same : here = middle := by
        cases links <;> exact Option.some.inj found
      rw [same]
      rfl
  | cons name path ih =>
      by_cases last : path = []
      · subst last
        have walked : walk tree maxLinks here [name] = some middle := walk_more le found
        simp only [List.cons_append, createDirsFrom, walked, dir, if_true, List.nil_append]
      · have split : name :: path = [name] ++ path := rfl
        rw [split] at found
        obtain ⟨next, first, nextDir, fewer, fits, later⟩ := walk_append reached last found
        have walked : walk tree maxLinks here [name] = some next := walk_more le first
        simp only [List.cons_append, createDirsFrom, walked, nextDir next List.prefix_rfl, if_true]
        exact ih (fits.trans le) nextDir later

-----------------------------------------------------------------------------------------
-- Plain entries
-----------------------------------------------------------------------------------------

theorem namesOf_eq_some {skips : Component → Bool} {path : List Component} {names : List String}
    (is : namesOf skips path = some names) {name : String}
    : .normal name ∈ path ↔ name ∈ names := by
  induction path generalizing names with
  | nil =>
      obtain rfl := Option.some.inj is
      simp
  | cons component rest ih =>
      cases component with
      | normal own =>
          obtain ⟨others, restIs, rfl⟩ := Option.map_eq_some_iff.mp is
          simp [ih restIs]
      | rootDir | curDir | parentDir =>
          simp only [namesOf] at is
          split at is
          · simp [ih is]
          · cases is

/-- The names among the components of a path name entries of their own. -/
theorem plain_of_mem_components {path name : String} (member : .normal name ∈ components path)
    : plainName name = true := by
  simp only [components, List.mem_append] at member
  rcases member with lead | piece
  · split at lead
    · simp at lead
    · split at lead <;> simp at lead
  · obtain ⟨piece, -, is⟩ := List.mem_filterMap.mp piece
    simp only [pieceComponent] at is
    split at is
    case h_1 | h_2 => cases is
    case h_3 => cases is
    case h_4 notEmpty notDot notDots =>
      obtain rfl := Component.normal.inj (Option.some.inj is)
      simp only [plainName, Bool.and_eq_true, decide_eq_true_eq, ne_eq]
      exact ⟨⟨notEmpty, notDot⟩, notDots⟩

theorem plain_of_relNames {path : String} {names : List String}
    (is : relNames (components path) = some names)
    : ∀ name ∈ names, plainName name = true :=
  fun _ member => plain_of_mem_components ((namesOf_eq_some is).mpr member)

/-- What the mark of an entry is read from. -/
theorem Entry.mark_eq_some {entry : Entry} {m : Mark String} (is : entry.mark = some m)
    : ∃ names, relNames (components entry.path) = some names
      ∧ match whiteoutTarget ((fileName (components entry.path)).getD "") with
        | some target =>
            target = ".wh..opq" ∧ m = .clear names.dropLast
            ∨ target ≠ ".wh..opq" ∧ plainName target = true
              ∧ m = .drop (names.dropLast ++ [target])
        | none =>
            entry.content = .dir ∧ m = .put names true
            ∨ entry.content = .file ∧ m = .put names false := by
  obtain ⟨names, found, is⟩ := Option.bind_eq_some_iff.mp is
  refine ⟨names, found, ?_⟩
  cases white : whiteoutTarget ((fileName (components entry.path)).getD "") with
  | some target =>
      simp only [white] at is ⊢
      split at is
      case isTrue clears => exact .inl ⟨clears, (Option.some.inj is).symm⟩
      case isFalse named =>
        split at is
        case isTrue own => exact .inr ⟨named, own, (Option.some.inj is).symm⟩
        case isFalse => cases is
  | none =>
      simp only [white] at is ⊢
      split at is
      case h_1 dir => exact .inl ⟨dir, (Option.some.inj is).symm⟩
      case h_2 file => exact .inr ⟨file, (Option.some.inj is).symm⟩
      case h_3 => cases is

section

variable {start tree : Tree} {dest : List String} {top : Location} {unpackIn : UnpackIn}

/-- A whiteout of the export, where its directory is there and where it is not. -/
theorem flatWhiteout_of (exporting : Exporting start dest top tree) {names : List String}
    (plain : ∀ name ∈ names.dropLast, plainName name = true) (target : String)
    : ((flatWhiteout tree dest names target).map Deletion.after).getD tree
      = if (tree.node (top ++ names.dropLast)).isSome then
          if target = ".wh..opq" then
            removeEach tree (dest ++ names.dropLast) (children tree (top ++ names.dropLast))
          else dirElseFile tree (joined (dest ++ names.dropLast) target).1
            (joined (dest ++ names.dropLast) target).2
        else tree := by
  simp only [flatWhiteout, exporting.resolve plain, exporting.arrives]
  by_cases there : (tree.node (top ++ names.dropLast)).isSome
  · simp [there]
  · simp [there]

/-- In a directory that is not there, nothing is taken. -/
theorem Exporting.untouched (exporting : Exporting start dest top tree) {parent : List String}
    (absent : tree.node (top ++ parent) = none) (name : String)
    : shapeOf tree top = (shapeOf tree top).apply (.clear parent)
      ∧ shapeOf tree top = (shapeOf tree top).apply (.drop (parent ++ [name])) := by
  have below {rel : List String} (start : parent <+: rel) : shapeOf tree top rel = none := by
    simp [shapeOf, exporting.absent_below absent start]
  constructor
  · funext rel
    simp only [Shape.apply]
    split
    case isTrue above => exact below above.1
    case isFalse => rfl
  · funext rel
    simp only [Shape.apply]
    split
    case isTrue start => exact below ((List.prefix_append _ _).trans start)
    case isFalse => rfl

/-- A whiteout is executed. -/
theorem Exporting.whiteout (exporting : Exporting start dest top tree) {names : List String}
    (plain : ∀ name ∈ names, plainName name = true) {target : String} {m : Mark String}
    (is : target = ".wh..opq" ∧ m = .clear names.dropLast
      ∨ target ≠ ".wh..opq" ∧ plainName target = true ∧ m = .drop (names.dropLast ++ [target]))
    : let after := ((flatWhiteout tree dest names target).map Deletion.after).getD tree
      Exporting start dest top after ∧ shapeOf after top = (shapeOf tree top).apply m := by
  have plain : ∀ name ∈ names.dropLast, plainName name = true :=
    fun name member => plain name (List.mem_of_mem_dropLast member)
  intro after
  have after_is : after = _ := flatWhiteout_of exporting plain target
  by_cases there : (tree.node (top ++ names.dropLast)).isSome
  · rw [if_pos there] at after_is
    rcases is with ⟨clears, rfl⟩ | ⟨named, own, rfl⟩
    · rw [after_is, if_pos clears]
      exact exporting.clear plain
    · have joins : joined (dest ++ names.dropLast) target
          = (dest ++ (names.dropLast ++ [target]), false) := by
        have notEmpty : target ≠ "" := by
          rintro rfl
          cases own
        simp [joined, notEmpty]
      rw [after_is, if_neg named, joins]
      exact exporting.drop plain own
  · rw [if_neg there] at after_is
    have untouched := exporting.untouched (Option.not_isSome_iff_eq_none.mp there) target
    rw [after_is]
    rcases is with ⟨-, rfl⟩ | ⟨-, -, rfl⟩
    · exact ⟨exporting, untouched.1⟩
    · exact ⟨exporting, untouched.2⟩

/-- The directory of an entry is made, as far as it can be. -/
theorem Exporting.prepared (exporting : Exporting start dest top tree) {path : List Component}
    {names : List String} (is : relNames path = some names)
    (plain : ∀ name ∈ names, plainName name = true)
    : Exporting start dest top (prepared tree dest path)
      ∧ shapeOf (prepared tree dest path) top
        = (shapeOf tree top).apply (.put names.dropLast true) := by
  have plain : ∀ name ∈ names.dropLast, plainName name = true :=
    fun name member => plain name (List.mem_of_mem_dropLast member)
  have root : shapeOf tree top [] = some true := shapeOf_eq_dir.mpr (by simpa using exporting.dir)
  by_cases short : names.dropLast = []
  · have same : Images.prepared tree dest path = tree := by
      unfold Images.prepared safeRel
      rw [show namesOf (· == .curDir) path = some names from is]
      by_cases empty : names = [] <;> simp [Option.filter, empty, short]
    rw [same, short, exporting.closed.apply_put (by rw [root]; rfl)]
    exact ⟨exporting, rfl⟩
  · have named : names ≠ [] := fun empty => short (by simp [empty])
    have made : Images.prepared tree dest path
        = Images.createDirsFrom tree (top ++ []) names.dropLast := by
      unfold Images.prepared safeRel
      rw [show namesOf (· == .curDir) path = some names from is]
      simp only [Option.filter, named, ne_eq, not_false_eq_true, decide_true, if_true, short,
        if_false]
      rw [List.append_nil]
      exact createDirsFrom_append le_rfl (reached_root tree) exporting.dir exporting.arrives
    rw [made]
    exact exporting.createDirsFrom (by simpa using exporting.dir) plain

/-- A directory or a file is unpacked where its directory was made. -/
theorem Exporting.unpacked (exporting : Exporting start dest top tree)
    (documented : Unpacks unpackIn) {entry : Entry} {names : List String}
    (is : relNames (components entry.path) = some names) {dir : Bool}
    (content : entry.content = if dir then .dir else .file)
    (goes : (unpackIn (Images.prepared tree dest (components entry.path)) dest entry).2 ≠ .exceeded)
    : let after := (unpackIn (Images.prepared tree dest (components entry.path)) dest entry).1
      Exporting start dest top after
        ∧ shapeOf after top = (shapeOf tree top).apply (.put names dir) := by
  have plain := plain_of_relNames is
  obtain ⟨ready, made⟩ := exporting.prepared is plain
  have either : entry.content = .dir ∨ entry.content = .file := by cases dir <;> simp [content]
  have nodes := documented _ _ _ _ _ _ ready is plain either goes
  intro after
  have shape : shapeOf after top = (shapeOf tree top).apply (.put names dir) := by
    rcases List.eq_nil_or_concat names with rfl | ⟨parent, name, rfl⟩
    · have root : shapeOf tree top [] = some true :=
        shapeOf_eq_dir.mpr (by simpa using exporting.dir)
      have there : (shapeOf tree top []).isSome := by rw [root]; rfl
      rw [List.dropLast_nil, exporting.closed.apply_put there] at made
      rw [exporting.closed.apply_put there, ← made]
      funext rel
      simp [shapeOf, after, nodes]
    · rw [List.concat_eq_append, List.dropLast_concat] at made nodes
      rw [List.concat_eq_append, exporting.closed.apply_put_concat, ← made]
      have kind : (entry.content == .dir) = dir := by cases dir <;> simp [content]
      by_cases holds : shapeOf (Images.prepared tree dest (components entry.path)) top parent
          = some true
      · rw [if_pos holds]
        funext rel
        by_cases same : rel = parent ++ [name]
        · rw [if_pos same, same, shapeOf, nodes, if_pos ⟨by simp, rfl, shapeOf_eq_dir.mp holds⟩,
            Option.map_or, Option.map_some, kind]
          rfl
        · simp [shapeOf, after, nodes, same]
      · rw [if_neg holds]
        have notDir := fun isDir => holds (shapeOf_eq_dir.mpr isDir)
        funext rel
        rw [shapeOf, nodes, if_neg fun all => notDir all.2.2]
        rfl
  refine ⟨exporting.of_apply ?_ ?_ shape ?_, shape⟩
  · intro location apart
    rw [nodes, if_neg]
    · exact (ready.kept location apart).trans (exporting.kept location apart).symm
    · rintro ⟨named, rfl, -⟩
      exact apart (below_top.mpr named)
  · intro rel kind stands
    rw [nodes] at stands
    split at stands
    · rcases Option.or_eq_some_iff.mp stands with old | ⟨-, new⟩
      · exact ready.kinds rel kind old
      · exact Option.some.inj new ▸ either
    · exact ready.kinds rel kind stands
  · exact fun rel gives name member => plain name (gives.subset member)

/-- A plain entry is executed as its mark. -/
theorem Exporting.entry (exporting : Exporting start dest top tree)
    (documented : Unpacks unpackIn) (plain : PlainEntry)
    (goes : (flatEntry unpackIn dest tree plain.entry).goesOn = true)
    : Exporting start dest top (flatEntry unpackIn dest tree plain.entry).state
      ∧ shapeOf (flatEntry unpackIn dest tree plain.entry).state top
        = (shapeOf tree top).apply plain.mark := by
  obtain ⟨names, is, reads⟩ := Entry.mark_eq_some plain.plain
  unfold flatEntry at goes ⊢
  dsimp only at goes ⊢
  cases white : whiteoutTarget ((fileName (components plain.entry.path)).getD "") with
  | some target =>
      rw [white] at reads
      have safe : safeRel (components plain.entry.path) = some names := by
        have named : names ≠ [] := by
          rintro rfl
          cases last : fileName (components plain.entry.path) with
          | none =>
              have nothing : whiteoutTarget "" = none := by decide
              rw [last, Option.getD_none, nothing] at white
              cases white
          | some name =>
              unfold fileName at last
              split at last
              case h_1 found isLast =>
                have member := List.mem_of_getLast? isLast
                simpa using (namesOf_eq_some is).mp member
              case h_2 => cases last
        rw [safeRel, show namesOf (· == .curDir) _ = some names from is]
        simp [Option.filter, named]
      simp only [safe, Option.bind_some]
      exact exporting.whiteout (plain_of_relNames is) reads
  | none =>
      simp only [white] at goes reads ⊢
      have goes := bne_iff_ne.mp goes
      rcases reads with ⟨content, mark⟩ | ⟨content, mark⟩
      · rw [mark]
        exact exporting.unpacked documented is content goes
      · rw [mark]
        exact exporting.unpacked documented is content goes

/-- A layer is executed entry by entry. -/
theorem Exporting.loop (documented : Unpacks unpackIn) {maxEntries count : Nat}
    {tree : Tree} (exporting : Exporting start dest top tree) (layer : List PlainEntry)
    (ok : (entryLoop (flatEntry unpackIn dest) maxEntries count tree
      (layer.map PlainEntry.entry)).ok = true)
    : let after := (entryLoop (flatEntry unpackIn dest) maxEntries count tree
        (layer.map PlainEntry.entry)).state
      Exporting start dest top after
        ∧ shapeOf after top = (shapeOf tree top).applyAll (layer.map PlainEntry.mark) := by
  induction layer generalizing count tree with
  | nil => exact ⟨exporting, rfl⟩
  | cons plain rest ih =>
      simp only [List.map_cons, entryLoop] at ok ⊢
      split at ok
      case isTrue => cases ok
      case isFalse within =>
        rw [if_neg within]
        split at ok
        case isFalse => cases ok
        case isTrue goes =>
          rw [if_pos goes]
          obtain ⟨next, shape⟩ := exporting.entry documented plain goes
          obtain ⟨last, is⟩ := ih next ok
          refine ⟨last, ?_⟩
          rw [is, shape]
          rfl

/-- The layers are executed one after the other. -/
theorem Exporting.layers (documented : Unpacks unpackIn) {maxEntries : Nat}
    {tree after : Tree} (exporting : Exporting start dest top tree)
    (layers : List (List PlainEntry))
    (exported : (entriesOf layers).foldlM (fun tree layer =>
        let unpacking := applyLayerFlatLimited unpackIn dest maxEntries tree layer
        if unpacking.ok then some unpacking.state else none) tree = some after)
    : shapeOf after top = (shapeOf tree top).applyAll (marksOf layers).flatten := by
  induction layers generalizing tree with
  | nil =>
      obtain rfl := Option.some.inj exported
      rfl
  | cons layer rest ih =>
      simp only [entriesOf, List.map_cons, List.foldlM_cons] at exported
      obtain ⟨next, first, later⟩ := Option.bind_eq_some_iff.mp exported
      split at first
      case isFalse => cases first
      case isTrue ok =>
        obtain rfl := Option.some.inj first
        obtain ⟨reached, shape⟩ := exporting.loop documented layer ok
        rw [ih reached later]
        simp only [marksOf, List.map_cons, List.flatten_cons, Shape.applyAll_append]
        rw [← shape]

end

-----------------------------------------------------------------------------------------
-- The whole export
-----------------------------------------------------------------------------------------

/-- Nothing but the root. -/
def bare : Shape String := fun rel => if rel = [] then some true else none

theorem Fresh.exporting {tree : Tree} {dest : List String} {top : Location}
    (fresh : Fresh tree dest top)
    : Exporting tree dest top tree ∧ shapeOf tree top = bare := by
  have empty {rel : List String} (named : rel ≠ []) : tree.node (top ++ rel) = none :=
    fresh.empty _ (below_top.mpr named)
  have shape : shapeOf tree top = bare := by
    funext rel
    by_cases root : rel = []
    · simp [root, shapeOf, bare, fresh.dir]
    · simp [shapeOf, bare, root, empty root]
  refine ⟨⟨fresh, fun _ _ => rfl, ?_, ?_, ?_⟩, shape⟩
  · intro rel node stands
    by_cases root : rel = []
    · subst root
      rw [List.append_nil, fresh.dir] at stands
      exact .inl (Option.some.inj stands).symm
    · rw [empty root] at stands
      cases stands
  · intro q p above there
    rw [shape] at there
    by_cases root : p = []
    · subst root
      exact absurd (List.prefix_nil.mp above.1) above.2
    · simp [bare, root] at there
  · intro rel there name member
    by_cases root : rel = []
    · subst root
      cases member
    · rw [empty root] at there
      cases there

/-- The path is there below the destination. -/
def Present (after : Tree) (top : Location) (path : List String) : Prop :=
  (after.node (top ++ path)).isSome

/-- An export into an empty directory leaves exactly what the layers provide where they are
undisturbed, and only there; and then the order inside the layers does not matter.
-/
theorem export_rootfs_provides {unpackIn : UnpackIn} (documented : Unpacks unpackIn)
    {maxEntries : Nat} {dest : List String} {tree after : Tree} {top : Location}
    (fresh : Fresh (createDirAll tree dest) dest top) (layers : List (List PlainEntry))
    (exported : exportRootfs unpackIn maxEntries dest tree (entriesOf layers) = some after)
    : ((∀ path, path ≠ [] → (Present after top path ↔ Provided (marksOf layers) path))
        ↔ Undisturbed bare (marksOf layers))
      ∧ ∀ others other, List.Forall₂ List.Perm layers others →
        exportRootfs unpackIn maxEntries dest tree (entriesOf others) = some other →
        Undisturbed bare (marksOf layers) → Undisturbed bare (marksOf others) →
        ∀ path, path ≠ [] → (Present after top path ↔ Present other top path) := by
  obtain ⟨exporting, start⟩ := fresh.exporting
  have closed : bare.Closed := start ▸ exporting.closed
  have absent {path : List String} : bare path = none ↔ path ≠ [] := by
    by_cases root : path = [] <;> simp [bare, root]
  have present {layers : List (List PlainEntry)} {after : Tree}
      (exported : exportRootfs unpackIn maxEntries dest tree (entriesOf layers) = some after)
      (path : List String)
      : Present after top path ↔ (bare.applyAll (marksOf layers).flatten path).isSome := by
    rw [Present, ← isSome_shapeOf, exporting.layers documented layers exported, start]
  have exactly {layers : List (List PlainEntry)} {after : Tree}
      (exported : exportRootfs unpackIn maxEntries dest tree (entriesOf layers) = some after)
      : (∀ path, path ≠ [] → (Present after top path ↔ Provided (marksOf layers) path))
        ↔ Undisturbed bare (marksOf layers) := by
    rw [← isSome_iff_provided_iff closed]
    simp only [absent, present exported]
  refine ⟨exactly exported, ?_⟩
  intro others other same exported' kept kept' path named
  have marks : List.Forall₂ List.Perm (marksOf layers) (marksOf others) := by
    rw [marksOf, marksOf, List.forall₂_map_left_iff, List.forall₂_map_right_iff]
    exact same.imp fun _ _ perm => perm.map _
  rw [(exactly exported).mpr kept path named, (exactly exported').mpr kept' path named]
  exact provided_reordered marks

/-- An entry is unpacked where its path leads, if nothing of another kind stands there. -/
def unpackPlain : UnpackIn := fun tree dest entry =>
  match relNames (components entry.path) with
  | none => (tree, .done)
  | some names =>
      match names.getLast?, tree.resolve (dest ++ names.dropLast) with
      | none, _ => (tree, .done)
      | some _, none => (tree, .failed)
      | some name, some parent =>
          if tree.node parent = some .dir then
            match tree.node (parent ++ [name]) with
            | none => ((parent ++ [name], entry.content) :: tree, .done)
            | some old => (tree, if old = entry.content then .done else .failed)
          else (tree, .failed)

theorem unpackPlain_documented : Unpacks unpackPlain := by
  intro start dest top tree entry names exporting is plain content goes location
  have walked := exporting.resolve fun name member => plain name (List.mem_of_mem_dropLast member)
  simp only [unpackPlain, is, walked]
  rcases List.eq_nil_or_concat names with rfl | ⟨parent, name, rfl⟩
  · simp
  rw [List.concat_eq_append]
  simp only [List.dropLast_concat, List.getLast?_concat]
  by_cases dir : tree.node (top ++ parent) = some .dir
  · simp only [dir, Option.isSome_some, if_true, List.append_assoc]
    by_cases same : location = top ++ (parent ++ [name])
    · subst same
      cases stands : tree.node (top ++ (parent ++ [name])) with
      | none => simp [FileTree.Tree.node]
      | some old => simp [stands]
    · rw [if_neg fun all => same all.2.1]
      cases tree.node (top ++ (parent ++ [name])) with
      | none =>
          unfold FileTree.Tree.node
          split
          · rfl
          · simp [List.lookup_cons, beq_false_of_ne same]
      | some old => rfl
  · by_cases there : (tree.node (top ++ parent)).isSome
    · simp [there, dir]
    · simp [there, dir]

/-- A file, and the whiteout of it in a higher layer. -/
def removedAbove : List (List PlainEntry) :=
  [[⟨⟨"a/b", .file⟩, .put ["a", "b"] false, by decide⟩],
    [⟨⟨"a/.wh.b", .file⟩, .drop ["a", "b"], by decide⟩]]

def emptyOut : Tree := [(["out"], .dir)]

theorem fresh_emptyOut : Fresh (createDirAll emptyOut ["out"]) ["out"] ["out"] where
  arrives := by decide
  dir := by decide
  empty location below := by
    have made : createDirAll emptyOut ["out"] = emptyOut := by decide
    have apart : location ≠ ["out"] := fun is => below.2 is.symm
    have notRoot : location ≠ [] := fun is => by simp [is, Below] at below
    rw [made, FileTree.Tree.node, if_neg notRoot]
    simp [emptyOut, List.lookup_cons, beq_false_of_ne apart]

theorem export_rootfs_provides_removedAbove
    : (∀ path, path ≠ [] → (Present [(["out", "a"], .dir), (["out"], .dir)] ["out"] path
        ↔ Provided (marksOf removedAbove) path))
      ↔ Undisturbed bare (marksOf removedAbove) :=
  (@export_rootfs_provides unpackPlain unpackPlain_documented 10 ["out"] emptyOut _ ["out"]
    fresh_emptyOut removedAbove (by decide +kernel)).1

/-- A directory, a file in it, and a marker that the directory hides what is below it in lower
layers.
-/
def markerLast : List (List PlainEntry) :=
  [[⟨⟨"a/b", .file⟩, .put ["a", "b"] false, by decide⟩,
    ⟨⟨"a/.wh..wh..opq", .file⟩, .clear ["a"], by decide⟩]]

/-- The marker takes the file of its own layer. -/
theorem marker_takes_own_layer
    : ¬ ∀ (layers : List (List PlainEntry)) (after : Tree),
        exportRootfs unpackPlain 10 ["out"] emptyOut (entriesOf layers) = some after →
        ∀ path, path ≠ [] → (Present after ["out"] path ↔ Provided (marksOf layers) path) := by
  intro provides
  have exported : exportRootfs unpackPlain 10 ["out"] emptyOut (entriesOf markerLast)
      = some [(["out", "a"], .dir), (["out"], .dir)] := by
    decide +kernel
  have provided : Provided (marksOf markerLast) ["a", "b"] :=
    ⟨[], _, [], rfl, ⟨.put ["a", "b"] false, by decide, by decide⟩, by simp⟩
  have there := (provides markerLast _ exported ["a", "b"] (by simp)).mpr provided
  exact absurd there (by simp [Present, FileTree.Tree.node])

end Delonix.Images
