import Mathlib.Data.List.Infix

/-! A file tree with symbolic links, and the system calls that remove from it.
A path is a list of names that is walked from the root; a location is a path without links, dots
or gaps, and names at most one entry. Removing a path removes the entry it leads to, and what
lies below; a path that ends in a dot, two dots or a slash leads to a directory whose contents
go, whether or not the directory itself does.
-/

namespace Delonix.Library.FileTree

abbrev Location := List String

inductive Node where
  | dir
  | file
  | device
  | symlink (absolute : Bool) (target : List String)
  deriving DecidableEq, Repr

/-- The entries below the root, each at its location. -/
abbrev Tree := List (Location × Node)

def Tree.node (tree : Tree) (location : Location) : Option Node :=
  if location = [] then some .dir else tree.lookup location

/-- A name that stands for an entry and not for a directory on the way. -/
def plainName (name : String) : Bool := name ≠ "" && name ≠ "." && name ≠ ".."

-----------------------------------------------------------------------------------------
-- Walking a path
-----------------------------------------------------------------------------------------

/-- Walks the names of a path from a directory. A link is followed by `follow`, with the names
still to come.
-/
def walkWith (follow : Location → List String → Option Location) (tree : Tree)
    : Location → List String → Option Location
  | here, [] => some here
  | here, name :: rest =>
      if name = "" ∨ name = "." then walkWith follow tree here rest
      else if name = ".." then walkWith follow tree here.dropLast rest
      else
        match tree.node (here ++ [name]) with
        | some .dir => walkWith follow tree (here ++ [name]) rest
        | some (.symlink absolute target) =>
            follow (if absolute then [] else here) (target ++ rest)
        | some _ => if rest = [] then some (here ++ [name]) else none
        | none => none

/-- Walks a path through at most so many links. -/
def walk (tree : Tree) : Nat → Location → List String → Option Location
  | 0 => walkWith (fun _ _ => none) tree
  | links + 1 => walkWith (walk tree links) tree

def maxLinks : Nat := 40

/-- `canonicalize`: where a path leads, links followed to the end. -/
def Tree.resolve (tree : Tree) (path : List String) : Option Location :=
  walk tree maxLinks [] path

/-- A path that ends in one more name leads there from where the path leads. -/
theorem walkWith_concat {follow : Location → List String → Option Location} {tree : Tree}
    {here target : Location} {path : List String} {name : String}
    (followed : ∀ here path target, follow here (path ++ [name]) = some target
      → ∃ middle, follow here path = some middle
        ∧ ∃ links, walk tree links middle [name] = some target)
    (last : ∀ middle target, walkWith follow tree middle [name] = some target
      → ∃ links, walk tree links middle [name] = some target)
    (found : walkWith follow tree here (path ++ [name]) = some target)
    : ∃ middle, walkWith follow tree here path = some middle
      ∧ ∃ links, walk tree links middle [name] = some target := by
  induction path generalizing here with
  | nil => exact ⟨here, rfl, last here target found⟩
  | cons first rest ih =>
      simp only [List.cons_append, walkWith] at found ⊢
      by_cases skip : first = "" ∨ first = "."
      · simp only [skip, if_true] at found ⊢
        exact ih found
      · by_cases up : first = ".."
        · subst up
          exact ih found
        · simp only [skip, up, if_false] at found ⊢
          split at found
          case h_1 => exact ih found
          case h_2 absolute path _ =>
            rw [← List.append_assoc] at found
            exact followed _ _ _ found
          case h_3 => simp at found
          case h_4 => cases found

theorem walk_concat {tree : Tree} {links : Nat} {here target : Location} {path : List String}
    {name : String} (found : walk tree links here (path ++ [name]) = some target)
    : ∃ middle, walk tree links here path = some middle
      ∧ ∃ links, walk tree links middle [name] = some target := by
  induction links generalizing here path target with
  | zero =>
      refine walkWith_concat ?_ (fun _ _ is => ⟨0, is⟩) found
      intro _ _ _ impossible
      cases impossible
  | succ fewer ih =>
      exact walkWith_concat (fun _ _ _ followed => ih followed)
        (fun _ _ is => ⟨fewer + 1, is⟩) found

theorem walk_dots {tree : Tree} {links : Nat} {here target : Location}
    (found : walk tree links here [".."] = some target)
    : target = here.dropLast := by
  cases links <;> exact (Option.some.inj found).symm

theorem walk_dot {tree : Tree} {links : Nat} {here target : Location}
    (found : walk tree links here ["."] = some target)
    : target = here := by
  cases links <;> exact (Option.some.inj found).symm

theorem walk_dir {tree : Tree} {links : Nat} {here target : Location} {name : String}
    (plain : plainName name = true) (isDir : tree.node (here ++ [name]) = some .dir)
    (found : walk tree links here [name] = some target)
    : target = here ++ [name] := by
  simp only [plainName, Bool.and_eq_true, decide_eq_true_eq, ne_eq] at plain
  obtain ⟨⟨notEmpty, notDot⟩, notDots⟩ := plain
  cases links
  all_goals
    simp only [walk, walkWith, notEmpty, notDot, notDots, isDir, or_false, if_false] at found
    exact (Option.some.inj found).symm

/-- What a smaller tree has, the larger has too. -/
def Tree.Within (small tree : Tree) : Prop :=
  ∀ location node, small.node location = some node → tree.node location = some node

theorem walkWith_mono {small tree : Tree} (within : small.Within tree)
    {less more : Location → List String → Option Location}
    (followed : ∀ here path target, less here path = some target → more here path = some target)
    {here target : Location} {path : List String}
    (found : walkWith less small here path = some target)
    : walkWith more tree here path = some target := by
  induction path generalizing here with
  | nil => exact found
  | cons first rest ih =>
      simp only [walkWith] at found ⊢
      by_cases skip : first = "" ∨ first = "."
      · simp only [skip, if_true] at found ⊢
        exact ih found
      · by_cases up : first = ".."
        · subst up
          exact ih found
        · simp only [skip, up, if_false] at found ⊢
          cases stands : small.node (here ++ [first]) with
          | none => simp [stands] at found
          | some node =>
              rw [within _ _ stands]
              rw [stands] at found
              cases node with
              | dir => exact ih found
              | symlink absolute link => exact followed _ _ _ found
              | file | device => exact found

/-- A path that a smaller tree resolves leads to the same place in the larger. -/
theorem walk_mono {small tree : Tree} (within : small.Within tree) {links : Nat}
    {here target : Location} {path : List String}
    (found : walk small links here path = some target)
    : walk tree links here path = some target := by
  induction links generalizing here path target with
  | zero => exact walkWith_mono within (fun _ _ _ impossible => impossible) found
  | succ fewer ih => exact walkWith_mono within (fun _ _ _ followed => ih followed) found

-----------------------------------------------------------------------------------------
-- Removing
-----------------------------------------------------------------------------------------

/-- The tree without the entries a test picks. -/
def Tree.without (tree : Tree) (gone : Location → Bool) : Tree :=
  tree.filter fun entry => !gone entry.1

/-- Strictly below a location. -/
def Below (top location : Location) : Prop := top <+: location ∧ top ≠ location

instance (top location : Location) : Decidable (Below top location) :=
  inferInstanceAs (Decidable (_ ∧ _))

theorem below_of_start {top directory location : Location} (inside : top <+: directory)
    (below : Below directory location)
    : Below top location := by
  refine ⟨inside.trans below.1, ?_⟩
  rintro rfl
  exact below.2 (inside.eq_of_length_le below.1.length_le).symm

theorem below_concat {top directory location : Location} {name : String}
    (inside : top <+: directory) (within : directory ++ [name] <+: location)
    : Below top location := by
  refine below_of_start inside ⟨(List.prefix_append _ _).trans within, ?_⟩
  rintro rfl
  have long := within.length_le
  rw [List.length_append, List.length_singleton] at long
  omega

theorem prefix_dropLast {top directory : Location} (above : top <+: directory)
    (apart : top ≠ directory)
    : top <+: directory.dropLast := by
  obtain ⟨rest, rfl⟩ := above
  cases rest using List.reverseRec with
  | nil => simp at apart
  | append_singleton rest name => simp [← List.append_assoc]

/-- Where `lstat` looks: the last name is not followed, unless a slash ends the path. -/
def Tree.look (tree : Tree) (path : List String) (slash : Bool) : Option Location :=
  match slash, path.getLast? with
  | false, some name =>
      if plainName name then (tree.resolve path.dropLast).map (· ++ [name])
      else tree.resolve path
  | _, _ => tree.resolve path

/-- `rmdir`: a path that ends in dots fails, and so does one that ends in a link. -/
def Tree.rmdir (tree : Tree) (path : List String) : Tree × Bool :=
  match path.getLast? with
  | none => (tree, false)
  | some name =>
      if !plainName name then (tree, false)
      else
        match tree.resolve path.dropLast with
        | none => (tree, false)
        | some parent =>
            if tree.node (parent ++ [name]) = some .dir
                ∧ ∀ entry ∈ tree, ¬ Below (parent ++ [name]) entry.1 then
              (tree.without (· == parent ++ [name]), true)
            else (tree, false)

/-- The path names an entry itself, and not a directory by dots or a slash. -/
def namesEntry (path : List String) (slash : Bool) : Bool :=
  !slash && path.getLast?.any plainName

/-- `remove_dir_all`: a link is unlinked, a directory emptied and then removed, anything else an
error. A directory that is gone by then counts as removed.
-/
def Tree.removeDirAll (tree : Tree) (path : List String) (slash : Bool) : Tree × Bool :=
  match tree.look path slash with
  | none => (tree, false)
  | some location =>
      match tree.node location with
      | some .dir =>
          let emptied := tree.without fun entry => Below location entry
          if (emptied.look path slash).isNone then (emptied, true) else emptied.rmdir path
      | some (.symlink _ _) =>
          if namesEntry path slash then (tree.without (· == location), true) else (tree, false)
      | _ => (tree, false)

/-- `remove_file`: anything but a directory. -/
def Tree.removeFile (tree : Tree) (path : List String) (slash : Bool) : Tree × Bool :=
  if namesEntry path slash then
    match tree.look path slash with
    | none => (tree, false)
    | some location =>
        match tree.node location with
        | some .dir | none => (tree, false)
        | _ => (tree.without (· == location), true)
  else (tree, false)

-----------------------------------------------------------------------------------------
-- What removing reaches
-----------------------------------------------------------------------------------------

/-- The entry is there before and not after. -/
def Lost (before after : Tree) (location : Location) : Prop :=
  location ∈ before.map Prod.fst ∧ location ∉ after.map Prod.fst

theorem Lost.split {before after : Tree} {location : Location} (lost : Lost before after location)
    (middle : Tree)
    : Lost before middle location ∨ Lost middle after location := by
  by_cases kept : location ∈ middle.map Prod.fst
  · exact .inr ⟨kept, lost.2⟩
  · exact .inl ⟨lost.1, kept⟩

theorem not_lost_self {tree : Tree} {location : Location} : ¬ Lost tree tree location :=
  fun lost => lost.2 lost.1

theorem lost_without {tree : Tree} {gone : Location → Bool} {location : Location}
    (lost : Lost tree (tree.without gone) location)
    : gone location = true := by
  obtain ⟨there, notAfter⟩ := lost
  obtain ⟨⟨_, node⟩, member, rfl⟩ := List.mem_map.mp there
  by_contra kept
  refine notAfter (List.mem_map.mpr ⟨_, List.mem_filter.mpr ⟨member, ?_⟩, rfl⟩)
  simpa using kept

theorem lost_below {tree : Tree} {top location : Location}
    (lost : Lost tree (tree.without fun entry => Below top entry) location)
    : Below top location :=
  of_decide_eq_true (lost_without lost)

theorem lost_single {tree : Tree} {top location : Location}
    (lost : Lost tree (tree.without (· == top)) location)
    : location = top := by
  simpa using lost_without lost

theorem lookup_without (tree : Tree) (gone : Location → Bool) (location : Location)
    : (tree.without gone).lookup location
      = if gone location then none else tree.lookup location := by
  induction tree with
  | nil => simp [Tree.without]
  | cons entry rest ih =>
      obtain ⟨first, node⟩ := entry
      simp only [Tree.without] at ih ⊢
      by_cases same : location = first
      · subst same
        cases dropped : gone location <;> simp [dropped, ih]
      · cases dropped : gone first
          <;> simp [List.lookup_cons, dropped, beq_false_of_ne same, ih]

theorem node_without (tree : Tree) {gone : Location → Bool} (root : gone [] = false)
    (location : Location)
    : (tree.without gone).node location = if gone location then none else tree.node location := by
  unfold Tree.node
  by_cases top : location = []
  · simp [top, root]
  · rw [if_neg top, if_neg top, lookup_without]

theorem within_without (tree : Tree) (gone : Location → Bool) : (tree.without gone).Within tree := by
  intro location node found
  simp only [Tree.node] at found ⊢
  split at found
  case isTrue root => simpa [root] using found
  case isFalse deeper =>
    rw [lookup_without] at found
    rw [if_neg deeper]
    split at found
    · cases found
    · exact found

theorem Tree.Within.refl (tree : Tree) : tree.Within tree := fun _ _ found => found

theorem Tree.Within.trans {small middle tree : Tree} (first : small.Within middle)
    (second : middle.Within tree)
    : small.Within tree :=
  fun location node found => second location node (first location node found)

/-- The last name of the path is that of a directory, and no link or dots. -/
def NamesDir (tree : Tree) (path : List String) (location : Location) : Prop :=
  ∃ name parent, path.getLast? = some name ∧ plainName name = true
    ∧ tree.resolve path.dropLast = some parent ∧ location = parent ++ [name]
    ∧ tree.node location = some .dir

/-- What a removal of the path may take away. -/
def Reaches (tree : Tree) (path : List String) (slash : Bool) (location : Location) : Prop :=
  ∃ top, tree.look path slash = some top
    ∧ (Below top location ∨ (namesEntry path slash = true ∧ location = top)
      ∨ NamesDir tree path location)

section Mono

variable {small tree : Tree} (within : small.Within tree)
include within

theorem look_mono {path : List String} {slash : Bool} {top : Location}
    (found : small.look path slash = some top)
    : tree.look path slash = some top := by
  simp only [Tree.look] at found ⊢
  split at found
  case h_1 name last =>
    split at found
    case isTrue plain =>
      obtain ⟨parent, walked, rfl⟩ := Option.map_eq_some_iff.mp found
      have walked : tree.resolve path.dropLast = some parent := walk_mono within walked
      simp [plain, walked]
    case isFalse special =>
      simp only [special]
      exact walk_mono within found
  case h_2 => exact walk_mono within found

theorem NamesDir.mono {path : List String} {location : Location}
    (names : NamesDir small path location)
    : NamesDir tree path location := by
  obtain ⟨name, parent, last, plain, walked, rfl, isDir⟩ := names
  exact ⟨name, parent, last, plain, walk_mono within walked, rfl, within _ _ isDir⟩

theorem Reaches.mono {path : List String} {slash : Bool} {location : Location}
    (reaches : Reaches small path slash location)
    : Reaches tree path slash location := by
  obtain ⟨top, found, reached⟩ := reaches
  refine ⟨top, look_mono within found, ?_⟩
  rcases reached with below | itself | names
  · exact .inl below
  · exact .inr (.inl itself)
  · exact .inr (.inr (names.mono within))

end Mono

theorem lost_rmdir {tree : Tree} {path : List String} {location : Location}
    (lost : Lost tree (tree.rmdir path).1 location)
    : NamesDir tree path location := by
  simp only [Tree.rmdir] at lost
  split at lost
  case h_1 => exact absurd lost not_lost_self
  case h_2 name last =>
    split at lost
    case isTrue => exact absurd lost not_lost_self
    case isFalse special =>
      split at lost
      case h_1 => exact absurd lost not_lost_self
      case h_2 parent walked =>
        split at lost
        case isFalse => exact absurd lost not_lost_self
        case isTrue empty =>
          obtain rfl := lost_single lost
          exact ⟨name, parent, last, by simpa using special, walked, rfl, empty.1⟩

theorem lost_removeDirAll {tree : Tree} {path : List String} {slash : Bool} {location : Location}
    (lost : Lost tree (tree.removeDirAll path slash).1 location)
    : Reaches tree path slash location := by
  simp only [Tree.removeDirAll] at lost
  split at lost
  case h_1 => exact absurd lost not_lost_self
  case h_2 top found =>
    refine ⟨top, found, ?_⟩
    split at lost
    case h_1 =>
      split at lost
      · exact .inl (lost_below lost)
      · rcases lost.split (tree.without fun entry => Below top entry) with emptied | removed
        · exact .inl (lost_below emptied)
        · exact .inr (.inr ((lost_rmdir removed).mono (within_without _ _)))
    case h_2 =>
      split at lost
      case isTrue names => exact .inr (.inl ⟨names, lost_single lost⟩)
      case isFalse => exact absurd lost not_lost_self
    case h_3 => exact absurd lost not_lost_self

theorem lost_removeFile {tree : Tree} {path : List String} {slash : Bool} {location : Location}
    (lost : Lost tree (tree.removeFile path slash).1 location)
    : Reaches tree path slash location := by
  simp only [Tree.removeFile] at lost
  split at lost
  case isFalse => exact absurd lost not_lost_self
  case isTrue names =>
    split at lost
    case h_1 => exact absurd lost not_lost_self
    case h_2 top found =>
      split at lost
      · exact absurd lost not_lost_self
      · exact absurd lost not_lost_self
      · exact ⟨top, found, .inr (.inl ⟨names, lost_single lost⟩)⟩

theorem within_rmdir (tree : Tree) (path : List String) : (tree.rmdir path).1.Within tree := by
  simp only [Tree.rmdir]
  repeat' split
  all_goals first | exact .refl tree | simpa only using within_without tree _

theorem within_removeDirAll (tree : Tree) (path : List String) (slash : Bool)
    : (tree.removeDirAll path slash).1.Within tree := by
  simp only [Tree.removeDirAll]
  split
  · exact .refl tree
  · split
    · split
      · simpa only using within_without tree _
      · exact (within_rmdir _ _).trans (within_without _ _)
    · split
      · simpa only using within_without tree _
      · exact .refl tree
    · exact .refl tree

theorem within_removeFile (tree : Tree) (path : List String) (slash : Bool)
    : (tree.removeFile path slash).1.Within tree := by
  simp only [Tree.removeFile]
  repeat' split
  all_goals first | exact .refl tree | simpa only using within_without tree _

-----------------------------------------------------------------------------------------
-- What each ending of a path reaches
-----------------------------------------------------------------------------------------

section Endings

variable {tree : Tree} {parent : List String} {location : Location}

theorem reaches_plain {name : String} (plain : plainName name = true)
    (reaches : Reaches tree (parent ++ [name]) false location)
    : ∃ top, tree.resolve parent = some top ∧ top ++ [name] <+: location := by
  obtain ⟨top, found, reached⟩ := reaches
  simp only [Tree.look, List.getLast?_append, List.getLast?_singleton, Option.some_or, plain,
    if_true, List.dropLast_concat] at found
  obtain ⟨directory, walked, rfl⟩ := Option.map_eq_some_iff.mp found
  refine ⟨directory, walked, ?_⟩
  rcases reached with below | ⟨_, rfl⟩ | ⟨last, above, isLast, _, walkedAbove, rfl, _⟩
  · exact below.1
  · exact List.prefix_rfl
  · simp only [List.dropLast_concat] at walkedAbove
    simp only [List.getLast?_append, List.getLast?_singleton, Option.some_or] at isLast
    obtain rfl := Option.some.inj isLast
    obtain rfl := Option.some.inj (walked.symm.trans walkedAbove)
    exact List.prefix_rfl

/-- Dots lead to a directory whose contents go. -/
theorem reaches_special {name : String} (special : plainName name = false)
    (reaches : Reaches tree (parent ++ [name]) false location)
    : ∃ middle links top, tree.resolve parent = some middle
      ∧ walk tree links middle [name] = some top ∧ Below top location := by
  obtain ⟨top, found, reached⟩ := reaches
  simp only [Tree.look, List.getLast?_append, List.getLast?_singleton, Option.some_or,
    special] at found
  obtain ⟨middle, walked, links, last⟩ := walk_concat found
  refine ⟨middle, links, top, walked, last, ?_⟩
  rcases reached with below | ⟨names, _⟩ | ⟨last, above, isLast, plain, _⟩
  · exact below
  · simp [namesEntry, special] at names
  · simp only [List.getLast?_append, List.getLast?_singleton, Option.some_or] at isLast
    obtain rfl := Option.some.inj isLast
    rw [special] at plain
    cases plain

/-- A slash leads to a directory whose contents go, and the directory with them if the path names
it itself.
-/
theorem reaches_slash (reaches : Reaches tree parent true location)
    : ∃ top, tree.resolve parent = some top
      ∧ (Below top location ∨ (location = top ∧ NamesDir tree parent top)) := by
  obtain ⟨top, found, reached⟩ := reaches
  have walked : tree.resolve parent = some top := found
  refine ⟨top, walked, ?_⟩
  rcases reached with below | ⟨names, _⟩ | names
  · exact .inl below
  · cases names
  · obtain ⟨name, above, last, plain, walkedAbove, rfl, isDir⟩ := id names
    have cut : parent.dropLast ++ [name] = parent := List.dropLast_append_getLast? name last
    rw [Tree.resolve, ← cut] at walked
    obtain ⟨middle, walkedMiddle, links, lastWalk⟩ := walk_concat walked
    obtain rfl := Option.some.inj (walkedMiddle.symm.trans walkedAbove)
    obtain rfl := walk_dir plain isDir lastWalk
    exact .inr ⟨rfl, names⟩

end Endings

end Delonix.Library.FileTree

/-! Walks of a file tree in parts: a path walked as one and then another, with as many links as are
allowed or fewer.
-/

namespace Delonix.Library.FileTree

/-- The location and all above it are directories. -/
def Reached (tree : Tree) (here : Location) : Prop := ∀ q, q <+: here → tree.node q = some .dir

theorem reached_root (tree : Tree) : Reached tree [] := by
  intro q start
  rw [List.prefix_nil.mp start, Tree.node, if_pos rfl]

theorem Reached.concat {tree : Tree} {here : Location} (reached : Reached tree here) {name : String}
    (dir : tree.node (here ++ [name]) = some .dir)
    : Reached tree (here ++ [name]) := by
  intro q start
  rcases List.prefix_concat_iff.mp start with rfl | above
  · exact dir
  · exact reached q above

theorem Reached.up {tree : Tree} {here : Location} (reached : Reached tree here)
    : Reached tree here.dropLast :=
  fun q start => reached q (start.trans (List.dropLast_prefix here))

/-- More links may be followed than a walk needs. -/
theorem walk_more {tree : Tree} {fewer links : Nat} (le : fewer ≤ links) {here target : Location}
    {path : List String} (found : walk tree fewer here path = some target)
    : walk tree links here path = some target := by
  induction links generalizing fewer here path target with
  | zero =>
      obtain rfl := Nat.le_zero.mp le
      exact found
  | succ links ih =>
      cases fewer with
      | zero =>
          refine walkWith_mono (.refl tree) ?_ found
          intro _ _ _ impossible
          cases impossible
      | succ fewer =>
          exact walkWith_mono (.refl tree)
            (fun _ _ _ followed => ih (Nat.le_of_succ_le_succ le) followed) found

section

variable {tree : Tree} {follow : Location → List String → Option Location} {links : Nat}

theorem walkWith_append {rest : List String} (more : rest ≠ [])
    (followed : ∀ here path target, Reached tree here → follow here (path ++ rest) = some target →
      ∃ middle, follow here path = some middle ∧ Reached tree middle
        ∧ ∃ fewer, fewer ≤ links ∧ walk tree fewer middle rest = some target)
    (last : ∀ middle target, walkWith follow tree middle rest = some target →
      ∃ fewer, fewer ≤ links ∧ walk tree fewer middle rest = some target)
    {here target : Location} (reached : Reached tree here) {path : List String}
    (found : walkWith follow tree here (path ++ rest) = some target)
    : ∃ middle, walkWith follow tree here path = some middle ∧ Reached tree middle
      ∧ ∃ fewer, fewer ≤ links ∧ walk tree fewer middle rest = some target := by
  induction path generalizing here with
  | nil => exact ⟨here, rfl, reached, last here target found⟩
  | cons first path ih =>
      simp only [List.cons_append, walkWith] at found ⊢
      by_cases skip : first = "" ∨ first = "."
      · simp only [skip, if_true] at found ⊢
        exact ih reached found
      · by_cases up : first = ".."
        · subst up
          exact ih reached.up found
        · simp only [skip, up, if_false] at found ⊢
          cases stands : tree.node (here ++ [first]) with
          | none =>
              rw [stands] at found
              cases found
          | some node =>
              rw [stands] at found
              cases node with
              | dir => exact ih (reached.concat stands) found
              | symlink absolute link =>
                  dsimp only at found ⊢
                  rw [← List.append_assoc] at found
                  refine followed _ _ _ ?_ found
                  split
                  · exact reached_root tree
                  · exact reached
              | file | device => simp [more] at found

/-- A walk through a path and more is one through the path, to a directory, and one through the
rest.
-/
theorem walk_append {here target : Location} (reached : Reached tree here) {path rest : List String}
    (more : rest ≠ []) (found : walk tree links here (path ++ rest) = some target)
    : ∃ middle, walk tree links here path = some middle ∧ Reached tree middle
      ∧ ∃ fewer, fewer ≤ links ∧ walk tree fewer middle rest = some target := by
  induction links generalizing here path target with
  | zero =>
      refine walkWith_append more ?_ (fun _ _ is => ⟨0, le_rfl, is⟩) reached found
      intro _ _ _ _ impossible
      cases impossible
  | succ links ih =>
      refine walkWith_append more ?_ (fun _ _ is => ⟨links + 1, le_rfl, is⟩) reached found
      intro here path target reached followed
      obtain ⟨middle, walked, dir, fewer, le, later⟩ := ih reached followed
      exact ⟨middle, walked, dir, fewer, Nat.le_succ_of_le le, later⟩

theorem walkWith_join {rest : List String} {middle : Location} {result : Option Location}
    (dir : tree.node middle = some .dir)
    (followed : ∀ here path, follow here path = some middle → follow here (path ++ rest) = result)
    (last : walkWith follow tree middle rest = result) {here : Location} {path : List String}
    (found : walkWith follow tree here path = some middle)
    : walkWith follow tree here (path ++ rest) = result := by
  induction path generalizing here with
  | nil =>
      obtain rfl := Option.some.inj found
      exact last
  | cons first path ih =>
      simp only [List.cons_append, walkWith] at found ⊢
      by_cases skip : first = "" ∨ first = "."
      · simp only [skip, if_true] at found ⊢
        exact ih found
      · by_cases up : first = ".."
        · subst up
          exact ih found
        · simp only [skip, up, if_false] at found ⊢
          cases stands : tree.node (here ++ [first]) with
          | none =>
              rw [stands] at found
              cases found
          | some node =>
              rw [stands] at found
              cases node with
              | dir => exact ih found
              | symlink absolute link =>
                  dsimp only at found ⊢
                  rw [← List.append_assoc]
                  exact followed _ _ found
              | file | device =>
                  dsimp only at found
                  split at found
                  · obtain rfl := Option.some.inj found
                    rw [dir] at stands
                    cases stands
                  · cases found

/-- What follows a path to a directory is walked from there. -/
theorem walk_join {here middle : Location} {path rest : List String} {result : Option Location}
    (dir : tree.node middle = some .dir)
    (last : ∀ links, walk tree links middle rest = result)
    (found : walk tree links here path = some middle)
    : walk tree links here (path ++ rest) = result := by
  induction links generalizing here path with
  | zero =>
      refine walkWith_join dir ?_ (last 0) found
      intro _ _ impossible
      cases impossible
  | succ links ih => exact walkWith_join dir (fun _ _ => ih) (last (links + 1)) found

end

end Delonix.Library.FileTree
