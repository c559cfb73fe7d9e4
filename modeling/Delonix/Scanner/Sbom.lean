import Delonix.Library.Sorting
import Delonix.Library.Utf8
import Delonix.Library.Words
import Mathlib.Data.Char
import Mathlib.Data.List.Lex

/-! The packages of an image, read from its layers without mounting them, and when the package
databases that are read are those that a container of the image has.
-/

namespace Delonix.Scanner

open Delonix.Library.Sorting
open Delonix.Library.Text
open Delonix.Library.Utf8
open Delonix.Library.Words

abbrev Text := List Char

inductive Ecosystem where
  | apk
  | dpkg

structure Package where
  name : Text
  version : Text
  ecosystem : Ecosystem

def parseApkFrom : Option Text → List Text → List Package
  | _, [] => []
  | name, line :: rest =>
      match stripStart "P:".toList line with
      | some n => parseApkFrom (some (trim n)) rest
      | none =>
          match stripStart "V:".toList line, name with
          | some v, some n => ⟨n, trim v, .apk⟩ :: parseApkFrom none rest
          | _, _ => parseApkFrom name rest

def parseApk (db : Text) : List Package := parseApkFrom none (lines db)

/-- Unlike in the other format, the name stands until a blank line. -/
def parseDpkgFrom : Option Text → List Text → List Package
  | _, [] => []
  | name, line :: rest =>
      match stripStart "Package:".toList line with
      | some n => parseDpkgFrom (some (trim n)) rest
      | none =>
          match stripStart "Version:".toList line with
          | some v =>
              match name with
              | some n => ⟨n, trim v, .dpkg⟩ :: parseDpkgFrom name rest
              | none => parseDpkgFrom name rest
          | none => parseDpkgFrom (if line = [] then none else name) rest

def parseDpkg (db : Text) : List Package := parseDpkgFrom none (lines db)

inductive EntryKind where
  | file
  | dir
  | other
deriving DecidableEq

/-- A member of a layer's archive, without its content. -/
structure Member where
  path : Text
  kind : EntryKind
deriving DecidableEq

structure Entry (α : Type) extends Member where
  data : α
deriving DecidableEq

abbrev Layer (α : Type) := List (Entry α)

variable {α : Type}

/-- `trim_start_matches("./")`. -/
def trimDots : Text → Text
  | '.' :: '/' :: rest => trimDots rest
  | path => path

def endsIn (suffix : Text) (member : Member) : Bool := suffix.isSuffixOf (trimDots member.path)

/-- The first member whose path ends in the suffix. -/
def readMember (layer : Layer α) (suffix : Text) : Option α :=
  (layer.find? fun entry => endsIn suffix entry.toMember).map (·.data)

def apkSuffix : Text := "lib/apk/db/installed".toList

def dpkgSuffix : Text := "var/lib/dpkg/status".toList

/-- What the scan has found on its way down: the databases of the two formats. -/
abbrev Found (α : Type) := Option α × Option α

def readLayer (found : Found α) (layer : Layer α) : Found α :=
  (if found.1.isNone then readMember layer apkSuffix else found.1,
    if found.2.isNone then readMember layer dpkgSuffix else found.2)

/-- The layers are given from the base to the top, and read from the top. -/
def databases (layers : List (Layer α)) : Found α := layers.reverse.foldl readLayer (none, none)

/-- The packages of two databases; none at all are an error. -/
def packagesOf (found : Found (List UInt8)) : Option (List Package) :=
  let apk := (found.1.map fun bytes => parseApk (fromUtf8Lossy bytes)).getD []
  let dpkg := (found.2.map fun bytes => parseDpkg (fromUtf8Lossy bytes)).getD []
  let packages := apk ++ dpkg
  if packages.isEmpty then none else some (sortByKey Package.name packages)

def extractSbom (layers : List (Layer (List UInt8))) : Option (List Package) :=
  packagesOf (databases layers)

/-- The names of a path below the root of the image. -/
def namesOf (path : Text) : List Text :=
  (path.splitOn '/').filter fun name => name ≠ [] ∧ name ≠ ['.']

def opqMarker : Text := ".wh..wh..opq".toList

/-- The member hides what lower layers have at the path: it is the whiteout of the path or of a
directory of it, marks one of these as opaque, or puts something else than a directory in its place.
-/
def hides (path : List Text) (member : Member) : Bool :=
  match (namesOf member.path).getLast? with
  | none => false
  | some name =>
      let parent := (namesOf member.path).dropLast
      if name = opqMarker then parent.isPrefixOf path && parent ≠ path
      else
        match stripStart ".wh.".toList name with
        | some target => (parent ++ [target]).isPrefixOf path
        | none =>
            member.kind ≠ .dir && (namesOf member.path).isPrefixOf path
              && namesOf member.path ≠ path

def standsAt (path : List Text) (member : Member) : Bool := namesOf member.path = path

/-- The last entry of the layer at the very path. -/
def lastAt (path : List Text) (layer : Layer α) : Option (Entry α) :=
  layer.reverse.find? fun entry => standsAt path entry.toMember

/-- The file that the merged view has at the path, of layers from the top to the base. -/
def presented (path : List Text) : List (Layer α) → Option α
  | [] => none
  | layer :: rest =>
      match lastAt path layer with
      | some entry => if entry.kind = .file then some entry.data else none
      | none => if layer.any fun entry => hides path entry.toMember then none else presented path rest

def apkPath : List Text := ["lib", "apk", "db", "installed"].map String.toList

def dpkgPath : List Text := ["var", "lib", "dpkg", "status"].map String.toList

/-- The databases that a container of the image has. -/
def mounted (layers : List (Layer α)) : Found α :=
  (presented apkPath layers.reverse, presented dpkgPath layers.reverse)

/-- Every member with its number in place of its content, so that a file is told from a copy. -/
def numberedFrom : Nat → List (Layer α) → List (Layer Nat)
  | _, [] => []
  | n, layer :: rest =>
      ((layer.zipIdx n).map fun pair => ⟨pair.1.toMember, pair.2⟩)
        :: numberedFrom (n + layer.length) rest

def numbered (layers : List (Layer α)) : List (Layer Nat) := numberedFrom 0 layers

/-- What the layers have, without the contents. -/
def membersOf (layers : List (Layer α)) : List (List Member) :=
  layers.map fun layer => layer.map Entry.toMember

/-- The content that a search from the top finds. -/
def firstMember (suffix : Text) (layers : List (Layer α)) : Option α :=
  layers.findSome? fun layer => readMember layer suffix

/-- The scan finds, in each format, what a search from the top finds. By induction over the
layers.
-/
theorem databases_eq (layers : List (Layer α))
    : databases layers
      = (firstMember apkSuffix layers.reverse, firstMember dpkgSuffix layers.reverse) := by
  suffices fold : ∀ (layers : List (Layer α)) (found : Found α), layers.foldl readLayer found
      = (found.1.or (firstMember apkSuffix layers), found.2.or (firstMember dpkgSuffix layers)) by
    exact fold layers.reverse (none, none)
  intro layers
  induction layers with
  | nil => simp [firstMember]
  | cons layer rest ih =>
      intro found
      obtain ⟨apk, dpkg⟩ := found
      rw [List.foldl_cons, ih]
      simp only [readLayer, firstMember, List.findSome?_cons]
      cases apk <;> cases dpkg <;> cases readMember layer apkSuffix <;>
        cases readMember layer dpkgSuffix <;> rfl

/-- The layer takes the path away: its last member there is no file, or it has none there and one
that hides it.
-/
def Removes (path : List Text) (layer : List Member) : Prop :=
  (∃ before held after, layer = before ++ held :: after ∧ standsAt path held = true
      ∧ held.kind ≠ .file ∧ ∀ later ∈ after, standsAt path later = false)
    ∨ (∀ member ∈ layer, standsAt path member = false) ∧ ∃ member ∈ layer, hides path member = true

/-- What the layers have, from the top, leads the search to the file of the view. -/
inductive Straight (path : List Text) (suffix : Text) : List (List Member) → Prop
  | base : Straight path suffix []
  /-- Nothing in the layer stands at the path or hides it, and nothing ends in the suffix. -/
  | apart {layer : List Member} {rest : List (List Member)}
    (unread : ∀ member ∈ layer, endsIn suffix member = false)
    (absent : ∀ member ∈ layer, standsAt path member = false)
    (shown : ∀ member ∈ layer, hides path member = false) (below : Straight path suffix rest)
    : Straight path suffix (layer :: rest)
  /-- The first member that ends in the suffix is the last one at the path, and a file. -/
  | here {before after : List Member} {held : Member} {rest : List (List Member)}
    (first : ∀ earlier ∈ before, endsIn suffix earlier = false) (ends : endsIn suffix held = true)
    (stands : standsAt path held = true) (last : ∀ later ∈ after, standsAt path later = false)
    (file : held.kind = .file)
    : Straight path suffix ((before ++ held :: after) :: rest)
  /-- The path is taken away, and from here down nothing ends in the suffix. -/
  | gone {layer : List Member} {rest : List (List Member)} (removes : Removes path layer)
    (nothing : ∀ lower ∈ layer :: rest, ∀ member ∈ lower, endsIn suffix member = false)
    : Straight path suffix (layer :: rest)

section Search

variable {path : List Text} {suffix : Text} {layer : Layer α} {layers : List (Layer α)}

theorem readMember_eq_none
    : readMember layer suffix = none
      ↔ ∀ member ∈ layer.map Entry.toMember, endsIn suffix member = false := by
  simp [readMember]

theorem readMember_eq_some {a : α}
    : readMember layer suffix = some a
      ↔ ∃ before held after, layer = before ++ held :: after ∧ held.data = a
        ∧ endsIn suffix held.toMember = true
        ∧ ∀ earlier ∈ before, endsIn suffix earlier.toMember = false := by
  rw [readMember, Option.map_eq_some_iff]
  constructor
  · rintro ⟨held, found, rfl⟩
    obtain ⟨ends, before, after, is, first⟩ := List.find?_eq_some_iff_append.mp found
    exact ⟨before, held, after, is, rfl, ends, by simpa using first⟩
  · rintro ⟨before, held, after, is, rfl, ends, first⟩
    refine ⟨held, List.find?_eq_some_iff_append.mpr ⟨ends, before, after, is, ?_⟩, rfl⟩
    simpa using first

theorem lastAt_eq_none
    : lastAt path layer = none
      ↔ ∀ member ∈ layer.map Entry.toMember, standsAt path member = false := by
  simp [lastAt]

theorem lastAt_eq_some {held : Entry α}
    : lastAt path layer = some held
      ↔ ∃ before after, layer = before ++ held :: after ∧ standsAt path held.toMember = true
        ∧ ∀ later ∈ after, standsAt path later.toMember = false := by
  rw [lastAt, List.find?_eq_some_iff_append]
  constructor
  · rintro ⟨stands, after, before, is, last⟩
    refine ⟨before.reverse, after.reverse, ?_, stands, by simpa using last⟩
    rw [← List.reverse_reverse layer, is]
    simp
  · rintro ⟨before, after, rfl, stands, last⟩
    exact ⟨stands, after.reverse, before.reverse, by simp, by simpa using last⟩

theorem any_hides
    : (layer.any fun entry => hides path entry.toMember) = true
      ↔ ∃ member ∈ layer.map Entry.toMember, hides path member = true := by
  simp

/-- A split of what the layer has is one of the layer. -/
theorem split_of_members {before after : List Member} {member : Member}
    (is : layer.map Entry.toMember = before ++ member :: after)
    : ∃ above held below, layer = above ++ held :: below ∧ above.map Entry.toMember = before
      ∧ held.toMember = member ∧ below.map Entry.toMember = after := by
  obtain ⟨above, rest, rfl, isAbove, isRest⟩ := List.map_eq_append_iff.mp is
  obtain ⟨held, below, rfl, isHeld, isBelow⟩ := List.map_eq_cons_iff.mp isRest
  exact ⟨above, held, below, rfl, isAbove, isHeld, isBelow⟩

/-- Where the path is taken away, the view has nothing. -/
theorem presented_removed (removes : Removes path (layer.map Entry.toMember))
    : presented path (layer :: layers) = none := by
  rw [presented]
  rcases removes with ⟨before, member, after, is, stands, other, last⟩ | ⟨absent, hidden⟩
  · obtain ⟨above, held, below, rfl, rfl, rfl, rfl⟩ := split_of_members is
    rw [lastAt_eq_some.mpr ⟨above, below, rfl, stands, by simpa using last⟩]
    exact if_neg other
  · rw [lastAt_eq_none.mpr absent]
    exact if_pos (any_hides.mpr hidden)

theorem firstMember_eq_none
    : firstMember suffix layers = none
      ↔ ∀ layer ∈ membersOf layers, ∀ member ∈ layer, endsIn suffix member = false := by
  simp [firstMember, membersOf, readMember_eq_none]

/-- On straight layers the search and the view agree, whatever the members hold. By induction over
the layers.
-/
theorem Straight.eq (straight : Straight path suffix (membersOf layers))
    : firstMember suffix layers = presented path layers := by
  induction layers with
  | nil => rfl
  | cons layer rest ih =>
      rw [membersOf, List.map_cons] at straight
      generalize is : layer.map Entry.toMember = members at straight
      rw [firstMember, List.findSome?_cons]
      cases straight with
      | apart unread absent shown below =>
          subst is
          rw [readMember_eq_none.mpr unread, presented, lastAt_eq_none.mpr absent]
          rw [if_neg fun hidden => ?_]
          · exact ih below
          · obtain ⟨member, inside, hidden⟩ := any_hides.mp hidden
            exact absurd hidden (by simp [shown member inside])
      | here first ends stands last file =>
          obtain ⟨above, held, below, rfl, rfl, rfl, rfl⟩ := split_of_members is
          rw [readMember_eq_some.mpr ⟨above, held, below, rfl, rfl, ends, by simpa using first⟩,
            presented, lastAt_eq_some.mpr ⟨above, below, rfl, stands, by simpa using last⟩]
          exact (if_pos file).symm
      | gone removes nothing =>
          subst is
          rw [presented_removed removes,
            readMember_eq_none.mpr fun member => nothing _ List.mem_cons_self member]
          exact firstMember_eq_none.mpr fun lower below =>
            nothing lower (List.mem_cons_of_mem _ below)

/-- What a search finds is held by a member. -/
theorem mem_of_readMember {a : α} (found : readMember layer suffix = some a)
    : a ∈ layer.map (·.data) := by
  obtain ⟨before, held, after, rfl, rfl, -⟩ := readMember_eq_some.mp found
  simp

theorem mem_of_firstMember {a : α} (found : firstMember suffix layers = some a)
    : a ∈ layers.flatten.map (·.data) := by
  obtain ⟨layer, inside, found⟩ := List.exists_of_findSome?_eq_some found
  rw [List.map_flatten]
  exact List.mem_flatten.mpr ⟨_, List.mem_map_of_mem inside, mem_of_readMember found⟩

theorem mem_of_lastAt {held : Entry α} (last : lastAt path layer = some held)
    : held.data ∈ layer.map (·.data) := by
  obtain ⟨before, after, rfl, -⟩ := lastAt_eq_some.mp last
  simp

theorem mem_of_presented {a : α} (shown : presented path layers = some a)
    : a ∈ layers.flatten.map (·.data) := by
  induction layers with
  | nil => cases shown
  | cons layer rest ih =>
      rw [List.flatten_cons, List.map_append, List.mem_append]
      rw [presented] at shown
      cases last : lastAt path layer with
      | some held =>
          rw [last] at shown
          obtain ⟨-, rfl⟩ : held.kind = .file ∧ held.data = a := by simpa using shown
          exact .inl (mem_of_lastAt last)
      | none =>
          rw [last] at shown
          dsimp only at shown
          split at shown
          · cases shown
          · exact .inr (ih shown)

/-- In a layer without two members that hold the same, the content tells the place. -/
theorem split_unique {before after above under : List (Entry α)} {taken held : Entry α}
    (distinct : ((before ++ taken :: after).map (·.data)).Nodup)
    (is : before ++ taken :: after = above ++ held :: under) (one : taken.data = held.data)
    : before = above ∧ taken = held ∧ after = under := by
  have known := congrArg (List.map (·.data)) is
  rw [List.map_append, List.map_cons, List.nodup_middle, List.nodup_cons, List.mem_append, one]
    at distinct
  simp only [List.map_append, List.map_cons] at known
  have starts := (List.append_cons_inj_of_notMem (fun member => distinct.1 (.inl member))
    fun member => distinct.1 (.inr member)).mp known
  have places : before.length = above.length := by
    simpa using congrArg List.length starts.1
  obtain ⟨start, rest⟩ := List.append_inj is places
  exact ⟨start, (List.cons.inj rest).1, (List.cons.inj rest).2⟩

/-- Where no two members hold the same, the search and the view agree on straight layers only. By
induction over the layers.
-/
theorem Straight.of_eq (distinct : (layers.flatten.map (·.data)).Nodup)
    (same : firstMember suffix layers = presented path layers)
    : Straight path suffix (membersOf layers) := by
  induction layers with
  | nil => exact .base
  | cons layer rest ih =>
      rw [List.flatten_cons, List.map_append, List.nodup_append] at distinct
      obtain ⟨within, below, between⟩ := distinct
      rw [firstMember, List.findSome?_cons, presented] at same
      rw [membersOf, List.map_cons]
      cases read : readMember layer suffix with
      | some a =>
          rw [read] at same
          cases last : lastAt path layer with
          | some held =>
              rw [last] at same
              obtain ⟨file, rfl⟩ : held.kind = .file ∧ held.data = a := by simpa using same.symm
              obtain ⟨before, taken, after, rfl, one, ends, first⟩ := readMember_eq_some.mp read
              obtain ⟨above, under, is, stands, later⟩ := lastAt_eq_some.mp last
              obtain ⟨rfl, rfl, rfl⟩ := split_unique within is one
              rw [List.map_append, List.map_cons]
              exact .here (by simpa using first) ends stands (by simpa using later) file
          | none =>
              rw [last] at same
              dsimp only at same
              split at same
              · cases same
              · exact absurd rfl (between _ (mem_of_readMember read) _ (mem_of_presented same.symm))
      | none =>
          rw [read] at same
          have unread := readMember_eq_none.mp read
          cases last : lastAt path layer with
          | some held =>
              rw [last] at same
              by_cases file : held.kind = .file
              · simp only [file, if_true] at same
                exact absurd rfl (between _ (mem_of_lastAt last) _ (mem_of_firstMember same))
              · simp only [file, if_false] at same
                obtain ⟨above, under, rfl, stands, later⟩ := lastAt_eq_some.mp last
                refine .gone (.inl ⟨above.map Entry.toMember, held.toMember,
                  under.map Entry.toMember, by simp, stands, file, by simpa using later⟩) ?_
                exact List.forall_mem_cons.mpr ⟨unread, firstMember_eq_none.mp same⟩
          | none =>
              rw [last] at same
              have absent := lastAt_eq_none.mp last
              dsimp only at same
              split at same
              case isTrue hidden =>
                refine .gone (.inr ⟨absent, any_hides.mp hidden⟩) ?_
                exact List.forall_mem_cons.mpr ⟨unread, firstMember_eq_none.mp same⟩
              case isFalse shown =>
                refine .apart unread absent (fun member inside => ?_) (ih below same)
                exact eq_false_of_ne_true fun hidden =>
                  shown (any_hides.mpr ⟨member, inside, hidden⟩)

end Search

section Numbered

variable {layers : List (Layer α)}

theorem membersOf_numberedFrom (n : Nat) : membersOf (numberedFrom n layers) = membersOf layers := by
  induction layers generalizing n with
  | nil => rfl
  | cons layer rest ih =>
      rw [numberedFrom, membersOf, List.map_cons, List.map_map]
      refine congrArg₂ List.cons ?_ (ih _)
      refine Eq.trans ?_ (congrArg (List.map Entry.toMember) (List.zipIdx_map_fst n layer))
      rw [List.map_map]
      rfl

theorem data_numberedFrom (n : Nat)
    : (numberedFrom n layers).flatten.map (·.data) = List.range' n layers.flatten.length := by
  induction layers generalizing n with
  | nil => rfl
  | cons layer rest ih =>
      rw [numberedFrom, List.flatten_cons, List.map_append, List.map_map, ih, List.flatten_cons,
        List.length_append, ← List.range'_append_1, ← List.zipIdx_map_snd n layer]
      rfl

theorem membersOf_reverse : membersOf layers.reverse = (membersOf layers).reverse :=
  List.map_reverse

/-- Of numbered members no two hold the same, from the top as from the base. -/
theorem nodup_numbered : ((numbered layers).reverse.flatten.map (·.data)).Nodup := by
  have perm := (List.reverse_perm (numbered layers)).flatten.map (·.data)
  rw [perm.nodup_iff, numbered, data_numberedFrom]
  exact List.nodup_range'

end Numbered

/-- The databases that are parsed are the files that a container has, and the packages are theirs,
exactly when the layers are straight for both files.
-/
theorem extractSbom_straight (layers : List (Layer (List UInt8)))
    : databases (numbered layers) = mounted (numbered layers)
        ∧ extractSbom layers = packagesOf (mounted layers)
      ↔ Straight apkPath apkSuffix (membersOf layers).reverse
        ∧ Straight dpkgPath dpkgSuffix (membersOf layers).reverse := by
  have members : membersOf (numbered layers).reverse = (membersOf layers).reverse := by
    rw [membersOf_reverse, numbered, membersOf_numberedFrom]
  have files : databases (numbered layers) = mounted (numbered layers)
      ↔ Straight apkPath apkSuffix (membersOf layers).reverse
        ∧ Straight dpkgPath dpkgSuffix (membersOf layers).reverse := by
    rw [databases_eq, mounted, Prod.mk.injEq, ← members]
    exact and_congr ⟨.of_eq nodup_numbered, Straight.eq⟩ ⟨.of_eq nodup_numbered, Straight.eq⟩
  rw [files, and_iff_left_iff_imp]
  rintro ⟨apk, dpkg⟩
  rw [← membersOf_reverse] at apk dpkg
  rw [extractSbom, databases_eq, mounted, apk.eq, dpkg.eq]

/-- A layer whose author puts a list of packages in another directory, before the real one. -/
def decoyLayer : Layer (List UInt8) :=
  [⟨⟨"opt/var/lib/dpkg/status".toList, .file⟩, encode "Package: ed\nVersion: 2\n".toList⟩,
    ⟨⟨"var/lib/dpkg/status".toList, .file⟩, encode "Package: ed\nVersion: 1\n".toList⟩]

/-- The packages of the decoy are reported. -/
theorem decoy_reported
    : databases [decoyLayer] = (none, some (encode "Package: ed\nVersion: 2\n".toList))
      ∧ mounted [decoyLayer] = (none, some (encode "Package: ed\nVersion: 1\n".toList))
      ∧ ¬ ∀ layers : List (Layer (List UInt8)),
          databases (numbered layers) = mounted (numbered layers)
            ∧ extractSbom layers = packagesOf (mounted layers) := by
  refine ⟨by decide, by decide, fun all => ?_⟩
  exact absurd (all [decoyLayer]).1 (by decide)

end Delonix.Scanner
