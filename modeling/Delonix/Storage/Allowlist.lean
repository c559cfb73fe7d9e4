import Delonix.Library.Checks
import Delonix.Library.Pieces
import Delonix.Storage.Pools

/-! The administrator's allowlist: what an entry must say before any driver sees it. The table of
the fields that each driver reads ends in an arm for every driver that is not named, and the two
Ceph drivers are in it.
-/

namespace Delonix.Storage

open Delonix.Library.Checks
open Delonix.Library.Text
open Delonix.Library.UnixPath

/-- An entry as it stands in the file, with the devices a pool may be made from. -/
structure Declared extends Entry where
  create : Option (List String) := none
deriving DecidableEq, Repr

structure Allowlist where
  mode : Option String := none
  pools : List (String × Declared) := []

/-- The drivers, and the phase that builds each. -/
def drivers : List (String × String) :=
  [("dir", "P0"), ("btrfs", "P2"), ("zfs", "P3"), ("lvm-thin", "P4"), ("ceph-rbd", "P5"),
    ("cephfs", "P5")]

def validLvmName (n : String) : Bool :=
  !n.isEmpty && n.utf8ByteSize ≤ 127 && n.toList.head? != some '-' && n != "." && n != ".."
    && n.toList.all fun c => c.isAlphanum || c == '+' || c == '_' || c == '.' || c == '-'

def validDataset (d : String) : Bool :=
  !d.isEmpty && d.utf8ByteSize ≤ 200 && (d.toList.splitOn '/').all fun part =>
    !part.isEmpty && part.head? != some '-' && part != ['.'] && part != ['.', '.']
      && part.all fun c => c.isAlphanum || c == '_' || c == '.' || c == ':' || c == '-'

def pathOf (p : String) : List (Component Char) := components '/' '.' p.toList

/-- An absolute path without `..`, and not the root. -/
def validPath (p : String) : Bool :=
  (pathOf p).head? == some .rootDir && !(pathOf p).any (· == .parentDir)
    && pathOf p != [.rootDir]

/-- A name of a device that stays the same. -/
def stableDevice (d : String) : Bool :=
  (pathOf "/dev/disk/by-id").isPrefixOf (pathOf d)
    || (pathOf "/dev/disk/by-path").isPrefixOf (pathOf d)

def require {ε : Type} (passes : Bool) (why : ε) : Except ε Unit :=
  if passes then .ok () else .error why

def Declared.given (e : Declared) : List (String × Bool) :=
  [("path", e.path.isSome), ("vg", e.vg.isSome), ("thinPool", e.thinPool.isSome),
    ("dataset", e.dataset.isSome)]

def wanted (driver : String) : List String :=
  match driver with
  | "dir" | "btrfs" => ["path"]
  | "zfs" => ["dataset"]
  | _ => ["vg", "thinPool"]

def checkField (driver field : String) (present : Bool) : Except String Unit :=
  match (wanted driver).contains field, present with
  | true, false => .error ("driver '" ++ driver ++ "' needs `" ++ field ++ "`")
  | false, true => .error ("`" ++ field ++ "` does not belong to driver '" ++ driver ++ "'")
  | _, _ => .ok ()

/-- `Entry::validate`. -/
def Declared.validate (e : Declared) (name : String) : Except String Unit := do
  require (validPoolName name) ("the name must be lower-case letters, digits, '.', '_' or '-', "
    ++ "starting with a letter or digit, at most 63 characters")
  require (drivers.any (·.1 == e.driver)) ("driver '" ++ e.driver ++ "' is not one of: "
    ++ String.intercalate ", " (drivers.map Prod.fst))
  forM e.given fun (field, present) => checkField e.driver field present
  forM e.path.toList fun p => require (validPath p)
    ("`path` must be an absolute path without '..', and not '/' (got " ++ p ++ ")")
  forM [("vg", e.vg), ("thinPool", e.thinPool)] fun (field, v) =>
    forM v.toList fun v => require (validLvmName v) ("`" ++ field ++ "` '" ++ v
      ++ "' is not an LVM name (letters, digits, '+', '_', '.', '-', not starting with '-', "
      ++ "at most 127)")
  forM e.dataset.toList fun d => require (validDataset d) ("`dataset` '" ++ d
    ++ "' is not a ZFS dataset (<pool>/<name>…, each component letters, digits, '_', '.', ':', "
    ++ "'-', not starting with '-')")
  forM (e.create.getD []) fun d => require (stableDevice d) ("create.devices: " ++ d
    ++ " is not a stable name — use /dev/disk/by-id/… or /dev/disk/by-path/…")

/-- What the text of the file is read as. -/
def readAllowlist (decode : String → Except String Allowlist) (text : String)
    : Except String Allowlist :=
  if (trim text.toList).isEmpty then .ok {} else decode text

def knownMode (mode : Option String) : Bool :=
  mode.all fun mode => mode == "helper" || mode == "in-process"

/-- `parse`, with the reader of the format it is handed. -/
def parseAllowlist (text file : String) (decode : String → Except String Allowlist)
    : Except Error Allowlist := do
  let list ← (readAllowlist decode text).mapError fun e =>
    ⟨.invalidAllowlist, file ++ ": " ++ e⟩
  require (knownMode list.mode) ⟨.invalidAllowlist, file ++ ": mode '" ++ list.mode.getD ""
    ++ "' is not valid (helper | in-process)"⟩
  forM list.pools fun (name, entry) => (entry.validate name).mapError fun why =>
    ⟨.invalidAllowlist, file ++ ": pool '" ++ name ++ "': " ++ why⟩
  return list

/-- A field that says where the data is. -/
inductive Backing where
  | path
  | vg
  | thinPool
  | dataset
  | cephPool
  | cephFs
deriving DecidableEq

def Declared.backing (e : Declared) : Backing → Option String
  | .path => e.path
  | .vg => e.vg
  | .thinPool => e.thinPool
  | .dataset => e.dataset
  | .cephPool => e.cephPool
  | .cephFs => e.cephFs

/-- What a driver reads to find its data. -/
def needs : String → List Backing
  | "dir" | "btrfs" => [.path]
  | "zfs" => [.dataset]
  | "lvm-thin" => [.vg, .thinPool]
  | "ceph-rbd" => [.cephPool]
  | "cephfs" => [.cephFs]
  | _ => []

/-- What a driver reads where it is given: the pool the subvolumes of a file system are put in. -/
def mayRead : String → List Backing
  | "cephfs" => [.cephPool]
  | _ => []

def isCeph (driver : String) : Bool := driver == "ceph-rbd" || driver == "cephfs"

/-- A name no tool takes for an option. -/
def plainName (n : String) : Bool := n.toList.head? != some '-'

def Backing.valid : Backing → String → Bool
  | .path => validPath
  | .vg | .thinPool => validLvmName
  | .dataset => validDataset
  | .cephPool | .cephFs => plainName

/-- The client and the configuration that the tools of Ceph are called with. -/
def Declared.identity (e : Declared) : List String :=
  if isCeph e.driver then e.cephUser.toList ++ e.cephConf.toList else []

/-- An entry that says one place: what its driver reads, nothing of another's, and names that can
be handed to a tool.
-/
structure Placed (name : String) (e : Declared) : Prop where
  named : validPoolName name = true
  known : e.driver ∈ drivers.map Prod.fst
  given : ∀ field ∈ needs e.driver, (e.backing field).isSome
  own : ∀ field, (e.backing field).isSome → field ∈ needs e.driver ++ mayRead e.driver
  valid : ∀ field, ∀ value ∈ e.backing field, field.valid value = true
  identity : ∀ value ∈ e.identity, plainName value = true
  devices : ∀ device ∈ e.create.getD [], stableDevice device = true

/-- The allowlist is accepted when its entries say one place each, and each of them is when it
does.
-/
def AcceptsPlaced (file text : String) (decode : String → Except String Allowlist)
    (list : Allowlist) : Prop :=
  ((∃ accepted, parseAllowlist text file decode = .ok accepted)
      ↔ knownMode list.mode = true ∧ ∀ pool ∈ list.pools, Placed pool.1 pool.2)
    ∧ ∀ pool ∈ list.pools, pool.2.validate pool.1 = .ok () ↔ Placed pool.1 pool.2

/-- Nothing is wrong with the entry but, perhaps, which fields it gives and its Ceph names. -/
structure SoundEntry (name : String) (e : Declared) : Prop where
  named : validPoolName name = true
  known : e.driver ∈ drivers.map Prod.fst
  path : ∀ p ∈ e.path, validPath p = true
  vg : ∀ v ∈ e.vg, validLvmName v = true
  thinPool : ∀ v ∈ e.thinPool, validLvmName v = true
  dataset : ∀ d ∈ e.dataset, validDataset d = true
  devices : ∀ device ∈ e.create.getD [], stableDevice device = true

/-- Of the fields that are not Ceph's, the entry gives these. -/
def GivesLocal (e : Declared) (fields : List Backing) : Prop :=
  ∀ field ∈ [Backing.path, .vg, .thinPool, .dataset],
    (e.backing field).isSome = true ↔ field ∈ fields

/-- Of Ceph's fields, the entry gives what its driver reads, with names for a tool. -/
structure GivesCeph (e : Declared) : Prop where
  given : ∀ field ∈ needs e.driver, (e.backing field).isSome
  own : ∀ field ∈ [Backing.cephPool, .cephFs],
    (e.backing field).isSome → field ∈ needs e.driver ++ mayRead e.driver
  valid : ∀ field ∈ [Backing.cephPool, .cephFs], ∀ value ∈ e.backing field, plainName value = true
  identity : ∀ value ∈ e.identity, plainName value = true

/-- An entry, sound beside that, whose Ceph fields decide: it names a Ceph driver and gives what
that driver reads, or what LVM's does; or it names another driver, gives what that one reads, and
a field of Ceph's too.
-/
def Confused (name : String) (e : Declared) : Prop :=
  SoundEntry name e ∧ if isCeph e.driver then
    (GivesLocal e [] ∧ GivesCeph e) ∨ GivesLocal e [.vg, .thinPool]
  else GivesLocal e (needs e.driver) ∧ (e.cephPool.isSome ∨ e.cephFs.isSome)

theorem require_eq_ok {ε : Type} {passes : Bool} {why : ε}
    : require passes why = .ok () ↔ passes = true := by
  cases passes <;> simp [require]

theorem checkField_eq_ok {driver field : String} {present : Bool}
    : checkField driver field present = .ok () ↔ (present = true ↔ field ∈ wanted driver) := by
  rw [← List.contains_iff_mem]
  cases held : (wanted driver).contains field with
  | true => cases present <;> simp_all only [checkField, reduceCtorEq, Bool.false_eq_true, iff_true]
  | false =>
      cases present with
      | true => simp_all only [checkField, reduceCtorEq, Bool.false_eq_true, iff_false, not_true]
      | false => simp_all only [checkField, Bool.false_eq_true]

theorem drivers_cases {driver : String} (known : driver ∈ drivers.map Prod.fst)
    : driver = "dir" ∨ driver = "btrfs" ∨ driver = "zfs" ∨ driver = "lvm-thin"
      ∨ driver = "ceph-rbd" ∨ driver = "cephfs" := by
  simpa [drivers] using known

/-- The fields the table asks for: those of LVM where the driver is Ceph's. -/
def asked (driver : String) : List Backing := if isCeph driver then [.vg, .thinPool] else needs driver

theorem given_iff {e : Declared} (known : e.driver ∈ drivers.map Prod.fst)
    : (∀ pair ∈ e.given, checkField e.driver pair.1 pair.2 = .ok ())
      ↔ GivesLocal e (asked e.driver) := by
  simp only [checkField_eq_ok, Declared.given, GivesLocal, List.forall_mem_cons,
    List.not_mem_nil, false_implies, implies_true, and_true, Declared.backing]
  rcases drivers_cases known with is | is | is | is | is | is <;>
    simp [is, wanted, asked, needs, isCeph]

theorem validate_eq_ok {e : Declared} {name : String}
    : e.validate name = .ok () ↔ SoundEntry name e ∧ GivesLocal e (asked e.driver) := by
  simp only [Declared.validate, bind_eq_ok, exists_unit, forM_eq_ok, require_eq_ok]
  constructor
  · intro passed
    obtain ⟨named, known, fields, path, lvm, dataset, devices⟩ := passed
    have known : e.driver ∈ drivers.map Prod.fst := by
      obtain ⟨pair, listed, same⟩ := List.any_eq_true.mp known
      exact List.mem_map.mpr ⟨pair, listed, by simpa using same⟩
    refine ⟨⟨named, known, ?_, ?_, ?_, ?_, devices⟩, (given_iff known).mp fields⟩
    · simpa using path
    · simpa [forM_eq_ok, require_eq_ok] using lvm _ List.mem_cons_self
    · simpa [forM_eq_ok, require_eq_ok] using lvm _ (List.mem_cons_of_mem _ List.mem_cons_self)
    · simpa using dataset
  · intro passed
    obtain ⟨sound, gives⟩ := passed
    refine ⟨sound.named, ?_, (given_iff sound.known).mpr gives, ?_, ?_, ?_, sound.devices⟩
    · obtain ⟨pair, listed, same⟩ := List.mem_map.mp sound.known
      exact List.any_eq_true.mpr ⟨pair, listed, by simpa using same⟩
    · simpa using sound.path
    · intro pair listed
      simp only [List.mem_cons, List.not_mem_nil, or_false] at listed
      rcases listed with rfl | rfl
      · simpa [forM_eq_ok, require_eq_ok] using sound.vg
      · simpa [forM_eq_ok, require_eq_ok] using sound.thinPool
    · simpa using sound.dataset

/-- The fields that are not Ceph's are given as a Ceph driver, or another, reads them. -/
theorem givesLocal_of_placed {e : Declared} {name : String} (placed : Placed name e)
    : GivesLocal e (if isCeph e.driver then [] else needs e.driver) := by
  intro field listed
  have own := placed.own field
  have given := placed.given field
  rcases drivers_cases placed.known with is | is | is | is | is | is <;>
    simp only [is, isCeph, needs, mayRead] at own given ⊢ <;>
    simp only [List.mem_cons, List.not_mem_nil, or_false] at listed <;>
    rcases listed with rfl | rfl | rfl | rfl <;> simp_all

theorem placed_iff {e : Declared} {name : String}
    : Placed name e ↔ SoundEntry name e ∧ if isCeph e.driver then GivesLocal e [] ∧ GivesCeph e
        else GivesLocal e (needs e.driver) ∧ ¬ (e.cephPool.isSome ∨ e.cephFs.isSome) := by
  constructor
  · intro placed
    refine ⟨⟨placed.named, placed.known, placed.valid .path, placed.valid .vg,
      placed.valid .thinPool, placed.valid .dataset, placed.devices⟩, ?_⟩
    have gives := givesLocal_of_placed placed
    cases ceph : isCeph e.driver with
    | true =>
        rw [ceph] at gives
        refine ⟨gives, placed.given, fun field _ => placed.own field, ?_, placed.identity⟩
        intro field listed
        simp only [List.mem_cons, List.not_mem_nil, or_false] at listed
        rcases listed with rfl | rfl
        · exact placed.valid .cephPool
        · exact placed.valid .cephFs
    | false =>
        rw [ceph] at gives
        refine ⟨gives, ?_⟩
        have pool := placed.own .cephPool
        have fs := placed.own .cephFs
        intro some_
        rcases drivers_cases placed.known with is | is | is | is | is | is <;>
          simp_all [isCeph, needs, mayRead, Declared.backing]
  · intro spec
    obtain ⟨sound, gives⟩ := spec
    cases ceph : isCeph e.driver with
    | true =>
        rw [ceph, if_pos rfl] at gives
        obtain ⟨local_, ceph⟩ := gives
        refine ⟨sound.named, sound.known, ceph.given, ?_, ?_, ceph.identity, sound.devices⟩
        · intro field some_
          cases field with
          | path => exact absurd ((local_ .path (by simp)).mp some_) List.not_mem_nil
          | vg => exact absurd ((local_ .vg (by simp)).mp some_) List.not_mem_nil
          | thinPool => exact absurd ((local_ .thinPool (by simp)).mp some_) List.not_mem_nil
          | dataset => exact absurd ((local_ .dataset (by simp)).mp some_) List.not_mem_nil
          | cephPool => exact ceph.own .cephPool (by simp) some_
          | cephFs => exact ceph.own .cephFs (by simp) some_
        · intro field
          cases field with
          | path => exact sound.path
          | vg => exact sound.vg
          | thinPool => exact sound.thinPool
          | dataset => exact sound.dataset
          | cephPool => exact ceph.valid .cephPool (by simp)
          | cephFs => exact ceph.valid .cephFs (by simp)
    | false =>
        rw [ceph, if_neg (by simp)] at gives
        obtain ⟨local_, none_⟩ := gives
        rw [not_or, Option.not_isSome_iff_eq_none, Option.not_isSome_iff_eq_none] at none_
        refine ⟨sound.named, sound.known, ?_, ?_, ?_, ?_, sound.devices⟩
        · intro field needed
          refine (local_ field ?_).mpr needed
          rcases drivers_cases sound.known with is | is | is | is | is | is <;>
            simp_all [isCeph, needs]
          rcases needed with rfl | rfl <;> simp
        · intro field some_
          refine List.mem_append_left _ ?_
          cases field with
          | path => exact (local_ .path (by simp)).mp some_
          | vg => exact (local_ .vg (by simp)).mp some_
          | thinPool => exact (local_ .thinPool (by simp)).mp some_
          | dataset => exact (local_ .dataset (by simp)).mp some_
          | cephPool => simp [Declared.backing, none_.1] at some_
          | cephFs => simp [Declared.backing, none_.2] at some_
        · intro field
          cases field with
          | path => exact sound.path
          | vg => exact sound.vg
          | thinPool => exact sound.thinPool
          | dataset => exact sound.dataset
          | cephPool => simp [Declared.backing, none_.1]
          | cephFs => simp [Declared.backing, none_.2]
        · simp [Declared.identity, ceph]

/-- What is accepted and what says one place part where Ceph's fields decide. -/
theorem validate_iff_placed {e : Declared} {name : String}
    : (e.validate name = .ok () ↔ Placed name e) ↔ ¬ Confused name e := by
  rw [validate_eq_ok, placed_iff, Confused, asked]
  by_cases sound : SoundEntry name e
  · simp only [sound, true_and]
    cases ceph : isCeph e.driver with
    | false =>
        simp only [Bool.false_eq_true, ↓reduceIte]
        by_cases own : GivesLocal e (needs e.driver)
        · simp [own]
        · simp [own]
    | true =>
        simp only [↓reduceIte]
        -- The volume group is given on one side and not on the other.
        have apart : ¬ (GivesLocal e [] ∧ GivesLocal e [.vg, .thinPool]) := by
          intro both
          have some_ := (both.2 .vg (by simp)).mpr (by simp)
          exact absurd ((both.1 .vg (by simp)).mp some_) List.not_mem_nil
        tauto
  · simp [sound]

theorem parseAllowlist_eq_ok {text file : String} {decode : String → Except String Allowlist}
    {list : Allowlist} (decoded : readAllowlist decode text = .ok list)
    : (∃ accepted, parseAllowlist text file decode = .ok accepted)
      ↔ knownMode list.mode = true ∧ ∀ pool ∈ list.pools, pool.2.validate pool.1 = .ok () := by
  have each {pool : String × Declared} {f : String → Error}
      : (pool.2.validate pool.1).mapError f = .ok () ↔ pool.2.validate pool.1 = .ok () := by
    cases pool.2.validate pool.1 <;> simp [Except.mapError]
  have read : (readAllowlist decode text).mapError (fun e => ⟨.invalidAllowlist, file ++ ": " ++ e⟩)
      = (.ok list : Except Error Allowlist) := by
    rw [decoded, Except.mapError]
  simp only [parseAllowlist, read, bind_eq_ok, exists_unit, forM_eq_ok, require_eq_ok, each, pure,
    Except.pure, Except.ok.injEq]
  constructor
  · intro passed
    obtain ⟨accepted, list', rfl, mode, pools, -⟩ := passed
    exact ⟨mode, pools⟩
  · intro passed
    exact ⟨list, list, rfl, passed.1, passed.2, rfl⟩

/-- The allowlist is accepted for the places its entries say exactly where no entry's Ceph fields
decide.
-/
theorem acceptsPlaced_iff {text file : String} {decode : String → Except String Allowlist}
    {list : Allowlist} (decoded : readAllowlist decode text = .ok list)
    : AcceptsPlaced file text decode list ↔ ∀ pool ∈ list.pools, ¬ Confused pool.1 pool.2 := by
  constructor
  · intro accepts pool listed
    exact validate_iff_placed.mp (accepts.2 pool listed)
  · intro clear
    have each : ∀ pool ∈ list.pools, pool.2.validate pool.1 = .ok () ↔ Placed pool.1 pool.2 :=
      fun pool listed => validate_iff_placed.mpr (clear pool listed)
    refine ⟨?_, each⟩
    rw [parseAllowlist_eq_ok decoded]
    exact and_congr_right fun _ => forall₂_congr each

def rbdPool : Declared := { driver := "ceph-rbd", cephPool := some "rbdpool" }

def rbdList : Allowlist := { pools := [("block", rbdPool)] }

theorem acceptsPlaced_rbd
    : AcceptsPlaced "pools.yaml" "pools: ..." (fun _ => .ok rbdList) rbdList
      ↔ ∀ pool ∈ rbdList.pools, ¬ Confused pool.1 pool.2 :=
  acceptsPlaced_iff (if_neg (by decide))

/-- A pool of Ceph that gives what its driver reads is refused for want of LVM's fields. -/
theorem rbd_pool_refused
    : ¬ ∀ text file decode list, readAllowlist decode text = .ok list →
      AcceptsPlaced file text decode list := by
  intro all
  have accepts := all "pools: ..." "pools.yaml" (fun _ => .ok rbdList) rbdList
    (if_neg (by decide))
  have agree := accepts.2 ("block", rbdPool) (by simp [rbdList])
  have placed : Placed "block" rbdPool := {
    named := by decide
    known := by decide
    given := by decide
    own := fun field some_ => by cases field <;> simp [rbdPool, Declared.backing, needs] at some_ ⊢
    valid := fun field value some_ => by
      cases field <;> simp [rbdPool, Declared.backing] at some_
      subst some_
      decide
    identity := by decide
    devices := by decide
  }
  have refused : rbdPool.validate "block" = .ok () := agree.mpr placed
  rw [validate_eq_ok] at refused
  exact absurd ((refused.2 .vg (by simp)).mpr (by decide)) (by decide)

end Delonix.Storage
