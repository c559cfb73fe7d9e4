import Delonix.Library.Pieces
import Delonix.Library.Text
import Delonix.Library.Utf8
import Delonix.Spdy.HeaderBlock

/-! The owners that an image records for its files, as the index that is kept beside a container's
root. A path is its bytes; the index is read back as it was written, and no path that is read from
it leads out of the root.
-/

namespace Delonix.Images.Owners

open Delonix.Library.Text
open Delonix.Library.Pieces
open Delonix.Library.Utf8

abbrev PathBytes := List UInt8

def slash : UInt8 := 47

def dot : UInt8 := 46

structure PathOwner where
  path : PathBytes
  uid : UInt32
  gid : UInt32
deriving DecidableEq, Repr

/-- `PathBuf::push`. -/
def push (out part : PathBytes) : PathBytes :=
  if part.head? = some slash then part
  else
    match out.getLast? with
    | none => part
    | some last => if last = slash then out ++ part else out ++ slash :: part

def relativeFrom (out : PathBytes) : List (Library.UnixPath.Component UInt8) → Option PathBytes
  | [] => some out
  | .normal name :: rest => relativeFrom (push out name) rest
  | .curDir :: rest => relativeFrom out rest
  | .rootDir :: rest => relativeFrom out rest
  | .parentDir :: _ => none

/-- A path as one relative to the root, or nothing where it names nothing inside of it. -/
def relative (path : PathBytes) : Option PathBytes :=
  (relativeFrom [] (Library.UnixPath.components slash dot path)).filter (· ≠ [])

/-- One record of the index, without the byte that ends it. -/
def ownerRecord (o : PathOwner) : List UInt8 :=
  encode (decimal o.uid.toNat ++ ' ' :: decimal o.gid.toNat ++ [' ']) ++ o.path

def encodeOwners (owners : List PathOwner) : List UInt8 :=
  owners.flatMap fun o => ownerRecord o ++ [0]

/-- What is before the first space, and what is after it. -/
def cutSpace (rec : List UInt8) : Option (List UInt8 × List UInt8) :=
  match rec.dropWhile (· ≠ 32) with
  | [] => none
  | _ :: rest => some (rec.takeWhile (· ≠ 32), rest)

/-- `str::from_utf8` and `str::parse::<u32>`. -/
def parseId (bytes : List UInt8) : Option UInt32 := do
  let s ← fromUtf8 bytes
  let value ← parseUnsigned 10 (2 ^ 32 - 1) s
  some (UInt32.ofNat value)

def readRecord (rec : List UInt8) : Option PathOwner := do
  let (uid, rest) ← cutSpace rec
  let (gid, path) ← cutSpace rest
  let uid ← parseId uid
  let gid ← parseId gid
  let path ← relative path
  some ⟨path, uid, gid⟩

/-- A record that cannot be read is dropped. -/
def decodeOwners (bytes : List UInt8) : List PathOwner := (bytes.splitOn 0).filterMap readRecord

/-- A path that names something, is relative and goes up nowhere. -/
structure Confined (path : PathBytes) : Prop where
  nonempty : path ≠ []
  isRelative : path.head? ≠ some slash
  noParent : [dot, dot] ∉ path.splitOn slash

/-- A name between two slashes. -/
structure IsName (name : PathBytes) : Prop where
  nonempty : name ≠ []
  whole : slash ∉ name
  noParent : name ≠ [dot, dot]

def joinNames (names : List PathBytes) : PathBytes := List.intercalate [slash] names

theorem isName_of_normal {path name : PathBytes}
    (member : Library.UnixPath.Component.normal name ∈ Library.UnixPath.components slash dot path)
    : IsName name := by
  rw [Library.UnixPath.components, List.mem_append] at member
  rcases member with lead | piece
  · split at lead
    · simp at lead
    · split at lead
      · simp at lead
      · simp at lead
  · obtain ⟨part, inPath, is⟩ := List.mem_filterMap.mp piece
    rw [Library.UnixPath.pieceComponent] at is
    split at is
    · cases is
    · split at is
      · cases is
      case isFalse plain noParent =>
        cases is
        exact ⟨fun empty => plain (.inl empty), not_mem_of_mem_splitOn inPath, noParent⟩

theorem joinNames_concat {names : List PathBytes} (some_ : names ≠ []) (name : PathBytes)
    : joinNames (names ++ [name]) = joinNames names ++ slash :: name := by
  induction names with
  | nil => exact absurd rfl some_
  | cons first rest ih =>
      cases rest with
      | nil => simp [joinNames, List.intercalate_cons_cons]
      | cons second others =>
          have later := ih (by simp)
          simp only [joinNames, List.cons_append, List.intercalate_cons_cons] at later ⊢
          rw [later, List.append_assoc, List.append_assoc, List.append_assoc]

/-- A path of names ends in the last of them, so that nothing but a slash can follow. -/
theorem getLast_joinNames {names : List PathBytes} (all : ∀ name ∈ names, IsName name)
    (some_ : names ≠ [])
    : ∃ last, (joinNames names).getLast? = some last ∧ last ≠ slash := by
  obtain ⟨front, name, rfl⟩ := (List.eq_nil_or_concat names).resolve_left some_
  rw [List.concat_eq_append] at all ⊢
  have isName := all name (by simp)
  obtain ⟨last, isLast⟩ := Option.isSome_iff_exists.mp (List.getLast?_isSome.mpr isName.nonempty)
  have notSlash : last ≠ slash := fun is =>
    isName.whole (is ▸ List.mem_of_getLast? isLast)
  refine ⟨last, ?_, notSlash⟩
  by_cases alone : front = []
  · rw [alone]
    simpa [joinNames] using isLast
  · rw [joinNames_concat alone, List.getLast?_append, List.getLast?_cons, isLast]
    rfl

theorem head_name {name : PathBytes} (isName : IsName name) : name.head? ≠ some slash :=
  fun head => isName.whole (List.mem_of_head? head)

theorem push_joinNames {names : List PathBytes} {name : PathBytes} (isName : IsName name)
    (all : ∀ other ∈ names, IsName other)
    : push (joinNames names) name = joinNames (names ++ [name]) := by
  rw [push, if_neg (head_name isName)]
  by_cases empty : names = []
  · simp [empty, joinNames]
  · obtain ⟨last, isLast, notSlash⟩ := getLast_joinNames all empty
    simp only [isLast, if_neg notSlash, joinNames_concat empty]

theorem relativeFrom_joinNames {rest : List (Library.UnixPath.Component UInt8)}
    {names : List PathBytes}
    {out : PathBytes} (all : ∀ name ∈ names, IsName name)
    (later : ∀ name, .normal name ∈ rest → IsName name)
    (is : relativeFrom (joinNames names) rest = some out)
    : ∃ more, out = joinNames more ∧ ∀ name ∈ more, IsName name := by
  induction rest generalizing names with
  | nil => exact ⟨names, (Option.some.inj is).symm, all⟩
  | cons component rest ih =>
      have tail : ∀ name, .normal name ∈ rest → IsName name :=
        fun name member => later name (List.mem_cons_of_mem _ member)
      cases component with
      | normal name =>
          have isName := later name List.mem_cons_self
          rw [relativeFrom, push_joinNames isName all] at is
          refine ih ?_ tail is
          intro other member
          rcases List.mem_append.mp member with before | last
          · exact all other before
          · rw [List.mem_singleton.mp last]
            exact isName
      | curDir => exact ih all tail is
      | rootDir => exact ih all tail is
      | parentDir => cases is

theorem confined_joinNames {names : List PathBytes} (all : ∀ name ∈ names, IsName name)
    (nonempty : joinNames names ≠ [])
    : Confined (joinNames names) := by
  have some_ : names ≠ [] := by
    intro empty
    simp [empty, joinNames] at nonempty
  have pieces : (joinNames names).splitOn slash = names :=
    List.splitOn_intercalate slash (fun name member => (all name member).whole) some_
  refine ⟨nonempty, ?_, ?_⟩
  · cases names with
    | nil => exact absurd rfl some_
    | cons first rest =>
        have isName := all first List.mem_cons_self
        have head := head_name isName
        cases rest with
        | nil => simpa [joinNames] using head
        | cons second others =>
            rw [joinNames, List.intercalate_cons_cons, List.append_assoc, List.head?_append]
            cases first with
            | nil => exact absurd rfl isName.nonempty
            | cons b bytes => simpa using head
  · rw [pieces]
    exact fun member => (all _ member).noParent rfl

theorem confined_of_relative {path out : PathBytes} (is : relative path = some out)
    : Confined out := by
  obtain ⟨found, nonempty⟩ := Option.filter_eq_some_iff.mp is
  obtain ⟨names, rfl, all⟩ := @relativeFrom_joinNames _ [] _ (by simp)
    (fun name member => isName_of_normal member) found
  exact confined_joinNames all (by simpa using nonempty)

theorem confined_of_mem_decodeOwners {bytes : List UInt8} {o : PathOwner}
    (member : o ∈ decodeOwners bytes)
    : Confined o.path := by
  obtain ⟨rec, -, read⟩ := List.mem_filterMap.mp member
  simp only [readRecord, Option.bind_eq_bind, Option.bind_eq_some_iff, Option.some.injEq] at read
  obtain ⟨_, _, _, _, _, _, _, _, path, is, rfl⟩ := read
  exact confined_of_relative is

/-- The owners an image gives: each names something, as the index keeps it. -/
structure Recordable (o : PathOwner) : Prop where
  nonempty : o.path ≠ []
  whole : 0 ∉ o.path
  normal : relative o.path = some o.path

theorem encode_ascii {s : List Char} (ascii : ∀ c ∈ s, c.toNat < 128)
    : encode s = s.map fun c => UInt8.ofNat c.toNat := by
  induction s with
  | nil => rfl
  | cons c rest ih =>
      rw [encode_cons, encodeChar_ascii (ascii c List.mem_cons_self),
        ih fun c member => ascii c (List.mem_cons_of_mem _ member)]
      rfl

theorem mem_encode_decimal {n : Nat} {b : UInt8} (member : b ∈ encode (decimal n))
    : 48 ≤ b.toNat ∧ b.toNat ≤ 57 := by
  have ascii : ∀ c ∈ decimal n, c.toNat < 128 := by
    intro c inDigits
    have digit := isDigit_toDigits inDigits
    omega
  rw [encode_ascii ascii] at member
  obtain ⟨c, inDigits, rfl⟩ := List.mem_map.mp member
  have digit := isDigit_toDigits inDigits
  rw [toNat_byte (by omega)]
  exact digit

theorem cutSpace_append {front : List UInt8} (rest : List UInt8) (whole : 32 ∉ front)
    : cutSpace (front ++ 32 :: rest) = some (front, rest) := by
  have all : ∀ b ∈ front, decide (b ≠ 32) = true := by
    intro b member
    exact decide_eq_true (fun is => whole (is ▸ member))
  rw [cutSpace, List.dropWhile_append_of_pos all, List.takeWhile_append_of_pos all]
  simp

theorem parseId_decimal (id : UInt32) : parseId (encode (decimal id.toNat)) = some id := by
  have parsed : parseUnsigned 10 (2 ^ 32 - 1) (decimal id.toNat) = some id.toNat :=
    parseUnsigned_decimal (by have := id.toNat_lt; omega)
  rw [parseId, fromUtf8_encode, Option.bind_eq_bind, Option.bind_some, parsed]
  simp

theorem ownerRecord_eq (o : PathOwner)
    : ownerRecord o
      = encode (decimal o.uid.toNat) ++ 32 :: (encode (decimal o.gid.toNat) ++ 32 :: o.path) := by
  have space : encode [' '] = [32] := rfl
  have cut (rest : List Char) : encode (' ' :: rest) = 32 :: encode rest := rfl
  rw [ownerRecord, List.append_assoc, List.cons_append, encode_append, cut, encode_append, space]
  simp

theorem readRecord_ownerRecord {o : PathOwner} (recordable : Recordable o)
    : readRecord (ownerRecord o) = some o := by
  have digits (n : Nat) : 32 ∉ encode (decimal n) := by
    intro member
    have digit := mem_encode_decimal member
    exact absurd digit.1 (by decide)
  rw [ownerRecord_eq, readRecord, cutSpace_append _ (digits _)]
  simp only [Option.bind_eq_bind, Option.bind_some]
  rw [cutSpace_append _ (digits _)]
  simp only [Option.bind_some, parseId_decimal, recordable.normal]

theorem whole_ownerRecord {o : PathOwner} (recordable : Recordable o) : 0 ∉ ownerRecord o := by
  have digits (n : Nat) : 0 ∉ encode (decimal n) := by
    intro member
    have digit := mem_encode_decimal member
    exact absurd digit.1 (by decide)
  rw [ownerRecord_eq, List.mem_append, List.mem_cons, List.mem_append, List.mem_cons]
  intro member
  rcases member with inUid | is | inGid | is | inPath
  · exact digits _ inUid
  · exact absurd is (by decide)
  · exact digits _ inGid
  · exact absurd is (by decide)
  · exact recordable.whole inPath

theorem decodeOwners_encodeOwners {owners : List PathOwner} (all : ∀ o ∈ owners, Recordable o)
    : decodeOwners (encodeOwners owners) = owners := by
  induction owners with
  | nil => rfl
  | cons o rest ih =>
      have recordable := all o List.mem_cons_self
      have later := ih fun other member => all other (List.mem_cons_of_mem _ member)
      rw [encodeOwners, List.flatMap_cons, ← encodeOwners, List.append_assoc, decodeOwners,
        List.singleton_append,
        List.splitOn_append_cons_self_of_not_mem (whole_ownerRecord recordable),
        List.filterMap_cons, readRecord_ownerRecord recordable, ← decodeOwners, later]

/-- Both formats give back what was written, the reader of headers never leaves its buffer, and
the reader of owners gives no path that leaves the root.
-/
theorem untrusted_codecs
    : (∀ pairs, Spdy.FitsU32 pairs →
        Spdy.decodeHeaders (Spdy.encodeHeaders pairs) = .ok pairs)
      ∧ (∀ buf, ∃ pairs, Spdy.decodeHeaders buf = .ok pairs ∧ ∀ pair ∈ pairs, ∃ k v,
          k <:+: buf ∧ v <:+: buf ∧ pair = (Spdy.text k, Spdy.text v))
      ∧ (∀ owners, (∀ o ∈ owners, Recordable o) → decodeOwners (encodeOwners owners) = owners)
      ∧ ∀ bytes, ∀ o ∈ decodeOwners bytes, Confined o.path := by
  refine ⟨fun pairs fits => Spdy.decodeHeaders_encodeHeaders fits, ?_,
    fun owners all => decodeOwners_encodeOwners all, fun bytes o member => ?_⟩
  · intro buf
    refine ⟨_, Spdy.decodeHeaders_eq buf, ?_⟩
    intro pair member
    obtain ⟨bytes, held, rfl⟩ := List.mem_map.mp member
    obtain ⟨inName, inValue⟩ := Spdy.infix_of_mem_decodeNv held
    exact ⟨bytes.1, bytes.2, inName, inValue, rfl⟩
  · exact confined_of_mem_decodeOwners member

/-- One stream of an exec, and a file that an image gives to a user, name with blank and all. -/
theorem untrusted_codecs_stdin
    : Spdy.decodeHeaders (Spdy.encodeHeaders [("streamtype", "stdin")])
        = .ok [("streamtype", "stdin")]
      ∧ decodeOwners (encodeOwners [⟨encode "a b/c".toList, 1000, 1000⟩])
        = [⟨encode "a b/c".toList, 1000, 1000⟩] := by
  refine ⟨untrusted_codecs.1 _ ⟨by decide, ?_, ?_⟩, untrusted_codecs.2.2.1 _ ?_⟩
  · exact List.forall_mem_singleton.mpr (by decide)
  · exact List.forall_mem_singleton.mpr (by decide)
  · exact List.forall_mem_singleton.mpr ⟨by decide, by decide, by decide⟩

end Delonix.Images.Owners
