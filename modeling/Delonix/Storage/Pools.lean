import Delonix.Library.Text
import Mathlib.Data.List.Infix

/-! Storage pools: what the administrator's allowlist says of one, what a driver is asked for and
answers, and who it is asked for. A driver works on a host, whose state it reads and leaves.
-/

namespace Delonix.Storage

open Delonix.Library.Text

inductive ErrorKind where
  | invalidPoolRequest
  | invalidAllowlist
  | driverRegistrationRefused
  | helperRequestInvalid
  | poolNotRegistered
  | poolConflict
  | poolExhausted
  | poolNotCreatedHere
  | deviceInUse
  | poolUnavailable
  | poolUndetermined
  | helperUnavailable
  | notAllowed
  | callerNotAllowed
  | adminNeedsRoot
  /-- A failure of the layers underneath. -/
  | engine
deriving DecidableEq, Repr

structure Error where
  kind : ErrorKind
  text : String
deriving DecidableEq, Repr

/-- One path component for every backend: at most 63 bytes, no `..`. -/
def validVolumeName (name : String) : Bool :=
  match name.toList with
  | [] => false
  | first :: rest =>
      name.utf8ByteSize ≤ 63 && first.isAlphanum && !decide ("..".toList <:+: first :: rest)
        && (first :: rest).all fun c => c.isAlphanum || c == '.' || c == '_' || c == '-'

def validPoolName (name : String) : Bool :=
  match name.toList with
  | [] => false
  | first :: rest =>
      name.utf8ByteSize ≤ 63 && (first.isLower || first.isDigit)
        && rest.all (fun c => c.isLower || c.isDigit || c == '.' || c == '_' || c == '-')
        && !decide ("..".toList <:+: first :: rest)

/-- One pool, as the administrator declared it; `create` is read by other commands only. -/
structure Entry where
  driver : String
  path : Option String := none
  vg : Option String := none
  thinPool : Option String := none
  dataset : Option String := none
  cephPool : Option String := none
  cephFs : Option String := none
  cephUser : Option String := none
  cephConf : Option String := none
  allowUsers : List String := []
  maxVolumeBytes : Option String := none
deriving DecidableEq, Repr

/-- `Entry::max_volume_bytes`, with the size grammar it is handed. -/
def Entry.maxBytes (entry : Entry) (parseSize : String → Option UInt64) (pool : String)
    : Except Error (Option UInt64) :=
  match entry.maxVolumeBytes with
  | none => .ok none
  | some raw =>
      match parseSize raw with
      | some size => .ok (some size)
      | none =>
          .error ⟨.invalidAllowlist,
            s!"pool '{pool}': maxVolumeBytes '{raw}' is not a size (e.g. 50G)"⟩

/-- Who an allocation is for: one engine state root of one user. -/
structure Owner where
  id : String
deriving DecidableEq, Repr

/-- `str::parse::<u32>`. -/
def parseU32 (s : List Char) : Option UInt32 :=
  (parseUnsigned 10 (2 ^ 32 - 1) s).map UInt32.ofNat

def Owner.of (uid : UInt32) (root : String) : Owner :=
  ⟨String.ofList (decimal uid.toNat ++ ':' :: root.toList)⟩

def Owner.parts (owner : Owner) : Option (UInt32 × String) := do
  let (uid, root) ← splitOnce ':' owner.id.toList
  return (← parseU32 uid, String.ofList root)

theorem parseU32_decimal (uid : UInt32) : parseU32 (decimal uid.toNat) = some uid := by
  rw [parseU32, parseUnsigned_decimal (by have := uid.toNat_lt; omega)]
  simp

/-- `parts` takes an owner apart again, whatever the root holds: no digit is the separator. -/
theorem Owner.parts_of (uid : UInt32) (root : String)
    : (Owner.of uid root).parts = some (uid, root) := by
  have digits : ':' ∉ decimal uid.toNat := not_mem_decimal (.inr (by decide))
  rw [Owner.parts, Owner.of, String.toList_ofList, splitOnce_append _ digits]
  simp [parseU32_decimal]

theorem Owner.of_inj {uid uid' : UInt32} {root root' : String}
    (same : Owner.of uid root = Owner.of uid' root')
    : uid = uid' ∧ root = root' := by
  have parts := Owner.parts_of uid root
  rw [same, Owner.parts_of] at parts
  simp only [Option.some.injEq, Prod.mk.injEq] at parts
  exact ⟨parts.1.symm, parts.2.symm⟩

structure PoolRef where
  name : String
  entry : Entry
deriving DecidableEq, Repr

inductive PoolProbe where
  | available
  | unavailable (missing remedy : String)
  | undetermined (reason remedy : String)
deriving DecidableEq, Repr

/-- What an operation needs on this host. -/
inductive Privilege where
  | unprivileged
  | delegated (grant : String)
  | helper
deriving DecidableEq, Repr

inductive VolumeShape where
  | filesystem
  | block
deriving DecidableEq, Repr

def VolumeShape.label : VolumeShape → String
  | .filesystem => "filesystem"
  | .block => "block"

def VolumeShape.parse (label : String) : Option VolumeShape :=
  if label = "filesystem" then some .filesystem
  else if label = "block" then some .block
  else none

@[simp] theorem VolumeShape.parse_label (shape : VolumeShape) : parse shape.label = some shape := by
  cases shape <;> decide

inductive PoolOp where
  | probe
  | allocate (shape : VolumeShape)
  | release
  | usage
deriving DecidableEq, Repr

structure VolumeRequest where
  name : String
  shape : VolumeShape
  sizeBytes : UInt64
deriving DecidableEq, Repr

structure Allocation where
  pool : String
  volume : String
  shape : VolumeShape
  path : String
  adopted : Bool
deriving DecidableEq, Repr

structure PoolUsage where
  capacityBytes : Option UInt64 := none
  usedBytes : Option UInt64 := none
  metadataPct : Option UInt8 := none
deriving DecidableEq, Repr

/-- A backend on a host whose state it may change. -/
structure Driver (Host : Type) where
  id : String
  required : PoolOp → Privilege
  probe : PoolRef → Host → PoolProbe × Host
  allocate : PoolRef → VolumeRequest → Owner → Host → Except Error Allocation × Host
  release : PoolRef → String → Owner → Host → Except Error Unit × Host
  usage : PoolRef → Host → PoolUsage × Host

end Delonix.Storage
