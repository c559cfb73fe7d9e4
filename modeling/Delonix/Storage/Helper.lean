import Delonix.Library.Json
import Delonix.Storage.Pools
import Mathlib.Data.UInt

/-! The privileged helper and the engine's side of it. A request crosses as bytes; the helper
checks it against the allowlist it read itself and the uid the kernel reported, and only then asks
a driver. The engine sends to the helper what its driver needs root for and does the rest itself.
-/

namespace Delonix.Storage

open Delonix.Library.Json
open Delonix.Library.Text

def protocolVersion : UInt32 := 1

def maxRequestBytes : Nat := 4096

def maxSizeBytes : UInt64 := 2 ^ 50

def maxRootBytes : Nat := 1024

structure Request where
  v : UInt32
  op : String
  pool : String
  volume : Option String
  shape : Option String
  sizeBytes : Option UInt64
  root : Option String
deriving DecidableEq, Repr

/-- An operation the socket serves, validated. -/
inductive Op where
  | probe
  | usage
  | allocate (volume : String) (shape : VolumeShape) (sizeBytes : UInt64) (root : String)
  | release (volume root : String)
deriving DecidableEq, Repr

structure Checked where
  pool : String
  op : Op
deriving DecidableEq, Repr

def invalid {α : Type} (why : String) : Except Error α := .error ⟨.helperRequestInvalid, why⟩

/-- An absolute path with no `..` component. -/
def validRoot (root : String) : Bool :=
  !root.isEmpty && root.utf8ByteSize ≤ maxRootBytes && !root.toList.any isControl
    && root.toList.head? == some '/' && !(root.toList.splitOn '/').contains ['.', '.']

def printable (s : String) : String :=
  String.ofList ((s.toList.take 64).map fun c => if isControl c then '?' else c)

namespace Request

def new (op pool : String) : Request := ⟨protocolVersion, op, pool, none, none, none, none⟩

/-- The fields as they are written; one that is absent is left out. -/
def fields (r : Request) : List (String × Value) :=
  [("v", .number r.v.toNat), ("op", .text r.op), ("pool", .text r.pool)]
    ++ (r.volume.map fun v => ("volume", .text v)).toList
    ++ (r.shape.map fun s => ("shape", .text s)).toList
    ++ (r.sizeBytes.map fun n => ("size_bytes", .number n.toNat)).toList
    ++ (r.root.map fun root => ("root", .text root)).toList

def encode (r : Request) : ByteArray := (String.ofList (write (.object r.fields))).toByteArray

/-- `fromSlice` is the JSON reader of the request type, with its own messages. -/
def decode (fromSlice : ByteArray → Except String Request) (bytes : ByteArray)
    : Except Error Request :=
  if bytes.size > maxRequestBytes then
    invalid s!"the request is {bytes.size} bytes; the helper reads at most {maxRequestBytes}"
  else
    match fromSlice bytes with
    | .ok r => .ok r
    | .error e => invalid s!"the request is not a helper request: {e}"

/-- A field the operation does not take. -/
def given (r : Request) (present : Bool) (name : String) : Except Error Unit :=
  if present then invalid (s!"operation '{r.op}' does not take `" ++ name ++ "`") else .ok ()

def checkVolume : Option String → Except Error String
  | none => invalid "`volume` is missing"
  | some v =>
      if validVolumeName v then .ok v else invalid s!"'{printable v}' is not a volume name"

def checkRoot : Option String → Except Error String
  | none => invalid "`root` is missing"
  | some r =>
      if validRoot r then .ok r
      else invalid
        "`root` must be an absolute path without '..' or control characters, at most 1024 bytes"

def checkShape : Option String → Except Error VolumeShape
  | none => invalid "`shape` is missing"
  | some shape =>
      match VolumeShape.parse shape with
      | some shape => .ok shape
      | none => invalid s!"shape '{printable shape}' is not filesystem or block"

def checkSize : Option UInt64 → Except Error UInt64
  | none => invalid "`size_bytes` is missing"
  | some size =>
      if size = 0 ∨ size > maxSizeBytes then
        invalid s!"size_bytes {size} is outside 1..={maxSizeBytes}"
      else .ok size

def checkOp (r : Request) : Except Error Op :=
  if r.op = "probe" ∨ r.op = "usage" then do
    r.given r.volume.isSome "volume"
    r.given r.shape.isSome "shape"
    r.given r.sizeBytes.isSome "size_bytes"
    r.given r.root.isSome "root"
    return if r.op = "probe" then .probe else .usage
  else if r.op = "allocate" then do
    let shape ← checkShape r.shape
    let size ← checkSize r.sizeBytes
    let volume ← checkVolume r.volume
    let root ← checkRoot r.root
    return .allocate volume shape size root
  else if r.op = "release" then do
    r.given r.shape.isSome "shape"
    r.given r.sizeBytes.isSome "size_bytes"
    let volume ← checkVolume r.volume
    let root ← checkRoot r.root
    return .release volume root
  else if r.op = "create-pool" ∨ r.op = "destroy-pool" then
    invalid (s!"'{r.op}' is never served over the socket: an administrator runs "
      ++ s!"`delonix-storage-helper {r.op} <pool>` as root at a terminal")
  else invalid s!"'{printable r.op}' is not an operation (probe, usage, allocate, release)"

def check (r : Request) : Except Error Checked :=
  if r.v ≠ protocolVersion then
    invalid s!"protocol version {r.v} is not served (this helper speaks {protocolVersion})"
  else if !validPoolName r.pool then invalid s!"'{printable r.pool}' is not a pool name"
  else do
    let op ← r.checkOp
    return ⟨r.pool, op⟩

end Request

inductive Outcome where
  | probe (probe : PoolProbe)
  | usage (usage : PoolUsage)
  | allocation (allocation : Allocation)
  | released
deriving DecidableEq, Repr

variable {Host : Type}

structure ServeContext (Host : Type) where
  pools : String → Option Entry
  driver : String → Option (Driver Host)
  uidOf : String → Option UInt32
  parseSize : String → Option UInt64

/-- An entry of `allowUsers` is a user name or a numeric uid. -/
def allows (uidOf : String → Option UInt32) (entry : Entry) (uid : UInt32) : Bool :=
  entry.allowUsers.any fun u =>
    match parseU32 u.toList with
    | some n => n == uid
    | none => uidOf u == some uid

def Op.poolOp : Op → PoolOp
  | .probe => .probe
  | .usage => .usage
  | .allocate _ shape _ _ => .allocate shape
  | .release _ _ => .release

section

variable (fromSlice : ByteArray → Except String Request)

/-- What the helper does with the bytes of a caller whose uid the kernel reported. -/
def serve (ctx : ServeContext Host) (bytes : ByteArray) (peerUid : UInt32) (host : Host)
    : Except Error Outcome × Host :=
  match Request.decode fromSlice bytes >>= Request.check with
  | .error e => (.error e, host)
  | .ok req =>
      match ctx.pools req.pool with
      | none =>
          (.error ⟨.notAllowed,
            s!"storage pool '{req.pool}' is not in the administrator's allowlist"⟩, host)
      | some entry =>
          if !allows ctx.uidOf entry peerUid then
            (.error ⟨.callerNotAllowed,
              s!"storage pool '{req.pool}': uid {peerUid} is not in its allowUsers"⟩, host)
          else
            match ctx.driver entry.driver with
            | none =>
                (.error ⟨.poolUnavailable, s!"storage pool '{req.pool}': driver "
                  ++ s!"'{entry.driver}' is not in this helper"⟩, host)
            | some driver =>
                if driver.required req.op.poolOp = .unprivileged then
                  (.error ⟨.helperRequestInvalid, s!"storage pool '{req.pool}': driver "
                    ++ s!"'{entry.driver}' does this without privilege — the engine does it "
                    ++ "itself, never through the helper"⟩, host)
                else
                  let pool : PoolRef := ⟨req.pool, entry⟩
                  match req.op with
                  | .probe =>
                      let (probe, host) := driver.probe pool host
                      (.ok (.probe probe), host)
                  | .usage =>
                      let (usage, host) := driver.usage pool host
                      (.ok (.usage usage), host)
                  | .allocate volume shape size root =>
                      match entry.maxBytes ctx.parseSize req.pool with
                      | .error e => (.error e, host)
                      | .ok max =>
                          if max.any (size > ·) then
                            (.error ⟨.notAllowed, s!"storage pool '{req.pool}': {size} bytes is "
                              ++ s!"above its maxVolumeBytes ({max.getD 0})"⟩, host)
                          else
                            let (answer, host) :=
                              driver.allocate pool ⟨volume, shape, size⟩ (.of peerUid root) host
                            (answer.map .allocation, host)
                  | .release volume root =>
                      let (answer, host) := driver.release pool volume (.of peerUid root) host
                      (answer.map fun _ => .released, host)

end

def helperRemedy : String :=
  "enable the helper (`systemctl enable --now delonix-storage-helper.socket`) and add this user "
    ++ "to the pool's `allowUsers`, or run the engine as root with `mode: in-process` in the "
    ++ "allowlist"

inductive Privileged (Host : Type) where
  | inProcess
  | helper (call : Request → Host → Except Error Outcome × Host)

/-- A driver as the engine uses it; `debug` is the text of an outcome in a message. -/
structure Routed (Host : Type) where
  inner : Driver Host
  privileged : Privileged Host
  debug : Outcome → String

namespace Routed

def helper (r : Routed Host) (op : PoolOp) : Option (Request → Host → Except Error Outcome × Host) :=
  match r.inner.required op, r.privileged with
  | _, .inProcess => none
  | .helper, .helper call => some call
  | _, _ => none

def rootOf (owner : Owner) : Except Error String :=
  match owner.parts with
  | some (_, root) => .ok root
  | none => invalid s!"owner '{printable owner.id}' is not <uid>:<state root>"

def undetermined (r : Routed Host) (why : String) : PoolProbe :=
  .undetermined s!"driver '{r.inner.id}': {why}" helperRemedy

def refusedByHelper (r : Routed Host) (e : Error) : PoolProbe :=
  if e.kind = .helperUnavailable then r.undetermined e.text
  else .undetermined
    s!"driver '{r.inner.id}': the storage helper refused the probe: {e.text}"
    ("fix what the helper's answer names (it reads /etc/delonix/storage-pools.yaml, not the "
      ++ "engine's allowlist path)")

def probe (r : Routed Host) (pool : PoolRef) (host : Host) : PoolProbe × Host :=
  match r.helper .probe with
  | none =>
      let (here, host) := r.inner.probe pool host
      -- A delegated probe that could not look may still be answered by the helper.
      match here, r.inner.required .probe, r.privileged with
      | .undetermined _ _, .delegated _, .helper call =>
          match call (.new "probe" pool.name) host with
          | (.ok (.probe probe), host) => (probe, host)
          | (_, host) => (here, host)
      | _, _, _ => (here, host)
  | some call =>
      match call (.new "probe" pool.name) host with
      | (.ok (.probe probe), host) => (probe, host)
      | (.ok other, host) => (r.undetermined s!"the helper answered {r.debug other}", host)
      | (.error e, host) => (r.refusedByHelper e, host)

def allocate (r : Routed Host) (pool : PoolRef) (req : VolumeRequest) (owner : Owner) (host : Host)
    : Except Error Allocation × Host :=
  match r.helper (.allocate req.shape) with
  | none => r.inner.allocate pool req owner host
  | some call =>
      match rootOf owner with
      | .error e => (.error e, host)
      | .ok root =>
          let request : Request := { Request.new "allocate" pool.name with
            volume := some req.name
            shape := some req.shape.label
            sizeBytes := some req.sizeBytes
            root := some root }
          match call request host with
          | (.error e, host) => (.error e, host)
          | (.ok (.allocation allocation), host) => (.ok allocation, host)
          | (.ok other, host) =>
              (.error ⟨.poolUnavailable, s!"storage pool '{pool.name}': the helper answered "
                ++ s!"{r.debug other} to an allocation"⟩, host)

def release (r : Routed Host) (pool : PoolRef) (volume : String) (owner : Owner) (host : Host)
    : Except Error Unit × Host :=
  match r.helper .release with
  | none => r.inner.release pool volume owner host
  | some call =>
      match rootOf owner with
      | .error e => (.error e, host)
      | .ok root =>
          let request : Request := { Request.new "release" pool.name with
            volume := some volume
            root := some root }
          match call request host with
          | (.error e, host) => (.error e, host)
          | (.ok .released, host) => (.ok (), host)
          | (.ok other, host) =>
              (.error ⟨.poolUnavailable, s!"storage pool '{pool.name}': the helper answered "
                ++ s!"{r.debug other} to a release"⟩, host)

def usage (r : Routed Host) (pool : PoolRef) (host : Host) : PoolUsage × Host :=
  let ask (call : Request → Host → Except Error Outcome × Host) (host : Host) :=
    match call (.new "usage" pool.name) host with
    | (.ok (.usage usage), host) => (usage, host)
    | (_, host) => ({}, host)
  match r.helper .usage with
  | some call => ask call host
  | none =>
      let (here, host) := r.inner.usage pool host
      match r.privileged, r.inner.required .usage with
      | .helper call, .delegated _ =>
          if here.capacityBytes.isNone then ask call host else (here, host)
      | _, _ => (here, host)

end Routed

end Delonix.Storage
