import Delonix.Library.Faults
import Delonix.Storage.DirPool

/-! The `lvm-thin` driver: one thin logical volume per volume, with the owner's stamp in its tags
and a filesystem that is mounted below the helper's own root. A call works on the logical volume of
one name and its mount point; each tool it runs and each file it touches is a step. A tool that
reports a failure may have done its work all the same.
-/

namespace Delonix.Storage

open Delonix.Library.Faults

/-- FNV-1a over the bytes of a state root, in 16 hexadecimal digits. -/
def rootDigest (root : String) : String :=
  let h := root.toUTF8.toList.foldl (fun h b => (h ^^^ b.toUInt64) * 0x00000100000001b3)
    (0xcbf29ce484222325 : UInt64)
  let digits := Nat.toDigits 16 h.toNat
  String.ofList (List.replicate (16 - digits.length) '0' ++ digits)

def engineTag : String := "delonix.io_engine"

def stampTags (pool volume : String) (owner : Owner) : Except Error (List String) :=
  match owner.parts with
  | none => .error ⟨.invalidPoolRequest, s!"owner '{owner.id}' is not <uid>:<root>"⟩
  | some (uid, root) =>
      .ok [engineTag, s!"delonix.io_uid={uid}", s!"delonix.io_root={rootDigest root}",
        s!"delonix.io_pool={pool}", s!"delonix.io_volume={volume}"]

def stampedFor (tags : List String) (pool volume : String) (owner : Owner) : Bool :=
  match stampTags pool volume owner with
  | .ok want => want.all tags.contains
  | .error _ => false

/-- A logical volume name may contain none of these. -/
def reserved : List String :=
  ["_cdata", "_cmeta", "_corig", "_cvol", "_iorig", "_mimage", "_mlog", "_pmspare", "_rimage",
    "_rmeta", "_tdata", "_tmeta", "_vdata", "_vorigin", "_wcorig"]

def validLvVolume (volume : String) : Except Error Unit :=
  if !validVolumeName volume then
    .error ⟨.invalidPoolRequest, s!"'{volume}' is not a volume name a pool can hold"⟩
  else
    match reserved.find? fun r => decide (r.toList <:+: volume.toList) with
    | some r => .error ⟨.invalidPoolRequest, s!"volume '{volume}' contains '{r}', which LVM "
        ++ "reserves for its own volumes — pick another name"⟩
    | none => .ok ()

/-- The filesystem on a volume, with its data entry. -/
structure Filesystem where
  data : Option Data
deriving DecidableEq, Repr

structure Lv where
  tags : List String
  fs : Option Filesystem
  mounted : Bool
deriving DecidableEq, Repr

/-- The logical volume of a name, and what is in the directory it is mounted on. -/
structure Vol where
  lv : Option Lv
  mountDir : Option (List String)
deriving DecidableEq, Repr

inductive LvmStep where
  | listVolume
  | listPool
  | makeVolume
  | probeFs
  | makeFs
  | makeMountDir
  | lookMount
  | mount
  | lookData
  | makeData
  | handData
  | takeBack
  | unmount
  | removeVolume
  | dropMountDir
deriving DecidableEq, Repr

/-- What a call meets: the steps that go wrong, those of them that were done all the same, the
tools' words for a failure, and how full the thin pool is.
-/
structure LvmHost where
  faults : FaultPlan LvmStep
  applied : LvmStep → Bool
  why : LvmStep → String
  dataPct : Option UInt8
  metadataPct : Option UInt8

def LvmHost.calm (host : LvmHost) : LvmHost := { host with faults := noFaults }

abbrev LvmProg := Prog Vol Error

namespace LvmHost

variable (host : LvmHost)

/-- A tool or a file operation that must succeed. -/
def must (step : LvmStep) (error : String → Error) (does : Vol → Option Vol) : LvmProg Unit := do
  match ← Prog.attempt host.faults step (fun w => (does w).map fun w => ((), w))
      fun w => if host.applied step then (does w).getD w else w with
  | some () => return ()
  | none => Prog.refuse (error (host.why step))

/-- A look that must succeed. -/
def see {α : Type} (step : LvmStep) (error : String → Error) (see : Vol → α) : LvmProg α := do
  match ← Prog.attempt host.faults step (fun w => some (see w, w)) id with
  | some answer => return answer
  | none => Prog.refuse (error (host.why step))

end LvmHost

def Vol.change (f : Lv → Option Lv) (w : Vol) : Option Vol :=
  w.lv.bind fun lv => (f lv).map fun lv => { w with lv := some lv }

/-- `lvcreate`, which refuses a name that is taken. -/
def lvcreate (tags : List String) (w : Vol) : Option Vol :=
  match w.lv with
  | none => some { w with lv := some ⟨tags, none, false⟩ }
  | some _ => none

/-- `lvremove`, which refuses a volume that is mounted. -/
def lvremove (w : Vol) : Option Vol :=
  match w.lv with
  | some lv => if lv.mounted then none else some { w with lv := none }
  | none => none

/-- `mkfs.ext4`. -/
def mkfs : Vol → Option Vol := Vol.change fun lv => some { lv with fs := some ⟨none⟩ }

def mount (w : Vol) : Option Vol :=
  if w.mountDir.isNone then none
  else w.change fun lv => if lv.fs.isSome && !lv.mounted then some { lv with mounted := true } else none

def umount : Vol → Option Vol :=
  Vol.change fun lv => if lv.mounted then some { lv with mounted := false } else none

/-- `ensure_dir`: an existing directory is kept. -/
def ensureDir (w : Vol) : Option Vol := some { w with mountDir := some (w.mountDir.getD []) }

def Vol.isMounted (w : Vol) : Bool := w.lv.any (·.mounted)

/-- `remove_dir` on the mount point; one that is gone is as good. -/
def dropMountDir (w : Vol) : Option Vol :=
  match w.mountDir with
  | none => some w
  | some content =>
      if content.isEmpty && !w.isMounted then some { w with mountDir := none } else none

/-- The data entry that is seen below the mount point. -/
def Vol.data (w : Vol) : Option Data := (w.lv.bind (·.fs)).bind (·.data)

def makeLvData : Vol → Option Vol :=
  Vol.change fun lv => lv.fs.bind fun fs =>
    if fs.data.isSome then none else some { lv with fs := some ⟨some (.folder [])⟩ }

def poolUnavailable (why : String) : Error := ⟨.poolUnavailable, why⟩

/-- The logical volume of a name, where `lvs` can tell. -/
def listVolume (host : LvmHost) : LvmProg (Option Lv) :=
  host.see .listVolume (fun why => ⟨.poolUndetermined, s!"lvm answered: {why}"⟩) Vol.lv

def isMounted (host : LvmHost) (mp : String) : LvmProg Bool :=
  host.see .lookMount
    (fun why => ⟨.poolUndetermined, s!"cannot tell whether {mp} is mounted: {why}"⟩) Vol.isMounted

/-- `prepare_data_dir`: the data directory of the mounted volume, handed to its user. -/
def prepareDataDir (host : LvmHost) (mp : String) : LvmProg String := do
  let data := mp ++ "/_data"
  match ← host.see .lookData (fun why => poolUnavailable s!"cannot examine {data}: {why}") Vol.data with
  | some .other =>
      Prog.refuse ⟨.poolConflict,
        s!"{data} is not a plain directory — it is never followed or reused"⟩
  | some (.folder _) => return data
  | none => do
      host.must .makeData (fun why => poolUnavailable s!"cannot create {data}: {why}") makeLvData
      host.must .handData
        (fun why => poolUnavailable s!"cannot hand to the volume's user {data}: {why}") some
      return data

/-- `mount_volume`: the filesystem on a fresh device, mounted, with its data directory. -/
def mountVolume (host : LvmHost) (dev mp : String) (fresh : Bool) : LvmProg String := do
  (if fresh then
    host.must .makeFs
      (fun why => poolUnavailable s!"`mkfs.ext4 -q -m 0 -L dlx {dev}` failed: {why}") mkfs
  else pure ())
  host.must .makeMountDir (fun why => poolUnavailable s!"cannot create {mp}: {why}") ensureDir
  let mounted ← isMounted host mp
  (if mounted then pure ()
  else host.must .mount (fun why =>
    poolUnavailable s!"`mount -t ext4 -o nodev,nosuid -- {dev} {mp}` failed: {why}") mount)
  prepareDataDir host mp

/-- A new volume is refused above this share of the thin pool. -/
def refuseAbovePct : UInt8 := 95

/-- What of the thin pool is too full for a new volume. -/
def tooFull (host : LvmHost) : Option (String × UInt8) :=
  [("data", host.dataPct), ("metadata", host.metadataPct)].findSome? fun (what, pct) =>
    (pct.filter (refuseAbovePct ≤ ·)).map fun p => (what, p)

/-- `Self::vg_tp`. -/
def vgTp (pool : PoolRef) : Except Error (String × String) :=
  match pool.entry.vg, pool.entry.thinPool with
  | some vg, some tp => .ok (vg, tp)
  | _, _ => .error ⟨.invalidAllowlist,
      s!"pool '{pool.name}': driver 'lvm-thin' needs `vg` and `thinPool`"⟩

def ofExcept {α : Type} (result : Except Error α) : LvmProg α :=
  match result with
  | .ok a => pure a
  | .error e => Prog.refuse e

def mountpoint (mountRoot pool volume : String) : String :=
  mountRoot ++ "/" ++ pool ++ "/" ++ volume

/-- `LvmThinDriver::allocate`. -/
def allocateLvm (host : LvmHost) (mountRoot : String) (pool : PoolRef) (req : VolumeRequest)
    (owner : Owner) : LvmProg Allocation := do
  if req.shape = .block then
    Prog.refuse ⟨.poolUnavailable, s!"storage pool '{pool.name}': driver 'lvm-thin' does not hand "
      ++ "out block volumes in this version (VM disks in pools are ADR-0067 P5)"⟩
  else do
    ofExcept (validLvVolume req.name)
    let (vg, tp) ← ofExcept (vgTp pool)
    let tags ← ofExcept (stampTags pool.name req.name owner)
    let lv := "dlx-" ++ req.name
    let dev := s!"/dev/{vg}/{lv}"
    let mp := mountpoint mountRoot pool.name req.name
    match ← listVolume host with
    | some row =>
        if !stampedFor row.tags pool.name req.name owner then
          Prog.refuse ⟨.poolConflict, s!"{vg}/{lv} exists and carries no stamp of this engine for "
            ++ "this state root — it is never adopted by its name; pick another volume name"⟩
        else do
          -- One that died before its filesystem was made gets it now.
          let signed ← host.see .probeFs
            (fun why => ⟨.deviceInUse, s!"{dev} could not be probed for a signature: {why}"⟩)
            fun w => w.lv.any (·.fs.isSome)
          let path ← mountVolume host dev mp (!signed)
          return ⟨pool.name, req.name, .filesystem, path, true⟩
    | none => do
        let full ← host.see .listPool (fun why => ⟨.poolUndetermined, s!"lvm answered: {why}"⟩)
          fun _ => tooFull host
        match full with
        | some (what, p) =>
            Prog.refuse ⟨.poolExhausted, s!"storage pool '{pool.name}': the thin pool's {what} is "
              ++ s!"{p}% full — no new volume is made above {refuseAbovePct}% (a full thin pool "
              ++ "puts every volume in it into I/O errors)"⟩
        | none => do
            -- In whole MiB, rounded up, it never gives less than was asked.
            let size := s!"{max ((req.sizeBytes.toNat + (2 ^ 20 - 1)) / 2 ^ 20) 1}m"
            let cmd := ["lvcreate", "--yes", "--type", "thin", "--thinpool", tp, "--virtualsize",
              size, "--name", lv] ++ tags.flatMap (["--addtag", ·]) ++ [vg]
            host.must .makeVolume (fun why => poolUnavailable
              ("`" ++ " ".intercalate cmd ++ "` failed: " ++ why)) (lvcreate tags)
            let path ← (mountVolume host dev mp true).onRefusal fun e => do
              let _ ← Prog.attempt host.faults .takeBack
                (fun w => (lvremove w).map fun w => ((), w))
                fun w => if host.applied .takeBack then (lvremove w).getD w else w
              Prog.refuse e
            return ⟨pool.name, req.name, .filesystem, path, false⟩

/-- `LvmThinDriver::release`. -/
def releaseLvm (host : LvmHost) (mountRoot : String) (pool : PoolRef) (volume : String)
    (owner : Owner) : LvmProg Unit := do
  ofExcept (validLvVolume volume)
  let (vg, _) ← ofExcept (vgTp pool)
  let lv := "dlx-" ++ volume
  let mp := mountpoint mountRoot pool.name volume
  match ← listVolume host with
  | none => do
      let _ ← Prog.attempt host.faults .dropMountDir (fun w => (dropMountDir w).map fun w => ((), w))
        fun w => if host.applied .dropMountDir then (dropMountDir w).getD w else w
      return ()
  | some row =>
      if !stampedFor row.tags pool.name volume owner then
        Prog.refuse ⟨.poolConflict, s!"{vg}/{lv} does not carry this engine's stamp for volume "
          ++ s!"'{volume}' — it is not released; nothing was deleted"⟩
      else do
        let mounted ← isMounted host mp
        (if mounted then
          host.must .unmount (fun why => poolUnavailable s!"`umount -- {mp}` failed: {why}") umount
        else pure ())
        host.must .removeVolume
          (fun why => poolUnavailable s!"`lvremove --yes {vg}/{lv}` failed: {why}") lvremove
        host.must .dropMountDir (fun why => poolUnavailable s!"{mp} is left behind: {why}")
          dropMountDir

end Delonix.Storage
