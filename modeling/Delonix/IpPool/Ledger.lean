import Delonix.IpPool.Addresses
import Delonix.Library.Faults
import Delonix.Library.KeyedFiles
import Delonix.Library.Runs
import Delonix.Library.Sorting
import Mathlib.Data.String.Basic

/-! The ledger of the address pools: one file a pool with its definition and its leases. Every
call holds the ledger's lock from its first read to its last write; each write may fail, or be
the last the call gets to.
-/

namespace Delonix.IpPool

open Delonix.Library.Faults Delonix.Library.KeyedFiles Delonix.Library.Runs
  Delonix.Library.Sorting Delonix.Net

/-- A map of texts. -/
abbrev TextMap := Keyed (Prod.fst : String × String → String)

def TextMap.empty : TextMap := ⟨[], List.nodup_nil⟩

structure PoolFile where
  name : String
  addresses : List String
  announce : String
  interface : Option String
  labels : TextMap
  annotations : TextMap
  /-- Claimants and their addresses. -/
  leases : TextMap

/-- The files that exist, each under the name of its pool. -/
abbrev Ledger := Keyed PoolFile.name

def noPools : Ledger := ⟨[], List.nodup_nil⟩

/-- The file of a pool is found by listing the directory when its name is a plain file name. -/
def isListed (name : String) : Bool := name ≠ "" && !name.toList.contains '/'

/-- The pools in the directory, by name. -/
def listIn (ledger : Ledger) : List PoolFile :=
  sortByKey PoolFile.name (ledger.all.filter fun p => isListed p.name)

abbrev Call (α : Type) := Prog Ledger PoolError α

/-- The file is replaced whole or stays as it was. -/
def writeIn (faults : FaultPlan String) (p : PoolFile) : Call Unit := do
  match ← Prog.attempt faults p.name (fun ledger => some ((), ledger.save p)) id with
  | some () => pure ()
  | none => Prog.refuse (.invalid "ippool: the file could not be written")

inductive Mode where
  /-- Look, do not write. -/
  | peek
  /-- Refuse if the claimant already holds an address in another pool. -/
  | take
  /-- Give back the address held in another pool. -/
  | move
deriving DecidableEq, Repr

/-- The leases the claimant holds in these pools are given back, pool after pool. -/
def giveBack (faults : FaultPlan String) (claimant : String) : List PoolFile → Call Unit
  | [] => pure ()
  | other :: rest => do
      (if (other.leases.read claimant).isSome then
        writeIn faults { other with leases := other.leases.erase claimant }
      else pure ())
      giveBack faults claimant rest

def look : Call Ledger := fun ledger => (.ok ledger, ledger)

/-- The pools listed beside this one. -/
def othersIn (ledger : Ledger) (pool : String) : List PoolFile :=
  (listIn ledger).filter fun other => other.name ≠ pool

/-- In `move`, what the claimant holds elsewhere is given back. -/
def giveBackElsewhere (faults : FaultPlan String) (pool claimant : String) (mode : Mode)
    : Call Unit := do
  if mode = .move then giveBack faults claimant (othersIn (← look) pool) else pure ()

/-- The first address of the pool that nobody leases. -/
def firstFree (p : PoolFile) (exclude : List UInt32) : Except PoolError UInt32 := do
  match (← expand p.addresses).find? fun a =>
      !(p.leases.all.map (·.2)).contains (Cidr.fmtU32 a) && !exclude.contains a with
  | some free => return free
  | none =>
      .error (.conflict ("IPPool '" ++ p.name ++ "' is exhausted: "
        ++ toString p.addresses.length
        ++ " address(es), all leased (see `delonix get ippools`)"))

/-- The address the claimant leases in the pool. -/
def held (p : PoolFile) (claimant : String) : Option UInt32 :=
  (p.leases.read claimant).bind fun lease => parseIpv4 lease.2.toList

/-- In `take`, a lease in another pool. -/
def heldElsewhere (ledger : Ledger) (pool claimant : String) (mode : Mode)
    : Option (PoolFile × String) :=
  if mode = .take then
    (othersIn ledger pool).findSome? fun other =>
      (other.leases.read claimant).map fun lease => (other, lease.2)
  else none

def takeFree (faults : FaultPlan String) (p : PoolFile) (pool claimant : String) (mode : Mode)
    (free : UInt32) : Call UInt32 := do
  (if mode = .peek then pure ()
  else writeIn faults { p with leases := p.leases.save (claimant, Cidr.fmtU32 free) })
  -- the new lease is written before the old one is given back
  giveBackElsewhere faults pool claimant mode
  pure free

def claimInExcluding (faults : FaultPlan String) (pool claimant : String) (mode : Mode)
    (exclude : List UInt32) : Call UInt32 := do
  let ledger ← look
  match ledger.read pool with
  | none =>
      Prog.refuse (.notFound ("IPPool '" ++ pool ++ "' (declare a `kind: IPPool` named '" ++ pool
        ++ "')"))
  | some p =>
      match heldElsewhere ledger pool claimant mode with
      | some (other, ip) =>
          Prog.refuse (.conflict (claimant ++ " already holds " ++ ip ++ " from IPPool '"
            ++ other.name ++ "' — release it before claiming from '" ++ pool ++ "'"))
      | none =>
          match held p claimant with
          | some a => do
              giveBackElsewhere faults pool claimant mode
              pure a
          | none =>
              match firstFree p exclude with
              | .error why => Prog.refuse why
              | .ok free => takeFree faults p pool claimant mode free

def claimIn (faults : FaultPlan String) (pool claimant : String) (mode : Mode) : Call UInt32 :=
  claimInExcluding faults pool claimant mode []

def staleLeases (start : String) (keep : List String) (p : PoolFile) : List String :=
  (p.leases.all.map (·.1)).filter fun c => start.toList.isPrefixOf c.toList && !keep.contains c

def releasePools (faults : FaultPlan String) (start : String) (keep : List String)
    : List PoolFile → Call Unit
  | [] => pure ()
  | p :: rest => do
      (if (staleLeases start keep p).isEmpty then pure ()
      else
        writeIn faults
          { p with leases := (staleLeases start keep p).foldl (fun m c => m.erase c) p.leases })
      releasePools faults start keep rest

/-- Gives back every lease whose claimant starts so and is not to be kept. -/
def releaseUnlistedIn (faults : FaultPlan String) (start : String) (keep : List String)
    : Call Unit := do
  releasePools faults start keep (listIn (← look))

def stackLabel : String := "delonix.io/stack"

def managedBy : String := "delonix.io/managed-by"

def lastApplied : String := "delonix.io/last-applied"

def stamp (faults : FaultPlan String) (name stack fields : String) : Call Unit := do
  match (← look).read name with
  | none => Prog.refuse (.notFound ("ippool: " ++ name))
  | some p =>
      writeIn faults
        { p with
          labels := (p.labels.save (stackLabel, stack)).save (managedBy, "delonix")
          annotations := p.annotations.save (lastApplied, fields) }

/-- The leases in the order of their claimants. -/
def sortedLeases (p : PoolFile) : List (String × String) := sortByKey (·.1) p.leases.all

def removeForReplace (faults : FaultPlan String) (name : String) : Call Unit := do
  match (← look).read name with
  | none => pure ()
  | some p =>
      if p.leases.all.isEmpty then do
        let _ ← Prog.attempt faults name (fun ledger => some ((), ledger.erase name)) id
        pure ()
      else
        Prog.refuse (.conflict ("IPPool '" ++ name ++ "' still has leases ("
          ++ String.intercalate ", " ((sortedLeases p).map fun lease => lease.1 ++ "=" ++ lease.2)
          ++ ") — remove the routes that claim it first"))

structure IpPoolSpec where
  addresses : List String
  announce : Option String
  interface : Option String

def validate (spec : IpPoolSpec) : Except PoolError Unit := do
  let _ ← expand spec.addresses
  match spec.announce.getD "local" with
  | "local" =>
      if spec.interface.isSome then
        .error (.invalid "IPPool: `interface` only applies to `announce: l2`")
      else .ok ()
  | "l2" =>
      .error (.invalid ("IPPool: `announce: l2` is not built yet (ADR-0046 phase 4) — use "
        ++ "`local` and put the address on the host yourself"))
  | other =>
      .error (.invalid ("IPPool: announce '" ++ other ++ "' is not valid (local | l2)"))

def emptyPool (name : String) : PoolFile :=
  { name, addresses := [], announce := "", interface := none, labels := .empty
    annotations := .empty, leases := .empty }

/-- A lease on an address that the pool no longer has. -/
def leaseOutside (addresses : List UInt32) (p : PoolFile) : Option (String × String) :=
  (sortedLeases p).find? fun lease =>
    match parseIpv4 lease.2.toList with
    | some a => !addresses.contains a
    | none => true

def applyOne (faults : FaultPlan String) (name : String) (spec : IpPoolSpec) : Call Unit := do
  match validate spec with
  | .error why => Prog.refuse why
  | .ok () =>
      let p := ((← look).read name).getD (emptyPool name)
      match expand spec.addresses with
      | .error why => Prog.refuse why
      | .ok new =>
          match leaseOutside new p with
          | some (claimant, ip) =>
              Prog.refuse (.conflict ("IPPool '" ++ name ++ "': " ++ claimant ++ " holds " ++ ip
                ++ ", which the new `addresses` no longer contain"))
          | none =>
              writeIn faults
                { p with
                  name
                  addresses := spec.addresses
                  announce := spec.announce.getD "local"
                  interface := spec.interface }

inductive Op where
  | apply (name : String) (spec : IpPoolSpec)
  | claim (pool claimant : String) (mode : Mode)
  | release (start : String) (keep : List String)
  | stamp (name stack fields : String)
  | remove (name : String)

/-- One call, and which of its writes go wrong. -/
structure Action where
  op : Op
  faults : FaultPlan String

def Action.run (action : Action) (ledger : Ledger) : Ledger :=
  match action.op with
  | .apply name spec => (applyOne action.faults name spec ledger).2
  | .claim pool claimant mode => (claimIn action.faults pool claimant mode ledger).2
  | .release start keep => (releaseUnlistedIn action.faults start keep ledger).2
  | .stamp name stack fields => (stamp action.faults name stack fields ledger).2
  | .remove name => (removeForReplace action.faults name ledger).2

def perform (ledger : Ledger) (action : Action) : Ledger := action.run ledger

/-- Each pool of the list is written anew where there is something to change. -/
def rewrite (faults : FaultPlan String) (change : PoolFile → Option PoolFile)
    : List PoolFile → Call Unit
  | [] => pure ()
  | p :: rest => do
      (match change p with
      | some p' => writeIn faults p'
      | none => pure ())
      rewrite faults change rest

def withoutLease (claimant : String) (p : PoolFile) : Option PoolFile :=
  if (p.leases.read claimant).isSome then
    some { p with leases := p.leases.erase claimant }
  else none

theorem giveBack_eq (faults : FaultPlan String) (claimant : String) (pools : List PoolFile)
    : giveBack faults claimant pools = rewrite faults (withoutLease claimant) pools := by
  induction pools with
  | nil => rfl
  | cons p rest ih =>
      rw [giveBack, rewrite, ih]
      by_cases holds : (p.leases.read claimant).isSome = true <;> simp [withoutLease, holds]

def withoutStale (start : String) (keep : List String) (p : PoolFile) : Option PoolFile :=
  if (staleLeases start keep p).isEmpty then none
  else some { p with leases := (staleLeases start keep p).foldl (fun m c => m.erase c) p.leases }

theorem releasePools_eq (faults : FaultPlan String) (start : String) (keep : List String)
    (pools : List PoolFile)
    : releasePools faults start keep pools = rewrite faults (withoutStale start keep) pools := by
  induction pools with
  | nil => rfl
  | cons p rest ih =>
      rw [releasePools, rewrite, ih]
      by_cases none : (staleLeases start keep p).isEmpty = true <;> simp [withoutStale, none]

theorem leaves_writeIn {faults : FaultPlan String} {p : PoolFile} {pre : Ledger → Prop}
    {post : Ledger → Prop} {cut : Ledger → Prop}
    (done : faults p.name = none → ∀ w, pre w → post (w.save p))
    (stopped : faults p.name ≠ none → ∀ w, pre w → cut w)
    : Leaves pre (writeIn faults p) (fun _ => post) cut := by
  refine Leaves.bind (fun written w => if written.isSome then post w else cut w) ?_ ?_
  · refine Leaves.attempt ?_ ?_ ?_ ?_
    · rintro w ⟨⟩ w' before quiet made
      cases made
      exact done quiet w before
    · intro w _ _ made
      cases made
    · intro w before fault
      exact stopped (by simp [fault]) w before
    · intro w before fault
      exact stopped (by simp [fault]) w before
  · intro written
    cases written with
    | none => exact Leaves.refuse fun w stopped => stopped
    | some done => exact Leaves.pure fun w written => written

/-- What each rewriting keeps, all of them keep; and each pool is as its rewriting left it. -/
theorem leaves_rewrite {faults : FaultPlan String} {change : PoolFile → Option PoolFile}
    (names : ∀ p p', change p = some p' → p'.name = p.name) {cut : Ledger → Prop}
    {pools : List PoolFile} (distinct : (pools.map (·.name)).Nodup) (inv : Ledger → Prop)
    (keeps : ∀ w, ∀ p ∈ pools, ∀ p', inv w → p ∈ w.all → change p = some p' → inv (w.save p'))
    (stopped : ∀ p ∈ pools, ∀ p', change p = some p' → faults p.name ≠ none → ∀ w, inv w → cut w)
    : Leaves (fun w => inv w ∧ ∀ p ∈ pools, p ∈ w.all) (rewrite faults change pools)
      (fun _ w => inv w ∧ ∀ p ∈ pools, (change p).getD p ∈ w.all) cut := by
  induction pools generalizing inv with
  | nil => exact Leaves.pure fun w holds => ⟨holds.1, by simp⟩
  | cons p rest ih =>
      obtain ⟨fresh, others⟩ := List.nodup_cons.mp distinct
      have apart : ∀ other ∈ rest, other.name ≠ p.name := by
        intro other mem same
        have mem : other.name ∈ rest.map (·.name) := List.mem_map_of_mem mem
        rw [same] at mem
        exact fresh mem
      -- the first pool's rewriting stays in place while the others are rewritten
      have tail := ih others (fun w => inv w ∧ (change p).getD p ∈ w.all) (by
        rintro w other mem other' ⟨holds, mine⟩ there changed
        refine ⟨keeps w other (by simp [mem]) other' holds there changed, ?_⟩
        refine Keyed.mem_save.mpr (.inr ⟨mine, ?_⟩)
        rw [names other other' changed]
        cases first : change p with
        | none => exact fun same => apart other mem same.symm
        | some p' =>
            rw [Option.getD_some, names p p' first]
            exact fun same => apart other mem same.symm) (by
        intro other mem other' changed fault w holds
        exact stopped other (by simp [mem]) other' changed fault w holds.1)
      refine Leaves.bind (fun _ w => (inv w ∧ (change p).getD p ∈ w.all) ∧ ∀ q ∈ rest, q ∈ w.all)
        ?_ fun _ => tail.weaken (fun _ holds => holds) ?_ fun _ holds => holds
      · cases first : change p with
        | none =>
            refine Leaves.pure fun w holds => ⟨⟨holds.1, holds.2 p (by simp)⟩, ?_⟩
            exact fun q mem => holds.2 q (by simp [mem])
        | some p' =>
            refine leaves_writeIn (fun _ w holds => ⟨⟨?_, ?_⟩, ?_⟩) ?_
            · exact keeps w p (by simp) p' holds.1 (holds.2 p (by simp)) first
            · exact Keyed.mem_save.mpr (.inl rfl)
            · intro q mem
              refine Keyed.mem_save.mpr (.inr ⟨holds.2 q (by simp [mem]), ?_⟩)
              rw [names p p' first]
              exact apart q mem
            · rw [names p p' first]
              intro fault w holds
              exact stopped p (by simp) p' first fault w holds.1
      · rintro _ w ⟨⟨holds, mine⟩, done⟩
        exact ⟨holds, List.forall_mem_cons.mpr ⟨mine, done⟩⟩

theorem withoutLease_name {claimant : String} (p p' : PoolFile)
    (changed : withoutLease claimant p = some p')
    : p'.name = p.name := by
  rw [withoutLease] at changed
  split at changed <;> cases changed
  rfl

theorem withoutStale_name {start : String} {keep : List String} (p p' : PoolFile)
    (changed : withoutStale start keep p = some p')
    : p'.name = p.name := by
  rw [withoutStale] at changed
  split at changed <;> cases changed
  rfl

theorem mem_listIn {ledger : Ledger} {p : PoolFile}
    : p ∈ listIn ledger ↔ p ∈ ledger.all ∧ isListed p.name = true := by
  rw [listIn, (perm_sortByKey _).mem_iff, List.mem_filter]

theorem nodup_listIn (ledger : Ledger) : ((listIn ledger).map (·.name)).Nodup := by
  rw [listIn, ((perm_sortByKey _).map _).nodup_iff]
  exact ledger.unique.sublist (List.filter_sublist.map _)

theorem mem_othersIn {ledger : Ledger} {pool : String} {p : PoolFile}
    : p ∈ othersIn ledger pool ↔ p ∈ ledger.all ∧ isListed p.name = true ∧ p.name ≠ pool := by
  rw [othersIn, List.mem_filter, mem_listIn, decide_eq_true_eq, and_assoc]

theorem nodup_othersIn (ledger : Ledger) (pool : String)
    : ((othersIn ledger pool).map (·.name)).Nodup :=
  (nodup_listIn ledger).sublist (List.filter_sublist.map _)

end Delonix.IpPool
