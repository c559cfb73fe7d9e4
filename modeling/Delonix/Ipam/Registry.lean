import Delonix.Library.Collections
import Delonix.Net.Cidr
import Std.Data.ExtTreeMap

/-! The lease registry: one `id → ip` map per network, stored under the network's key.
Every operation takes the registry lock, which first moves the leases of stray files to
their canonical file, so an operation is one atomic step of the registry on disk.
-/

namespace Delonix.Ipam

open Delonix.Net
open Delonix.Library.Collections
open Delonix.Library.Text

inductive Error where
  | ipInUse (message : String)
  | ipNotInSubnet (message : String)
  | command (context message : String)
  deriving DecidableEq, Repr

/-- The leases of one network, by container id. -/
abbrev Leases := Std.ExtTreeMap String String

/-- The `ipam` directory: registry files by file stem, and the reaper's side file. -/
structure Registry where
  files : Std.ExtTreeMap String Leases
  reapCandidates : Std.ExtTreeMap String Nat

def Registry.empty : Registry :=
  { files := ∅, reapCandidates := ∅ }

/-- The registry key of a network: `10.x` for a `10.x` `/16`, the CIDR for any other prefix,
and the text itself when it is not a prefix.
-/
def registryKey (network : String) : String :=
  match Cidr.parse network with
  | some c =>
      if c.len = 16 ∧ c.base >>> 24 = 10 then
        String.ofList (dotted ((toBeBytes c.base).take 2))
      else
        c.toStringCidr
  | none => network

def sanitizeChar (c : Char) : Char := if c.isDigit || c == '.' then c else '_'

def sanitizeKey (key : String) : String := String.ofList (key.toList.map sanitizeChar)

/-- The key a file stem stands for: `_` is the `/` of a CIDR. -/
def keyOfStem (stem : String) : String :=
  registryKey (String.ofList (stem.toList.map (fun c => if c = '_' then '/' else c)))

def load (registry : Registry) (key : String) : Option Leases :=
  registry.files[sanitizeKey key]?

def store (registry : Registry) (key : String) (map : Leases) : Registry :=
  { registry with files := registry.files.insert (sanitizeKey key) map }

/-- Moves the leases of one file written under a key that is not canonical. Its entries win
over the canonical file's.
-/
def migrateFile (registry : Registry) (stem : String) : Registry :=
  let key := keyOfStem stem
  if sanitizeKey key = stem then
    registry
  else
    match registry.files[stem]? with
    | none => registry
    | some stray =>
        let canon := (load registry key).getD ∅
        let canon := stray.toList.foldl (fun map (id, ip) => map.insert id ip) canon
        let stored := store registry key canon
        { stored with files := stored.files.erase stem }

def migrateStrayFiles (registry : Registry) : Registry :=
  registry.files.keys.foldl migrateFile registry

/-- The keys of every registry file, sorted and without repetitions. -/
def registryKeys (registry : Registry) : List String :=
  sortedSet (registry.files.keys.map keyOfStem)

/-- The loop of the linear probe: the first free candidate among the next `remaining` ones,
wrapping inside the prefix.
-/
def probeLoop (key : String) (net : Cidr) (inicio : UInt32) (used : List String)
    : Nat → UInt32 → Option String
  | 0, _ => none
  | remaining + 1, k =>
      let desloc := (inicio - net.base + k) % net.size
      let cand := Cidr.fmtU32 (net.base + desloc)
      if validIpInSubnet key cand && !inVmDhcpPool key cand && !used.contains cand then
        some cand
      else
        probeLoop key net inicio used remaining (k + 1)

/-- Linear probe over the hosts of the prefix, from the preferred address on. -/
def probeFree (key preferred : String) (used : List String) : Option String :=
  (Cidr.parse key).bind (fun net =>
    let inicio := (Cidr.parseAddr preferred).getD net.base
    probeLoop key net inicio used net.size.toNat 0)

/-- The address a new id gets: the preferred one when it is free, else a probed one. -/
def pickIp (key id : String) (map : Leases) : Option String :=
  let used := map.toList.map Prod.snd
  let preferred := deriveIpIn key id
  if validIpInSubnet key preferred && !inVmDhcpPool key preferred
      && !used.contains preferred then
    some preferred
  else
    probeFree key preferred used

/-- The lease of an id, created when it has none. -/
def allocate (registry : Registry) (network id : String) : Registry × Except Error String :=
  let registry := migrateStrayFiles registry
  let key := registryKey network
  let map := (load registry key).getD ∅
  match map[id]? with
  | some ip => (registry, .ok ip)
  | none =>
      match pickIp key id map with
      | none =>
          (registry, .error (.command "ipam"
            ("no free IP in the " ++ key ++ " /16 (registry full)")))
      | some ip => (store registry key (map.insert id ip), .ok ip)

/-- Registers a pinned lease. `remedy` is what a refused caller can do about it. -/
def reserveIn (registry : Registry) (key id ip remedy : String)
    : Registry × Except Error Unit :=
  if !validIpInSubnet key ip then
    (registry, .error (.ipNotInSubnet ("IP " ++ ip ++ " is not a usable address of " ++ key)))
  else
    let registry := migrateStrayFiles registry
    let map := (load registry key).getD ∅
    if map[id]? = some ip then
      (registry, .ok ())
    else
      match map.toList.find? (fun (otherId, v) => v == ip && otherId != id) with
      | some (other, _) =>
          (registry, .error (.ipInUse ("IP " ++ ip ++ " is already leased to '" ++ other
            ++ "' — two owners of one address would collide on the wire; " ++ remedy)))
      | none => (store registry key (map.insert id ip), .ok ())

def reserve (registry : Registry) (network id ip : String) : Registry × Except Error Unit :=
  let key := registryKey network
  if inVmDhcpPool key ip then
    (registry, .error (.ipInUse ("IP " ++ ip ++ " is in the VM DHCP pool of " ++ network
      ++ " (.254.10–.254.249) — the network's DHCP server hands it to a VM; pick an address "
      ++ "outside it")))
  else
    reserveIn registry key id ip "pick another address"

/-- The lease of a VM's DHCP address: the pool's half of `reserve`. -/
def reserveVmDhcp (registry : Registry) (network id ip : String)
    : Registry × Except Error Unit :=
  let key := registryKey network
  if !inVmDhcpPool key ip then
    (registry, .error (.ipNotInSubnet ("IP " ++ ip ++ " is not in the VM DHCP pool of "
      ++ network)))
  else
    reserveIn registry key id ip
      ("a VM's DHCP address comes from its MAC, which comes from its NAME — create it "
        ++ "under another name")

/-- Frees the lease of one id under one key, rewriting the file only when it held it. -/
def releaseKey (registry : Registry) (key id : String) : Registry :=
  match load registry key with
  | none => registry
  | some map => if id ∈ map then store registry key (map.erase id) else registry

def release (registry : Registry) (network id : String) : Registry :=
  releaseKey (migrateStrayFiles registry) (registryKey network) id

def releaseEverywhere (registry : Registry) (id : String) : Registry :=
  let registry := migrateStrayFiles registry
  (registryKeys registry).foldl (fun registry key => releaseKey registry key id) registry

/-- `REF_MARKER_GRACE`, in seconds. -/
def refMarkerGrace : Nat := 15

def candidateKey (key id : String) : String := key ++ "/" ++ id

/-- What one pass over a file accumulates. -/
structure ReapPass where
  map : Leases
  changed : Bool
  freed : Nat
  stillCandidate : Std.ExtTreeMap String Nat

/-- One lease of a pass: a live one is skipped, a first sighting starts the clock, and a
candidate is removed once its clock has run for the grace window.
-/
def reapLease (candidates : Std.ExtTreeMap String Nat) (live : List String) (nowSecs : Nat)
    (key : String) (pass : ReapPass) (id : String) : ReapPass :=
  if id ∈ live then
    pass
  else
    match candidates[candidateKey key id]? with
    | none =>
        { pass with
          stillCandidate := pass.stillCandidate.insert (candidateKey key id) nowSecs }
    | some firstSeen =>
        if refMarkerGrace ≤ nowSecs - firstSeen then
          { pass with map := pass.map.erase id, changed := true, freed := pass.freed + 1 }
        else
          { pass with
            stillCandidate := pass.stillCandidate.insert (candidateKey key id) firstSeen }

/-- What the loop over the files carries. -/
structure ReapState where
  registry : Registry
  freed : Nat
  stillCandidate : Std.ExtTreeMap String Nat

def reapFile (candidates : Std.ExtTreeMap String Nat) (live : List String) (nowSecs : Nat)
    (state : ReapState) (key : String) : ReapState :=
  match load state.registry key with
  | none => state
  | some map =>
      let pass := map.keys.foldl (reapLease candidates live nowSecs key)
        { map := map, changed := false, freed := state.freed,
          stillCandidate := state.stillCandidate }
      { registry := if pass.changed then store state.registry key pass.map else state.registry
        freed := pass.freed
        stillCandidate := pass.stillCandidate }

/-- Reclaims the leases that stayed orphaned for the grace window, and rewrites the
candidates.
-/
def reapOrphanLeases (registry : Registry) (live : List String) (nowSecs : Nat)
    : Registry × Nat :=
  let registry := migrateStrayFiles registry
  let candidates := registry.reapCandidates
  let final := (registryKeys registry).foldl (reapFile candidates live nowSecs)
    { registry := registry, freed := 0, stillCandidate := ∅ }
  ({ final.registry with reapCandidates := final.stillCandidate }, final.freed)

/-- The writers of the registry. A reap names the ids that are alive and the clock in whole
seconds, which is how the code reads it.
-/
inductive Operation where
  | allocate (network id : String)
  | reserve (network id ip : String)
  | reserveVmDhcp (network id ip : String)
  | release (network id : String)
  | releaseEverywhere (id : String)
  | reapOrphanLeases (live : List String) (nowSecs : Nat)

def Operation.perform (registry : Registry) : Operation → Registry
  | .allocate network id => (Ipam.allocate registry network id).1
  | .reserve network id ip => (Ipam.reserve registry network id ip).1
  | .reserveVmDhcp network id ip => (Ipam.reserveVmDhcp registry network id ip).1
  | .release network id => Ipam.release registry network id
  | .releaseEverywhere id => Ipam.releaseEverywhere registry id
  | .reapOrphanLeases live nowSecs => (Ipam.reapOrphanLeases registry live nowSecs).1

end Delonix.Ipam
