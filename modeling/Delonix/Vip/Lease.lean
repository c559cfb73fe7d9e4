import Delonix.IpPool.Addresses
import Delonix.Ipam.Operations
import Delonix.Library.DebugText

/-! The lease of a Service's virtual address. Its pools come from a list that the operator wrote; a
move to a requested address releases the old one first and then reserves the new one.
-/

namespace Delonix.Vip

open Delonix.Ipam (Registry leaseOf registryKey IsKey)
open Delonix.IpPool (parseIpv4)
open Delonix.Library.DebugText Delonix.Library.Text
open Delonix.Net

variable (unprintable : Char → Bool)

/-- `{:?}` of a text. -/
def quoted (text : List Char) : String :=
  String.ofList (debugString unprintable (String.ofList text))

/-- RFC 1918 and `100.64.0.0/10`. -/
def privateSpace : List Cidr :=
  ["10.0.0.0/8", "172.16.0.0/12", "192.168.0.0/16", "100.64.0.0/10"].filterMap Cidr.parse

/-- A private prefix between `/16` and `/29`, written with its host bits clear. -/
def validatePool (s : List Char) : Except String Cidr :=
  let s := trim s
  match splitOnce '/' s with
  | none => .error ("VIP pool " ++ quoted unprintable s
      ++ " has no prefix length (write a.b.c.d/len)")
  | some (addr, len) =>
    match parseIpv4 addr with
    | none => .error ("VIP pool " ++ quoted unprintable s ++ " is not an IPv4 prefix")
    | some ip =>
      if len.isEmpty || !len.all Char.isDigit then
        .error ("VIP pool " ++ quoted unprintable s ++ " has an invalid prefix length")
      else
        match Cidr.parse (String.ofList s) with
        | none => .error ("VIP pool " ++ quoted unprintable s ++ " is not an IPv4 prefix")
        | some cidr =>
          if cidr.base ≠ ip then
            .error ("VIP pool " ++ quoted unprintable s ++ " has host bits set; the prefix is "
              ++ cidr.toStringCidr)
          else if cidr.len < 16 || 29 < cidr.len then
            .error ("VIP pool " ++ quoted unprintable s ++ " is /" ++ toString cidr.len
              ++ "; a pool must be between /16 and /29")
          else if !privateSpace.any fun p => p.len ≤ cidr.len && p.contains cidr.base then
            .error ("VIP pool " ++ quoted unprintable s
              ++ " is not private address space (RFC 1918 or 100.64.0.0/10); a public range "
              ++ "would shadow real Internet addresses for every container")
          else .ok cidr

/-- One more pool, which may overlap none before it. -/
def addPool (out : List Cidr) (item : List Char) : Except String (List Cidr) := do
  let c ← validatePool unprintable item
  match out.find? fun p => p.overlaps c with
  | some prev => .error ("VIP pools " ++ prev.toStringCidr ++ " and " ++ c.toStringCidr ++ " overlap")
  | none => .ok (out ++ [c])

def parsePoolList (s : List Char) : Except String (List Cidr) :=
  (((s.splitOnP fun c => c = ',' || c = '\n').map trim).filter fun item => !item.isEmpty).foldlM
    (addPool unprintable) []

def poolListText (pools : List Cidr) : String := ", ".intercalate (pools.map Cidr.toStringCidr)

inductive Error where
  | vipOutsidePool (message : String)
  | vipPoolUnconfigured (message : String)
  | ipam (error : Ipam.Error)
  deriving DecidableEq

/-- The IPAM id of a Service's address. -/
def leaseId (namespace_ name : String) : String := "svc:" ++ namespace_ ++ "/" ++ name

/-- Without the lock, so the file of the network as it is spelled is read too. -/
def lookup (registry : Registry) (network id : String) : Option String :=
  let key := registryKey network
  match leaseOf registry key id with
  | some ip => some ip
  | none =>
    let raw := Ipam.sanitizeKey network
    if raw ≠ Ipam.sanitizeKey key then registry.files[raw]?.bind fun map => map[id]? else none

/-- The lease that the Service holds, in the first pool that has one. -/
def currentLease (registry : Registry) (id : String) (pools : List Cidr) : Option (Cidr × String) :=
  pools.findSome? fun p => (lookup registry p.toStringCidr id).map fun ip => (p, ip)

/-- The refusal of an address in use says which field asked for it. -/
def requestError : Ipam.Error → Error
  | .ipInUse m => .ipam (.ipInUse ("spec.vip: " ++ m))
  | other => .ipam other

/-- The first pool with a free address gives one; the last refusal is the answer. -/
def allocateFirst (id : String) : Registry → Option Ipam.Error → List Cidr
    → Registry × Except Error String
  | registry, last, [] =>
      match last with
      | some e => (registry, .error (.ipam e))
      | none => (registry, .error (.vipPoolUnconfigured ("no VIP pool is configured on this node; "
          ++ "set one with `delonix network vip-pool set <cidr>`")))
  | registry, _, p :: rest =>
      match Ipam.allocate registry p.toStringCidr id with
      | (registry, .ok ip) => (registry, .ok ip)
      | (registry, .error e) => allocateFirst id registry (some e) rest

/-- Asks for the lease of a requested address. -/
def reserveVip (registry : Registry) (id : String) (pool : Cidr) (want : String)
    : Registry × Except Error String :=
  let (registry, answer) := Ipam.reserve registry pool.toStringCidr id want
  match answer with
  | .ok _ => (registry, .ok want)
  | .error e => (registry, .error (requestError e))

/-- A requested address that is a host of a pool: the old lease goes, and the new one is asked for. -/
def moveTo (registry : Registry) (id : String) (current : Option (Cidr × String)) (pool : Cidr)
    (want : String) : Registry × Except Error String :=
  match current with
  | some (p, ip) =>
      if ip = want then (registry, .ok want)
      else reserveVip (Ipam.release registry p.toStringCidr id) id pool want
  | none => reserveVip registry id pool want

def allocateVip (registry : Registry) (namespace_ name : String) (requested : Option String)
    (pools : List Cidr) : Registry × Except Error String :=
  let id := leaseId namespace_ name
  let current := currentLease registry id pools
  match requested with
  | some want =>
      match parseIpv4 want.toList with
      | none => (registry, .error (.vipOutsidePool ("spec.vip " ++ quoted unprintable want.toList
          ++ " is not an IPv4 address")))
      | some addr =>
          let want := Cidr.fmtU32 addr
          match pools.find? fun p => p.contains addr with
          | none => (registry, .error (.vipOutsidePool ("spec.vip " ++ want
              ++ " is outside the VIP pool (" ++ poolListText pools ++ ")")))
          | some pool =>
              if !validIpInSubnet pool.toStringCidr want then
                (registry, .error (.vipOutsidePool ("spec.vip " ++ want
                  ++ " is the network, first or broadcast address of the pool "
                  ++ pool.toStringCidr)))
              else moveTo registry id current pool want
  | none =>
      match current with
      | some (_, ip) => (registry, .ok ip)
      | none => allocateFirst id registry none pools

end Delonix.Vip
