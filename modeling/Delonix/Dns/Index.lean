import Delonix.Library.Words
import Delonix.Net.Cidr
import Mathlib.Data.List.Infix

/-! The ingress DNS of a node: the index built from the container and VM records, and what it
answers to a client. Names, qualified names and VM names are keys of one map, and whoever is read
first keeps a key.
-/

namespace Delonix.Dns

open Delonix.Library.Text
open Delonix.Library.Words
open Delonix.Net

abbrev Text := List Char

abbrev Ip := UInt32

/-- Four octets between dots. What is no octet is passed over. -/
def parseV4 (s : Text) : Option Ip :=
  let o := (s.splitOn '.').filterMap parseU8
  if o.length = 4 then some (fromBeBytes o) else none

/-- `a.b.c.d/len` as the network and the mask. A bare address is a `/32`. -/
def parseCidr (s : Text) : Option (Ip × Ip) := do
  let s := trim s
  if s = [] ∨ s = ['*'] then return (0, 0)
  let (addr, len) ← match splitOnce '/' s with
    | some (a, l) => (parseUnsigned 10 (2 ^ 32 - 1) l).map fun len => (a, len)
    | none => some (s, 32)
  if 32 < len then none
  let ip ← parseV4 addr
  return (ip &&& Cidr.mask len, Cidr.mask len)

def cidrContains (cidr : Ip × Ip) (ip : Ip) : Bool := ip &&& cidr.2 == cidr.1

/-- What an inbound `allow` opens to names: nothing when it allows everyone. -/
def scopingAllowCidr (src : Text) : Option (Ip × Ip) := (parseCidr src).filter fun c => c.2 != 0

/-- A rule of a container's firewall, as its record has it. -/
structure Rule where
  dir : Option Text
  action : Option Text
  src : Option Text
  deriving DecidableEq, Repr

/-- The fields of a container record that are read. An absent one, or one of another type than
expected, is `none`.
-/
structure ContainerRecord where
  name : Option Text
  ip : Option Text
  ns : Option Text
  status : Option Text
  rules : List Rule
  netAliases : List Text
  pod : Option Text
  deriving DecidableEq, Repr

structure VmRecord where
  name : Option Text
  ip : Option Text
  mac : Option Text
  ns : Option Text
  status : Option Text
  deriving DecidableEq, Repr

/-- The namespace everyone reaches. -/
def nsDefault : Text := "default".toList

/-- Whether a workload in this state still answers to its name. -/
def dnsStateServes (status : Option Text) : Bool :=
  status == some "Running".toList || status == some "Paused".toList
    || status == some "Created".toList

def ContainerRecord.allowIn (v : ContainerRecord) : List (Ip × Ip) :=
  (v.rules.filter fun r =>
      r.dir.getD "in".toList == "in".toList && r.action.getD "allow".toList == "allow".toList)
    |>.filterMap fun r => scopingAllowCidr (r.src.getD [])

/-- One resolvable name, with what decides who may resolve it. -/
structure DnsEntry where
  ip : Ip
  ns : Text
  allowIn : List (Ip × Ip)
  deriving DecidableEq, Repr

structure DnsIndex where
  byKey : Text → Option DnsEntry
  nsOfIp : Ip → Option Text

/-- A map with a value for the key, unless it has one. -/
def orInsert {κ β : Type} [DecidableEq κ] (map : κ → Option β) (key : κ) (value : β)
    : κ → Option β :=
  fun other => if other = key then some ((map key).getD value) else map other

section

-- `str::to_lowercase`.
variable (lower : Text → Text)

def dnsIndexNsKey (name ns : Text) : Text := name ++ '@' :: lower ns

def dnsIndexVmKey (name : Text) : Text := "vm:".toList ++ name

/-- A name under both of its keys. -/
def DnsIndex.named (idx : DnsIndex) (name ns : Text) (entry : DnsEntry) : DnsIndex :=
  { idx with
    byKey := orInsert (orInsert idx.byKey name entry) (dnsIndexNsKey lower name ns) entry }

/-- One container record read. -/
def DnsIndex.container (idx : DnsIndex) (v : ContainerRecord) : DnsIndex :=
  match v.name, v.ip.bind parseV4 with
  | some name, some ip =>
      if dnsStateServes v.status then
        let ns := v.ns.getD nsDefault
        let entry : DnsEntry := ⟨ip, ns, v.allowIn⟩
        let idx := idx.named lower (lower name) ns entry
        let idx := { idx with nsOfIp := orInsert idx.nsOfIp ip ns }
        let idx := v.netAliases.foldl (fun idx a => idx.named lower (lower a) ns entry) idx
        match v.pod with
        | some pod => idx.named lower (lower pod) ns entry
        | none => idx
      else idx
  | _, _ => idx

/-- The lines of `ip -o neigh show` that start with an address, in lower case. -/
def parseNeighTable (raw : Text) : List (Text × Text) :=
  (lines raw).filterMap fun line =>
    match splitWhitespace line with
    | ip :: _ => if '.' ∈ ip then some (lower line, ip) else none
    | [] => none

def neighTableLookup (table : List (Text × Text)) (mac : Text) : Option Text :=
  (table.find? fun line => lower mac <:+: line.1).map Prod.snd

/-- The recorded address of a VM, else the one its MAC has in the neighbour table. -/
def VmRecord.address (v : VmRecord) (neigh : Text) : Option Ip :=
  ((v.ip.filter fun s => s ≠ []).bind parseV4).or
    (v.mac.bind fun mac => (neighTableLookup lower (parseNeighTable lower neigh) mac).bind parseV4)

/-- One VM record read. -/
def DnsIndex.vm (neigh : Text) (idx : DnsIndex) (v : VmRecord) : DnsIndex :=
  match v.name with
  | some name =>
      if dnsStateServes v.status then
        match v.address lower neigh with
        | some ip =>
            let ns := v.ns.getD nsDefault
            { byKey := orInsert idx.byKey (dnsIndexVmKey (lower name)) ⟨ip, ns, []⟩
              nsOfIp := orInsert idx.nsOfIp ip ns }
        | none => idx
      else idx
  | none => idx

/-- The records a node holds, in the order their directories list them, and what the kernel
knows of its neighbours.
-/
structure Node where
  containers : List ContainerRecord
  vms : List VmRecord
  neigh : Text

def buildDnsIndex (node : Node) : DnsIndex :=
  let idx := node.containers.foldl (DnsIndex.container lower) ⟨fun _ => none, fun _ => none⟩
  node.vms.foldl (DnsIndex.vm lower node.neigh) idx

/-- A name asked for: the workload, and the namespace if the name has one. -/
def parseInternalName (name : Text) : Option (Text × Option Text) :=
  let n := lower (name.rdropWhile (· == '.'))
  let service := (stripSuffix ".svc.delonix.internal".toList n).bind fun core =>
    match rsplitOnce '.' core with
    | some (cname, ns) =>
        if cname ≠ [] ∧ '.' ∉ cname ∧ ns ≠ [] then some (cname, some ns) else none
    | none => none
  match service with
  | some found => some found
  | none =>
      match stripSuffix ".delonix.internal".toList n with
      | some core =>
          if core = [] then none
          else
            match rsplitOnce '.' core with
            | some (cname, ns) =>
                if cname ≠ [] ∧ ns ≠ [] then some (cname, some ns) else some (core, none)
            | none => some (core, none)
      | none =>
          let core := (stripSuffix ".delonix.io".toList n).getD n
          if core = [] then none else some (core, none)

def asciiLower (s : Text) : Text := s.map Char.toLower

def eqIgnoreAsciiCase (a b : Text) : Bool := asciiLower a == asciiLower b

/-- Whether a client in this namespace, at this address, may resolve the entry. -/
def dnsScopeAllows (entry : DnsEntry) (clientNs : Text) (clientIp : Ip) : Bool :=
  eqIgnoreAsciiCase entry.ns clientNs || eqIgnoreAsciiCase entry.ns nsDefault
    || entry.allowIn.any fun c => cidrContains c clientIp

/-- The namespace of a client. One that is not in the index is in the default one. -/
def dnsClientNs (idx : DnsIndex) (client : Option Ip) : Text :=
  (client.bind idx.nsOfIp).getD nsDefault

def dnsVisible (idx : DnsIndex) (client : Option Ip) (entry : DnsEntry) : Bool :=
  dnsScopeAllows entry (dnsClientNs idx client) (client.getD 0)

/-- The entry of a name in the short qualified form, if nothing has the whole name. -/
def dnsShortEntry (idx : DnsIndex) (client : Option Ip) (cname : Text) : Option DnsEntry :=
  match splitOnce '.' cname with
  | some (short, ns) =>
      if (idx.byKey cname).isSome then none
      else (idx.byKey (dnsIndexNsKey lower short ns)).filter (dnsVisible idx client)
  | none => none

/-- The entry a query is answered with. -/
def dnsEntryFor (idx : DnsIndex) (name : Text) (client : Option Ip) : Option DnsEntry :=
  match parseInternalName lower name with
  | none => none
  | some (cname, some ns) =>
      (idx.byKey (dnsIndexNsKey lower cname ns)).filter (dnsVisible idx client)
  | some (cname, none) =>
      match dnsShortEntry lower idx client cname with
      | some entry => some entry
      | none =>
          match idx.byKey (dnsIndexNsKey lower cname (dnsClientNs idx client)) with
          | some entry => some entry
          | none =>
              match (idx.byKey cname).filter (dnsVisible idx client) with
              | some entry => some entry
              | none => (idx.byKey (dnsIndexVmKey cname)).filter (dnsVisible idx client)

def dnsResolveFor (idx : DnsIndex) (name : Text) (client : Option Ip) : Option Ip :=
  (dnsEntryFor lower idx name client).map DnsEntry.ip

end

end Delonix.Dns
