import Delonix.Dns.Index

/-! Who answers under a key: the first record read that has it among its keys. -/

namespace Delonix.Dns

/-- What a record brings into the index: its keys, and the entry under each of them. -/
structure Source where
  keys : List Text
  entry : DnsEntry
  deriving DecidableEq, Repr

section

variable (lower : Text → Text)

/-- The names a container answers to. -/
def ContainerRecord.names (v : ContainerRecord) : List Text :=
  (v.name.toList ++ v.netAliases ++ v.pod.toList).map lower

def ContainerRecord.source (v : ContainerRecord) : Option Source :=
  match v.name, v.ip.bind parseV4 with
  | some _, some ip =>
      if dnsStateServes v.status then
        let ns := v.ns.getD nsDefault
        some {
          keys := (v.names lower).flatMap fun name => [name, dnsIndexNsKey lower name ns]
          entry := ⟨ip, ns, v.allowIn⟩ }
      else none
  | _, _ => none

def VmRecord.source (neigh : Text) (v : VmRecord) : Option Source :=
  match v.name with
  | some name =>
      if dnsStateServes v.status then
        (v.address lower neigh).map fun ip =>
          ⟨[dnsIndexVmKey (lower name)], ⟨ip, v.ns.getD nsDefault, []⟩⟩
      else none
  | none => none

def Node.ofContainers (node : Node) : List Source :=
  node.containers.filterMap (ContainerRecord.source lower)

def Node.ofVms (node : Node) : List Source := node.vms.filterMap (VmRecord.source lower node.neigh)

/-- Everything the node answers for, in the order it is read. -/
def Node.sources (node : Node) : List Source := node.ofContainers lower ++ node.ofVms lower

end

def DnsIndex.add (idx : DnsIndex) (source : Source) : DnsIndex where
  byKey := source.keys.foldl (fun map key => orInsert map key source.entry) idx.byKey
  nsOfIp := orInsert idx.nsOfIp source.entry.ip source.entry.ns

theorem orInsert_apply {κ β : Type} [DecidableEq κ] (map : κ → Option β) (key other : κ)
    (value : β)
    : orInsert map key value other = (map other).or (if other = key then some value else none) := by
  unfold orInsert
  split
  case isTrue same =>
    subst same
    cases map other <;> rfl
  case isFalse => rw [Option.or_none]

theorem foldl_orInsert {κ β : Type} [DecidableEq κ] (keys : List κ) (map : κ → Option β)
    (value : β) (other : κ)
    : keys.foldl (fun map key => orInsert map key value) map other
      = (map other).or (if other ∈ keys then some value else none) := by
  induction keys generalizing map with
  | nil => simp
  | cons key rest ih =>
      rw [List.foldl_cons, ih, orInsert_apply, Option.or_assoc]
      by_cases same : other = key
      · simp [same]
      · simp [same]

section

variable {lower : Text → Text}

/-- Each name adds its two keys and leaves the addresses alone. -/
theorem foldl_named (names : List Text) (ns : Text) (entry : DnsEntry) (idx : DnsIndex)
    : names.foldl (fun idx a => idx.named lower (lower a) ns entry) idx
      = { idx with
        byKey := ((names.map lower).flatMap fun name =>
          [name, dnsIndexNsKey lower name ns]).foldl
            (fun map key => orInsert map key entry) idx.byKey } := by
  induction names generalizing idx with
  | nil => rfl
  | cons name rest ih =>
      rw [List.foldl_cons, ih]
      rfl

/-- Reading a container is adding what it brings. -/
theorem container_eq_add (idx : DnsIndex) (v : ContainerRecord)
    : idx.container lower v = ((v.source lower).map idx.add).getD idx := by
  unfold DnsIndex.container ContainerRecord.source
  cases isName : v.name with
  | none => rfl
  | some name =>
      cases v.ip.bind parseV4 with
      | none => rfl
      | some ip =>
          dsimp only
          split
          case isFalse => rfl
          case isTrue =>
            simp only [foldl_named]
            cases pod : v.pod <;>
              simp [DnsIndex.add, ContainerRecord.names, isName, pod, DnsIndex.named]

theorem vm_eq_add (neigh : Text) (idx : DnsIndex) (v : VmRecord)
    : idx.vm lower neigh v = ((v.source lower neigh).map idx.add).getD idx := by
  unfold DnsIndex.vm VmRecord.source
  cases v.name with
  | none => rfl
  | some name =>
      dsimp only
      split
      case isFalse => rfl
      case isTrue => cases v.address lower neigh <;> rfl

theorem foldl_of_source {α : Type} (source : α → Option Source)
    (read : DnsIndex → α → DnsIndex)
    (adds : ∀ idx v, read idx v = ((source v).map idx.add).getD idx) (records : List α)
    (idx : DnsIndex)
    : records.foldl read idx = (records.filterMap source).foldl DnsIndex.add idx := by
  induction records generalizing idx with
  | nil => rfl
  | cons v rest ih =>
      rw [List.foldl_cons, ih, adds]
      cases is : source v <;> simp [is]

theorem build_eq_foldl (node : Node)
    : buildDnsIndex lower node
      = (node.sources lower).foldl DnsIndex.add ⟨fun _ => none, fun _ => none⟩ := by
  rw [buildDnsIndex, Node.sources, List.foldl_append,
    foldl_of_source (ContainerRecord.source lower) _ container_eq_add,
    foldl_of_source (VmRecord.source lower node.neigh) _ (vm_eq_add node.neigh)]
  rfl

theorem foldl_add_byKey (sources : List Source) (idx : DnsIndex) (key : Text)
    : (sources.foldl DnsIndex.add idx).byKey key
      = (idx.byKey key).or ((sources.find? fun s => key ∈ s.keys).map Source.entry) := by
  induction sources generalizing idx with
  | nil => simp
  | cons source rest ih =>
      rw [List.foldl_cons, ih]
      simp only [DnsIndex.add, foldl_orInsert, Option.or_assoc]
      by_cases has : key ∈ source.keys
      · simp [has]
      · simp [has]

theorem foldl_add_nsOfIp (sources : List Source) (idx : DnsIndex) (ip : Ip)
    : (sources.foldl DnsIndex.add idx).nsOfIp ip
      = (idx.nsOfIp ip).or
        ((sources.find? fun s => s.entry.ip = ip).map fun s => s.entry.ns) := by
  induction sources generalizing idx with
  | nil => simp
  | cons source rest ih =>
      rw [List.foldl_cons, ih]
      simp only [DnsIndex.add, orInsert_apply, Option.or_assoc]
      by_cases has : source.entry.ip = ip
      · simp [has]
      · simp [has, Ne.symm has]

variable (lower)

attribute [local instance] Library.Text.lawfulBEq in
/-- The first record read that has the key. -/
def Node.holder (node : Node) (key : Text) : Option Source :=
  (node.sources lower).find? fun s => key ∈ s.keys

/-- The namespace of the first record read that has the client's address. -/
def Node.clientNs (node : Node) (client : Option Ip) : Text :=
  (client.bind fun ip => ((node.sources lower).find? fun s => s.entry.ip = ip).map
    fun s => s.entry.ns).getD nsDefault

variable {lower}

theorem build_byKey (node : Node) (key : Text)
    : (buildDnsIndex lower node).byKey key = (node.holder lower key).map Source.entry := by
  rw [build_eq_foldl, foldl_add_byKey]
  rfl

theorem build_clientNs (node : Node) (client : Option Ip)
    : dnsClientNs (buildDnsIndex lower node) client = node.clientNs lower client := by
  rw [dnsClientNs, Node.clientNs, build_eq_foldl]
  congr 1
  cases client with
  | none => rfl
  | some ip =>
      simp only [Option.bind_some]
      rw [foldl_add_nsOfIp]
      rfl

end

end Delonix.Dns
