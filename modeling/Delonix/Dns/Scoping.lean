import Delonix.Dns.Sources

/-! Whose address a client gets. A qualified name is looked up under a key that any record can
have among its own, since nothing keeps the separator out of a name, and the key of the client's
own namespace is answered without asking who may see the entry.
-/

namespace Delonix.Dns

open Delonix.Library.Text

section

variable (lower : Text → Text) (node : Node) (client : Option Ip)

/-- Whether the client may resolve what the record brings. -/
def Node.sees (entry : DnsEntry) : Bool :=
  dnsScopeAllows entry (node.clientNs lower client) (client.getD 0)

/-- The entry is of the client's namespace, to the test of who may see it. -/
def Node.isOwn (entry : DnsEntry) : Bool := eqIgnoreAsciiCase entry.ns (node.clientNs lower client)

/-- A record whose entry is of this kind bears the name, a container or a VM. -/
def Node.Bears (kind : DnsEntry → Bool) (cname : Text) : Prop :=
  (∃ v ∈ node.containers, ∃ s, v.source lower = some s ∧ cname ∈ v.names lower
    ∧ kind s.entry = true)
  ∨ ∃ v ∈ node.vms, ∃ s, v.source lower node.neigh = some s ∧ v.name.map lower = some cname
    ∧ kind s.entry = true

/-- A record of the client's namespace bears the name. -/
def Node.OwnBears (cname : Text) : Prop := node.Bears lower (node.isOwn lower client) cname

/-- An entry of the index with this address is one the client may resolve. -/
def Node.Granted (ip : Ip) : Prop :=
  ∃ key entry, (buildDnsIndex lower node).byKey key = some entry ∧ entry.ip = ip
    ∧ dnsScopeAllows entry (dnsClientNs (buildDnsIndex lower node) client) (client.getD 0) = true

/-- What a client may expect of the answers to a name: an address that is granted to it, of the
namespace it asked for, and for a bare name of its own namespace first, then of one it sees.
-/
structure Scoped (name : Text) : Prop where
  granted : ∀ ip, dnsResolveFor lower (buildDnsIndex lower node) name client = some ip →
    node.Granted lower client ip
  qualified : ∀ cname ns entry, parseInternalName lower name = some (cname, some ns) →
    dnsEntryFor lower (buildDnsIndex lower node) name client = some entry →
    lower entry.ns = lower ns
  short : ∀ cname head ns entry, parseInternalName lower name = some (cname, none) →
    splitOnce '.' cname = some (head, ns) →
    (dnsShortEntry lower (buildDnsIndex lower node) client cname).isSome →
    dnsEntryFor lower (buildDnsIndex lower node) name client = some entry →
    lower entry.ns = lower ns
  bare : ∀ cname entry, parseInternalName lower name = some (cname, none) →
    dnsShortEntry lower (buildDnsIndex lower node) client cname = none →
    dnsEntryFor lower (buildDnsIndex lower node) name client = some entry →
    (node.OwnBears lower client cname → node.isOwn lower client entry = true)
    ∧ (¬ node.OwnBears lower client cname → node.sees lower client entry = true)

/-- The first record that has the key of this name in this namespace is of that namespace, or
nothing the client may resolve.
-/
def Node.Kept (cname ns : Text) : Prop :=
  ∀ s, node.holder lower (dnsIndexNsKey lower cname ns) = some s →
    node.sees lower client s.entry = true → lower s.entry.ns = lower ns

/-- The first record that has the key of this name in the client's own namespace is of that
namespace, or no record there bears the name and the client may resolve this one. Where nobody
has that key although a record there bears the name, the records that are found under the bare
name and then as a VM are of that namespace, or nothing the client may resolve.
-/
structure Node.KeptOwn (cname : Text) : Prop where
  first : ∀ s, node.holder lower (dnsIndexNsKey lower cname (node.clientNs lower client)) = some s →
    node.isOwn lower client s.entry = true
    ∨ ¬ node.OwnBears lower client cname ∧ node.sees lower client s.entry = true
  bare : node.holder lower (dnsIndexNsKey lower cname (node.clientNs lower client)) = none →
    node.OwnBears lower client cname → ∀ s, node.holder lower cname = some s →
    node.sees lower client s.entry = true → node.isOwn lower client s.entry = true
  vm : node.holder lower (dnsIndexNsKey lower cname (node.clientNs lower client)) = none →
    node.OwnBears lower client cname →
    (∀ s, node.holder lower cname = some s → node.sees lower client s.entry = false) →
    ∀ s, node.holder lower (dnsIndexVmKey cname) = some s →
    node.sees lower client s.entry = true → node.isOwn lower client s.entry = true

/-- Nobody has the whole of a dotted name, and the client may resolve who has its two parts. -/
def Node.Shortened (cname : Text) : Prop :=
  ∃ head ns s, splitOnce '.' cname = some (head, ns) ∧ node.holder lower cname = none
    ∧ node.holder lower (dnsIndexNsKey lower head ns) = some s
    ∧ node.sees lower client s.entry = true

/-- No record has got hold of a key that is looked up for this name. -/
def Unforged (name : Text) : Prop :=
  match parseInternalName lower name with
  | none => True
  | some (cname, some ns) => node.Kept lower client cname ns
  | some (cname, none) =>
      (∀ head ns, splitOnce '.' cname = some (head, ns) → node.holder lower cname = none →
        node.Kept lower client head ns)
      ∧ (¬ node.Shortened lower client cname → node.KeptOwn lower client cname)

end

section

variable {lower : Text → Text} {node : Node} {client : Option Ip}

theorem visible_eq_sees (entry : DnsEntry)
    : dnsVisible (buildDnsIndex lower node) client entry = node.sees lower client entry := by
  rw [dnsVisible, build_clientNs, Node.sees]

theorem filter_byKey_eq_some {key : Text} {entry : DnsEntry}
    : ((buildDnsIndex lower node).byKey key).filter (dnsVisible (buildDnsIndex lower node) client)
        = some entry
      ↔ ∃ s, node.holder lower key = some s ∧ s.entry = entry
        ∧ node.sees lower client entry = true := by
  rw [Option.filter_eq_some_iff, build_byKey, Option.map_eq_some_iff, visible_eq_sees]
  constructor
  · rintro ⟨⟨s, holds, rfl⟩, seen⟩
    exact ⟨s, holds, rfl, seen⟩
  · rintro ⟨s, holds, rfl, seen⟩
    exact ⟨⟨s, holds, rfl⟩, seen⟩

theorem sees_of_isOwn {entry : DnsEntry} (own : node.isOwn lower client entry = true)
    : node.sees lower client entry = true := by
  rw [Node.isOwn] at own
  simp [Node.sees, dnsScopeAllows, own]

/-- What the client may resolve is granted to it. -/
theorem granted_of_sees {key : Text} {s : Source} (holds : node.holder lower key = some s)
    (seen : node.sees lower client s.entry = true)
    : node.Granted lower client s.entry.ip := by
  refine ⟨key, s.entry, ?_, rfl, ?_⟩
  · rw [build_byKey, holds]
    rfl
  · rw [build_clientNs]
    exact seen

theorem shortEntry_eq_some {cname : Text} {entry : DnsEntry}
    : dnsShortEntry lower (buildDnsIndex lower node) client cname = some entry
      ↔ ∃ head ns s, splitOnce '.' cname = some (head, ns) ∧ node.holder lower cname = none
        ∧ node.holder lower (dnsIndexNsKey lower head ns) = some s ∧ s.entry = entry
        ∧ node.sees lower client entry = true := by
  unfold dnsShortEntry
  cases cut : splitOnce '.' cname with
  | none => simp
  | some parts =>
      obtain ⟨head, ns⟩ := parts
      simp only [build_byKey, Option.isSome_map]
      cases whole : node.holder lower cname with
      | some s => simp
      | none =>
          simp only [Option.isSome_none, Bool.false_eq_true, if_false, ← build_byKey,
            filter_byKey_eq_some]
          constructor
          · rintro ⟨s, found⟩
            exact ⟨head, ns, s, rfl, trivial, found⟩
          · rintro ⟨_, _, s, is, -, found⟩
            cases is
            exact ⟨s, found⟩

theorem shortened_iff {cname : Text}
    : node.Shortened lower client cname
      ↔ (dnsShortEntry lower (buildDnsIndex lower node) client cname).isSome := by
  rw [Option.isSome_iff_exists]
  constructor
  · rintro ⟨head, ns, s, cut, whole, holds, seen⟩
    exact ⟨s.entry, shortEntry_eq_some.mpr ⟨head, ns, s, cut, whole, holds, rfl, seen⟩⟩
  · rintro ⟨entry, is⟩
    obtain ⟨head, ns, s, cut, whole, holds, rfl, seen⟩ := shortEntry_eq_some.mp is
    exact ⟨head, ns, s, cut, whole, holds, seen⟩

variable {name : Text}

theorem resolve_eq_some {idx : DnsIndex} {ip : Ip}
    (resolved : dnsResolveFor lower idx name client = some ip)
    : ∃ entry, dnsEntryFor lower idx name client = some entry ∧ entry.ip = ip :=
  Option.map_eq_some_iff.mp resolved

theorem entryFor_qualified {cname ns : Text}
    (asked : parseInternalName lower name = some (cname, some ns)) {entry : DnsEntry}
    : dnsEntryFor lower (buildDnsIndex lower node) name client = some entry
      ↔ ∃ s, node.holder lower (dnsIndexNsKey lower cname ns) = some s ∧ s.entry = entry
        ∧ node.sees lower client entry = true := by
  rw [dnsEntryFor, asked]
  exact filter_byKey_eq_some

theorem entryFor_short {cname : Text} (asked : parseInternalName lower name = some (cname, none))
    {entry : DnsEntry}
    (short : dnsShortEntry lower (buildDnsIndex lower node) client cname = some entry)
    : dnsEntryFor lower (buildDnsIndex lower node) name client = some entry := by
  rw [dnsEntryFor, asked]
  simp only [short]

/-- A bare name: the client's own key answers for itself, the others to who may see them. -/
theorem entryFor_bare {cname : Text} (asked : parseInternalName lower name = some (cname, none))
    (long : dnsShortEntry lower (buildDnsIndex lower node) client cname = none) {entry : DnsEntry}
    : dnsEntryFor lower (buildDnsIndex lower node) name client = some entry
      ↔ (∃ s, node.holder lower (dnsIndexNsKey lower cname (node.clientNs lower client)) = some s
          ∧ s.entry = entry)
        ∨ node.holder lower (dnsIndexNsKey lower cname (node.clientNs lower client)) = none
          ∧ ((∃ s, node.holder lower cname = some s ∧ s.entry = entry
              ∧ node.sees lower client entry = true)
            ∨ (∀ s, node.holder lower cname = some s → node.sees lower client s.entry = false)
              ∧ ∃ s, node.holder lower (dnsIndexVmKey cname) = some s ∧ s.entry = entry
                ∧ node.sees lower client entry = true) := by
  rw [dnsEntryFor, asked]
  simp only [long, build_clientNs, ← filter_byKey_eq_some]
  rw [build_byKey]
  cases own : node.holder lower (dnsIndexNsKey lower cname (node.clientNs lower client)) with
  | some s => simp
  | none =>
      simp only [Option.map_none, reduceCtorEq, false_and, exists_false, true_and, false_or]
      cases bare : ((buildDnsIndex lower node).byKey cname).filter
          (dnsVisible (buildDnsIndex lower node) client) with
      | some found =>
          obtain ⟨s, holds, rfl, seen⟩ := filter_byKey_eq_some.mp bare
          refine ⟨.inl, fun either => either.elim id ?_⟩
          rintro ⟨hidden, -⟩
          exact absurd (seen.symm.trans (hidden s holds)) (by simp)
      | none =>
          have hidden (s : Source) (holds : node.holder lower cname = some s)
              : node.sees lower client s.entry = false := by
            by_contra seen
            have shown := filter_byKey_eq_some.mpr
              ⟨s, holds, rfl, Bool.of_not_eq_false seen⟩
            exact absurd (bare.symm.trans shown) (by simp)
          constructor
          · exact fun vm => .inr ⟨hidden, vm⟩
          · rintro (found | ⟨-, vm⟩)
            · cases found
            · exact vm

theorem scoped_iff_qualified {cname ns : Text}
    (asked : parseInternalName lower name = some (cname, some ns))
    : Scoped lower node client name ↔ node.Kept lower client cname ns := by
  constructor
  · intro expected s holds seen
    exact expected.qualified cname ns s.entry asked
      ((entryFor_qualified asked).mpr ⟨s, holds, rfl, seen⟩)
  · intro kept
    constructor
    case granted =>
      intro ip resolved
      obtain ⟨entry, is, rfl⟩ := resolve_eq_some resolved
      obtain ⟨s, holds, rfl, seen⟩ := (entryFor_qualified asked).mp is
      exact granted_of_sees holds seen
    case qualified =>
      intro cname' ns' entry asked' is
      obtain ⟨rfl, same⟩ := Prod.mk.inj (Option.some.inj (asked.symm.trans asked'))
      obtain rfl := Option.some.inj same
      obtain ⟨s, holds, rfl, seen⟩ := (entryFor_qualified asked).mp is
      exact kept s holds seen
    all_goals simp [asked]

theorem Scoped.keptOwn (expected : Scoped lower node client name) {cname : Text}
    (asked : parseInternalName lower name = some (cname, none))
    (long : dnsShortEntry lower (buildDnsIndex lower node) client cname = none)
    : node.KeptOwn lower client cname := by
  have answered {entry : DnsEntry} := @entryFor_bare lower node client name cname asked long entry
  constructor
  case first =>
    intro s holds
    have due := expected.bare cname s.entry asked long (answered.mpr (.inl ⟨s, holds, rfl⟩))
    by_cases bears : node.OwnBears lower client cname
    · exact .inl (due.1 bears)
    · exact .inr ⟨bears, due.2 bears⟩
  case bare =>
    intro none bears s holds seen
    have found := answered.mpr (.inr ⟨none, .inl ⟨s, holds, rfl, seen⟩⟩)
    exact (expected.bare cname s.entry asked long found).1 bears
  case vm =>
    intro none bears hidden s holds seen
    have found := answered.mpr (.inr ⟨none, .inr ⟨hidden, s, holds, rfl, seen⟩⟩)
    exact (expected.bare cname s.entry asked long found).1 bears

theorem Node.KeptOwn.answer {cname : Text} (kept : node.KeptOwn lower client cname)
    (asked : parseInternalName lower name = some (cname, none))
    (long : dnsShortEntry lower (buildDnsIndex lower node) client cname = none) {entry : DnsEntry}
    (is : dnsEntryFor lower (buildDnsIndex lower node) name client = some entry)
    : (node.OwnBears lower client cname → node.isOwn lower client entry = true)
      ∧ ∃ key s, node.holder lower key = some s ∧ s.entry = entry
        ∧ node.sees lower client entry = true := by
  rcases (entryFor_bare asked long).mp is with ⟨s, holds, rfl⟩ | ⟨none, found⟩
  · rcases kept.first s holds with own | ⟨nobody, seen⟩
    · exact ⟨fun _ => own, _, s, holds, rfl, sees_of_isOwn own⟩
    · exact ⟨fun bears => absurd bears nobody, _, s, holds, rfl, seen⟩
  · rcases found with ⟨s, holds, rfl, seen⟩ | ⟨hidden, s, holds, rfl, seen⟩
    · exact ⟨fun bears => kept.bare none bears s holds seen, _, s, holds, rfl, seen⟩
    · exact ⟨fun bears => kept.vm none bears hidden s holds seen, _, s, holds, rfl, seen⟩

theorem Scoped.unforged_bare {cname : Text}
    (asked : parseInternalName lower name = some (cname, none))
    (expected : Scoped lower node client name)
    : (∀ head ns, splitOnce '.' cname = some (head, ns) → node.holder lower cname = none →
        node.Kept lower client head ns)
      ∧ (¬ node.Shortened lower client cname → node.KeptOwn lower client cname) := by
  constructor
  · intro head ns cut whole s holds seen
    have short : dnsShortEntry lower (buildDnsIndex lower node) client cname = some s.entry :=
      shortEntry_eq_some.mpr ⟨head, ns, s, cut, whole, holds, rfl, seen⟩
    exact expected.short cname head ns s.entry asked cut (by rw [short]; rfl)
      (entryFor_short asked short)
  · intro long
    exact expected.keptOwn asked (by simpa [shortened_iff] using long)

theorem scoped_of_bare {cname : Text} (asked : parseInternalName lower name = some (cname, none))
    (kept : ∀ head ns, splitOnce '.' cname = some (head, ns) → node.holder lower cname = none →
      node.Kept lower client head ns)
    (keptOwn : ¬ node.Shortened lower client cname → node.KeptOwn lower client cname)
    : Scoped lower node client name := by
  have keptOwn (long : dnsShortEntry lower (buildDnsIndex lower node) client cname = none)
      : node.KeptOwn lower client cname :=
    keptOwn (by simp [shortened_iff, long])
  constructor
  case qualified => simp [asked]
  case granted =>
    intro ip resolved
    obtain ⟨entry, is, rfl⟩ := resolve_eq_some resolved
    cases short : dnsShortEntry lower (buildDnsIndex lower node) client cname with
    | some answer =>
        obtain rfl := Option.some.inj (is.symm.trans (entryFor_short asked short))
        obtain ⟨head, ns, s, cut, whole, holds, rfl, seen⟩ := shortEntry_eq_some.mp short
        exact granted_of_sees holds seen
    | none =>
        obtain ⟨-, key, s, holds, rfl, seen⟩ := (keptOwn short).answer asked short is
        exact granted_of_sees holds seen
  case short =>
    intro cname' head ns entry asked' cut some is
    obtain ⟨rfl, -⟩ := Prod.mk.inj (Option.some.inj (asked.symm.trans asked'))
    obtain ⟨answer, short⟩ := Option.isSome_iff_exists.mp some
    obtain rfl := Option.some.inj (is.symm.trans (entryFor_short asked short))
    obtain ⟨head', ns', s, cut', whole, holds, rfl, seen⟩ := shortEntry_eq_some.mp short
    obtain ⟨rfl, rfl⟩ := Prod.mk.inj (Option.some.inj (cut.symm.trans cut'))
    exact kept head ns cut whole s holds seen
  case bare =>
    intro cname' entry asked' long is
    obtain ⟨rfl, -⟩ := Prod.mk.inj (Option.some.inj (asked.symm.trans asked'))
    obtain ⟨own, key, s, holds, rfl, seen⟩ := (keptOwn long).answer asked long is
    exact ⟨own, fun _ => seen⟩

end

/-- For every set of records, in the order they are read, and for every client and name: the
answers are scoped exactly when no record has got hold of a key that is looked up for the name.
-/
theorem scoped_iff_unforged (lower : Text → Text) (node : Node) (client : Option Ip) (name : Text)
    : Scoped lower node client name ↔ Unforged lower node client name := by
  unfold Unforged
  cases asked : parseInternalName lower name with
  | none =>
      have unanswered : dnsEntryFor lower (buildDnsIndex lower node) name client = none := by
        rw [dnsEntryFor, asked]
      refine iff_of_true ⟨?_, ?_, ?_, ?_⟩ trivial
      · intro ip resolved
        obtain ⟨entry, is, -⟩ := resolve_eq_some resolved
        exact absurd (unanswered.symm.trans is) (by simp)
      all_goals simp [asked]
  | some question =>
      obtain ⟨cname, _ | ns⟩ := question
      · exact ⟨Scoped.unforged_bare asked, fun ⟨kept, own⟩ => scoped_of_bare asked kept own⟩
      · exact scoped_iff_qualified asked

/-- A running container with one alias at most. -/
def running (name ns ip : String) (netAliases : List Text) : ContainerRecord where
  name := some name.toList
  ip := some ip.toList
  ns := some ns.toList
  status := some "Running".toList
  rules := []
  netAliases := netAliases
  pod := none

/-- Two tenants. The first one's container has taken an alias that reads as a name of the second.
-/
def aliased : Node where
  containers := [running "web" "teama" "10.0.0.9" ["db@teamb".toList],
    running "app" "teamb" "10.0.0.5" [], running "db" "teamb" "10.0.0.6" []]
  vms := []
  neigh := []

def addr (a b c d : Nat) : Ip := Delonix.Net.fromBeBytes [a, b, c, d]

/-- The second tenant asks for its own `db` and gets an address of the first, which nothing
grants to it.
-/
theorem alias_answers_for_tenant
    : dnsResolveFor asciiLower (buildDnsIndex asciiLower aliased) "db".toList
        (some (addr 10 0 0 5)) = some (addr 10 0 0 9)
      ∧ ¬ Scoped asciiLower aliased (some (addr 10 0 0 5)) "db".toList := by
  have answer : dnsResolveFor asciiLower (buildDnsIndex asciiLower aliased) "db".toList
      (some (addr 10 0 0 5)) = some (addr 10 0 0 9) := by decide
  refine ⟨answer, ?_⟩
  intro expected
  obtain ⟨key, entry, holds, ip, seen⟩ := expected.granted _ answer
  rw [build_byKey] at holds
  obtain ⟨s, found, rfl⟩ := Option.map_eq_some_iff.mp holds
  rw [build_clientNs] at seen
  have none : ∀ s ∈ aliased.sources asciiLower, s.entry.ip = addr 10 0 0 9 →
      aliased.sees asciiLower (some (addr 10 0 0 5)) s.entry = false := by decide
  exact absurd (seen.symm.trans (none s (List.mem_of_find?_eq_some found) ip)) (by simp)

end Delonix.Dns
