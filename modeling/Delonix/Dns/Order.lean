import Delonix.Dns.Scoping
import Mathlib.Data.List.Perm.Basic

/-! What the order of the directories decides. A key belongs to the first record read that has
it, and who may see that record is asked only then; the first record read at the client's address
decides which namespace the client is in. So the answers a name can get are those of all the
records that can come first.
-/

namespace Delonix.Dns

open Delonix.Library.Text

-----------------------------------------------------------------------------------------
-- Orders and lookups
-----------------------------------------------------------------------------------------

/-- The same records, read in another order. -/
structure Reordered (node other : Node) : Prop where
  containers : other.containers.Perm node.containers
  vms : other.vms.Perm node.vms
  neigh : other.neigh = node.neigh

theorem Reordered.refl (node : Node) : Reordered node node := ⟨.rfl, .rfl, rfl⟩

theorem Reordered.trans {node middle other : Node} (first : Reordered node middle)
    (second : Reordered middle other)
    : Reordered node other :=
  ⟨second.containers.trans first.containers, second.vms.trans first.vms,
    second.neigh.trans first.neigh⟩

/-- A key that is tried, and whether its entry is answered only to who may see it. -/
structure Lookup where
  key : Text
  guarded : Bool
  deriving DecidableEq, Repr

section

variable (lower : Text → Text) (node : Node) (client : Option Ip)

/-- The keys that are tried for a name, in order, by a client of this namespace. -/
def lookups (ns name : Text) : List Lookup :=
  match parseInternalName lower name with
  | none => []
  | some (cname, some asked) => [⟨dnsIndexNsKey lower cname asked, true⟩]
  | some (cname, none) =>
      let short : List Lookup := match splitOnce '.' cname with
        | some (head, asked) =>
            if (node.holder lower cname).isSome then []
            else [⟨dnsIndexNsKey lower head asked, true⟩]
        | none => []
      short ++ [⟨dnsIndexNsKey lower cname ns, false⟩, ⟨cname, true⟩, ⟨dnsIndexVmKey cname, true⟩]

/-- Whether a lookup that finds this record answers with it, to a client of this namespace. -/
def Lookup.shows (lookup : Lookup) (ns : Text) (s : Source) : Bool :=
  !lookup.guarded || dnsScopeAllows s.entry ns (client.getD 0)

/-- The first lookup that finds a record it may answer with. -/
def Node.answerOf (ns : Text) : List Lookup → Option Ip
  | [] => none
  | lookup :: rest =>
      match node.holder lower lookup.key with
      | some s => if lookup.shows client ns s then some s.entry.ip else Node.answerOf ns rest
      | none => Node.answerOf ns rest

/-- The record may come first among those that match: it is a container, or no container does. -/
def Node.MayLead (matching : Source → Prop) (s : Source) : Prop :=
  matching s ∧ (s ∈ node.ofContainers lower
    ∨ s ∈ node.ofVms lower ∧ ∀ t ∈ node.ofContainers lower, ¬ matching t)

def Source.IsAt (s : Source) : Prop := client = some s.entry.ip

/-- What may come first at the client's address: a record, or none if there is none. -/
def Node.MayPlace : Option Source → Prop
  | some t => node.MayLead lower (Source.IsAt client) t
  | none => ∀ s ∈ node.sources lower, ¬ s.IsAt client

/-- The namespace of the client whose address this record has first. -/
def nsOf (t : Option Source) : Text := (t.map fun t => t.entry.ns).getD nsDefault

/-- The record may come first under the key while `t` comes first at the client's address. -/
def Node.MayHold (t : Option Source) (key : Text) (s : Source) : Prop :=
  node.MayLead lower (fun s => key ∈ s.keys) s
    ∧ (s.IsAt client → ∀ first ∈ t, key ∈ first.keys → s = first)

/-- Some record has the key, and whichever comes first under it is answered with. -/
def Node.Decisive (t : Option Source) (lookup : Lookup) : Prop :=
  (∃ s, node.MayHold lower client t lookup.key s)
    ∧ ∀ s, node.MayHold lower client t lookup.key s → lookup.shows client (nsOf t) s = true

/-- The record may be the one these lookups answer with: none before its own is decisive. -/
def Node.MayAnswer (t : Option Source) (tried : List Lookup) (s : Source) : Prop :=
  ∃ before lookup after, tried = before ++ lookup :: after
    ∧ (∀ earlier ∈ before, ¬ node.Decisive lower client t earlier)
    ∧ node.MayHold lower client t lookup.key s ∧ lookup.shows client (nsOf t) s = true

/-- A record that a client of this namespace may resolve bears the name that is asked for. -/
def SeenBearer (ns name : Text) : Prop :=
  ∃ cname, parseInternalName lower name = some (cname, none)
    ∧ node.Bears lower (fun entry => dnsScopeAllows entry ns (client.getD 0)) cname

/-- The answer is the same in every order, and in every order a bare name is answered that a
record bears which the client may resolve then.
-/
structure Steady (name : Text) : Prop where
  same : ∀ other, Reordered node other →
    dnsResolveFor lower (buildDnsIndex lower other) name client
      = dnsResolveFor lower (buildDnsIndex lower node) name client
  resolves : ∀ other, Reordered node other →
    SeenBearer lower other client (other.clientNs lower client) name →
    (dnsResolveFor lower (buildDnsIndex lower other) name client).isSome

/-- Whatever comes first at the client's address, the records found up to the first decisive key
have one address; and there is a decisive key if such a record exists at all, or a record the
client may resolve bears the name.
-/
structure Settled (name : Text) : Prop where
  one : ∀ t t' s s', node.MayPlace lower client t → node.MayPlace lower client t' →
    node.MayAnswer lower client t (lookups lower node (nsOf t) name) s →
    node.MayAnswer lower client t' (lookups lower node (nsOf t') name) s' →
    s.entry.ip = s'.entry.ip
  found : ∀ t t', node.MayPlace lower client t → node.MayPlace lower client t' →
    (∃ s, node.MayAnswer lower client t (lookups lower node (nsOf t) name) s)
      ∨ SeenBearer lower node client (nsOf t) name →
    ∃ lookup ∈ lookups lower node (nsOf t') name, node.Decisive lower client t' lookup

end

-----------------------------------------------------------------------------------------
-- The lookups are what the resolver does
-----------------------------------------------------------------------------------------

section

variable {lower : Text → Text} {node : Node} {client : Option Ip}

theorem answerOf_guarded (key : Text) (rest : List Lookup)
    : node.answerOf lower client (node.clientNs lower client) (⟨key, true⟩ :: rest)
      = match ((buildDnsIndex lower node).byKey key).filter
          (dnsVisible (buildDnsIndex lower node) client) with
        | some entry => some entry.ip
        | none => node.answerOf lower client (node.clientNs lower client) rest := by
  rw [Node.answerOf, build_byKey]
  cases node.holder lower key with
  | none => rfl
  | some s =>
      simp only [Lookup.shows, Option.map_some, Option.filter_some, dnsVisible, build_clientNs,
        Bool.not_true, Bool.false_or]
      cases dnsScopeAllows s.entry (node.clientNs lower client) (client.getD 0) <;> rfl

theorem answerOf_unguarded (ns key : Text) (rest : List Lookup)
    : node.answerOf lower client ns (⟨key, false⟩ :: rest)
      = match (buildDnsIndex lower node).byKey key with
        | some entry => some entry.ip
        | none => node.answerOf lower client ns rest := by
  rw [Node.answerOf, build_byKey]
  cases node.holder lower key <;> rfl

/-- The lookups of a bare name, whether or not a short form was tried before them. -/
theorem answerOf_bare (cname : Text)
    : node.answerOf lower client (node.clientNs lower client)
        [⟨dnsIndexNsKey lower cname (node.clientNs lower client), false⟩, ⟨cname, true⟩,
          ⟨dnsIndexVmKey cname, true⟩]
      = Option.map DnsEntry.ip
        (match (buildDnsIndex lower node).byKey
            (dnsIndexNsKey lower cname (dnsClientNs (buildDnsIndex lower node) client)) with
        | some entry => some entry
        | none =>
            match ((buildDnsIndex lower node).byKey cname).filter
                (dnsVisible (buildDnsIndex lower node) client) with
            | some entry => some entry
            | none =>
                ((buildDnsIndex lower node).byKey (dnsIndexVmKey cname)).filter
                  (dnsVisible (buildDnsIndex lower node) client)) := by
  rw [answerOf_unguarded, answerOf_guarded, answerOf_guarded, build_clientNs]
  split
  · rfl
  · split
    · rfl
    · split <;> simp_all [Node.answerOf]

theorem resolve_eq_answerOf (name : Text)
    : dnsResolveFor lower (buildDnsIndex lower node) name client
      = node.answerOf lower client (node.clientNs lower client)
        (lookups lower node (node.clientNs lower client) name) := by
  unfold dnsResolveFor dnsEntryFor lookups
  rcases parseInternalName lower name with _ | ⟨cname, _ | ns⟩
  · rfl
  · have whole : ((buildDnsIndex lower node).byKey cname).isSome
        = (node.holder lower cname).isSome := by
      rw [build_byKey, Option.isSome_map]
    cases cut : splitOnce '.' cname with
    | none =>
        simp only [dnsShortEntry, cut, List.nil_append]
        exact (answerOf_bare cname).symm
    | some parts =>
        obtain ⟨head, ns⟩ := parts
        simp only [dnsShortEntry, cut, whole]
        by_cases held : (node.holder lower cname).isSome
        · rw [if_pos held, if_pos held, List.nil_append]
          exact (answerOf_bare cname).symm
        · rw [if_neg held, if_neg held, List.singleton_append, answerOf_guarded]
          cases ((buildDnsIndex lower node).byKey (dnsIndexNsKey lower head ns)).filter
              (dnsVisible (buildDnsIndex lower node) client) with
          | some entry => rfl
          | none => exact (answerOf_bare cname).symm
  · simp only [answerOf_guarded]
    split <;> simp_all [Node.answerOf]

-----------------------------------------------------------------------------------------
-- What no order changes
-----------------------------------------------------------------------------------------

variable {other : Node} {t : Option Source} {s : Source}

theorem Reordered.ofContainers (order : Reordered node other)
    : (other.ofContainers lower).Perm (node.ofContainers lower) :=
  order.containers.filterMap _

theorem Reordered.ofVms (order : Reordered node other)
    : (other.ofVms lower).Perm (node.ofVms lower) := by
  rw [Node.ofVms, order.neigh]
  exact order.vms.filterMap _

theorem Reordered.sources (order : Reordered node other)
    : (other.sources lower).Perm (node.sources lower) :=
  order.ofContainers.append order.ofVms

theorem Reordered.mayLead_iff (order : Reordered node other) {matching : Source → Prop}
    : other.MayLead lower matching s ↔ node.MayLead lower matching s := by
  simp only [Node.MayLead, order.ofContainers.mem_iff, order.ofVms.mem_iff]

theorem Reordered.mayPlace_iff (order : Reordered node other)
    : other.MayPlace lower client t ↔ node.MayPlace lower client t := by
  cases t with
  | none => simp only [Node.MayPlace, order.sources.mem_iff]
  | some t => exact order.mayLead_iff

theorem Reordered.decisive_iff (order : Reordered node other) {lookup : Lookup}
    : other.Decisive lower client t lookup ↔ node.Decisive lower client t lookup := by
  simp only [Node.Decisive, Node.MayHold, order.mayLead_iff]

theorem Reordered.holder_isSome (order : Reordered node other) (key : Text)
    : (other.holder lower key).isSome = (node.holder lower key).isSome := by
  rw [Bool.eq_iff_iff, Node.holder, Node.holder, List.find?_isSome, List.find?_isSome]
  simp only [order.sources.mem_iff]

theorem Reordered.lookups_eq (order : Reordered node other) (ns name : Text)
    : lookups lower other ns name = lookups lower node ns name := by
  unfold lookups
  simp only [order.holder_isSome]

theorem Reordered.mayAnswer_iff (order : Reordered node other) {tried : List Lookup}
    : other.MayAnswer lower client t tried s ↔ node.MayAnswer lower client t tried s := by
  simp only [Node.MayAnswer, order.decisive_iff, Node.MayHold, order.mayLead_iff]

theorem Reordered.seenBearer_iff (order : Reordered node other) {ns name : Text}
    : SeenBearer lower other client ns name ↔ SeenBearer lower node client ns name := by
  simp only [SeenBearer, Node.Bears, order.containers.mem_iff, order.vms.mem_iff, order.neigh]

-----------------------------------------------------------------------------------------
-- The answer of one order
-----------------------------------------------------------------------------------------

variable (lower node client) in
/-- The record that is first at the client's address. -/
def Node.leader : Option Source :=
  client.bind fun ip => (node.sources lower).find? fun s => s.entry.ip = ip

theorem clientNs_eq : node.clientNs lower client = nsOf (node.leader lower client) := by
  cases client <;> rfl

theorem mayLead_of_find? {matching : Source → Prop} [DecidablePred matching]
    (found : (node.sources lower).find? (fun s => matching s) = some s)
    : node.MayLead lower matching s := by
  rw [Node.sources, List.find?_append] at found
  rcases Option.or_eq_some_iff.mp found with container | ⟨none, vm⟩
  · exact ⟨by simpa using List.find?_some container, .inl (List.mem_of_find?_eq_some container)⟩
  · refine ⟨by simpa using List.find?_some vm, .inr ⟨List.mem_of_find?_eq_some vm, ?_⟩⟩
    simpa using none

theorem leader_eq_some
    : node.leader lower client = some s
      ↔ ∃ ip, client = some ip ∧ (node.sources lower).find? (fun s => s.entry.ip = ip) = some s :=
  Option.bind_eq_some_iff

theorem mayPlace_leader : node.MayPlace lower client (node.leader lower client) := by
  cases leads : node.leader lower client with
  | some t =>
      obtain ⟨ip, rfl, found⟩ := leader_eq_some.mp leads
      have first := mayLead_of_find? found
      simpa only [Node.MayPlace, Node.MayLead, Source.IsAt, Option.some.injEq, eq_comm] using first
  | none =>
      intro s member at_s
      rw [Source.IsAt] at at_s
      subst at_s
      have nobody := List.find?_eq_none.mp leads s member
      simp at nobody

/-- Two records that both match both tests and are each first under one of them are the same. -/
theorem eq_of_find? {α : Type} {p q : α → Bool} {items : List α} {a b : α}
    (first : items.find? p = some a) (first' : items.find? q = some b) (q_a : q a = true)
    (p_b : p b = true)
    : a = b := by
  induction items with
  | nil => cases first
  | cons x rest ih =>
      rw [List.find?_cons] at first first'
      cases p_x : p x <;> cases q_x : q x <;> simp only [p_x, q_x] at first first'
      · exact ih first first'
      · cases first'
        exact absurd (p_x.symm.trans p_b) (by simp)
      · cases first
        exact absurd (q_x.symm.trans q_a) (by simp)
      · exact (Option.some.inj first).symm.trans (Option.some.inj first')

variable (client) in
theorem mayHold_of_holder {key : Text} (holds : node.holder lower key = some s)
    : node.MayHold lower client (node.leader lower client) key s := by
  refine ⟨mayLead_of_find? holds, fun at_s first leads has => ?_⟩
  obtain ⟨ip, rfl, found⟩ := leader_eq_some.mp leads
  exact eq_of_find? holds found (by simpa [eq_comm] using Option.some.inj at_s)
    (by simpa using has)

theorem not_mayHold_of_holder {key : Text} (none : node.holder lower key = none)
    : ¬ node.MayHold lower client t key s := by
  rintro ⟨⟨has, member⟩, -⟩
  have absent := List.find?_eq_none.mp none s
    (List.mem_append.mpr (member.imp_right And.left))
  exact absent (by simpa using has)

theorem Node.MayAnswer.cons {head : Lookup} {rest : List Lookup}
    (passed : ¬ node.Decisive lower client t head) (may : node.MayAnswer lower client t rest s)
    : node.MayAnswer lower client t (head :: rest) s := by
  obtain ⟨before, lookup, after, rfl, before_passed, may⟩ := may
  exact ⟨head :: before, lookup, after, rfl, List.forall_mem_cons.mpr ⟨passed, before_passed⟩, may⟩

/-- Going down the lookups, by induction on them: one that does not answer is not decisive. -/
theorem answerOf_cases (tried : List Lookup) (leads : node.leader lower client = t)
    : (∃ s, node.MayAnswer lower client t tried s
        ∧ node.answerOf lower client (nsOf t) tried = some s.entry.ip)
      ∨ (∀ lookup ∈ tried, ¬ node.Decisive lower client t lookup)
        ∧ node.answerOf lower client (nsOf t) tried = none := by
  subst leads
  induction tried with
  | nil => exact .inr ⟨fun _ member => absurd member List.not_mem_nil, rfl⟩
  | cons head rest ih =>
      rw [Node.answerOf]
      cases holds : node.holder lower head.key with
      | none =>
          have passed : ¬ node.Decisive lower client (node.leader lower client) head :=
            fun decisive => decisive.1.elim fun s may => not_mayHold_of_holder holds may
          exact ih.imp (fun ⟨s, may, answers⟩ => ⟨s, may.cons passed, answers⟩)
            (.imp_left fun rest_passed => List.forall_mem_cons.mpr ⟨passed, rest_passed⟩)
      | some s =>
          have may := mayHold_of_holder client holds
          cases shown : head.shows client (nsOf (node.leader lower client)) s with
          | true =>
              refine .inl ⟨s, ⟨[], head, rest, rfl, ?_, may, shown⟩, by simp [shown]⟩
              exact fun _ member => absurd member List.not_mem_nil
          | false =>
              have passed : ¬ node.Decisive lower client (node.leader lower client) head :=
                fun decisive => absurd (shown.symm.trans (decisive.2 s may)) (by simp)
              simp only [shown, Bool.false_eq_true, if_false]
              exact ih.imp (fun ⟨s, may, answers⟩ => ⟨s, may.cons passed, answers⟩)
                (.imp_left fun rest_passed => List.forall_mem_cons.mpr ⟨passed, rest_passed⟩)

variable (client) in
/-- Whatever the order, the answer is one of those that the records leave. -/
theorem resolve_cases (order : Reordered node other) (name : Text)
    : ∃ t, node.MayPlace lower client t ∧ other.clientNs lower client = nsOf t
      ∧ ((∃ s, node.MayAnswer lower client t (lookups lower node (nsOf t) name) s
          ∧ dnsResolveFor lower (buildDnsIndex lower other) name client = some s.entry.ip)
        ∨ (∀ lookup ∈ lookups lower node (nsOf t) name, ¬ node.Decisive lower client t lookup)
          ∧ dnsResolveFor lower (buildDnsIndex lower other) name client = none) := by
  refine ⟨other.leader lower client, order.mayPlace_iff.mp mayPlace_leader, clientNs_eq, ?_⟩
  rw [resolve_eq_answerOf, clientNs_eq, ← order.lookups_eq]
  simp only [← order.mayAnswer_iff, ← order.decisive_iff]
  exact answerOf_cases _ rfl

-----------------------------------------------------------------------------------------
-- Every answer the records leave has its order
-----------------------------------------------------------------------------------------

/-- Taking out a record that does not match leaves the first match where it was. -/
theorem find?_filterMap_erase {α : Type} [DecidableEq α] (source : α → Option Source)
    {matching : Source → Bool} {record : α} (brings : source record = some s)
    (other : matching s = false) (records : List α)
    : ((records.erase record).filterMap source).find? matching
      = (records.filterMap source).find? matching := by
  induction records with
  | nil => rfl
  | cons head rest ih =>
      by_cases same : head = record
      · subst same
        simp [brings, other]
      · rw [List.erase_cons_tail (by simpa using same)]
        cases is : source head with
        | none => simp [is, ih]
        | some t => simp only [List.filterMap_cons, is, List.find?_cons, ih]

/-- A record that is read first is found wherever it may come first, and changes no other search.
-/
theorem exists_first (known : s ∈ node.sources lower)
    : ∃ other, Reordered node other ∧ ∀ (matching : Source → Prop) [DecidablePred matching],
      (node.MayLead lower matching s →
        (other.sources lower).find? (fun x => matching x) = some s)
      ∧ (¬ node.MayLead lower matching s →
        (other.sources lower).find? (fun x => matching x)
          = (node.sources lower).find? (fun x => matching x)) := by
  by_cases container : s ∈ node.ofContainers lower
  · obtain ⟨v, record, brings⟩ := List.mem_filterMap.mp container
    let other : Node := { node with containers := v :: node.containers.erase v }
    refine ⟨other, ⟨(List.perm_cons_erase record).symm, .rfl, rfl⟩, fun matching _ => ?_⟩
    simp only [other, Node.sources, Node.ofContainers, Node.ofVms,
      List.filterMap_cons_some brings, List.cons_append, List.find?_cons, List.find?_append]
    constructor
    · rintro ⟨matches_s, -⟩
      simp [matches_s]
    · intro passed
      have differs : ¬ matching s := fun matches_s => passed ⟨matches_s, .inl container⟩
      rw [find?_filterMap_erase _ brings (by simpa using differs)]
      simp [differs]
  · have vm : s ∈ node.ofVms lower := (List.mem_append.mp known).resolve_left container
    obtain ⟨v, record, brings⟩ := List.mem_filterMap.mp vm
    let other : Node := { node with vms := v :: node.vms.erase v }
    refine ⟨other, ⟨.rfl, (List.perm_cons_erase record).symm, rfl⟩, fun matching _ => ?_⟩
    have found : (other.sources lower).find? (fun x => matching x)
        = ((node.ofContainers lower).find? fun x => matching x).or
          (if matching s then some s else (node.ofVms lower).find? fun x => matching x) := by
      simp only [other, Node.sources, Node.ofContainers, Node.ofVms,
        List.filterMap_cons_some brings, List.find?_cons, List.find?_append]
      by_cases matches_s : matching s
      · simp [matches_s]
      · rw [find?_filterMap_erase _ brings (by simpa using matches_s)]
        simp [matches_s]
    rw [found, Node.sources, List.find?_append]
    constructor
    · rintro ⟨matches_s, where_⟩
      have none : (node.ofContainers lower).find? (fun x => matching x) = none := by
        simpa using (where_.resolve_left container).2
      rw [none, if_pos matches_s, Option.none_or]
    · intro passed
      cases first : (node.ofContainers lower).find? fun x => matching x with
      | some t => rfl
      | none =>
          have nobody : ∀ x ∈ node.ofContainers lower, ¬ matching x := by simpa using first
          rw [if_neg fun matches_s => passed ⟨matches_s, .inr ⟨vm, nobody⟩⟩]

open Classical in
/-- The records in `front` are read first, in this order, by induction on it. -/
theorem exists_front (front : List Source) (known : ∀ x ∈ front, x ∈ node.sources lower)
    : ∃ other, Reordered node other ∧ ∀ (matching : Source → Prop) [DecidablePred matching],
      (other.sources lower).find? (fun x => matching x)
        = (front.find? fun x => node.MayLead lower matching x).or
          ((node.sources lower).find? fun x => matching x) := by
  induction front with
  | nil => exact ⟨node, .refl node, fun _ _ => rfl⟩
  | cons s front ih =>
      obtain ⟨s_known, known⟩ := List.forall_mem_cons.mp known
      obtain ⟨middle, order, ofFront⟩ := ih known
      obtain ⟨other, order', first⟩ := exists_first (order.sources.mem_iff.mpr s_known)
      refine ⟨other, order.trans order', fun matching _ => ?_⟩
      rw [List.find?_cons]
      by_cases leads : node.MayLead lower matching s
      · rw [(first matching).1 (order.mayLead_iff.mpr leads)]
        simp [leads]
      · rw [(first matching).2 (order.mayLead_iff.not.mpr leads), ofFront matching]
        simp [leads]

variable (client) in
theorem shows_leader (lookup : Lookup) : lookup.shows client (nsOf (some s)) s = true := by
  simp [Lookup.shows, nsOf, dnsScopeAllows, eqIgnoreAsciiCase]

theorem mem_sources_of_mayLead {matching : Source → Prop} (leads : node.MayLead lower matching s)
    : s ∈ node.sources lower :=
  List.mem_append.mpr (leads.2.imp_right And.left)

/-- For each lookup that is not decisive some record hides it, or nobody has its key. -/
theorem exists_shades {tried : List Lookup}
    (passed : ∀ lookup ∈ tried, ¬ node.Decisive lower client t lookup)
    : ∃ shades : List Source,
      (∀ h ∈ shades, h ∈ node.sources lower
        ∧ dnsScopeAllows h.entry (nsOf t) (client.getD 0) = false)
      ∧ ∀ lookup ∈ tried, (∀ s, ¬ node.MayHold lower client t lookup.key s)
        ∨ lookup.guarded = true ∧ ∃ h ∈ shades, node.MayHold lower client t lookup.key h := by
  induction tried with
  | nil =>
      refine ⟨[], ?_, ?_⟩ <;> exact fun _ member => absurd member List.not_mem_nil
  | cons lookup rest ih =>
      obtain ⟨head_passed, rest_passed⟩ := List.forall_mem_cons.mp passed
      obtain ⟨shades, hidden, each⟩ := ih rest_passed
      by_cases some_one : ∃ s, node.MayHold lower client t lookup.key s
      · obtain ⟨h, may, unseen⟩ : ∃ h, node.MayHold lower client t lookup.key h
            ∧ ¬ lookup.shows client (nsOf t) h = true := by
          by_contra all
          exact head_passed ⟨some_one, fun s may => by_contra fun unseen => all ⟨s, may, unseen⟩⟩
        have both : lookup.guarded = true
            ∧ dnsScopeAllows h.entry (nsOf t) (client.getD 0) = false := by
          simpa [Lookup.shows] using unseen
        refine ⟨h :: shades, ?_, ?_⟩
        · exact List.forall_mem_cons.mpr ⟨⟨mem_sources_of_mayLead may.1, both.2⟩, hidden⟩
        · refine List.forall_mem_cons.mpr ⟨.inr ⟨both.1, h, List.mem_cons_self, may⟩, ?_⟩
          intro l member
          refine (each l member).imp_right (.imp_right ?_)
          rintro ⟨x, x_in, x_may⟩
          exact ⟨x, List.mem_cons_of_mem _ x_in, x_may⟩
      · refine ⟨shades, hidden, List.forall_mem_cons.mpr ⟨.inl ?_, each⟩⟩
        exact not_exists.mp some_one

open Classical in
theorem leader_eq_find?
    : node.leader lower client = (node.sources lower).find? fun s => s.IsAt client := by
  cases client with
  | none => exact (List.find?_eq_none.mpr (by simp [Source.IsAt])).symm
  | some ip => simp [Node.leader, Source.IsAt, eq_comm]

open Classical in
/-- The hidden records, those at the client's address behind the one that is first there. -/
theorem exists_shade {shades : List Source} {h : Source} {key : Text}
    (unseen : ∀ h ∈ shades, dnsScopeAllows h.entry (nsOf t) (client.getD 0) = false)
    (h_in : h ∈ shades) (may : node.MayHold lower client t key h)
    : ∃ y ∈ shades, ((shades.filter fun h => ¬ h.IsAt client)
        ++ (t.toList ++ shades.filter fun h => h.IsAt client)).find?
          (fun x => node.MayLead lower (fun s => key ∈ s.keys) x) = some y := by
  have leads : decide (node.MayLead lower (fun s => key ∈ s.keys) h) = true :=
    decide_eq_true may.1
  rw [List.find?_append, List.find?_append]
  cases first : (shades.filter fun h => ¬ h.IsAt client).find?
      fun x => node.MayLead lower (fun s => key ∈ s.keys) x with
  | some y => exact ⟨y, (List.mem_filter.mp (List.mem_of_find?_eq_some first)).1, rfl⟩
  | none =>
      have at_h : h.IsAt client := by
        by_contra away
        have member : h ∈ shades.filter fun h => ¬ h.IsAt client :=
          List.mem_filter.mpr ⟨h_in, by simpa using away⟩
        exact List.find?_eq_none.mp first h member leads
      have none_t : (t.toList.find? fun x => node.MayLead lower (fun s => key ∈ s.keys) x)
          = none := by
        rw [List.find?_eq_none]
        intro x member x_leads
        obtain rfl := Option.mem_toList.mp member
        have same := may.2 at_h x rfl (of_decide_eq_true x_leads).1
        subst same
        have shown := shows_leader client (s := h) ⟨key, true⟩
        simp [Lookup.shows, unseen h h_in] at shown
      have near : h ∈ shades.filter fun h => h.IsAt client :=
        List.mem_filter.mpr ⟨h_in, decide_eq_true at_h⟩
      obtain ⟨y, found⟩ := Option.isSome_iff_exists.mp
        (List.find?_isSome (p := fun x => decide (node.MayLead lower (fun s => key ∈ s.keys) x))
          |>.mpr ⟨h, near, leads⟩)
      rw [none_t, found]
      exact ⟨y, (List.mem_filter.mp (List.mem_of_find?_eq_some found)).1, rfl⟩

open Classical in
/-- An order that starts with `lead` and in which the lookups that are not decisive are passed,
if they do not find a record of `lead`. Hidden records come before the one at the client's address
unless they are at that address themselves.
-/
theorem exists_passing {tried : List Lookup} (place : node.MayPlace lower client t)
    (passed : ∀ lookup ∈ tried, ¬ node.Decisive lower client t lookup) (lead : List Source)
    (known : ∀ x ∈ lead, x ∈ node.sources lower)
    (placed : ∀ x, (lead.find? fun x => node.MayLead lower (Source.IsAt client) x) = some x →
      t = some x)
    : ∃ other, Reordered node other ∧ other.leader lower client = t
      ∧ (∀ key x, (lead.find? fun x => node.MayLead lower (fun s => key ∈ s.keys) x) = some x →
        other.holder lower key = some x)
      ∧ ∀ lookup ∈ tried, ∀ x, other.holder lower lookup.key = some x →
        lookup.shows client (nsOf t) x = false ∨ x ∈ lead := by
  obtain ⟨shades, hidden, each⟩ := exists_shades passed
  let behind := (shades.filter fun h => ¬ h.IsAt client)
    ++ (t.toList ++ shades.filter fun h => h.IsAt client)
  have inside : ∀ x ∈ lead ++ behind, x ∈ node.sources lower := by
    intro x member
    simp only [behind, List.mem_append, Option.mem_toList] at member
    rcases member with member | member | rfl | member
    · exact known x member
    · exact (hidden x (List.mem_filter.mp member).1).1
    · exact mem_sources_of_mayLead place
    · exact (hidden x (List.mem_filter.mp member).1).1
  obtain ⟨other, order, found⟩ := exists_front _ inside
  have leads_t : other.leader lower client = t := by
    rw [leader_eq_find?]
    cases t with
    | none =>
        rw [List.find?_eq_none]
        intro x member at_x
        exact place x (order.sources.mem_iff.mp member) (of_decide_eq_true at_x)
    | some t =>
        have away : ((shades.filter fun h => ¬ h.IsAt client).find?
            fun x => node.MayLead lower (Source.IsAt client) x) = none := by
          rw [List.find?_eq_none]
          intro x member leads
          exact of_decide_eq_true (List.mem_filter.mp member).2 (of_decide_eq_true leads).1
        have leads : decide (node.MayLead lower (Source.IsAt client) t) = true :=
          decide_eq_true place
        rw [found, List.find?_append, List.find?_append, away]
        cases first : lead.find? fun x => node.MayLead lower (Source.IsAt client) x with
        | some x => rw [placed x first]; rfl
        | none => simp [leads]
  refine ⟨other, order, leads_t, ?_, ?_⟩
  · intro key x first
    rw [Node.holder, found, List.find?_append, first]
    rfl
  · intro lookup member x holds
    rcases each lookup member with nobody | ⟨guarded, h, h_in, may⟩
    · have may := mayHold_of_holder client holds
      rw [leads_t] at may
      exact absurd ⟨order.mayLead_iff.mp may.1, may.2⟩ (nobody x)
    · obtain ⟨y, y_in, shade⟩ := exists_shade (fun h h_in => (hidden h h_in).2) h_in may
      rw [Node.holder, found, List.find?_append, shade] at holds
      cases first : lead.find? fun x => node.MayLead lower (fun s => lookup.key ∈ s.keys) x with
      | some z =>
          rw [first] at holds
          cases holds
          exact .inr (List.mem_of_find?_eq_some first)
      | none =>
          rw [first] at holds
          cases holds
          exact .inl (by simp [Lookup.shows, guarded, (hidden _ y_in).2])

theorem answerOf_passed {ns : Text} {tried : List Lookup}
    (hidden : ∀ lookup ∈ tried, ∀ x, node.holder lower lookup.key = some x →
      lookup.shows client ns x = false)
    : node.answerOf lower client ns tried = none := by
  induction tried with
  | nil => rfl
  | cons lookup rest ih =>
      obtain ⟨here, later⟩ := List.forall_mem_cons.mp hidden
      rw [Node.answerOf]
      cases holds : node.holder lower lookup.key with
      | none => exact ih later
      | some x => simp [here x holds, ih later]

/-- A lookup that answers, behind others that are hidden or have the same address. -/
theorem answerOf_first {ns : Text} {before after : List Lookup} {lookup : Lookup}
    (holds : node.holder lower lookup.key = some s) (shown : lookup.shows client ns s = true)
    (earlier : ∀ lookup ∈ before, ∀ x, node.holder lower lookup.key = some x →
      lookup.shows client ns x = false ∨ x.entry.ip = s.entry.ip)
    : node.answerOf lower client ns (before ++ lookup :: after) = some s.entry.ip := by
  induction before with
  | nil => simp [Node.answerOf, holds, shown]
  | cons head rest ih =>
      obtain ⟨here, later⟩ := List.forall_mem_cons.mp earlier
      rw [List.cons_append, Node.answerOf]
      cases found : node.holder lower head.key with
      | none => exact ih later
      | some x =>
          dsimp only
          split
          case isTrue shows_x =>
            rw [(here x found).resolve_left (by simp [shows_x])]
          case isFalse => exact ih later

theorem resolve_eq_of_leader (order : Reordered node other) (leads : other.leader lower client = t)
    (name : Text)
    : dnsResolveFor lower (buildDnsIndex lower other) name client
      = other.answerOf lower client (nsOf t) (lookups lower node (nsOf t) name) := by
  rw [resolve_eq_answerOf, clientNs_eq, leads, order.lookups_eq]

/-- Where no lookup is decisive, some order leaves the name without an answer. -/
theorem exists_order_unanswered (place : node.MayPlace lower client t) {name : Text}
    (passed : ∀ lookup ∈ lookups lower node (nsOf t) name, ¬ node.Decisive lower client t lookup)
    : ∃ other, Reordered node other
      ∧ dnsResolveFor lower (buildDnsIndex lower other) name client = none := by
  obtain ⟨other, order, leads, -, hidden⟩ := exists_passing place passed []
    (fun _ member => absurd member List.not_mem_nil) (fun _ none => nomatch none)
  refine ⟨other, order, ?_⟩
  rw [resolve_eq_of_leader order leads]
  exact answerOf_passed fun lookup member x holds =>
    (hidden lookup member x holds).resolve_right List.not_mem_nil

/-- A record that may be the one a name is answered with is, in some order. One at the client's
address is read behind the first record there.
-/
theorem exists_order_answered (place : node.MayPlace lower client t) {name : Text}
    (may : node.MayAnswer lower client t (lookups lower node (nsOf t) name) s)
    : ∃ other, Reordered node other
      ∧ dnsResolveFor lower (buildDnsIndex lower other) name client = some s.entry.ip := by
  obtain ⟨before, lookup, after, split, passed, holds, shown⟩ := may
  have known := mem_sources_of_mayLead holds.1
  by_cases at_s : s.IsAt client
  · cases t with
    | none => exact absurd at_s (place s known)
    | some t =>
        obtain ⟨other, order, leads, front, hidden⟩ := exists_passing place passed [t, s]
          (by simp [known, mem_sources_of_mayLead place])
          (by simp [show node.MayLead lower (Source.IsAt client) t from place])
        refine ⟨other, order, ?_⟩
        rw [resolve_eq_of_leader order leads, split]
        refine answerOf_first (front _ _ ?_) shown ?_
        · by_cases has : lookup.key ∈ t.keys
          · simp [← holds.2 at_s t rfl has, holds.1]
          · have passes : ¬ node.MayLead lower (fun s => lookup.key ∈ s.keys) t :=
              fun leads => has leads.1
            simp [passes, holds.1]
        · intro earlier member x found
          refine (hidden earlier member x found).imp_right fun lead => ?_
          have same : t.entry.ip = s.entry.ip := Option.some.inj (place.1.symm.trans at_s)
          rcases List.mem_cons.mp lead with rfl | lead
          · exact same
          · rw [List.mem_singleton.mp lead]
  · obtain ⟨other, order, leads, front, hidden⟩ := exists_passing place passed [s]
      (by simp [known]) (by
        intro x found
        simp [Node.MayLead, at_s] at found)
    refine ⟨other, order, ?_⟩
    rw [resolve_eq_of_leader order leads, split]
    refine answerOf_first (front _ _ (by simp [holds.1])) shown ?_
    intro earlier member x found
    refine (hidden earlier member x found).imp_right fun lead => ?_
    rw [List.mem_singleton.mp lead]

theorem exists_order_leader (place : node.MayPlace lower client t)
    : ∃ other, Reordered node other ∧ other.clientNs lower client = nsOf t := by
  obtain ⟨other, order, leads, -⟩ := @exists_passing _ _ _ _ [] place
    (fun _ member => absurd member List.not_mem_nil) []
    (fun _ member => absurd member List.not_mem_nil) (fun _ none => nomatch none)
  exact ⟨other, order, leads ▸ clientNs_eq⟩

end

/-- For every set of records, every client and every name: the order in which the records are read
does not matter, and a name that a visible record bears resolves, exactly when the records that
may come first under the name's keys and at the client's address settle the answer.
-/
theorem steady_iff_settled (lower : Text → Text) (node : Node) (client : Option Ip) (name : Text)
    : Steady lower node client name ↔ Settled lower node client name := by
  constructor
  · intro steady
    have agree {other other' : Node} (order : Reordered node other)
        (order' : Reordered node other')
        : dnsResolveFor lower (buildDnsIndex lower other) name client
          = dnsResolveFor lower (buildDnsIndex lower other') name client :=
      (steady.same other order).trans (steady.same other' order').symm
    constructor
    · intro t t' s s' place place' may may'
      obtain ⟨other, order, answer⟩ := exists_order_answered place may
      obtain ⟨other', order', answer'⟩ := exists_order_answered place' may'
      exact Option.some.inj (answer.symm.trans ((agree order order').trans answer'))
    · intro t t' place place' answered
      by_contra undecided
      obtain ⟨other', order', unanswered⟩ := exists_order_unanswered place'
        (fun lookup member decisive => undecided ⟨lookup, member, decisive⟩)
      rcases answered with ⟨s, may⟩ | bearer
      · obtain ⟨other, order, answer⟩ := exists_order_answered place may
        exact absurd (answer.symm.trans ((agree order order').trans unanswered)) (by simp)
      · obtain ⟨other, order, ns⟩ := exists_order_leader place
        have resolved := steady.resolves other order (ns ▸ order.seenBearer_iff.mpr bearer)
        rw [agree order order', unanswered] at resolved
        cases resolved
  · intro settled
    constructor
    · intro other order
      obtain ⟨t, place, -, here⟩ := resolve_cases client order name
      obtain ⟨t', place', -, there⟩ := resolve_cases client (.refl node) name
      rcases here with ⟨s, may, answer⟩ | ⟨passed, answer⟩ <;>
        rcases there with ⟨s', may', answer'⟩ | ⟨passed', answer'⟩ <;> rw [answer, answer']
      · rw [settled.one t t' s s' place place' may may']
      · obtain ⟨lookup, member, decisive⟩ := settled.found t t' place place' (.inl ⟨s, may⟩)
        exact absurd decisive (passed' lookup member)
      · obtain ⟨lookup, member, decisive⟩ := settled.found t' t place' place (.inl ⟨s', may'⟩)
        exact absurd decisive (passed lookup member)
    · intro other order bearer
      obtain ⟨t, place, ns, ⟨s, -, answer⟩ | ⟨passed, -⟩⟩ :=
        resolve_cases client order name
      · rw [answer]
        rfl
      · rw [ns, order.seenBearer_iff] at bearer
        obtain ⟨lookup, member, decisive⟩ := settled.found t t place place (.inr bearer)
        exact absurd decisive (passed lookup member)

/-- Both another tenant and the shared namespace have a `db`. -/
def twoDbs : Node where
  containers := [running "db" "teama" "10.0.0.1" [], running "db" "default" "10.0.0.2" [],
    running "app" "teamb" "10.0.0.5" []]
  vms := []
  neigh := []

/-- The same records, the shared `db` first. -/
def sharedFirst : Node where
  containers := [running "db" "default" "10.0.0.2" [], running "db" "teama" "10.0.0.1" [],
    running "app" "teamb" "10.0.0.5" []]
  vms := []
  neigh := []

/-- The third tenant's answer depends on which `db` is listed first, and in one order the shared
one does not resolve. No two records have a name and a namespace in common.
-/
theorem shared_name_hidden
    : Reordered sharedFirst twoDbs
      ∧ (twoDbs.containers.map fun v => (v.name, v.ns)).Nodup
      ∧ dnsResolveFor asciiLower (buildDnsIndex asciiLower sharedFirst) "db".toList
        (some (addr 10 0 0 5)) = some (addr 10 0 0 2)
      ∧ dnsResolveFor asciiLower (buildDnsIndex asciiLower twoDbs) "db".toList
        (some (addr 10 0 0 5)) = none
      ∧ ¬ Steady asciiLower twoDbs (some (addr 10 0 0 5)) "db".toList := by
  have order : Reordered sharedFirst twoDbs := ⟨.swap _ _ _, .rfl, rfl⟩
  have back : Reordered twoDbs sharedFirst := ⟨.swap _ _ _, .rfl, rfl⟩
  have answered : dnsResolveFor asciiLower (buildDnsIndex asciiLower sharedFirst) "db".toList
      (some (addr 10 0 0 5)) = some (addr 10 0 0 2) := by decide
  have unanswered : dnsResolveFor asciiLower (buildDnsIndex asciiLower twoDbs) "db".toList
      (some (addr 10 0 0 5)) = none := by decide
  refine ⟨order, by decide, answered, unanswered, ?_⟩
  intro steady
  have same := steady.same sharedFirst back
  rw [answered, unanswered] at same
  cases same

end Delonix.Dns
