import Mathlib.Data.List.Chain
import Mathlib.Data.List.Induction
import Mathlib.Logic.Relation
import Std.Data.ExtTreeMap

/-! Records that take what they lack from another record of the same table. They are resolved in
place, each behind the one it takes from; what is stored in the end does not depend on the order.
-/

namespace Delonix.Library.Inheritance

variable {κ V : Type} {cmp : κ → κ → Ordering}

/-- Which record another one takes from, and what is made of the two. A combined record takes from
none.
-/
structure Scheme (κ V : Type) where
  link : V → Option κ
  combine : V → V → V
  consumed : ∀ base child, link (combine base child) = none

inductive Failure (κ : Type) where
  | undefined (name base : κ)
  | cycle (chain : List κ)
  /-- A record that was there a moment before is not. -/
  | gone (name : κ)
deriving DecidableEq

section Resolving

variable [DecidableEq κ] [Std.TransCmp cmp]

theorem length_filter_chain {keys chain : List κ} {base : κ} (there : base ∈ keys)
    (off : base ∉ chain)
    : (keys.filter fun k => decide (k ∉ chain ++ [base])).length
      < (keys.filter fun k => decide (k ∉ chain)).length := by
  have split : (keys.filter fun k => decide (k ∉ chain ++ [base]))
      = (keys.filter fun k => decide (k ∉ chain)).filter fun k => decide (k ≠ base) := by
    rw [List.filter_filter]
    refine List.filter_congr fun k _ => ?_
    simp [and_comm]
  rw [split]
  refine List.length_filter_lt_length_iff_exists.mpr ⟨base, ?_, by simp⟩
  exact List.mem_filter.mpr ⟨there, by simpa using off⟩

/-- Resolves one record, behind the records of the chain, the last of which it is. -/
def resolveOne [Std.LawfulEqCmp cmp] (scheme : Scheme κ V) (records : Std.ExtTreeMap κ V cmp)
    (name : κ) (chain : List κ) : Except (Failure κ) (Std.ExtTreeMap κ V cmp) :=
  match records[name]?.bind scheme.link with
  | none => .ok records
  | some base =>
      if _there : base ∈ records then
        if _on : base ∈ chain then .error (.cycle (chain ++ [base]))
        else do
          let records ← resolveOne scheme records base (chain ++ [base])
          match records[base]?, records[name]? with
          | some resolved, some child => .ok (records.insert name (scheme.combine resolved child))
          | none, _ => .error (.gone base)
          | _, none => .error (.gone name)
      else .error (.undefined name base)
termination_by (records.keys.filter fun k => decide (k ∉ chain)).length
decreasing_by exact length_filter_chain (Std.ExtTreeMap.mem_keys.mpr _there) _on

def resolveAll [Std.LawfulEqCmp cmp] (scheme : Scheme κ V) (records : Std.ExtTreeMap κ V cmp)
    (names : List κ) : Except (Failure κ) (Std.ExtTreeMap κ V cmp) :=
  names.foldlM (fun records name => resolveOne scheme records name [name]) records

end Resolving

section Meaning

variable [Std.TransCmp cmp] (scheme : Scheme κ V) (records : Std.ExtTreeMap κ V cmp)

/-- What a record is in the end: itself, or what is made of it and the record it takes from. -/
inductive Resolves : κ → V → Prop
  | own {k : κ} {v : V} (declared : records[k]? = some v) (alone : scheme.link v = none)
      : Resolves k v
  | inherited {k b : κ} {v base : V} (declared : records[k]? = some v)
      (link : scheme.link v = some b) (resolves : Resolves b base)
      : Resolves k (scheme.combine base v)

/-- One record takes from another. -/
def Links (a b : κ) : Prop := ∃ v, records[a]? = some v ∧ scheme.link v = some b

/-- A failure names a link that leads nowhere, or a path of links that meets itself. -/
def Failure.Real : Failure κ → Prop
  | .undefined name base => Links scheme records name base ∧ base ∉ records
  | .cycle chain =>
      chain.IsChain (Links scheme records) ∧ ∃ before b, chain = before ++ [b] ∧ b ∈ before
  | .gone _ => False

end Meaning

section Laws

variable [Std.TransCmp cmp] {scheme : Scheme κ V} {records current : Std.ExtTreeMap κ V cmp}

theorem Resolves.link_eq {k : κ} {v : V} (resolves : Resolves scheme records k v)
    : scheme.link v = none := by
  cases resolves with
  | own _ alone => exact alone
  | inherited => exact scheme.consumed _ _

theorem Resolves.unique {k : κ} {v w : V} (one : Resolves scheme records k v)
    (other : Resolves scheme records k w) : v = w := by
  induction one generalizing w with
  | own declared alone =>
      cases other with
      | own declared' => exact Option.some.inj (declared.symm.trans declared')
      | inherited declared' link =>
          cases Option.some.inj (declared.symm.trans declared')
          cases alone.symm.trans link
  | inherited declared link _ ih =>
      cases other with
      | own declared' alone =>
          cases Option.some.inj (declared.symm.trans declared')
          cases alone.symm.trans link
      | inherited declared' link' resolves =>
          cases Option.some.inj (declared.symm.trans declared')
          cases Option.some.inj (link.symm.trans link')
          rw [ih resolves]

theorem Links.unique {a b c : κ} (one : Links scheme records a b)
    (other : Links scheme records a c) : b = c := by
  obtain ⟨v, declared, link⟩ := one
  obtain ⟨w, declared', link'⟩ := other
  cases Option.some.inj (declared.symm.trans declared')
  exact Option.some.inj (link.symm.trans link')

/-- What a resolved record takes from is resolved too. -/
theorem Resolves.of_links {a b : κ} {v : V} (resolves : Resolves scheme records a v)
    (links : Links scheme records a b) : ∃ base, Resolves scheme records b base := by
  cases resolves with
  | own declared alone =>
      obtain ⟨w, declared', link⟩ := links
      cases Option.some.inj (declared.symm.trans declared')
      cases alone.symm.trans link
  | inherited declared link resolves =>
      cases Links.unique ⟨_, declared, link⟩ links
      exact ⟨_, resolves⟩

theorem Resolves.mem {k : κ} {v : V} (resolves : Resolves scheme records k v) : k ∈ records := by
  cases resolves with
  | own declared => exact Std.ExtTreeMap.mem_iff_isSome_getElem?.mpr (by rw [declared]; rfl)
  | inherited declared =>
      exact Std.ExtTreeMap.mem_iff_isSome_getElem?.mpr (by rw [declared]; rfl)

/-- Links do not lead back to a resolved record. -/
theorem Resolves.acyclic {k : κ} {v : V} (resolves : Resolves scheme records k v)
    : ¬ Relation.TransGen (Links scheme records) k k := by
  induction resolves with
  | own declared alone =>
      intro back
      obtain ⟨b, links, -⟩ := Relation.TransGen.head'_iff.mp back
      obtain ⟨w, declared', link⟩ := links
      cases Option.some.inj (declared.symm.trans declared')
      cases alone.symm.trans link
  | inherited declared link _ ih =>
      intro back
      have first : Links scheme records _ _ := ⟨_, declared, link⟩
      obtain ⟨c, links, rest⟩ := Relation.TransGen.head'_iff.mp back
      cases Links.unique first links
      exact ih (Relation.TransGen.tail' rest first)

/-- A path that ends at one of its places goes round. -/
theorem transGen_of_chain {before : List κ} {b : κ}
    (chain : (before ++ [b]).IsChain (Links scheme records)) (on : b ∈ before)
    : Relation.TransGen (Links scheme records) b b := by
  obtain ⟨front, path, rfl⟩ := List.append_of_mem on
  rw [List.append_assoc] at chain
  have round : (b :: (path ++ [b])).IsChain (Links scheme records) := chain.right_of_append
  cases path with
  | nil =>
      exact .single (List.isChain_cons_cons.mp round).1
  | cons next path =>
      obtain ⟨links, rest⟩ := List.isChain_cons_cons.mp round
      refine Relation.TransGen.head' links ?_
      exact List.relationReflTransGen_of_exists_isChain_cons (path ++ [b]) rest (by simp)

theorem Links.mem {a b : κ} (links : Links scheme records a b) : a ∈ records := by
  obtain ⟨v, declared, -⟩ := links
  exact Std.ExtTreeMap.mem_iff_isSome_getElem?.mpr (by rw [declared]; rfl)

/-- Behind a failure there is a record that has no meaning. -/
theorem Failure.Real.not_resolves {failure : Failure κ} (real : failure.Real scheme records)
    : ∃ k ∈ records, ∀ v, ¬ Resolves scheme records k v := by
  cases failure with
  | undefined name base =>
      obtain ⟨links, absent⟩ := real
      refine ⟨name, links.mem, fun v resolves => ?_⟩
      obtain ⟨w, found⟩ := resolves.of_links links
      exact absent found.mem
  | cycle chain =>
      obtain ⟨path, before, b, rfl, on⟩ := real
      have round := transGen_of_chain path on
      obtain ⟨c, links, -⟩ := Relation.TransGen.head'_iff.mp round
      exact ⟨b, links.mem, fun v resolves => resolves.acyclic round⟩
  | gone name => exact real.elim

/-- Some records are stored as what they are in the end, the others as they were. -/
def Partly (scheme : Scheme κ V) (records current : Std.ExtTreeMap κ V cmp) : Prop :=
  ∀ k, current[k]? = records[k]? ∨ ∃ v, current[k]? = some v ∧ Resolves scheme records k v

theorem Partly.refl (scheme : Scheme κ V) (records : Std.ExtTreeMap κ V cmp)
    : Partly scheme records records :=
  fun _ => .inl rfl

/-- A record that still takes from another one is as it was. -/
theorem Partly.declared (partly : Partly scheme records current) {k b : κ} {v : V}
    (now : current[k]? = some v) (link : scheme.link v = some b) : records[k]? = some v := by
  rcases partly k with same | ⟨w, stored, resolves⟩
  · exact same.symm.trans now
  · cases Option.some.inj (stored.symm.trans now)
    cases resolves.link_eq.symm.trans link

theorem Partly.mem_iff (partly : Partly scheme records current) (k : κ)
    : k ∈ current ↔ k ∈ records := by
  rw [Std.ExtTreeMap.mem_iff_isSome_getElem?, Std.ExtTreeMap.mem_iff_isSome_getElem?]
  rcases partly k with same | ⟨w, stored, resolves⟩
  · rw [same]
  · rw [stored, ← Std.ExtTreeMap.mem_iff_isSome_getElem?]
    exact ⟨fun _ => resolves.mem, fun _ => rfl⟩

theorem Partly.links (partly : Partly scheme records current) {a b : κ}
    (links : Links scheme current a b) : Links scheme records a b := by
  obtain ⟨v, now, link⟩ := links
  exact ⟨v, partly.declared now link, link⟩

/-- A record that takes from none any more is stored as what it is in the end. -/
theorem Partly.settled (partly : Partly scheme records current) {k : κ} {v : V}
    (now : current[k]? = some v) (alone : scheme.link v = none) : Resolves scheme records k v := by
  rcases partly k with same | ⟨w, stored, resolves⟩
  · exact .own (same.symm.trans now) alone
  · cases Option.some.inj (stored.symm.trans now)
    exact resolves

theorem Partly.resolves (partly : Partly scheme records current) {k : κ} {v : V}
    (resolves : Resolves scheme current k v) : Resolves scheme records k v := by
  induction resolves with
  | own now alone => exact partly.settled now alone
  | inherited now link _ ih => exact .inherited (partly.declared now link) link ih

theorem Partly.trans {later : Std.ExtTreeMap κ V cmp} (partly : Partly scheme records current)
    (next : Partly scheme current later) : Partly scheme records later := by
  intro k
  rcases next k with same | ⟨v, stored, resolves⟩
  · rw [same]
    exact partly k
  · exact .inr ⟨v, stored, partly.resolves resolves⟩

theorem Partly.real (partly : Partly scheme records current) {failure : Failure κ}
    (real : failure.Real scheme current) : failure.Real scheme records := by
  cases failure with
  | undefined name base =>
      exact ⟨partly.links real.1, fun there => real.2 ((partly.mem_iff base).mpr there)⟩
  | cycle chain => exact ⟨real.1.imp fun _ _ links => partly.links links, real.2⟩
  | gone name => exact real.elim

end Laws

section Whole

variable [DecidableEq κ] [Std.TransCmp cmp] [Std.LawfulEqCmp cmp] {scheme : Scheme κ V}

variable (scheme) in
/-- One record resolved: the table is partly resolved, this record is, and the others of the chain
are as they were. By induction on the records that the chain leaves.
-/
theorem resolveOne_spec (records : Std.ExtTreeMap κ V cmp) (name : κ) (chain : List κ)
    (path : chain.IsChain (Links scheme records)) (ends : chain.getLast? = some name)
    : (∃ current, resolveOne scheme records name chain = .ok current
        ∧ Partly scheme records current
        ∧ (∀ v, current[name]? = some v → scheme.link v = none)
        ∧ ∀ k ∈ chain, k ≠ name → current[k]? = records[k]?)
      ∨ ∃ failure, resolveOne scheme records name chain = .error failure
        ∧ failure.Real scheme records := by
  induction left : (records.keys.filter fun k => decide (k ∉ chain)).length
    using Nat.strong_induction_on generalizing name chain with
  | _ left ih =>
      rw [resolveOne]
      rcases linked : records[name]?.bind scheme.link with _ | base
      · refine .inl ⟨records, rfl, .refl scheme records, fun v now => ?_, fun k _ _ => rfl⟩
        rwa [now] at linked
      obtain ⟨child, declared, link⟩ := Option.bind_eq_some_iff.mp linked
      have links : Links scheme records name base := ⟨child, declared, link⟩
      by_cases there : base ∈ records
      case neg => exact .inr ⟨_, dif_neg there, links, there⟩
      have longer : (chain ++ [base]).IsChain (Links scheme records) := by
        refine List.isChain_append.mpr ⟨path, .singleton base, ?_⟩
        intro a last b first
        rw [ends] at last
        cases last
        cases first
        exact links
      by_cases on : base ∈ chain
      case pos => exact .inr ⟨_, (dif_pos there).trans (dif_pos on), longer, chain, base, rfl, on⟩
      simp only [dif_pos there, dif_neg on, bind, Except.bind]
      have fewer := length_filter_chain (Std.ExtTreeMap.mem_keys.mpr there) on
      rcases ih _ (left ▸ fewer) base (chain ++ [base]) longer (by simp) rfl with
        ⟨current, is, partly, settled, kept⟩ | ⟨failure, is, real⟩
      case inr => exact .inr ⟨failure, by rw [is], real⟩
      have off (k : κ) (member : k ∈ chain) : k ≠ base := fun same => on (same ▸ member)
      have own : name ∈ chain := List.mem_of_getLast? ends
      obtain ⟨resolved, stored⟩ : ∃ resolved, current[base]? = some resolved :=
        Option.isSome_iff_exists.mp
          (Std.ExtTreeMap.mem_iff_isSome_getElem?.mp ((partly.mem_iff base).mpr there))
      have waiting : current[name]? = some child := by
        rw [kept name (List.mem_append_left _ own) (off name own), declared]
      have resolves : Resolves scheme records name (scheme.combine resolved child) :=
        .inherited declared link (partly.settled stored (settled resolved stored))
      simp only [is, stored, waiting]
      refine .inl ⟨_, rfl, fun k => ?_, fun v now => ?_, fun k member other => ?_⟩
      · rw [Std.ExtTreeMap.getElem?_insert]
        split
        case isTrue same =>
          cases Std.LawfulEqCmp.compare_eq_iff_eq.mp same
          exact .inr ⟨_, rfl, resolves⟩
        case isFalse => exact partly k
      · rw [Std.ExtTreeMap.getElem?_insert_self] at now
        cases now
        exact scheme.consumed resolved child
      · rw [Std.ExtTreeMap.getElem?_insert, if_neg]
        · exact kept k (List.mem_append_left _ member) (off k member)
        · exact fun same => other (Std.LawfulEqCmp.compare_eq_iff_eq.mp same).symm

variable (scheme) in
/-- By induction on the names: each turn finds a partly resolved table and leaves one, in which
what was settled stays so.
-/
theorem resolveAll_spec (names : List κ) (records : Std.ExtTreeMap κ V cmp)
    : (∃ current, resolveAll scheme records names = .ok current
        ∧ Partly scheme records current
        ∧ ∀ k ∈ names, ∀ v, current[k]? = some v → scheme.link v = none)
      ∨ ∃ failure, resolveAll scheme records names = .error failure
        ∧ failure.Real scheme records := by
  induction names generalizing records with
  | nil => exact .inl ⟨records, rfl, .refl scheme records, by simp⟩
  | cons name names ih =>
      rw [resolveAll, List.foldlM_cons]
      rcases resolveOne_spec scheme records name [name] (.singleton name) rfl with
        ⟨current, is, partly, settled, -⟩ | ⟨failure, is, real⟩
      case inr => exact .inr ⟨failure, by rw [is]; rfl, real⟩
      rcases ih current with ⟨later, rest, next, others⟩ | ⟨failure, rest, real⟩
      case inr => exact .inr ⟨failure, by rw [is]; exact rest, partly.real real⟩
      refine .inl ⟨later, by rw [is]; exact rest, partly.trans next, fun k member v stored => ?_⟩
      rcases List.mem_cons.mp member with rfl | later_
      · rcases next k with same | ⟨w, now, resolves⟩
        · exact settled v (same.symm.trans stored)
        · cases Option.some.inj (now.symm.trans stored)
          exact resolves.link_eq
      · exact others k later_ v stored

variable (scheme) in
/-- In whichever order the records are resolved, and however often, each is stored as what it is in
the end; or some record has no meaning, and the failure shows a reason.
-/
theorem resolveAll_resolves (records : Std.ExtTreeMap κ V cmp) {names : List κ}
    (all : ∀ k ∈ records, k ∈ names)
    : (∃ current, resolveAll scheme records names = .ok current
        ∧ (∀ k v, current[k]? = some v ↔ Resolves scheme records k v)
        ∧ ∀ k ∈ records, ∃ v, Resolves scheme records k v)
      ∨ ∃ failure, resolveAll scheme records names = .error failure
        ∧ failure.Real scheme records
        ∧ ∃ k ∈ records, ∀ v, ¬ Resolves scheme records k v := by
  rcases resolveAll_spec scheme names records with
    ⟨current, is, partly, settled⟩ | ⟨failure, is, real⟩
  · have stored (k : κ) (there : k ∈ records)
        : ∃ v, current[k]? = some v ∧ Resolves scheme records k v := by
      obtain ⟨v, now⟩ : ∃ v, current[k]? = some v := Option.isSome_iff_exists.mp
        (Std.ExtTreeMap.mem_iff_isSome_getElem?.mp ((partly.mem_iff k).mpr there))
      exact ⟨v, now, partly.settled now (settled k (all k there) v now)⟩
    refine .inl ⟨current, is, fun k v => ⟨fun now => ?_, fun resolves => ?_⟩, fun k there => ?_⟩
    · have there : k ∈ current := Std.ExtTreeMap.mem_iff_isSome_getElem?.mpr (by rw [now]; rfl)
      have named := all k ((partly.mem_iff k).mp there)
      exact partly.settled now (settled k named v now)
    · obtain ⟨w, now, other⟩ := stored k resolves.mem
      rw [resolves.unique other]
      exact now
    · exact (stored k there).imp fun _ both => both.2
  · exact .inr ⟨failure, is, real, real.not_resolves⟩

end Whole

section Lineages

variable [Std.TransCmp cmp] (scheme : Scheme κ V) (records : Std.ExtTreeMap κ V cmp)

/-- A record, and in front of it all that it takes from, the farthest first. -/
inductive Lineage : κ → V → List V → Prop
  | root {k : κ} {v : V} (declared : records[k]? = some v) (alone : scheme.link v = none)
      : Lineage k v []
  | heir {k b : κ} {v farthest : V} {rest : List V} (declared : records[k]? = some v)
      (link : scheme.link v = some b) (lineage : Lineage b farthest rest)
      : Lineage k farthest (rest ++ [v])

variable {scheme records}

/-- A record is in the end what its lineage adds up to. -/
theorem resolves_iff_lineage {k : κ} {v : V}
    : Resolves scheme records k v
      ↔ ∃ farthest rest, Lineage scheme records k farthest rest
        ∧ rest.foldl scheme.combine farthest = v := by
  constructor
  · intro resolves
    induction resolves with
    | own declared alone => exact ⟨_, [], .root declared alone, rfl⟩
    | inherited declared link _ ih =>
        obtain ⟨farthest, rest, lineage, rfl⟩ := ih
        exact ⟨farthest, _, .heir declared link lineage, List.foldl_append⟩
  · intro found
    obtain ⟨farthest, rest, lineage, rfl⟩ := found
    induction lineage with
    | root declared alone => exact .own declared alone
    | heir declared link _ ih =>
        rw [List.foldl_append]
        exact .inherited declared link ih

end Lineages

section Fields

variable {combine : V → V → V} {α : Type}

/-- A field that a record only takes when it has none is that of the nearest one that has it. -/
theorem foldl_nearest {field : V → Option α}
    (overrides : ∀ base child, field (combine base child) = (field child).or (field base))
    (farthest : V) (rest : List V)
    : field (rest.foldl combine farthest) = (farthest :: rest).reverse.findSome? field := by
  induction rest using List.reverseRecOn with
  | nil => rw [List.reverse_singleton, List.findSome?_singleton, List.foldl_nil]
  | append_singleton rest record ih =>
      rw [List.foldl_append, List.foldl_cons, List.foldl_nil, overrides, ih, ← List.cons_append,
        List.reverse_append, List.reverse_singleton, List.singleton_append, List.findSome?_cons]
      cases field record <;> rfl

/-- A field that is added to is that of all of them, the farthest first. -/
theorem foldl_joined {field : V → List α}
    (joins : ∀ base child, field (combine base child) = field base ++ field child)
    (farthest : V) (rest : List V)
    : field (rest.foldl combine farthest) = (farthest :: rest).flatMap field := by
  induction rest using List.reverseRecOn with
  | nil => rw [List.flatMap_singleton, List.foldl_nil]
  | append_singleton rest record ih =>
      rw [List.foldl_append, List.foldl_cons, List.foldl_nil, joins, ih, ← List.cons_append,
        List.flatMap_append, List.flatMap_singleton]

/-- A field that is never taken is the last one's own. -/
theorem foldl_own {field : V → α} (own : ∀ base child, field (combine base child) = field child)
    (farthest : V) (rest : List V)
    : field (rest.foldl combine farthest) = field (rest.getLastD farthest) := by
  induction rest using List.reverseRecOn with
  | nil => rfl
  | append_singleton rest record _ =>
      rw [List.foldl_append, List.foldl_cons, List.foldl_nil, own, List.getLastD_concat]

/-- A mark stays. -/
theorem foldl_marked {field : V → Bool}
    (marks : ∀ base child, field (combine base child) = (field base || field child))
    (farthest : V) (rest : List V)
    : field (rest.foldl combine farthest) = (farthest :: rest).any field := by
  induction rest using List.reverseRecOn with
  | nil => simp
  | append_singleton rest record ih =>
      rw [List.foldl_append, List.foldl_cons, List.foldl_nil, marks, ih, ← List.cons_append,
        List.any_append]
      simp

end Fields

end Delonix.Library.Inheritance
