import Delonix.Networking.Fingerprint

/-! When the fingerprint of an observed state, and with it the digest of a plan, tells the state
from every other one and from none of its own reorderings.
-/

namespace Delonix.Networking

open Delonix.Library.Json
open Delonix.Library.Sorting
open Delonix.Library.Text

-----------------------------------------------------------------------------------------
-- The same state
-----------------------------------------------------------------------------------------

/-- An alias, whatever the order of its content. -/
def GatewayAlias.form (a : GatewayAlias) : String × AliasKind × Multiset String × String :=
  (a.name, a.kind, a.content, a.description)

/-- A rule, whatever the case of its protocol. -/
def GatewayRule.form (r : GatewayRule) : GatewayRule :=
  { r with protocol := r.protocol.map toAsciiUppercase }

/-- The rules of a gateway, each with whether it is disabled. -/
def GatewayObserved.flagged (o : GatewayObserved) : List (GatewayRule × Bool) :=
  o.rules.map fun r => (r, o.disabledRules.contains r.description)

structure GatewayObserved.Reordered (a b : GatewayObserved) : Prop where
  aliases : (a.aliases.map GatewayAlias.form).Perm (b.aliases.map GatewayAlias.form)
  rules : a.rules.Perm b.rules
  disabledRules : a.disabledRules.Perm b.disabledRules

structure GatewayObserved.Same (a b : GatewayObserved) : Prop where
  aliases : (a.aliases.map GatewayAlias.form).Perm (b.aliases.map GatewayAlias.form)
  rules : (a.flagged.map fun r => (r.1.form, r.2)).Perm (b.flagged.map fun r => (r.1.form, r.2))

def NatRule.form (r : NatRule) : NatRule :=
  { r with protocol := r.protocol.map toAsciiUppercase }

def NatObserved.flagged (o : NatObserved) : List (NatRule × Bool) :=
  o.rules.map fun r => (r, o.disabled.contains r.description)

structure NatObserved.Reordered (a b : NatObserved) : Prop where
  rules : a.rules.Perm b.rules
  disabled : a.disabled.Perm b.disabled

def NatObserved.Same (a b : NatObserved) : Prop :=
  (a.flagged.map fun r => (r.1.form, r.2)).Perm (b.flagged.map fun r => (r.1.form, r.2))

/-- A vnet, an empty alias as none: aliases are compared without the blanks around them. -/
def VNetSpec.form (v : VNetSpec) : VNetSpec := { v with alias_ := trimmedAlias v }

structure SegmentObserved.Reordered (a b : SegmentObserved) : Prop where
  zonePresent : a.zonePresent = b.zonePresent
  vnets : a.vnets.Perm b.vnets
  foreignVnets : a.foreignVnets.Perm b.foreignVnets

structure SegmentObserved.Same (a b : SegmentObserved) : Prop where
  zonePresent : a.zonePresent = b.zonePresent
  vnets : (a.vnets.map VNetSpec.form).Perm (b.vnets.map VNetSpec.form)
  foreignVnets : a.foreignVnets.Perm b.foreignVnets

/-- A subnet, whatever the order of its ranges. -/
def IpamSubnet.form (s : IpamSubnet) : String × String × Option String × Multiset DhcpRange :=
  (s.vnet, s.cidr, s.gateway, s.dhcpRanges)

structure IpamObserved.Same (a b : IpamObserved) : Prop where
  subnets : (a.subnets.map IpamSubnet.form).Perm (b.subnets.map IpamSubnet.form)
  entries : a.entries.Perm b.entries
  gatewayEntries : a.gatewayEntries.Perm b.gatewayEntries
  zoneIpam : a.zoneIpam = b.zoneIpam
  zoneDhcp : a.zoneDhcp = b.zoneDhcp
  controller : a.controller = b.controller

/-- No two different aliases share their name, and no two different rules their description. -/
structure GatewayObserved.Distinct (o : GatewayObserved) : Prop where
  aliases : ∀ a ∈ o.aliases, ∀ b ∈ o.aliases, a.name = b.name → a.form = b.form
  rules : ∀ r ∈ o.rules, ∀ r' ∈ o.rules, r.description = r'.description → r.form = r'.form

/-- No two different rules share their description. -/
def NatObserved.Distinct (o : NatObserved) : Prop :=
  ∀ r ∈ o.rules, ∀ r' ∈ o.rules, r.description = r'.description → r = r'

/-- No two different vnets share their name. -/
def SegmentObserved.Distinct (o : SegmentObserved) : Prop :=
  ∀ v ∈ o.vnets, ∀ w ∈ o.vnets, v.name = w.name → v.form = w.form

/-- No two different subnets share vnet and CIDR, no two different entries vnet and address, and
no text that is joined holds the character it is joined with.
-/
structure IpamObserved.Distinct (o : IpamObserved) : Prop where
  subnets : ∀ s ∈ o.subnets, ∀ t ∈ o.subnets, s.vnet = t.vnet → s.cidr = t.cidr → s.form = t.form
  entries : ∀ e ∈ o.entries, ∀ f ∈ o.entries, e.vnet = f.vnet → e.ip = f.ip → e = f
  ranges : ∀ s ∈ o.subnets, ∀ r ∈ s.dhcpRanges, '-' ∉ r.start.toList ∧ '-' ∉ r.end_.toList
  gatewayEntries : ∀ g ∈ o.gatewayEntries, '|' ∉ g.vnet.toList ∧ '|' ∉ g.ip.toList

/-- No entry was made for a guest. -/
def IpamObserved.NoGuests (o : IpamObserved) : Prop := ∀ e ∈ o.entries, e.vmid = none

/-- What is promised of the fingerprints of two states, and of the digests that cover them. -/
structure Canonical {σ : Type} (sha256 : List Char → List Char) (fingerprint : σ → Value)
    (Reordered Same : σ → σ → Prop) (a b : σ) : Prop where
  reordered : Reordered a b → fingerprint a = fingerprint b
  changed : ¬ Same a b → fingerprint a ≠ fingerprint b
  fresh : Reordered a b → ∀ intent provider catalogVersion capabilities,
    sha256 (planText intent (fingerprint a) provider catalogVersion capabilities)
      = sha256 (planText intent (fingerprint b) provider catalogVersion capabilities)
  stale : ¬ Same a b → ∀ intent provider catalogVersion capabilities,
    sha256 (planText intent (fingerprint a) provider catalogVersion capabilities)
      ≠ sha256 (planText intent (fingerprint b) provider catalogVersion capabilities)

-----------------------------------------------------------------------------------------
-- Values
-----------------------------------------------------------------------------------------

theorem option_inj {α : Type} {some : α → Value} (injective : Function.Injective some)
    (notNull : ∀ a, some a ≠ .null) {a b : Option α}
    : Value.option some a = .option some b ↔ a = b := by
  cases a with
  | none =>
      cases b with
      | none => simp
      | some b => simp [Value.option, (notNull b).symm]
  | some a =>
      cases b with
      | none => simp [Value.option, notNull a]
      | some b => simp [Value.option, injective.eq_iff]

@[simp] theorem option_text_inj {a b : Option String}
    : Value.option .text a = .option .text b ↔ a = b :=
  option_inj (fun _ _ => Value.text.inj) (fun _ => Value.noConfusion)

/-- Sorted texts show which texts there are, and no more. -/
@[simp] theorem sorted_texts_inj {left right : List String}
    : (sortByKey id left).map Value.text = (sortByKey id right).map Value.text
      ↔ left.Perm right := by
  rw [(List.map_injective_iff.mpr fun _ _ => Value.text.inj).eq_iff]
  constructor
  · intro same
    exact (perm_sortByKey left).symm.trans (same ▸ perm_sortByKey right)
  · exact sortByKey_eq_of_perm fun _ _ _ _ => id

@[simp] theorem AliasKind.asStr_inj {a b : AliasKind} : a.asStr = b.asStr ↔ a = b := by
  cases a <;> cases b <;> decide

@[simp] theorem GatewayAction.asStr_inj {a b : GatewayAction} : a.asStr = b.asStr ↔ a = b := by
  cases a <;> cases b <;> decide

@[simp] theorem NatKind.asStr_inj {a b : NatKind} : a.asStr = b.asStr ↔ a = b := by
  cases a <;> cases b <;> decide

@[simp] theorem option_uint32_inj {a b : Option UInt32}
    : Value.option (fun n => .number n.toNat) a = .option (fun n => .number n.toNat) b
      ↔ a = b :=
  option_inj (fun _ _ same => UInt32.toNat_inj.mp (Value.number.inj same))
    (fun _ => Value.noConfusion)

@[simp] theorem option_uint16_inj {a b : Option UInt16}
    : Value.option (fun n => .number n.toNat) a = .option (fun n => .number n.toNat) b
      ↔ a = b :=
  option_inj (fun _ _ same => UInt16.toNat_inj.mp (Value.number.inj same))
    (fun _ => Value.noConfusion)

theorem aliasValue_inj {a b : GatewayAlias} : aliasValue a = aliasValue b ↔ a.form = b.form := by
  refine (objectOf_inj ?_ ?_).trans ?_
  · simp
  · rfl
  · simp [GatewayAlias.form]

theorem ruleValue_inj {r r' : GatewayRule} {disabled disabled' : Bool}
    : ruleValue r disabled = ruleValue r' disabled' ↔ (r.form, disabled) = (r'.form, disabled') := by
  refine (objectOf_inj ?_ ?_).trans ?_
  · simp
  · rfl
  · simp [GatewayRule.form, and_assoc]

theorem natValue_inj {r r' : NatRule} {disabled disabled' : Bool}
    : natValue r disabled = natValue r' disabled' ↔ (r, disabled) = (r', disabled') := by
  refine (objectOf_inj ?_ ?_).trans ?_
  · simp
  · rfl
  · obtain ⟨_, _, _, _, _, _, _, _⟩ := r
    obtain ⟨_, _, _, _, _, _, _, _⟩ := r'
    simp [and_assoc]

theorem vnetValue_inj {v w : VNetSpec} : vnetValue v = vnetValue w ↔ v.form = w.form := by
  refine (objectOf_inj ?_ ?_).trans ?_
  · simp
  · rfl
  · simp [VNetSpec.form]

theorem subnetValue_inj {s t : IpamSubnet}
    : subnetValue s = subnetValue t
      ↔ s.vnet = t.vnet ∧ s.cidr = t.cidr ∧ s.gateway = t.gateway
        ∧ (s.dhcpRanges.map rangeText).Perm (t.dhcpRanges.map rangeText) := by
  refine (objectOf_inj ?_ ?_).trans ?_
  · simp
  · rfl
  · simp

theorem entryValue_inj {e f : IpamEntry}
    : entryValue e = entryValue f ↔ e.vnet = f.vnet ∧ e.ip = f.ip ∧ e.mac = f.mac := by
  refine (objectOf_inj ?_ ?_).trans ?_
  · simp
  · rfl
  · simp

theorem gatewayFingerprint_inj {a b : GatewayObserved}
    : gatewayFingerprint a = gatewayFingerprint b
      ↔ sortByKey (textField "name") (a.aliases.map aliasValue)
          = sortByKey (textField "name") (b.aliases.map aliasValue)
        ∧ sortByKey (textField "description") (a.flagged.map fun r => ruleValue r.1 r.2)
          = sortByKey (textField "description") (b.flagged.map fun r => ruleValue r.1 r.2) := by
  simp only [gatewayFingerprint]
  refine (objectOf_inj ?_ ?_).trans ?_
  · simp
  · simp only [List.map_cons, List.map_nil]
  · simp [GatewayObserved.flagged, Function.comp_def]

theorem natFingerprint_inj {a b : NatObserved}
    : natFingerprint a = natFingerprint b
      ↔ sortByKey (textField "description") (a.flagged.map fun r => natValue r.1 r.2)
        = sortByKey (textField "description") (b.flagged.map fun r => natValue r.1 r.2) := by
  simp [natFingerprint, NatObserved.flagged, Function.comp_def]

theorem segmentFingerprint_inj {a b : SegmentObserved}
    : segmentFingerprint a = segmentFingerprint b
      ↔ a.zonePresent = b.zonePresent
        ∧ sortByKey (textField "name") (a.vnets.map vnetValue)
          = sortByKey (textField "name") (b.vnets.map vnetValue)
        ∧ a.foreignVnets.Perm b.foreignVnets := by
  simp only [segmentFingerprint]
  refine (objectOf_inj ?_ ?_).trans ?_
  · simp
  · simp only [List.map_cons, List.map_nil]
  · simp

theorem ipamFingerprint_inj {a b : IpamObserved}
    : ipamFingerprint a = ipamFingerprint b
      ↔ a.zoneIpam = b.zoneIpam ∧ a.zoneDhcp = b.zoneDhcp
        ∧ sortByKey (pairField "vnet" "cidr") (a.subnets.map subnetValue)
          = sortByKey (pairField "vnet" "cidr") (b.subnets.map subnetValue)
        ∧ sortByKey (pairField "vnet" "ip") (a.entries.map entryValue)
          = sortByKey (pairField "vnet" "ip") (b.entries.map entryValue)
        ∧ (a.gatewayEntries.map gatewayText).Perm (b.gatewayEntries.map gatewayText) := by
  simp only [ipamFingerprint]
  refine (objectOf_inj ?_ ?_).trans ?_
  · simp
  · simp only [List.map_cons, List.map_nil]
  · simp

-----------------------------------------------------------------------------------------
-- Keys
-----------------------------------------------------------------------------------------

theorem textField_aliasValue (a : GatewayAlias) : textField "name" (aliasValue a) = a.name := by
  rw [textField, aliasValue, get_objectOf (by simp)]
  rfl

theorem textField_ruleValue (r : GatewayRule) (disabled : Bool)
    : textField "description" (ruleValue r disabled) = r.description := by
  rw [textField, ruleValue, get_objectOf (by simp)]
  rfl

theorem textField_natValue (r : NatRule) (disabled : Bool)
    : textField "description" (natValue r disabled) = r.description := by
  rw [textField, natValue, get_objectOf (by simp)]
  rfl

theorem textField_vnetValue (v : VNetSpec) : textField "name" (vnetValue v) = v.name := by
  rw [textField, vnetValue, get_objectOf (by simp)]
  rfl

/-- Two texts that are joined as JSON texts are told by the joined one. -/
theorem joined_inj {a b c d : String}
    : String.ofList (write (.text a) ++ '|' :: write (.text b))
        = String.ofList (write (.text c) ++ '|' :: write (.text d))
      ↔ a = c ∧ b = d := by
  constructor
  · intro same
    have same := String.ofList_injective same
    rw [write, write, write, write] at same
    obtain ⟨rfl, rest⟩ := quoted_append_inj same
    have rest : quoted b ++ [] = quoted d ++ [] := by simpa using rest
    exact ⟨rfl, (quoted_append_inj rest).1⟩
  · rintro ⟨rfl, rfl⟩
    rfl

theorem pairField_subnetValue (s t : IpamSubnet)
    : pairField "vnet" "cidr" (subnetValue s) = pairField "vnet" "cidr" (subnetValue t)
      ↔ s.vnet = t.vnet ∧ s.cidr = t.cidr := by
  have fields (s : IpamSubnet) : (subnetValue s).get "vnet" = .text s.vnet
      ∧ (subnetValue s).get "cidr" = .text s.cidr := by
    rw [subnetValue, get_objectOf (by simp), get_objectOf (by simp)]
    exact ⟨rfl, rfl⟩
  simp only [pairField, fields]
  exact joined_inj

theorem pairField_entryValue (e f : IpamEntry)
    : pairField "vnet" "ip" (entryValue e) = pairField "vnet" "ip" (entryValue f)
      ↔ e.vnet = f.vnet ∧ e.ip = f.ip := by
  have fields (e : IpamEntry) : (entryValue e).get "vnet" = .text e.vnet
      ∧ (entryValue e).get "ip" = .text e.ip := by
    rw [entryValue, get_objectOf (by simp), get_objectOf (by simp)]
    exact ⟨rfl, rfl⟩
  simp only [pairField, fields]
  exact joined_inj

-----------------------------------------------------------------------------------------
-- Digests
-----------------------------------------------------------------------------------------

@[simp] theorem canonical_texts (texts : List String)
    : canonical (.array (texts.map .text)) = .array (texts.map .text) := by
  apply canonical_array
  intro item member
  obtain ⟨text, -, rfl⟩ := List.mem_map.mp member
  exact canonical_text text

@[simp] theorem canonical_option_text (value : Option String)
    : canonical (.option .text value) = .option .text value :=
  canonical_option (fun _ => by simp) value

@[simp] theorem canonical_option_number {α : Type} (number : α → Nat) (value : Option α)
    : canonical (.option (fun a => .number (number a)) value)
      = .option (fun a => .number (number a)) value :=
  canonical_option (fun _ => by simp) value

/-- Sorted objects are in order when each of them is. -/
theorem canonical_sorted {α : Type} (key : Value → String) {value : α → Value}
    (ordered : ∀ a, canonical (value a) = value a) (items : List α)
    : canonical (.array (sortByKey key (items.map value)))
      = .array (sortByKey key (items.map value)) := by
  apply canonical_array
  intro item member
  obtain ⟨a, -, rfl⟩ := List.mem_map.mp ((perm_sortByKey _).mem_iff.mp member)
  exact ordered a

theorem canonical_gatewayFingerprint (o : GatewayObserved)
    : canonical (gatewayFingerprint o) = gatewayFingerprint o := by
  have aliases (a : GatewayAlias) : canonical (aliasValue a) = aliasValue a := by
    simp [aliasValue, canonical_objectOf]
  have rules (r : GatewayRule) : canonical (ruleValue r (o.disabledRules.contains r.description))
      = ruleValue r (o.disabledRules.contains r.description) := by
    simp [ruleValue, canonical_objectOf]
  simp only [gatewayFingerprint, canonical_objectOf, List.map_cons, List.map_nil,
    canonical_sorted _ aliases, canonical_sorted _ rules]

theorem canonical_natFingerprint (o : NatObserved)
    : canonical (natFingerprint o) = natFingerprint o := by
  apply canonical_sorted
  intro r
  simp [natValue, canonical_objectOf]

theorem canonical_segmentFingerprint (o : SegmentObserved)
    : canonical (segmentFingerprint o) = segmentFingerprint o := by
  have vnets (v : VNetSpec) : canonical (vnetValue v) = vnetValue v := by
    simp [vnetValue, canonical_objectOf]
  simp [segmentFingerprint, canonical_objectOf, canonical_sorted _ vnets]

theorem canonical_ipamFingerprint (o : IpamObserved)
    : canonical (ipamFingerprint o) = ipamFingerprint o := by
  have subnets (s : IpamSubnet) : canonical (subnetValue s) = subnetValue s := by
    simp [subnetValue, canonical_objectOf]
  have entries (e : IpamEntry) : canonical (entryValue e) = entryValue e := by
    simp [entryValue, canonical_objectOf]
  simp [ipamFingerprint, canonical_objectOf, canonical_sorted _ subnets,
    canonical_sorted _ entries]

/-- The text of a plan shows what was observed. -/
theorem planText_inj {intent capabilities : List (String × String)}
    {provider catalogVersion : String} {a b : Value}
    : planText intent a provider catalogVersion capabilities
        = planText intent b provider catalogVersion capabilities
      ↔ canonical a = canonical b := by
  rw [planText, planText, write_injective.eq_iff]
  refine (objectOf_inj ?_ ?_).trans ?_
  · simp
  · rfl
  · simp

/-- A digest without collisions adds nothing to the fingerprints, and takes nothing away. -/
theorem canonical_iff {σ : Type} {sha256 : List Char → List Char}
    (collisionFree : Function.Injective sha256) {fingerprint : σ → Value}
    (ordered : ∀ o, canonical (fingerprint o) = fingerprint o)
    {Reordered Same : σ → σ → Prop} {a b : σ}
    : Canonical sha256 fingerprint Reordered Same a b
      ↔ (Reordered a b → fingerprint a = fingerprint b)
        ∧ (fingerprint a = fingerprint b → Same a b) := by
  have digests (intent : List (String × String)) (provider catalogVersion : String)
      (capabilities : List (String × String))
      : sha256 (planText intent (fingerprint a) provider catalogVersion capabilities)
          = sha256 (planText intent (fingerprint b) provider catalogVersion capabilities)
        ↔ fingerprint a = fingerprint b := by
    rw [collisionFree.eq_iff, planText_inj, ordered, ordered]
  constructor
  · intro both
    exact ⟨both.reordered, fun same => not_imp_not.mp both.changed same⟩
  · rintro ⟨reordered, told⟩
    exact {
      reordered
      changed := fun other same => other (told same)
      fresh := fun moved _ _ _ _ => (digests _ _ _ _).mpr (reordered moved)
      stale := fun other _ _ _ _ same => other (told ((digests _ _ _ _).mp same)) }

-----------------------------------------------------------------------------------------
-- Gateways, address translation and segments
-----------------------------------------------------------------------------------------

theorem GatewayObserved.Reordered.flagged {a b : GatewayObserved} (moved : a.Reordered b)
    : a.flagged.Perm b.flagged := by
  have flags (r : GatewayRule) : a.disabledRules.contains r.description
      = b.disabledRules.contains r.description :=
    moved.disabledRules.contains_eq
  simp only [GatewayObserved.flagged, flags]
  exact moved.rules.map _

theorem NatObserved.Reordered.flagged {a b : NatObserved} (moved : a.Reordered b)
    : a.flagged.Perm b.flagged := by
  have flags (r : NatRule) : a.disabled.contains r.description
      = b.disabled.contains r.description :=
    moved.disabled.contains_eq
  simp only [NatObserved.flagged, flags]
  exact moved.rules.map _

section
variable {sha256 : List Char → List Char} (collisionFree : Function.Injective sha256)

include collisionFree

theorem gateway_canonical_iff (a : GatewayObserved)
    : (∀ b, Canonical sha256 gatewayFingerprint GatewayObserved.Reordered GatewayObserved.Same a b)
      ↔ a.Distinct := by
  simp only [canonical_iff collisionFree canonical_gatewayFingerprint, gatewayFingerprint_inj]
  constructor
  · intro all
    constructor
    case aliases =>
      intro x mem_x y mem_y names
      have steady (aliases : List GatewayAlias) (perm : a.aliases.Perm aliases) :=
        ((all { a with aliases }).1 ⟨perm.map _, .rfl, .rfl⟩).1
      apply aliasValue_inj.mp
      apply eq_of_sortByKey_perm steady mem_x mem_y
      rw [textField_aliasValue, textField_aliasValue, names]
    case rules =>
      intro r mem_r r' mem_r' descriptions
      have steady (rules : List GatewayRule) (perm : a.rules.Perm rules) :=
        ((all { a with rules }).1 ⟨.rfl, perm, .rfl⟩).2
      simp only [GatewayObserved.flagged, List.map_map] at steady
      have values := eq_of_sortByKey_perm steady mem_r mem_r'
        (by simp only [Function.comp_apply, textField_ruleValue, descriptions])
      exact (Prod.mk.inj (ruleValue_inj.mp values)).1
  · intro distinct b
    constructor
    · intro moved
      constructor
      · apply sortByKey_map_eq
        · intro x mem_x y mem_y keys
          rw [textField_aliasValue, textField_aliasValue] at keys
          exact aliasValue_inj.mpr (distinct.aliases x mem_x y mem_y keys)
        · exact perm_map_of_perm_map (fun x _ y => aliasValue_inj.mpr) moved.aliases
      · apply sortByKey_map_eq
        · simp only [GatewayObserved.flagged, List.mem_map]
          rintro _ ⟨r, mem_r, rfl⟩ _ ⟨r', mem_r', rfl⟩ keys
          simp only [textField_ruleValue] at keys
          rw [ruleValue_inj, distinct.rules r mem_r r' mem_r' keys, keys]
        · exact (moved.flagged).map _
    · rintro ⟨aliases, rules⟩
      exact {
        aliases := perm_of_sortByKey_map_eq (fun x _ y => aliasValue_inj.mp) aliases
        rules := perm_of_sortByKey_map_eq (fun r _ r' => ruleValue_inj.mp) rules }

theorem nat_canonical_iff (a : NatObserved)
    : (∀ b, Canonical sha256 natFingerprint NatObserved.Reordered NatObserved.Same a b)
      ↔ a.Distinct := by
  simp only [canonical_iff collisionFree canonical_natFingerprint, natFingerprint_inj]
  constructor
  · intro all r mem_r r' mem_r' descriptions
    have steady (rules : List NatRule) (perm : a.rules.Perm rules) :=
      (all { a with rules }).1 ⟨perm, .rfl⟩
    simp only [NatObserved.flagged, List.map_map] at steady
    have values := eq_of_sortByKey_perm steady mem_r mem_r'
      (by simp only [Function.comp_apply, textField_natValue, descriptions])
    exact (Prod.mk.inj (natValue_inj.mp values)).1
  · intro distinct b
    constructor
    · intro moved
      apply sortByKey_map_eq
      · simp only [NatObserved.flagged, List.mem_map]
        rintro _ ⟨r, mem_r, rfl⟩ _ ⟨r', mem_r', rfl⟩ keys
        simp only [textField_natValue] at keys
        rw [distinct r mem_r r' mem_r' keys]
      · exact (moved.flagged).map _
    · intro rules
      refine perm_of_sortByKey_map_eq ?_ rules
      intro r _ r' values
      obtain ⟨same, flags⟩ := Prod.mk.inj (natValue_inj.mp values)
      rw [same, flags]

theorem segment_canonical_iff (a : SegmentObserved)
    : (∀ b, Canonical sha256 segmentFingerprint SegmentObserved.Reordered SegmentObserved.Same a b)
      ↔ a.Distinct := by
  simp only [canonical_iff collisionFree canonical_segmentFingerprint, segmentFingerprint_inj]
  constructor
  · intro all v mem_v w mem_w names
    have steady (vnets : List VNetSpec) (perm : a.vnets.Perm vnets) :=
      ((all { a with vnets }).1 ⟨rfl, perm, .rfl⟩).2.1
    apply vnetValue_inj.mp
    apply eq_of_sortByKey_perm steady mem_v mem_w
    rw [textField_vnetValue, textField_vnetValue, names]
  · intro distinct b
    constructor
    · intro moved
      refine ⟨moved.zonePresent, ?_, moved.foreignVnets⟩
      apply sortByKey_map_eq
      · intro v mem_v w mem_w keys
        rw [textField_vnetValue, textField_vnetValue] at keys
        exact vnetValue_inj.mpr (distinct v mem_v w mem_w keys)
      · exact moved.vnets.map _
    · rintro ⟨zonePresent, vnets, foreignVnets⟩
      exact {
        zonePresent
        vnets := perm_of_sortByKey_map_eq (fun v _ w => vnetValue_inj.mp) vnets
        foreignVnets }

end

-----------------------------------------------------------------------------------------
-- Addresses
-----------------------------------------------------------------------------------------

theorem toList_rangeText (r : DhcpRange)
    : (rangeText r).toList = r.start.toList ++ '-' :: r.end_.toList := by
  simp [rangeText]

theorem toList_gatewayText (g : IpamGatewayEntry)
    : (gatewayText g).toList = g.vnet.toList ++ '|' :: g.ip.toList := by
  simp [gatewayText]

theorem eq_of_rangeText {r r' : DhcpRange}
    (plain : '-' ∉ r.start.toList ∧ '-' ∉ r.end_.toList) (same : rangeText r = rangeText r')
    : r = r' := by
  have same := congrArg String.toList same
  rw [toList_rangeText, toList_rangeText] at same
  obtain ⟨starts, ends⟩ := eq_of_one_separator same plain.1 plain.2
  cases r
  cases r'
  simp_all [String.toList_inj]

theorem eq_of_gatewayText {g g' : IpamGatewayEntry}
    (plain : '|' ∉ g.vnet.toList ∧ '|' ∉ g.ip.toList) (same : gatewayText g = gatewayText g')
    : g = g' := by
  have same := congrArg String.toList same
  rw [toList_gatewayText, toList_gatewayText] at same
  obtain ⟨vnets, ips⟩ := eq_of_one_separator same plain.1 plain.2
  cases g
  cases g'
  simp_all [String.toList_inj]

/-- The subnets that share their value with a subnet of plain ranges are that subnet. -/
theorem form_eq_of_subnetValue {s t : IpamSubnet}
    (plain : ∀ r ∈ s.dhcpRanges, '-' ∉ r.start.toList ∧ '-' ∉ r.end_.toList)
    (same : subnetValue s = subnetValue t)
    : s.form = t.form := by
  obtain ⟨vnet, cidr, gateway, texts⟩ := subnetValue_inj.mp same
  have ranges : (s.dhcpRanges.map id).Perm (t.dhcpRanges.map id) :=
    perm_map_of_perm_map (fun r member r' => eq_of_rangeText (plain r member)) texts
  rw [List.map_id, List.map_id] at ranges
  rw [IpamSubnet.form, IpamSubnet.form, vnet, cidr, gateway, Multiset.coe_eq_coe.mpr ranges]

/-- All that an entry's value shows. -/
def IpamEntry.guestless (e : IpamEntry) : IpamEntry := { e with vmid := none }

theorem guestless_eq_of_entryValue {e f : IpamEntry} (same : entryValue e = entryValue f)
    : e.guestless = f.guestless := by
  obtain ⟨vnet, ip, mac⟩ := entryValue_inj.mp same
  rw [IpamEntry.guestless, IpamEntry.guestless, vnet, ip, mac]

theorem guestless_eq_self {e : IpamEntry} (noGuest : e.vmid = none) : e.guestless = e := by
  rw [IpamEntry.guestless, ← noGuest]

theorem IpamObserved.NoGuests.map_guestless {o : IpamObserved} (noGuests : o.NoGuests)
    : o.entries.map IpamEntry.guestless = o.entries := by
  rw [List.map_congr_left fun e member => guestless_eq_self (noGuests e member), List.map_id']

theorem subnetValue_eq_of_form {s t : IpamSubnet} (same : s.form = t.form)
    : subnetValue s = subnetValue t := by
  simp only [IpamSubnet.form, Prod.mk.injEq, Multiset.coe_eq_coe] at same
  obtain ⟨vnet, cidr, gateway, ranges⟩ := same
  exact subnetValue_inj.mpr ⟨vnet, cidr, gateway, ranges.map _⟩

section
variable {sha256 : List Char → List Char} (collisionFree : Function.Injective sha256)

include collisionFree

/-- The controller of a zone is not in its fingerprint. -/
theorem ipam_not_canonical (a : IpamObserved)
    : ¬ ∀ b, Canonical sha256 ipamFingerprint IpamObserved.Same IpamObserved.Same a b := by
  simp only [canonical_iff collisionFree canonical_ipamFingerprint]
  intro all
  have same := (all { a with controller := if a.controller = none then some "" else none }).2 rfl
  have controllers := same.controller
  revert controllers
  cases a.controller <;> simp

/-- Among the states of one controller without entries of guests. -/
theorem ipam_canonical_iff {a : IpamObserved} (noGuests : a.NoGuests)
    : (∀ b, b.controller = a.controller → b.NoGuests →
        Canonical sha256 ipamFingerprint IpamObserved.Same IpamObserved.Same a b)
      ↔ a.Distinct := by
  simp only [canonical_iff collisionFree canonical_ipamFingerprint, ipamFingerprint_inj]
  constructor
  · intro all
    have ranges : ∀ s ∈ a.subnets, ∀ r ∈ s.dhcpRanges,
        '-' ∉ r.start.toList ∧ '-' ∉ r.end_.toList := by
      intro s mem_s r mem_r
      by_contra again
      obtain ⟨front, back, same, other⟩ := exists_other_cut again
      obtain ⟨before, after, split⟩ := List.append_of_mem mem_s
      obtain ⟨before', after', split'⟩ := List.append_of_mem mem_r
      let r' : DhcpRange := ⟨String.ofList front, String.ofList back⟩
      let s' : IpamSubnet := { s with dhcpRanges := before' ++ r' :: after' }
      have texts : rangeText r = rangeText r' := by
        apply String.toList_inj.mp
        rw [toList_rangeText, toList_rangeText, ← same]
        simp [r']
      have values : subnetValue s = subnetValue s' :=
        subnetValue_inj.mpr ⟨rfl, rfl, rfl, by simp [s', split', texts]⟩
      have kept := (all { a with subnets := before ++ s' :: after } rfl noGuests).2
        ⟨rfl, rfl, by simp [split, values], rfl, .rfl⟩
      have subnets := kept.subnets
      rw [split, List.map_append, List.map_append, List.map_cons, List.map_cons] at subnets
      have forms := eq_of_perm_middle subnets
      simp only [IpamSubnet.form, s', Prod.mk.injEq, Multiset.coe_eq_coe, true_and, split']
        at forms
      have ends := congrArg DhcpRange.end_ (eq_of_perm_middle forms)
      exact other (by rw [ends]; simp [r'])
    constructor
    case subnets =>
      intro s mem_s t mem_t vnets cidrs
      have steady (subnets : List IpamSubnet) (perm : a.subnets.Perm subnets) :=
        ((all { a with subnets } rfl noGuests).1
          ⟨perm.map _, .rfl, .rfl, rfl, rfl, rfl⟩).2.2.1
      apply form_eq_of_subnetValue (ranges s mem_s)
      exact eq_of_sortByKey_perm steady mem_s mem_t
        ((pairField_subnetValue s t).mpr ⟨vnets, cidrs⟩)
    case entries =>
      intro e mem_e f mem_f vnets ips
      have steady (entries : List IpamEntry) (perm : a.entries.Perm entries) :=
        ((all { a with entries } rfl fun e member => noGuests e (perm.mem_iff.mpr member)).1
          ⟨.rfl, perm, .rfl, rfl, rfl, rfl⟩).2.2.2.1
      have values := eq_of_sortByKey_perm steady mem_e mem_f
        ((pairField_entryValue e f).mpr ⟨vnets, ips⟩)
      rw [← guestless_eq_self (noGuests e mem_e), ← guestless_eq_self (noGuests f mem_f)]
      exact guestless_eq_of_entryValue values
    case ranges => exact ranges
    case gatewayEntries =>
      intro g member
      by_contra again
      obtain ⟨front, back, same, other⟩ := exists_other_cut again
      obtain ⟨before, after, split⟩ := List.append_of_mem member
      let g' : IpamGatewayEntry := ⟨String.ofList front, String.ofList back⟩
      have texts : gatewayText g = gatewayText g' := by
        apply String.toList_inj.mp
        rw [toList_gatewayText, toList_gatewayText, ← same]
        simp [g']
      have kept := (all { a with gatewayEntries := before ++ g' :: after } rfl noGuests).2
        ⟨rfl, rfl, rfl, rfl, by simp [split, texts]⟩
      have entries := kept.gatewayEntries
      rw [split] at entries
      have ips := congrArg IpamGatewayEntry.ip (eq_of_perm_middle entries)
      exact other (by rw [ips]; simp [g'])
  · intro distinct b controllers noGuests'
    constructor
    · intro moved
      refine ⟨moved.zoneIpam, moved.zoneDhcp, ?_, ?_, moved.gatewayEntries.map _⟩
      · apply sortByKey_map_eq
        · intro s mem_s t mem_t keys
          obtain ⟨vnets, cidrs⟩ := (pairField_subnetValue s t).mp keys
          exact subnetValue_eq_of_form (distinct.subnets s mem_s t mem_t vnets cidrs)
        · exact perm_map_of_perm_map (fun s _ t => subnetValue_eq_of_form) moved.subnets
      · apply sortByKey_map_eq
        · intro e mem_e f mem_f keys
          obtain ⟨vnets, ips⟩ := (pairField_entryValue e f).mp keys
          rw [distinct.entries e mem_e f mem_f vnets ips]
        · exact moved.entries.map _
    · rintro ⟨zoneIpam, zoneDhcp, subnets, entries, gatewayEntries⟩
      exact {
        subnets := perm_of_sortByKey_map_eq
          (fun s member t => form_eq_of_subnetValue (distinct.ranges s member)) subnets
        entries := by
          have same : (a.entries.map IpamEntry.guestless).Perm
              (b.entries.map IpamEntry.guestless) :=
            perm_of_sortByKey_map_eq (fun e _ f => guestless_eq_of_entryValue) entries
          rwa [noGuests.map_guestless, noGuests'.map_guestless] at same
        gatewayEntries := by
          have same : (a.gatewayEntries.map id).Perm (b.gatewayEntries.map id) :=
            perm_map_of_perm_map
              (fun g member g' => eq_of_gatewayText (distinct.gatewayEntries g member))
              gatewayEntries
          rwa [List.map_id, List.map_id] at same
        zoneIpam
        zoneDhcp
        controller := controllers.symm }

/-- A fingerprint, and with it the digest of a plan, goes stale exactly when the state changed:
for the states in which different objects differ in what they are sorted by, and for no state of
an IPAM provider, whose controller and whose entries' guests no fingerprint shows. Apart from
these the same holds there of the states without a separator in a text that is joined.
-/
theorem fingerprints_canonical_iff
    : (∀ a, (∀ b, Canonical sha256 gatewayFingerprint GatewayObserved.Reordered
          GatewayObserved.Same a b) ↔ a.Distinct)
      ∧ (∀ a, (∀ b, Canonical sha256 natFingerprint NatObserved.Reordered NatObserved.Same a b)
          ↔ a.Distinct)
      ∧ (∀ a, (∀ b, Canonical sha256 segmentFingerprint SegmentObserved.Reordered
          SegmentObserved.Same a b) ↔ a.Distinct)
      ∧ (∀ a, ¬ ∀ b, Canonical sha256 ipamFingerprint IpamObserved.Same IpamObserved.Same a b)
      ∧ ∀ a : IpamObserved, a.NoGuests →
          ((∀ b, b.controller = a.controller → b.NoGuests →
            Canonical sha256 ipamFingerprint IpamObserved.Same IpamObserved.Same a b)
          ↔ a.Distinct) :=
  ⟨gateway_canonical_iff collisionFree, nat_canonical_iff collisionFree,
    segment_canonical_iff collisionFree, ipam_not_canonical collisionFree,
    fun _ => ipam_canonical_iff collisionFree⟩

end

def passTo (description destination : String) : GatewayRule :=
  { description
    source := "any"
    destination
    protocol := some "TCP"
    action := .pass
    destinationPort := none
    log := false
    stateful := true
    sequence := none }

/-- Two rules of different descriptions, one of them disabled. -/
def twoRules : GatewayObserved :=
  { aliases := []
    rules := [passTo "web" "10.0.0.1", passTo "dns" "10.0.0.2"]
    disabledRules := ["dns"] }

theorem twoRules_canonical
    : twoRules.Distinct
      ∧ ∀ b, Canonical id gatewayFingerprint GatewayObserved.Reordered GatewayObserved.Same
        twoRules b := by
  have distinct : twoRules.Distinct := by
    constructor
    case aliases => simp [twoRules]
    case rules => simp [twoRules, passTo]
  exact ⟨distinct, ((fingerprints_canonical_iff Function.injective_id).1 twoRules).mpr distinct⟩

/-- Two rules of one description answered in the other order are another fingerprint. -/
theorem shared_description_stale
    : ¬ ∀ sha256 : List Char → List Char, Function.Injective sha256 → ∀ a b : GatewayObserved,
        Canonical sha256 gatewayFingerprint GatewayObserved.Reordered GatewayObserved.Same a b := by
  intro always
  let rules := [passTo "web" "10.0.0.1", passTo "web" "10.0.0.2"]
  have both := always id Function.injective_id ⟨[], rules, []⟩ ⟨[], rules.reverse, []⟩
  have same := both.reordered ⟨.rfl, rules.reverse_perm.symm, .rfl⟩
  have texts := congrArg write same
  revert texts
  decide +kernel

end Delonix.Networking
