import Delonix.Net.DhcpPool
import Delonix.Net.RoutePlan

/-! The arithmetic of prefixes is exact: a prefix is the interval from its base to its last
address, at both ends of the 32-bit space and for every length. An operation that overflows would
end the process; none does.
-/

namespace Delonix.Net

namespace Cidr

/-- `32 - len`, in the unsigned type of the length. -/
def hostBits (len : Nat) : Option Nat := if len ≤ 32 then some (32 - len) else none

/-- `<<`, which overflows from a shift by the width on. -/
def shiftLeft (v : UInt32) (bits : Nat) : Option UInt32 :=
  if bits < 32 then some (v <<< UInt32.ofNat bits) else none

def maskChecked (len : Nat) : Option UInt32 :=
  if len = 0 then some 0 else (hostBits len).bind (shiftLeft 0xFFFFFFFF)

/-- `size`: a shift that overflows gives the greatest number. -/
def sizeChecked (net : Cidr) : Option UInt32 :=
  (hostBits net.len).map fun bits => (shiftLeft 1 bits).getD 0xFFFFFFFF

def lastChecked (net : Cidr) : Option UInt32 :=
  (maskChecked net.len).map fun mask => net.base ||| ~~~ mask

def containsChecked (net : Cidr) (ip : UInt32) : Option Bool :=
  (maskChecked net.len).map fun mask => ip &&& mask == net.base

def overlapsChecked (net other : Cidr) : Option Bool :=
  (maskChecked (min net.len other.len)).map fun mask => net.base &&& mask == other.base &&& mask

def checkedAdd (a b : UInt32) : Option UInt32 :=
  if a.toNat + b.toNat < 2 ^ 32 then some (a + b) else none

/-- The first usable address, where the prefix has one. -/
def gateway (net : Cidr) : Option String :=
  if 31 ≤ net.len then none else (checkedAdd net.base 1).map fmtU32

theorem maskChecked_eq {len : Nat} (short : len ≤ 32) : maskChecked len = some (mask len) := by
  rw [maskChecked, mask]
  by_cases all : len = 0
  · rw [if_pos all, if_pos all]
  · have bits : 32 - len < 32 := by omega
    rw [if_neg all, if_neg all, hostBits, if_pos short, Option.bind_some, shiftLeft, if_pos bits]

theorem sizeChecked_eq {net : Cidr} (short : net.len ≤ 32) : net.sizeChecked = some net.size := by
  rw [sizeChecked, hostBits, if_pos short, Option.map_some, size, shiftLeft]
  by_cases all : net.len = 0
  · simp [all]
  · have bits : 32 - net.len < 32 := by omega
    rw [if_pos bits, if_neg all, Option.getD_some]

/-- The operations of a prefix end, and with what the operations of the model give. -/
structure NoOverflow (net : Cidr) : Prop where
  mask : maskChecked net.len = some (Cidr.mask net.len)
  size : net.sizeChecked = some net.size
  last : net.lastChecked = some net.last
  contains : ∀ ip, net.containsChecked ip = some (net.contains ip)
  overlaps : ∀ other, net.overlapsChecked other = some (net.overlaps other)

theorem noOverflow_of_short {net : Cidr} (short : net.len ≤ 32) : NoOverflow net where
  mask := maskChecked_eq short
  size := sizeChecked_eq short
  last := by rw [lastChecked, maskChecked_eq short]; rfl
  contains := fun ip => by rw [containsChecked, maskChecked_eq short]; rfl
  overlaps := fun other => by
    have shorter : min net.len other.len ≤ 32 := Nat.le_trans (Nat.min_le_left _ _) short
    rw [overlapsChecked, maskChecked_eq shorter]
    rfl

variable {net other : Cidr}

theorem WellFormed.contains_iff_le (wellFormed : net.WellFormed) (ip : UInt32)
    : net.contains ip = true ↔ net.base ≤ ip ∧ ip ≤ net.last := by
  have positive : 0 < net.span := Nat.two_pow_pos _
  rw [wellFormed.contains_iff, UInt32.le_iff_toNat_le, UInt32.le_iff_toNat_le, wellFormed.toNat_last]
  omega

theorem WellFormed.contains_base (wellFormed : net.WellFormed) : net.contains net.base = true := by
  rw [contains, beq_iff_eq]
  exact wellFormed.cleared

/-- Of two prefixes that overlap, the one with fewer host bits begins inside the other. -/
theorem contains_of_overlaps (wellFormed : net.WellFormed) (shorter : net.len ≤ other.len)
    (share : net.overlaps other = true)
    : net.contains other.base = true := by
  rw [overlaps, beq_iff_eq, Nat.min_eq_left shorter, wellFormed.cleared] at share
  rw [contains, beq_iff_eq, ← share]

theorem overlaps_iff (left : net.WellFormed) (right : other.WellFormed)
    : net.overlaps other = true ↔ ∃ ip, net.contains ip = true ∧ other.contains ip = true := by
  constructor
  · intro share
    rcases Nat.le_total net.len other.len with shorter | shorter
    · exact ⟨other.base, contains_of_overlaps left shorter share, right.contains_base⟩
    · rw [RoutePlan.overlaps_comm] at share
      exact ⟨net.base, left.contains_base, contains_of_overlaps right shorter share⟩
  · intro both
    obtain ⟨ip, first, second⟩ := both
    by_contra apart
    exact RoutePlan.not_both_of_apart (by simpa using apart) ip ⟨first, second⟩

theorem WellFormed.size_eq (wellFormed : net.WellFormed)
    : net.size.toNat
      = if net.len = 0 then 2 ^ 32 - 1 else net.last.toNat - net.base.toNat + 1 := by
  have positive : 0 < net.span := Nat.two_pow_pos _
  by_cases all : net.len = 0
  · rw [if_pos all, size, if_pos all]
    rfl
  · rw [if_neg all, toNat_size (by omega) wellFormed.short, wellFormed.toNat_last]
    omega

/-- With room for two hosts the gateway is the address after the base. -/
theorem WellFormed.gateway_eq (wellFormed : net.WellFormed)
    : net.gateway = if 31 ≤ net.len then none else some (fmtU32 (net.base + 1)) := by
  rw [gateway]
  by_cases small : 31 ≤ net.len
  · rw [if_pos small, if_pos small]
  · have room := wellFormed.base_add_span_le
    have wide : 2 ^ 2 ≤ net.span := Nat.pow_le_pow_right (by decide) (by omega)
    have fits : net.base.toNat + (1 : UInt32).toNat < 2 ^ 32 := by
      have : (1 : UInt32).toNat = 1 := rfl
      omega
    rw [if_neg small, if_neg small, checkedAdd, if_pos fits, Option.map_some]

theorem WellFormed.gateway_inside (wellFormed : net.WellFormed) (wide : net.len < 31)
    : net.contains (net.base + 1) = true ∧ net.base + 1 ≠ net.base ∧ net.base + 1 ≠ net.last := by
  have room := wellFormed.base_add_span_le
  have hosts : 2 ^ 2 ≤ net.span := Nat.pow_le_pow_right (by decide) (by omega)
  have next : (net.base + 1).toNat = net.base.toNat + 1 := by
    have one : (1 : UInt32).toNat = 1 := rfl
    rw [UInt32.toNat_add, one]
    omega
  rw [wellFormed.contains_iff, Ne, Ne, ← UInt32.toNat_inj, ← UInt32.toNat_inj, next,
    wellFormed.toNat_last]
  omega

/-- What a parsed prefix can be relied on for. -/
structure Exact (net : Cidr) : Prop where
  spelled : parse net.toStringCidr = some net
  interval : ∀ ip, net.contains ip = true ↔ net.base ≤ ip ∧ ip ≤ net.last
  shared : ∀ text other, parse text = some other →
    (net.overlaps other = true ↔ ∃ ip, net.contains ip = true ∧ other.contains ip = true)
  size : net.size.toNat
    = if net.len = 0 then 2 ^ 32 - 1 else net.last.toNat - net.base.toNat + 1
  noGateway : net.gateway = none ↔ net.len = 31 ∨ net.len = 32
  gateway : ∀ text, net.gateway = some text → ∃ ip, parseAddr text = some ip
    ∧ net.contains ip = true ∧ ip ≠ net.base ∧ ip ≠ net.last
  noOverflow : NoOverflow net

theorem exact_of_parse {text : String} {net : Cidr} (parsed : parse text = some net)
    : Exact net ∧ ∀ v, parseAddr (fmtU32 v) = some v := by
  have wellFormed := parse_wellFormed parsed
  refine ⟨⟨parse_toStringCidr wellFormed, wellFormed.contains_iff_le, ?_, wellFormed.size_eq, ?_, ?_,
    noOverflow_of_short wellFormed.short⟩, parseAddr_fmtU32⟩
  · intro text other parsedToo
    exact overlaps_iff wellFormed (parse_wellFormed parsedToo)
  · have short := wellFormed.short
    rw [wellFormed.gateway_eq]
    by_cases small : 31 ≤ net.len
    · rw [if_pos small]
      exact iff_of_true rfl (by omega)
    · rw [if_neg small]
      exact iff_of_false (by simp) (by omega)
  · intro shown is
    rw [wellFormed.gateway_eq] at is
    by_cases small : 31 ≤ net.len
    · simp [small] at is
    · rw [if_neg small, Option.some.injEq] at is
      subst is
      exact ⟨net.base + 1, parseAddr_fmtU32 _, wellFormed.gateway_inside (by omega)⟩

/-- The whole space, where a shift by the width and the saturation are. -/
theorem exact_of_parse_all : Exact ⟨0, 0⟩ ∧ ∀ v, parseAddr (fmtU32 v) = some v :=
  exact_of_parse (show parse "0.0.0.0/0" = some ⟨0, 0⟩ by decide)

end Cidr

end Delonix.Net
