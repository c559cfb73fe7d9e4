import Delonix.Net.Cidr

/-! Where the VM DHCP pool lies: a prefix is an interval of addresses, and the pool is a part
of it that leaves out the network, the gateway and the broadcast.
-/

namespace Delonix.Net

open Delonix.Library.Text

/-- The address the VM DHCP server gives a MAC. `lowercase` is `str::to_lowercase`. -/
def vmDhcpLeaseIp (lowercase : String → String) (network mac : String) : Option String :=
  (vmDhcpPool network).map (fun (first, size) =>
    Cidr.fmtU32 (first + fnv32 (lowercase mac) % size))

namespace Cidr

theorem toNat_mask {len : Nat} (short : len ≤ 32) : (mask len).toNat = 2 ^ 32 - 2 ^ (32 - len) := by
  have all : ∀ len ≤ 32, (mask len).toNat = 2 ^ 32 - 2 ^ (32 - len) := by decide
  exact all len short

/-- Clearing the low bits of a number rounds it down. -/
theorem and_high_bits {n k : Nat} (small : n < 2 ^ 32) (short : k ≤ 32)
    : n &&& (2 ^ 32 - 2 ^ k) = n / 2 ^ k * 2 ^ k := by
  have high : 2 ^ 32 - 2 ^ k = (2 ^ (32 - k) - 1) * 2 ^ k := by
    rw [Nat.sub_mul, ← Nat.pow_add, Nat.sub_add_cancel short, Nat.one_mul]
  apply Nat.eq_of_testBit_eq
  intro i
  rw [high, Nat.testBit_and, Nat.testBit_mul_two_pow, Nat.testBit_mul_two_pow,
    Nat.testBit_two_pow_sub_one, Nat.testBit_div_two_pow]
  by_cases low : k ≤ i
  · rw [Nat.sub_add_cancel low]
    by_cases inside : i < 32
    · simp [low, show i - k < 32 - k by omega]
    · have zero : n.testBit i = false :=
        Nat.testBit_lt_two_pow (Nat.lt_of_lt_of_le small (Nat.pow_le_pow_right (by omega) (by omega)))
      simp [zero]
  · simp [low]

/-- How many addresses share the first bits of the prefix. -/
def span (net : Cidr) : Nat := 2 ^ (32 - net.len)

variable {net : Cidr}

theorem toNat_and_mask (short : net.len ≤ 32) (ip : UInt32)
    : (ip &&& mask net.len).toNat = ip.toNat / net.span * net.span := by
  rw [UInt32.toNat_and, toNat_mask short, span]
  exact and_high_bits ip.toNat_lt (by omega)

theorem WellFormed.aligned (wellFormed : net.WellFormed) : net.span ∣ net.base.toNat := by
  have cleared := congrArg UInt32.toNat wellFormed.cleared
  rw [toNat_and_mask wellFormed.short] at cleared
  exact Dvd.intro_left _ cleared

theorem WellFormed.base_add_span_le (wellFormed : net.WellFormed)
    : net.base.toNat + net.span ≤ 2 ^ 32 := by
  obtain ⟨q, base⟩ := wellFormed.aligned
  have whole : net.span * 2 ^ net.len = 2 ^ 32 := by
    rw [span, ← Nat.pow_add, Nat.sub_add_cancel wellFormed.short]
  have bound := net.base.toNat_lt
  have below : q < 2 ^ net.len := by
    rw [base, ← whole] at bound
    exact Nat.lt_of_mul_lt_mul_left bound
  calc
    net.base.toNat + net.span = net.span * (q + 1) := by rw [base, Nat.mul_succ]
    _ ≤ net.span * 2 ^ net.len := Nat.mul_le_mul_left _ below
    _ = 2 ^ 32 := whole

/-- A prefix contains the addresses from its base up to its span. -/
theorem WellFormed.contains_iff (wellFormed : net.WellFormed) (ip : UInt32)
    : net.contains ip = true
      ↔ net.base.toNat ≤ ip.toNat ∧ ip.toNat < net.base.toNat + net.span := by
  have positive : 0 < net.span := Nat.two_pow_pos _
  obtain ⟨q, base⟩ := wellFormed.aligned
  rw [contains, beq_iff_eq, ← UInt32.toNat_inj, toNat_and_mask wellFormed.short, base]
  rw [Nat.mul_comm (ip.toNat / net.span), Nat.mul_right_inj positive.ne',
    Nat.div_eq_iff positive, Nat.mul_comm q]
  constructor
  · rintro ⟨low, high⟩
    exact ⟨low, by omega⟩
  · rintro ⟨low, high⟩
    exact ⟨low, by omega⟩

theorem WellFormed.toNat_last (wellFormed : net.WellFormed)
    : net.last.toNat = net.base.toNat + net.span - 1 := by
  obtain ⟨q, base⟩ := wellFormed.aligned
  have positive : 0 < net.span := Nat.two_pow_pos _
  have hosts : (~~~ mask net.len).toNat = net.span - 1 := by
    have le : net.span ≤ 2 ^ 32 := Nat.pow_le_pow_right (by decide) (by omega)
    rw [UInt32.toNat_not, toNat_mask wellFormed.short, ← span]
    simp only [UInt32.size]
    omega
  rw [last, UInt32.toNat_or, hosts, base, span,
    ← Nat.two_pow_add_eq_or_of_lt (Nat.sub_one_lt (Nat.two_pow_pos _).ne')]
  rw [span] at positive
  omega

end Cidr

/-- The usable addresses of a prefix lie above the gateway and below the broadcast. -/
theorem validIpInSubnet_iff {spelling ip : String} {net : Cidr} {addr : UInt32}
    (parsed : Cidr.parse spelling = some net) (read : Cidr.parseAddr ip = some addr)
    : validIpInSubnet spelling ip = true
      ↔ net.base.toNat + 1 < addr.toNat ∧ addr.toNat + 1 < net.base.toNat + net.span := by
  have wellFormed := Cidr.parse_wellFormed parsed
  have room := wellFormed.base_add_span_le
  have bound := addr.toNat_lt
  have gateway : (net.base + 1).toNat = (net.base.toNat + 1) % 2 ^ 32 := by
    rw [UInt32.toNat_add]
    rfl
  simp only [validIpInSubnet, parsed, read, Bool.and_eq_true, wellFormed.contains_iff,
    bne_iff_ne, ne_eq, ← UInt32.toNat_inj, gateway, wellFormed.toNat_last]
  omega

theorem validIpInSubnet_congr {left right : String} (same : Cidr.parse left = Cidr.parse right)
    (ip : String)
    : validIpInSubnet left ip = validIpInSubnet right ip := by
  rw [validIpInSubnet, same, ← validIpInSubnet]

theorem Cidr.toNat_size {net : Cidr} (positive : 0 < net.len) (short : net.len ≤ 32)
    : net.size.toNat = net.span := by
  have all : ∀ len ≤ 32, 0 < len → (1 <<< UInt32.ofNat (32 - len) : UInt32).toNat = 2 ^ (32 - len) := by
    decide
  rw [Cidr.size, if_neg (by omega), Cidr.span]
  exact all net.len short positive

theorem toNat_min (a b : UInt32) : (min a b).toNat = min a.toNat b.toNat := by
  change (if a ≤ b then a else b).toNat = _
  rw [Nat.min_def]
  simp only [UInt32.le_iff_toNat_le]
  split <;> rfl

theorem toNat_max (a b : UInt32) : (max a b).toNat = max a.toNat b.toNat := by
  change (if a ≤ b then b else a).toNat = _
  rw [Nat.max_def]
  simp only [UInt32.le_iff_toNat_le]
  split <;> rfl

/-- The pool is an interval of hosts: above the gateway and below the broadcast. -/
theorem vmDhcpPool_bounds {network : String} {net : Cidr} {first size : UInt32}
    (parsed : Cidr.parse network = some net) (pooled : vmDhcpPool network = some (first, size))
    : 0 < size.toNat ∧ net.base.toNat + 1 < first.toNat
      ∧ first.toNat + size.toNat < net.base.toNat + net.span := by
  have wellFormed := Cidr.parse_wellFormed parsed
  have room := wellFormed.base_add_span_le
  simp only [vmDhcpPool, parsed, Option.bind_some] at pooled
  split at pooled
  case isTrue sixteen =>
    obtain ⟨rfl, rfl⟩ := Prod.mk.inj (Option.some.inj pooled)
    have span : net.span = 65536 := by
      rw [Cidr.span, sixteen]
      rfl
    have offset : (vmDhcpPoolOctet <<< 8).toNat = 65024 := by decide
    have start : vmDhcpPoolFirst.toNat = 10 := by decide
    have size : vmDhcpPoolSize.toNat = 240 := by decide
    rw [UInt32.toNat_add, UInt32.toNat_add, offset, start, size]
    omega
  case isFalse =>
    split at pooled
    case isFalse => contradiction
    case isTrue usable =>
      obtain ⟨rfl, rfl⟩ := Prod.mk.inj (Option.some.inj pooled)
      simp only [Cidr.usableForNetwork, Bool.and_eq_true, decide_eq_true_eq] at usable
      have wide : 2 ^ 4 ≤ net.span := Nat.pow_le_pow_right (by decide) (by omega)
      have eighth : (net.size / 8).toNat = net.span / 8 := by
        rw [UInt32.toNat_div, Cidr.toNat_size (by omega) wellFormed.short]
        rfl
      have length : (min (max (net.size / 8) 1) vmDhcpPoolSize).toNat
          = min (max (net.span / 8) 1) 240 := by
        rw [toNat_min, toNat_max, eighth]
        rfl
      have top := wellFormed.toNat_last
      rw [UInt32.toNat_sub_of_le _ _ (by rw [UInt32.le_iff_toNat_le, length, top]; omega),
        length, top]
      omega

/-- An address of the pool is a usable address of the network, in every spelling of it. -/
theorem validIpInSubnet_of_pool {spelling : String} {net : Cidr} {first size addr : UInt32}
    (parsed : Cidr.parse spelling = some net)
    (pooled : vmDhcpPool spelling = some (first, size)) (low : first.toNat ≤ addr.toNat)
    (high : addr.toNat < first.toNat + size.toNat)
    : inVmDhcpPool spelling (Cidr.fmtU32 addr) = true
      ∧ validIpInSubnet spelling (Cidr.fmtU32 addr) = true := by
  have wellFormed := Cidr.parse_wellFormed parsed
  obtain ⟨_, above, below⟩ := vmDhcpPool_bounds parsed pooled
  have room := wellFormed.base_add_span_le
  constructor
  · have inRange : (first + size).toNat = first.toNat + size.toNat := by
      rw [UInt32.toNat_add]
      omega
    simp only [inVmDhcpPool, pooled, Cidr.parseAddr_fmtU32, Bool.and_eq_true,
      decide_eq_true_eq, UInt32.le_iff_toNat_le, UInt32.lt_iff_toNat_lt, inRange]
    exact ⟨low, high⟩
  · rw [validIpInSubnet_iff parsed (Cidr.parseAddr_fmtU32 addr)]
    omega

theorem vmDhcpPool_congr {left right : String} (same : Cidr.parse left = Cidr.parse right)
    : vmDhcpPool left = vmDhcpPool right := by
  rw [vmDhcpPool, same, ← vmDhcpPool]

theorem inVmDhcpPool_of_parse {left right : String}
    (same : Cidr.parse left = Cidr.parse right) (ip : String)
    : inVmDhcpPool left ip = inVmDhcpPool right ip := by
  rw [inVmDhcpPool, vmDhcpPool_congr same, ← inVmDhcpPool]

/-- Where the pool is defined, every MAC has an address of it. -/
theorem vmDhcpLeaseIp_eq_some (lowercase : String → String) {network : String} {net : Cidr}
    {first size : UInt32} (parsed : Cidr.parse network = some net)
    (pooled : vmDhcpPool network = some (first, size)) (mac : String)
    : ∃ addr : UInt32, vmDhcpLeaseIp lowercase network mac = some (Cidr.fmtU32 addr)
      ∧ first.toNat ≤ addr.toNat ∧ addr.toNat < first.toNat + size.toNat := by
  obtain ⟨positive, _, below⟩ := vmDhcpPool_bounds parsed pooled
  have room := (Cidr.parse_wellFormed parsed).base_add_span_le
  refine ⟨_, by rw [vmDhcpLeaseIp, pooled, Option.map_some], ?_⟩
  have inside := Nat.mod_lt (fnv32 (lowercase mac)).toNat positive
  rw [UInt32.toNat_add, UInt32.toNat_mod]
  omega

end Delonix.Net
