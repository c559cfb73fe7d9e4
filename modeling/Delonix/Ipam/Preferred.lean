import Delonix.Ipam.Leases
import Delonix.Net.DhcpPool

/-! The preferred address of an id. A prefix of any length but 16 spreads the ids over its hosts; a
`/16` of `10.x` appends two octets to its key. The key of any other `/16` is a CIDR text, to which
two octets add up to no address.
-/

namespace Delonix.Ipam

open Delonix.Net
open Delonix.Library.Text

/-- The address is spelled as `fmtU32` writes it. -/
def Spelled (ip : String) : Prop := ∃ address, ip = Cidr.fmtU32 address

/-- On a `/16` the preferred address is the key and two octets, the last neither 0, 1 nor 255. -/
theorem deriveIpIn_sixteen {key : String} {net : Cidr} (parsed : Cidr.parse key = some net)
    (sixteen : net.len = 16) (id : String)
    : ∃ a b : Nat, a ≤ 255 ∧ 2 ≤ b ∧ b ≤ 254
        ∧ deriveIpIn key id = key ++ "." ++ toString a ++ "." ++ toString b := by
  have octet (m : UInt32) : (m &&& 0xff).toNat ≤ 255 := by
    rw [UInt32.toNat_and]
    exact Nat.and_le_right
  obtain ⟨b, last⟩ : ∃ b, b = idNumber id &&& 0xff := ⟨_, rfl⟩
  have small : b.toNat ≤ 255 := by
    rw [last]
    exact octet _
  refine ⟨(idNumber id >>> 8 &&& 0xff).toNat,
    (let b := if b < 2 then 2 else b; if b = 255 then 254 else b).toNat, octet _, ?_⟩
  simp only [deriveIpIn, parsed, sixteen, ne_eq, not_true_eq_false, if_false, ← last, and_true]
  by_cases low : b < 2
  · rw [if_pos low]
    decide
  · rw [if_neg low]
    by_cases high : b = 255
    · rw [if_pos high]
      decide
    · rw [if_neg high]
      rw [UInt32.lt_iff_toNat_lt] at low
      rw [← UInt32.toNat_inj] at high
      have two : (2 : UInt32).toNat = 2 := rfl
      have top : (255 : UInt32).toNat = 255 := rfl
      omega

/-- The host of a `/16` with these last octets. -/
def hostOf (net : Cidr) (a b : Nat) : UInt32 :=
  fromBeBytes [net.base.toNat / 16777216, net.base.toNat / 65536 % 256, a, b]

/-- The two-octet key followed by two octets is the address of the four. -/
theorem legacy_octets (net : Cidr) {a b : Nat} (ha : a ≤ 255) (hb : b ≤ 255)
    : String.ofList (dotted ((toBeBytes net.base).take 2)) ++ "." ++ toString a ++ "." ++ toString b
      = Cidr.fmtU32 (hostOf net a b) := by
  have bound := net.base.toNat_lt
  rw [hostOf, Cidr.fmtU32, toBeBytes_fromBeBytes (by omega) (by omega) ha hb, ← String.toList_inj]
  simp [toBeBytes, dotted, Nat.toString_eq_repr, Nat.toList_repr, List.intercalate_cons_cons]

theorem span_sixteen {net : Cidr} (sixteen : net.len = 16) : net.span = 65536 := by
  rw [Cidr.span, sixteen]
  rfl

theorem toNat_hostOf {net : Cidr} (wellFormed : net.WellFormed) (sixteen : net.len = 16) {a b : Nat}
    (ha : a ≤ 255) (hb : b ≤ 255)
    : (hostOf net a b).toNat = net.base.toNat + a * 256 + b := by
  have bound := net.base.toNat_lt
  obtain ⟨q, base⟩ := wellFormed.aligned
  rw [span_sixteen sixteen] at base
  simp only [hostOf, fromBeBytes, List.getD_cons_zero, List.getD_cons_succ, UInt32.toNat_ofNat']
  omega

/-- A CIDR text followed by two more octets is no address: it has six dotted parts. -/
theorem parseAddr_cidr_octets (net : Cidr) (a b : Nat)
    : Cidr.parseAddr (net.toStringCidr ++ "." ++ toString a ++ "." ++ toString b) = none := by
  have digits {c : Char} {n : Nat} (member : c ∈ decimal n) : isWhitespace c = false := by
    have digit := isDigit_toDigits member
    exact isWhitespace_eq_false_of_range (by omega) (by omega)
  obtain ⟨o₀, o₁, o₂, o₃, octets⟩ : ∃ o₀ o₁ o₂ o₃, toBeBytes net.base = [o₀, o₁, o₂, o₃] :=
    ⟨_, _, _, _, rfl⟩
  let parts := [decimal o₀, decimal o₁, decimal o₂, decimal o₃ ++ '/' :: decimal net.len,
    decimal a, decimal b]
  have text : (net.toStringCidr ++ "." ++ toString a ++ "." ++ toString b).toList
      = List.intercalate ['.'] parts := by
    simp [Cidr.toList_toStringCidr, octets, parts, dotted, Nat.toString_eq_repr, Nat.toList_repr,
      List.intercalate_cons_cons]
  have cut : (List.intercalate ['.'] parts).splitOn '.' = parts := by
    apply List.splitOn_intercalate
    · have absent (n : Nat) : '.' ∉ decimal n := not_mem_decimal (by decide)
      simp [parts, absent]
    · simp [parts]
  have visible : trim (List.intercalate ['.'] parts) = List.intercalate ['.'] parts := by
    apply trim_eq_self
    intro c member
    simp only [parts, List.intercalate_cons_cons, List.intercalate_singleton, List.mem_append,
      List.mem_cons, List.not_mem_nil, or_false, or_assoc] at member
    rcases member with h | rfl | h | rfl | h | rfl | h | rfl | h | rfl | h | rfl | h <;>
      first | rfl | exact digits h
  simp only [Cidr.parseAddr, text, visible, cut]
  rfl

/-- A wider or narrower prefix than a `/16` spreads the ids between its gateway and its broadcast. -/
theorem deriveIpGeneral_spec {net : Cidr} (wellFormed : net.WellFormed) (positive : 0 < net.len)
    (roomy : net.len ≤ 29) (n : UInt32)
    : ∃ addr, deriveIpGeneral net n = Cidr.fmtU32 addr
        ∧ net.base.toNat + 1 < addr.toNat ∧ addr.toNat + 1 < net.base.toNat + net.span := by
  have room := wellFormed.base_add_span_le
  have size := Cidr.toNat_size positive wellFormed.short
  have wide : 2 ^ 3 ≤ net.span := Nat.pow_le_pow_right (by decide) (by omega)
  have three : (3 : UInt32).toNat = 3 := rfl
  have large : ¬ net.size ≤ 3 := by
    rw [UInt32.le_iff_toNat_le, size, three]
    omega
  have uteis : (net.size - 3).toNat = net.span - 3 := by
    rw [UInt32.toNat_sub_of_le _ _ (by rw [UInt32.le_iff_toNat_le]; omega), size, three]
  have some_ : net.size - 3 ≠ 0 := by
    rw [ne_eq, ← UInt32.toNat_inj, uteis]
    have zero : (0 : UInt32).toNat = 0 := rfl
    omega
  refine ⟨net.base + 2 + n % (net.size - 3), ?_, ?_⟩
  · simp only [deriveIpGeneral, if_neg large, if_neg some_]
  · have below : n.toNat % (net.span - 3) < net.span - 3 := Nat.mod_lt _ (by omega)
    have two : (2 : UInt32).toNat = 2 := rfl
    rw [UInt32.toNat_add, UInt32.toNat_add, UInt32.toNat_mod, uteis, two]
    omega

theorem spelled_deriveIpGeneral (net : Cidr) (n : UInt32) : Spelled (deriveIpGeneral net n) := by
  unfold deriveIpGeneral
  generalize (if net.size ≤ 3 then 0 else net.size - 3) = uteis
  dsimp only
  split <;> exact ⟨_, rfl⟩

theorem deriveIpIn_of_ne {key : String} {net : Cidr} (parsed : Cidr.parse key = some net)
    (other : net.len ≠ 16) (id : String)
    : deriveIpIn key id = deriveIpGeneral net (idNumber id) := by
  simp only [deriveIpIn, parsed, ne_eq, other, not_false_eq_true, if_true]

/-- The preferred address of a CIDR `/16` is none. -/
theorem parseAddr_deriveIpIn_cidr {key : String} {net : Cidr} (parsed : Cidr.parse key = some net)
    (sixteen : net.len = 16) (text : key = net.toStringCidr) (id : String)
    : Cidr.parseAddr (deriveIpIn key id) = none := by
  obtain ⟨a, b, -, -, -, derived⟩ := deriveIpIn_sixteen parsed sixteen id
  rw [derived, text]
  exact parseAddr_cidr_octets net a b

theorem validIpInSubnet_eq_false {key ip : String} (unread : Cidr.parseAddr ip = none)
    : validIpInSubnet key ip = false := by
  rw [validIpInSubnet, unread]
  cases Cidr.parse key <;> rfl

/-- A preferred address that passes the subnet check is canonically spelled. -/
theorem spelled_deriveIpIn {key id : String} (isKey : IsKey key)
    (valid : validIpInSubnet key (deriveIpIn key id) = true)
    : Spelled (deriveIpIn key id) := by
  obtain ⟨net, -, sixteen, parsed, text⟩ | ⟨net, -, parsed, text⟩ := isKey.shape
  · obtain ⟨a, b, third, -, fourth, derived⟩ := deriveIpIn_sixteen parsed sixteen id
    rw [derived, text]
    exact ⟨_, legacy_octets net third (by omega)⟩
  · by_cases sixteen : net.len = 16
    · rw [validIpInSubnet_eq_false (parseAddr_deriveIpIn_cidr parsed sixteen text id)] at valid
      contradiction
    · rw [deriveIpIn_of_ne parsed sixteen]
      exact spelled_deriveIpGeneral net _

/-- An allocated address is canonically spelled, whichever way it was picked. -/
theorem spelled_pickIp {key id ip : String} {map : Leases} (isKey : IsKey key)
    (picked : pickIp key id map = some ip)
    : Spelled ip := by
  obtain ⟨rfl | spelled, valid, _⟩ := pickIp_eq_some picked
  · exact spelled_deriveIpIn isKey valid
  · exact spelled

/-- The preferred address of an id is a usable address of the network exactly where the network is no
`/16`, or is one of `10.x`.
-/
theorem preferred_usable_iff {network : String} {net : Cidr}
    (parsed : Cidr.parse network = some net) (lower : 8 ≤ net.len) (upper : net.len ≤ 28)
    (id : String)
    : validIpInSubnet network (deriveIpIn (registryKey network) id) = true
      ↔ net.len ≠ 16 ∨ net.base >>> 24 = 10 := by
  have wellFormed := Cidr.parse_wellFormed parsed
  have keyed := parse_registryKey parsed
  by_cases sixteen : net.len = 16
  · simp only [ne_eq, sixteen, not_true_eq_false, false_or]
    by_cases ten : net.base >>> 24 = 10
    · have key : registryKey network = String.ofList (dotted ((toBeBytes net.base).take 2)) := by
        simp only [registryKey, parsed, if_pos (And.intro sixteen ten)]
      obtain ⟨a, b, third, low, high, derived⟩ := deriveIpIn_sixteen keyed sixteen id
      rw [derived, key, legacy_octets net third (by omega),
        validIpInSubnet_iff parsed (Cidr.parseAddr_fmtU32 _),
        toNat_hostOf wellFormed sixteen third (by omega), span_sixteen sixteen]
      refine ⟨fun _ => ten, fun _ => ?_⟩
      omega
    · have key : registryKey network = net.toStringCidr := by
        simp only [registryKey, parsed, ten, and_false, if_false]
      rw [validIpInSubnet_eq_false (parseAddr_deriveIpIn_cidr keyed sixteen key id)]
      exact ⟨fun usable => absurd usable Bool.false_ne_true, fun legacy => absurd legacy ten⟩
  · rw [deriveIpIn_of_ne keyed sixteen]
    obtain ⟨addr, derived, low, high⟩ :=
      deriveIpGeneral_spec wellFormed (by omega) (by omega) (idNumber id)
    rw [derived, validIpInSubnet_iff parsed (Cidr.parseAddr_fmtU32 addr)]
    exact ⟨fun _ => .inl sixteen, fun _ => ⟨low, high⟩⟩

theorem preferred_usable_twentyFour
    : Cidr.parse "172.20.9.0/24" = some ⟨0xAC140900, 24⟩
      ∧ (8 ≤ 24 ∧ 24 ≤ 28)
      ∧ validIpInSubnet "172.20.9.0/24" (deriveIpIn (registryKey "172.20.9.0/24") "0badcafe")
        = true := by
  have parsed : Cidr.parse "172.20.9.0/24" = some ⟨0xAC140900, 24⟩ := by decide +kernel
  have usable := preferred_usable_iff parsed (by decide) (by decide) "0badcafe"
  exact ⟨parsed, by decide, usable.mpr (.inl (by decide))⟩

/-- The preferred address on `172.20.0.0/16` has six parts. -/
theorem preferred_unusable_sixteen
    : Cidr.parse "172.20.0.0/16" = some ⟨0xAC140000, 16⟩
      ∧ deriveIpIn (registryKey "172.20.0.0/16") "0badcafe" = "172.20.0.0/16.202.254"
      ∧ validIpInSubnet "172.20.0.0/16" (deriveIpIn (registryKey "172.20.0.0/16") "0badcafe")
        = false := by
  decide +kernel

end Delonix.Ipam
