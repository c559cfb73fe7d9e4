import Delonix.Library.Checks
import Delonix.Net.DhcpPool

/-! The addresses of a pool: single ones, ranges and prefixes, expanded to a list without
repetitions of addresses that a host can have.
-/

namespace Delonix.IpPool

open Delonix.Library.Checks Delonix.Library.Text Delonix.Net

/-- A decimal octet of one to three digits, without a zero in front. -/
def parseOctet (s : List Char) : Option Nat :=
  if s.all Char.isDigit && s.length ≤ 3 && (s.head? ≠ some '0' || s = ['0']) then
    parseUnsigned 10 255 s
  else none

/-- `Ipv4Addr::from_str`. -/
def parseIpv4 (s : List Char) : Option UInt32 :=
  match (s.splitOn '.').mapM parseOctet with
  | some [a, b, c, d] => some (fromBeBytes [a, b, c, d])
  | _ => none

/-- Never the address of a host: unspecified, broadcast, multicast or link-local. -/
def isReserved (ip : UInt32) : Bool :=
  ip = 0 || ip = 0xFFFFFFFF || (0xE0000000 ≤ ip && ip ≤ 0xEFFFFFFF)
    || (0xA9FE0000 ≤ ip && ip ≤ 0xA9FEFFFF)

theorem parseOctet_decimal {b : Nat} (small : b ≤ 255) : parseOctet (decimal b) = some b := by
  have all : ∀ b ≤ 255, parseOctet (decimal b) = some b := by decide +kernel
  exact all b small

/-- The spelling of an address denotes it. -/
theorem parseIpv4_fmtU32 (v : UInt32) : parseIpv4 (Cidr.fmtU32 v).toList = some v := by
  have cut : (Cidr.fmtU32 v).toList.splitOn '.' = (toBeBytes v).map decimal := by
    rw [Cidr.fmtU32, String.toList_ofList]
    exact splitOn_dotted (by simp [toBeBytes])
  have octets : ∀ oct : List Nat, (∀ b ∈ oct, b ≤ 255)
      → (oct.map decimal).mapM parseOctet = some oct := by
    intro oct small
    induction oct with
    | nil => rfl
    | cons b rest ih =>
        obtain ⟨here, later⟩ := List.forall_mem_cons.mp small
        rw [List.map_cons, List.mapM_cons, parseOctet_decimal here, ih later]
        rfl
  have parsed := octets (toBeBytes v) fun _ => toBeBytes_le
  obtain ⟨a, b, c, d, bytes⟩ : ∃ a b c d, toBeBytes v = [a, b, c, d] := ⟨_, _, _, _, rfl⟩
  rw [parseIpv4, cut, parsed, bytes]
  simp only [← bytes, fromBeBytes_toBeBytes]

theorem fmtU32_inj {a b : UInt32} (same : Cidr.fmtU32 a = Cidr.fmtU32 b) : a = b := by
  have parsed := parseIpv4_fmtU32 a
  rw [same, parseIpv4_fmtU32] at parsed
  exact (Option.some.inj parsed).symm

inductive PoolError where
  | invalid (message : String)
  | notFound (message : String)
  | conflict (message : String)
deriving DecidableEq, Repr

def v4 (s : List Char) : Except String UInt32 :=
  match parseIpv4 (trim s) with
  | some ip => .ok ip
  | none => .error ("'" ++ String.ofList s ++ "' is not an IPv4 address (IPv6 is not supported)")

/-- The first and the last address an entry names. -/
def entryEnds (e : List Char) : Except String (UInt32 × UInt32) :=
  match splitOnce '-' e with
  | some (a, b) => do return (← v4 a, ← v4 b)
  | none =>
      if e.contains '/' then
        match Cidr.parse (String.ofList e) with
        | some c =>
            -- a /31 and a /32 have no network and no broadcast address
            .ok (if c.len ≤ 30 then (c.base + 1, c.last - 1) else (c.base, c.last))
        | none => .error ("'" ++ String.ofList e ++ "' is not a CIDR")
      else do return ((← v4 e), (← v4 e))

/-- Only the two ends are looked at. -/
def parseEntry (entry : String) : Except String (UInt32 × UInt32) := do
  let e := trim entry.toList
  let ends ← entryEnds e
  if ends.2 < ends.1 then .error ("'" ++ String.ofList e ++ "': the range ends before it starts")
  else
    match [ends.1, ends.2].find? isReserved with
    | some ip =>
        .error ("'" ++ String.ofList e ++ "' contains " ++ Cidr.fmtU32 ip
          ++ ", which is never a host address (unspecified, broadcast, multicast or "
          ++ "link-local)")
    | none => .ok ends

def maxAddresses : Nat := 65536

def rangeSize (ends : UInt32 × UInt32) : Nat := ends.2.toNat - ends.1.toNat + 1

def addressRange (ends : UInt32 × UInt32) : List UInt32 :=
  (List.range' ends.1.toNat (rangeSize ends)).map UInt32.ofNat

/-- The addresses of the entries, as long as they are not too many. -/
def expandFrom (total : Nat) : List String → Except PoolError (List UInt32)
  | [] => .ok []
  | entry :: rest =>
      match parseEntry entry with
      | .error why => .error (.invalid ("IPPool: addresses: " ++ why))
      | .ok ends =>
          if maxAddresses < total + rangeSize ends then
            .error (.invalid ("IPPool: more than " ++ toString maxAddresses
              ++ " addresses — narrow it"))
          else do return addressRange ends ++ (← expandFrom (total + rangeSize ends) rest)

/-- The first element that a list has twice, at its second place. -/
def firstRepeated (seen : List UInt32) : List UInt32 → Option UInt32
  | [] => none
  | a :: rest => if seen.contains a then some a else firstRepeated (a :: seen) rest

/-- Every address of the pool, in declared order. -/
def expand (addresses : List String) : Except PoolError (List UInt32) :=
  if addresses.isEmpty then
    .error (.invalid "IPPool: `addresses` is required and must not be empty")
  else do
    let out ← expandFrom 0 addresses
    match firstRepeated [] out with
    | some dup => .error (.invalid ("IPPool: " ++ Cidr.fmtU32 dup ++ " is listed more than once"))
    | none => return out

/-- Two ends that a host can have, no further apart than a pool is large, have nothing between
them that a host cannot have.
-/
theorem not_reserved_between {first last ip : UInt32} (above : first ≤ ip) (below : ip ≤ last)
    (small : last.toNat - first.toNat < maxAddresses) (start : isReserved first = false)
    (stop : isReserved last = false)
    : isReserved ip = false := by
  simp only [isReserved, Bool.or_eq_false_iff, Bool.and_eq_false_iff, decide_eq_false_iff_not,
    ← UInt32.toNat_inj, UInt32.le_iff_toNat_le] at *
  simp only [maxAddresses] at small
  have zero : (0 : UInt32).toNat = 0 := rfl
  have broadcast : (0xFFFFFFFF : UInt32).toNat = 4294967295 := rfl
  have multicast : (0xE0000000 : UInt32).toNat = 3758096384 := rfl
  have multicast_last : (0xEFFFFFFF : UInt32).toNat = 4026531839 := rfl
  have local_first : (0xA9FE0000 : UInt32).toNat = 2851995648 := rfl
  have local_last : (0xA9FEFFFF : UInt32).toNat = 2852061183 := rfl
  have bound := last.toNat_lt
  omega

theorem mem_addressRange {ends : UInt32 × UInt32} (ordered : ends.1 ≤ ends.2) {ip : UInt32}
    : ip ∈ addressRange ends ↔ ends.1 ≤ ip ∧ ip ≤ ends.2 := by
  have ordered := UInt32.le_iff_toNat_le.mp ordered
  simp only [addressRange, List.mem_map, List.mem_range', rangeSize, UInt32.le_iff_toNat_le]
  have bound := ends.2.toNat_lt
  constructor
  · rintro ⟨n, ⟨i, small, rfl⟩, rfl⟩
    rw [UInt32.toNat_ofNat_of_lt' (by simp only [UInt32.size]; omega)]
    omega
  · rintro ⟨above, below⟩
    exact ⟨ip.toNat, ⟨ip.toNat - ends.1.toNat, by omega, by omega⟩, UInt32.ofNat_toNat⟩

theorem parseEntry_spec {entry : String} {ends : UInt32 × UInt32}
    (parsed : parseEntry entry = .ok ends)
    : ends.1 ≤ ends.2 ∧ isReserved ends.1 = false ∧ isReserved ends.2 = false := by
  simp only [parseEntry, bind_eq_ok] at parsed
  obtain ⟨found, -, checked⟩ := parsed
  split at checked
  · cases checked
  case isFalse ordered =>
    cases reserved : [found.1, found.2].find? isReserved with
    | some ip =>
        rw [reserved] at checked
        cases checked
    | none =>
        rw [reserved] at checked
        cases checked
        simp only [List.find?_eq_none, List.mem_cons, List.not_mem_nil, or_false,
          forall_eq_or_imp, forall_eq, Bool.not_eq_true] at reserved
        exact ⟨UInt32.not_lt.mp ordered, reserved⟩

theorem expandFrom_hosts {total : Nat} {addresses : List String} {all : List UInt32}
    (expanded : expandFrom total addresses = .ok all)
    : ∀ ip ∈ all, isReserved ip = false := by
  induction addresses generalizing total all with
  | nil =>
      cases expanded
      simp
  | cons entry rest ih =>
      rw [expandFrom] at expanded
      cases parsed : parseEntry entry with
      | error why =>
          rw [parsed] at expanded
          cases expanded
      | ok ends =>
          simp only [parsed] at expanded
          split at expanded
          · cases expanded
          case isFalse small =>
            simp only [bind_eq_ok] at expanded
            obtain ⟨others, later, same⟩ := expanded
            cases same
            obtain ⟨ordered, start, stop⟩ := parseEntry_spec parsed
            intro ip member
            obtain here | there := List.mem_append.mp member
            · obtain ⟨above, below⟩ := (mem_addressRange ordered).mp here
              refine not_reserved_between above below ?_ start stop
              simp only [rangeSize] at small
              omega
            · exact ih later ip there

/-- No address of a pool is one that a host cannot have. -/
theorem expand_hosts {addresses : List String} {all : List UInt32}
    (expanded : expand addresses = .ok all)
    : ∀ ip ∈ all, isReserved ip = false := by
  rw [expand] at expanded
  split at expanded
  · cases expanded
  · simp only [bind_eq_ok] at expanded
    obtain ⟨out, from_entries, checked⟩ := expanded
    split at checked
    · cases checked
    · cases checked
      exact expandFrom_hosts from_entries

end Delonix.IpPool
