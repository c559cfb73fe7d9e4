import Delonix.Library.Text

/-! The address arithmetic of `delonix-net-rules`: dotted addresses and prefixes.
Addresses are 32-bit words with the wrapping operations of the source; a prefix length is a
number that parsing keeps at most 32.
-/

namespace Delonix.Net

open Delonix.Library.Text

/-- `str::parse::<u8>`. -/
def parseU8 (s : List Char) : Option Nat := parseUnsigned 10 255 s

/-- `u32::from_be_bytes` of four bytes, absent ones being zero as in the source's array. -/
def fromBeBytes (oct : List Nat) : UInt32 :=
  UInt32.ofNat
    (((oct.getD 0 0 * 256 + oct.getD 1 0) * 256 + oct.getD 2 0) * 256 + oct.getD 3 0)

/-- `u32::to_be_bytes`. -/
def toBeBytes (v : UInt32) : List Nat :=
  [v.toNat / 16777216, v.toNat / 65536 % 256, v.toNat / 256 % 256, v.toNat % 256]

theorem fromBeBytes_toBeBytes (v : UInt32) : fromBeBytes (toBeBytes v) = v := by
  apply UInt32.toNat_inj.mp
  have bound := v.toNat_lt
  simp only [fromBeBytes, toBeBytes, List.getD_cons_zero, List.getD_cons_succ,
    UInt32.toNat_ofNat']
  omega

theorem toBeBytes_le {v : UInt32} {b : Nat} (member : b ∈ toBeBytes v) : b ≤ 255 := by
  have bound := v.toNat_lt
  simp only [toBeBytes, List.mem_cons, List.not_mem_nil, or_false] at member
  omega

theorem toBeBytes_fromBeBytes {a b c d : Nat} (ha : a ≤ 255) (hb : b ≤ 255) (hc : c ≤ 255)
    (hd : d ≤ 255)
    : toBeBytes (fromBeBytes [a, b, c, d]) = [a, b, c, d] := by
  have value : (fromBeBytes [a, b, c, d]).toNat = ((a * 256 + b) * 256 + c) * 256 + d := by
    simp only [fromBeBytes, List.getD_cons_zero, List.getD_cons_succ, UInt32.toNat_ofNat']
    omega
  simp only [toBeBytes, value, List.cons.injEq, and_true]
  omega

/-- Octets separated by dots, each in decimal. -/
def dotted (oct : List Nat) : List Char := List.intercalate ['.'] (oct.map decimal)

theorem splitOn_dotted {oct : List Nat} (nonempty : oct ≠ [])
    : (dotted oct).splitOn '.' = oct.map decimal := by
  apply List.splitOn_intercalate
  · intro part member
    obtain ⟨b, _, rfl⟩ := List.mem_map.mp member
    exact not_mem_decimal (by decide)
  · simpa using nonempty

/-- Reading each octet of a dotted spelling gives the octets back, by induction over them. -/
theorem mapM_parseU8_decimal {oct : List Nat} (small : ∀ b ∈ oct, b ≤ 255)
    : (oct.map decimal).mapM parseU8 = some oct := by
  rw [List.mapM_map]
  induction oct with
  | nil => rfl
  | cons b rest ih =>
      have head : parseU8 (decimal b) = some b := parseUnsigned_decimal (small b (by simp))
      simp [head, ih (fun b member => small b (by simp [member]))]

theorem mem_dotted {oct : List Nat} {c : Char} (member : c ∈ dotted oct)
    : c = '.' ∨ (48 ≤ c.toNat ∧ c.toNat ≤ 57) := by
  induction oct with
  | nil => simp [dotted] at member
  | cons b rest ih =>
      cases rest with
      | nil => exact .inr (isDigit_toDigits (by simpa [dotted] using member))
      | cons b' rest =>
          have shape : dotted (b :: b' :: rest) = decimal b ++ '.' :: dotted (b' :: rest) := by
            simp [dotted, List.intercalate_cons_cons]
          rw [shape, List.mem_append, List.mem_cons] at member
          rcases member with digits | dot | later
          · exact .inr (isDigit_toDigits digits)
          · exact .inl dot
          · exact ih later

theorem slash_not_mem_dotted (oct : List Nat) : '/' ∉ dotted oct := by
  intro member
  rcases mem_dotted member with dot | digit
  · exact absurd dot (by decide)
  · exact absurd digit.1 (by decide)

theorem trim_dotted (oct : List Nat) : trim (dotted oct) = dotted oct := by
  apply trim_eq_self
  intro c member
  rcases mem_dotted member with rfl | digit
  · rfl
  · exact isWhitespace_eq_false_of_range (by omega) (by omega)

/-- A network's address space. The host bits of `base` are cleared by `parse`. -/
structure Cidr where
  base : UInt32
  len : Nat
  deriving DecidableEq, Repr

namespace Cidr

def mask (len : Nat) : UInt32 :=
  if len = 0 then 0 else 0xFFFFFFFF <<< UInt32.ofNat (32 - len)

/-- The address part and the length: the text around the first slash, or a legacy two-octet
form, which is always a `/16`.
-/
def splitLen (s : List Char) : Option (List Char × Nat) :=
  match splitOnce '/' s with
  | some (a, l) => (parseU8 l).map (fun len => (a, len))
  | none => if (s.splitOn '.').length = 2 then some (s, 16) else none

/-- The prefix of that length around an address of at most four octets. Missing octets are
zero, and host bits are cleared rather than rejected.
-/
def ofAddr (addr : List Char) (len : Nat) : Option Cidr :=
  if 32 < len then none
  else
    let parts := addr.splitOn '.'
    if parts.isEmpty || 4 < parts.length then none
    else
      (parts.mapM parseU8).map (fun oct =>
        { base := fromBeBytes oct &&& mask len, len := len })

/-- Parses `a.b.c.d/len` and the legacy `a.b`. -/
def parse (text : String) : Option Cidr :=
  (splitLen (trim text.toList)).bind (fun (addr, len) => ofAddr addr len)

/-- How many addresses the prefix holds, saturating for a `/0`. -/
def size (net : Cidr) : UInt32 :=
  if net.len = 0 then 0xFFFFFFFF else 1 <<< UInt32.ofNat (32 - net.len)

/-- The last address of the prefix. -/
def last (net : Cidr) : UInt32 := net.base ||| ~~~ mask net.len

/-- The lengths a workload network may have. -/
def usableForNetwork (net : Cidr) : Bool := 8 ≤ net.len && net.len ≤ 28

def contains (net : Cidr) (ip : UInt32) : Bool := ip &&& mask net.len == net.base

/-- Whether the two prefixes share an address. -/
def overlaps (net other : Cidr) : Bool :=
  net.base &&& mask (min net.len other.len) == other.base &&& mask (min net.len other.len)

def fmtU32 (v : UInt32) : String := String.ofList (dotted (toBeBytes v))

def toStringCidr (net : Cidr) : String := fmtU32 net.base ++ "/" ++ toString net.len

/-- Parses a dotted address. Blanks around it, a sign and leading zeros are accepted. -/
def parseAddr (ip : String) : Option UInt32 := do
  let p := (trim ip.toList).splitOn '.'
  if p.length ≠ 4 then
    none
  else
    let o ← p.mapM parseU8
    some (fromBeBytes o)

/-- The spelling `fmtU32` writes denotes the address it was made from. -/
theorem parseAddr_fmtU32 (v : UInt32) : parseAddr (fmtU32 v) = some v := by
  have cut : (dotted (toBeBytes v)).splitOn '.' = (toBeBytes v).map decimal :=
    splitOn_dotted (by simp [toBeBytes])
  have parsed : ((toBeBytes v).map decimal).mapM parseU8 = some (toBeBytes v) :=
    mapM_parseU8_decimal (fun _ => toBeBytes_le)
  have four : (toBeBytes v).length = 4 := rfl
  simp [parseAddr, fmtU32, trim_dotted, cut, four, parsed, fromBeBytes_toBeBytes]

theorem toList_toStringCidr (net : Cidr)
    : net.toStringCidr.toList = dotted (toBeBytes net.base) ++ '/' :: decimal net.len := by
  simp [toStringCidr, fmtU32, Nat.toString_eq_repr, Nat.toList_repr]

/-- What `parse` promises of every prefix it returns. -/
structure WellFormed (net : Cidr) : Prop where
  cleared : net.base &&& mask net.len = net.base
  short : net.len ≤ 32

/-- Every parsed prefix has its host bits cleared and a length of at most 32. -/
theorem parse_wellFormed {text : String} {net : Cidr} (parsed : parse text = some net)
    : WellFormed net := by
  obtain ⟨⟨addr, len⟩, _, made⟩ := Option.bind_eq_some_iff.mp parsed
  simp only [ofAddr] at made
  split at made
  case isTrue => contradiction
  case isFalse short =>
    split at made
    case isTrue => contradiction
    case isFalse =>
      obtain ⟨oct, _, rfl⟩ := Option.map_eq_some_iff.mp made
      exact {
        cleared := by simp [UInt32.and_assoc]
        short := by simpa using short
      }

theorem ofAddr_dotted {oct : List Nat} {len : Nat} (short : len ≤ 32) (few : oct.length ≤ 4)
    (nonempty : oct ≠ []) (small : ∀ b ∈ oct, b ≤ 255)
    : ofAddr (dotted oct) len
      = some { base := fromBeBytes oct &&& mask len, len := len } := by
  simp [ofAddr, Nat.not_lt.mpr short, splitOn_dotted nonempty, nonempty,
    Nat.not_lt.mpr few, mapM_parseU8_decimal small]

/-- The CIDR spelling of a well-formed prefix parses back to it. -/
theorem parse_toStringCidr {net : Cidr} (wellFormed : WellFormed net)
    : parse (toStringCidr net) = some net := by
  have text := toList_toStringCidr net
  have visible : trim (toStringCidr net).toList = (toStringCidr net).toList := by
    apply trim_eq_self
    intro c member
    rw [text, List.mem_append, List.mem_cons] at member
    rcases member with address | rfl | length
    · rcases mem_dotted address with rfl | digit
      · rfl
      · exact isWhitespace_eq_false_of_range (by omega) (by omega)
    · rfl
    · have digit := isDigit_toDigits length
      exact isWhitespace_eq_false_of_range (by omega) (by omega)
  have length : parseU8 (decimal net.len) = some net.len :=
    parseUnsigned_decimal (by have := wellFormed.short; omega)
  have address : ofAddr (dotted (toBeBytes net.base)) net.len = some net := by
    rw [ofAddr_dotted wellFormed.short (by simp [toBeBytes]) (by simp [toBeBytes])
      (fun _ => toBeBytes_le), fromBeBytes_toBeBytes, wellFormed.cleared]
  rw [parse, visible, text]
  simp [splitLen, splitOnce_append _ (slash_not_mem_dotted _), length, address]

/-- The legacy spelling is the `/16` of its two octets. -/
theorem parse_twoOctets {a b : Nat} (ha : a ≤ 255) (hb : b ≤ 255)
    : parse (String.ofList (dotted [a, b]))
      = some { base := fromBeBytes [a, b, 0, 0] &&& mask 16, len := 16 } := by
  have two : ((dotted [a, b]).splitOn '.').length = 2 := by
    simp [splitOn_dotted (List.cons_ne_nil a [b])]
  have address : ofAddr (dotted [a, b]) 16
      = some { base := fromBeBytes [a, b] &&& mask 16, len := 16 } :=
    ofAddr_dotted (by decide) (by simp) (by simp) (by simp [ha, hb])
  simp [parse, trim_dotted, splitLen, splitOnce_eq_none (slash_not_mem_dotted _), two, address,
    fromBeBytes]

end Cidr

end Delonix.Net

/-! Which address of a prefix belongs to whom: the preferred address of an id, the usable
hosts, and the slice the VM DHCP server owns.
-/

namespace Delonix.Net

open Delonix.Library.Text

def vmDhcpPoolOctet : UInt32 := 254

def vmDhcpPoolFirst : UInt32 := 10

def vmDhcpPoolSize : UInt32 := 240

/-- The first address and the size of the pool, or nothing for something that is not a
network. A `/16` keeps its historic range in either spelling.
-/
def vmDhcpPool (network : String) : Option (UInt32 × UInt32) :=
  (Cidr.parse network).bind (fun net =>
    if net.len = 16 then
      some (net.base + (vmDhcpPoolOctet <<< 8) + vmDhcpPoolFirst, vmDhcpPoolSize)
    else if net.usableForNetwork then
      let size := min (max (net.size / 8) 1) vmDhcpPoolSize
      -- The last address is the broadcast: the pool ends one below it.
      some (net.last - size, size)
    else
      none)

def inVmDhcpPool (network ip : String) : Bool :=
  match vmDhcpPool network, Cidr.parseAddr ip with
  | some (first, size), some addr => first ≤ addr && addr < first + size
  | _, _ => false

/-- The address is inside the prefix and is neither the network, the gateway nor the
broadcast.
-/
def validIpInSubnet (network ip : String) : Bool :=
  match Cidr.parse network, Cidr.parseAddr ip with
  | some net, some addr =>
      net.contains addr && addr != net.base && addr != net.base + 1 && addr != net.last
  | _, _ => false

/-- The longest run of leading characters that fits in the given number of UTF-8 bytes. -/
def takeBytes : Nat → List Char → List Char
  | _, [] => []
  | budget, c :: rest =>
      if c.utf8Size ≤ budget then c :: takeBytes (budget - c.utf8Size) rest else []

/-- The number an id hashes to: its first eight bytes read as hexadecimal. -/
def idNumber (id : String) : UInt32 :=
  UInt32.ofNat ((parseUnsigned 16 0xFFFFFFFF (takeBytes 8 id.toList)).getD 2)

/-- The preferred address in a prefix of any length but 16. -/
def deriveIpGeneral (net : Cidr) (n : UInt32) : String :=
  let uteis := if net.size ≤ 3 then 0 else net.size - 3
  if uteis = 0 then
    Cidr.fmtU32 (net.base + 1)
  else
    Cidr.fmtU32 (net.base + 2 + n % uteis)

/-- The preferred address of an id. On a `/16` it is the network text followed by two octets
of the id, the last kept between 2 and 254.
-/
def deriveIpIn (network id : String) : String :=
  let n := idNumber id
  let a := (n >>> 8) &&& 0xff
  let b := n &&& 0xff
  let b := if b < 2 then 2 else b
  let b := if b = 255 then 254 else b
  let inSixteen := network ++ "." ++ toString a.toNat ++ "." ++ toString b.toNat
  match Cidr.parse network with
  | some net => if net.len ≠ 16 then deriveIpGeneral net n else inSixteen
  | none => inSixteen

/-- The 32-bit FNV-1a hash of the UTF-8 bytes of a text. -/
def fnv32 (s : String) : UInt32 :=
  (s.toList.flatMap String.utf8EncodeChar).foldl
    (fun h byte => (h ^^^ byte.toUInt32) * 0x01000193) 0x811c9dc5

end Delonix.Net
