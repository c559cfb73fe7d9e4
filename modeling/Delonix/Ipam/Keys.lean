import Delonix.Ipam.Registry

/-! Canonical keys: every spelling of a network leads to one key, every key to one file, and
the lock's migration finds nothing to move in a registry whose files all have canonical keys.
-/

namespace Delonix.Ipam

open Delonix.Net
open Delonix.Library.Collections
open Delonix.Library.Text

/-- A key that names a network and is its own canonical spelling. -/
structure IsKey (key : String) : Prop where
  network : ∃ net, Cidr.parse key = some net
  canonical : registryKey key = key

private theorem low_octets_eq_zero {net : Cidr} (wellFormed : net.WellFormed)
    (sixteen : net.len = 16)
    : net.base.toNat % 65536 = 0 := by
  have cleared := congrArg UInt32.toNat wellFormed.cleared
  have maskValue : (Cidr.mask 16).toNat = 0xFFFF0000 := by decide
  rw [sixteen, UInt32.toNat_and, maskValue] at cleared
  calc
    net.base.toNat % 65536
        = net.base.toNat &&& 65535 := (Nat.and_two_pow_sub_one_eq_mod _ 16).symm
    _ = net.base.toNat &&& (0xFFFF0000 &&& 65535) := by rw [← Nat.and_assoc, cleared]
    _ = 0 := by simp

/-- The two-octet key of a `10.x` network parses back to that network. -/
theorem parse_legacyKey {net : Cidr} (wellFormed : net.WellFormed) (sixteen : net.len = 16)
    : Cidr.parse (String.ofList (dotted ((toBeBytes net.base).take 2))) = some net := by
  have low := low_octets_eq_zero wellFormed sixteen
  have bound := net.base.toNat_lt
  have octets : fromBeBytes [net.base.toNat / 16777216, net.base.toNat / 65536 % 256, 0, 0]
      = net.base := by
    apply UInt32.toNat_inj.mp
    simp only [fromBeBytes, List.getD_cons_zero, List.getD_cons_succ, UInt32.toNat_ofNat']
    omega
  have cleared := wellFormed.cleared
  rw [sixteen] at cleared
  have parsed := Cidr.parse_twoOctets (a := net.base.toNat / 16777216)
    (b := net.base.toNat / 65536 % 256) (by omega) (by omega)
  rw [octets, cleared, ← sixteen] at parsed
  exact parsed

/-- Whatever the spelling, the key of a network parses to the network. -/
theorem parse_registryKey {network : String} {net : Cidr}
    (parsed : Cidr.parse network = some net)
    : Cidr.parse (registryKey network) = some net := by
  have wellFormed := Cidr.parse_wellFormed parsed
  rw [registryKey, parsed]
  dsimp only
  split
  case isTrue legacy => exact parse_legacyKey wellFormed legacy.1
  case isFalse => exact Cidr.parse_toStringCidr wellFormed

/-- Two spellings of one network share their key. -/
theorem registryKey_eq_of_parse {left right : String} {net : Cidr}
    (hl : Cidr.parse left = some net) (hr : Cidr.parse right = some net)
    : registryKey left = registryKey right := by
  simp only [registryKey, hl, hr]

theorem isKey_registryKey {network : String} {net : Cidr}
    (parsed : Cidr.parse network = some net)
    : IsKey (registryKey network) where
  network := ⟨net, parse_registryKey parsed⟩
  canonical := registryKey_eq_of_parse (parse_registryKey parsed) parsed

/-- The two shapes of a canonical key. -/
theorem IsKey.shape {key : String} (isKey : IsKey key)
    : (∃ net : Cidr, net.WellFormed ∧ net.len = 16 ∧ Cidr.parse key = some net
        ∧ key = String.ofList (dotted ((toBeBytes net.base).take 2)))
      ∨ (∃ net : Cidr, net.WellFormed ∧ Cidr.parse key = some net
        ∧ key = net.toStringCidr) := by
  obtain ⟨net, parsed⟩ := isKey.network
  have canonical := isKey.canonical
  simp only [registryKey, parsed] at canonical
  have wellFormed := Cidr.parse_wellFormed parsed
  split at canonical
  case isTrue legacy => exact .inl ⟨net, wellFormed, legacy.1, parsed, canonical.symm⟩
  case isFalse => exact .inr ⟨net, wellFormed, parsed, canonical.symm⟩

/-- The characters of a CIDR text. -/
def IsCidrChar (c : Char) : Prop := c = '.' ∨ c = '/' ∨ c.isDigit = true

private theorem isCidrChar_of_range {c : Char} (range : 48 ≤ c.toNat ∧ c.toNat ≤ 57)
    : IsCidrChar c :=
  .inr (.inr (by simpa [Char.isDigit, UInt32.le_iff_toNat_le] using range))

private theorem isCidrChar_of_dotted {oct : List Nat} {c : Char} (inside : c ∈ dotted oct)
    : IsCidrChar c := by
  rcases mem_dotted inside with dot | range
  · exact .inl dot
  · exact isCidrChar_of_range range

theorem isCidrChar_of_toStringCidr {net : Cidr} {c : Char} (member : c ∈ net.toStringCidr.toList)
    : IsCidrChar c := by
  rw [Cidr.toList_toStringCidr, List.mem_append, List.mem_cons] at member
  rcases member with address | slash | length
  · exact isCidrChar_of_dotted address
  · exact .inr (.inl slash)
  · exact isCidrChar_of_range (isDigit_toDigits length)

/-- A canonical key is written with digits, dots and slashes only. -/
theorem IsKey.char {key : String} (isKey : IsKey key) {c : Char} (member : c ∈ key.toList)
    : c = '.' ∨ c = '/' ∨ c.isDigit = true := by
  rcases isKey.shape with ⟨net, _, _, _, rfl⟩ | ⟨net, _, _, rfl⟩
  · exact isCidrChar_of_dotted (by simpa using member)
  · exact isCidrChar_of_toStringCidr member

/-- The stem of a text in the characters of a CIDR stands for the key of that text. -/
theorem keyOfStem_of_chars {text : String} (plain : ∀ c ∈ text.toList, IsCidrChar c)
    : keyOfStem (sanitizeKey text) = registryKey text := by
  have restored : String.ofList ((sanitizeKey text).toList.map
      (fun c => if c = '_' then '/' else c)) = text := by
    rw [← String.toList_inj]
    simp only [sanitizeKey, String.toList_ofList, List.map_map]
    rw [List.map_congr_left (g := id), List.map_id]
    intro c member
    rcases plain c member with rfl | rfl | digit
    · rfl
    · rfl
    · have visible : c ≠ '_' := by
        rintro rfl
        exact absurd digit (by decide)
      simp [sanitizeChar, digit, visible]
  rw [keyOfStem, restored]

/-- The stem of a canonical key stands for that key. -/
theorem keyOfStem_sanitizeKey {key : String} (isKey : IsKey key)
    : keyOfStem (sanitizeKey key) = key := by
  rw [keyOfStem_of_chars (fun c member => isKey.char member), isKey.canonical]

/-- Distinct canonical keys have distinct files. -/
theorem sanitizeKey_inj {left right : String} (hl : IsKey left) (hr : IsKey right)
    : sanitizeKey left = sanitizeKey right ↔ left = right := by
  constructor
  · intro same
    rw [← keyOfStem_sanitizeKey hl, same, keyOfStem_sanitizeKey hr]
  · exact congrArg sanitizeKey

/-- The text after a separator-free front is determined, and so is the front. -/
private theorem append_slash_inj {front front' back back' : List Char} (h : '/' ∉ front)
    (h' : '/' ∉ front') (same : front ++ '/' :: back = front' ++ '/' :: back')
    : front = front' ∧ back = back' := by
  have cut := congrArg (splitOnce '/') same
  rw [splitOnce_append _ h, splitOnce_append _ h'] at cut
  simpa using cut

private theorem dotted_two_ne_four {oct : List Nat} (a b c d : Nat) (two : oct.length = 2)
    : dotted oct ≠ dotted [a, b, c, d] := by
  intro same
  have parts := congrArg (fun s => (List.splitOn '.' s).length) same
  have nonempty : oct ≠ [] := by
    rintro rfl
    contradiction
  simp [splitOn_dotted nonempty, splitOn_dotted (List.cons_ne_nil a [b, c, d]), two] at parts

/-- A candidate names one network and one id, whatever characters the id has: the first slash
ends a legacy key, the second one ends a CIDR.
-/
theorem candidateKey_injective {left right leftId rightId : String} (hl : IsKey left)
    (hr : IsKey right) (same : candidateKey left leftId = candidateKey right rightId)
    : left = right ∧ leftId = rightId := by
  have texts : left.toList ++ '/' :: leftId.toList = right.toList ++ '/' :: rightId.toList := by
    simpa [candidateKey] using congrArg String.toList same
  suffices keys : left = right by
    subst keys
    exact ⟨rfl, String.toList_inj.mp (by simpa using texts)⟩
  have digits (n : Nat) : '/' ∉ decimal n := not_mem_decimal (by decide)
  rcases hl.shape with ⟨net, _, _, _, rfl⟩ | ⟨net, _, _, rfl⟩ <;>
    rcases hr.shape with ⟨net', _, _, _, rfl⟩ | ⟨net', _, _, rfl⟩
  · rw [String.toList_ofList, String.toList_ofList] at texts
    rw [(append_slash_inj (slash_not_mem_dotted _) (slash_not_mem_dotted _) texts).1]
  · rw [String.toList_ofList, Cidr.toList_toStringCidr, List.append_assoc, List.cons_append] at texts
    have fronts := append_slash_inj (slash_not_mem_dotted _) (slash_not_mem_dotted _) texts
    exact (dotted_two_ne_four _ _ _ _ rfl fronts.1).elim
  · rw [String.toList_ofList, Cidr.toList_toStringCidr, List.append_assoc, List.cons_append] at texts
    have fronts := append_slash_inj (slash_not_mem_dotted _) (slash_not_mem_dotted _) texts.symm
    exact (dotted_two_ne_four _ _ _ _ rfl fronts.1).elim
  · rw [Cidr.toList_toStringCidr, Cidr.toList_toStringCidr, List.append_assoc, List.append_assoc,
      List.cons_append, List.cons_append] at texts
    obtain ⟨address, lengths⟩ :=
      append_slash_inj (slash_not_mem_dotted _) (slash_not_mem_dotted _) texts
    obtain ⟨length, _⟩ := append_slash_inj (digits _) (digits _) lengths
    apply String.toList_inj.mp
    rw [Cidr.toList_toStringCidr, Cidr.toList_toStringCidr, address, length]

/-- Every file of the registry belongs to a canonical key. -/
def Registry.Keyed (registry : Registry) : Prop :=
  ∀ stem ∈ registry.files, ∃ key, IsKey key ∧ sanitizeKey key = stem

theorem Registry.keyed_empty : Registry.empty.Keyed := by
  intro stem member
  simp [Registry.empty] at member

theorem Registry.Keyed.store {registry : Registry} (keyed : registry.Keyed) {key : String}
    (isKey : IsKey key) (map : Leases)
    : (Ipam.store registry key map).Keyed := by
  intro stem member
  simp only [Ipam.store, Std.ExtTreeMap.mem_insert, Std.LawfulEqOrd.compare_eq_iff_eq] at member
  rcases member with rfl | member
  · exact ⟨key, isKey, rfl⟩
  · exact keyed stem member

/-- The migration every lock runs first finds no stray file. -/
theorem Registry.Keyed.migrateStrayFiles {registry : Registry} (keyed : registry.Keyed)
    : Ipam.migrateStrayFiles registry = registry := by
  have step : ∀ stem ∈ registry.files.keys, migrateFile registry stem = registry := by
    intro stem member
    obtain ⟨key, isKey, rfl⟩ := keyed stem (Std.ExtTreeMap.mem_keys.mp member)
    simp [migrateFile, keyOfStem_sanitizeKey isKey]
  rw [Ipam.migrateStrayFiles]
  generalize registry.files.keys = stems at step
  induction stems with
  | nil => rfl
  | cons stem rest ih =>
      rw [List.foldl_cons, step stem (by simp)]
      exact ih (fun other member => step other (by simp [member]))

/-- The keys listed are exactly the canonical keys that have a file. -/
theorem Registry.Keyed.mem_registryKeys {registry : Registry} (keyed : registry.Keyed)
    {key : String}
    : key ∈ registryKeys registry ↔ IsKey key ∧ sanitizeKey key ∈ registry.files := by
  simp only [registryKeys, mem_sortedSet, List.mem_map, Std.ExtTreeMap.mem_keys]
  constructor
  · rintro ⟨stem, member, rfl⟩
    obtain ⟨key, isKey, rfl⟩ := keyed stem member
    rw [keyOfStem_sanitizeKey isKey]
    exact ⟨isKey, member⟩
  · rintro ⟨isKey, member⟩
    exact ⟨sanitizeKey key, member, keyOfStem_sanitizeKey isKey⟩

theorem nodup_registryKeys (registry : Registry) : (registryKeys registry).Nodup :=
  nodup_sortedSet _

theorem load_store (registry : Registry) (key other : String) (map : Leases)
    : load (store registry key map) other
      = if sanitizeKey key = sanitizeKey other then some map else load registry other := by
  simp [load, store, Std.ExtTreeMap.getElem?_insert]

end Delonix.Ipam
