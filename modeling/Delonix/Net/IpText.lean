import Delonix.Library.Pieces
import Delonix.Net.Cidr

/-! The text of an address, of either family, as the standard library displays it. -/

namespace Delonix.Net

open Delonix.Library.Pieces
open Delonix.Library.Text

/-- `std::net::IpAddr`; one of the sixth version by its eight segments. -/
inductive IpAddr where
  | v4 (addr : UInt32)
  | v6 (segments : Vector UInt16 8)
deriving DecidableEq, Repr

/-- Where a run begins and how long it is. -/
structure Span where
  start : Nat
  len : Nat
deriving DecidableEq, Repr

/-- The first of the longest runs of zeros, with the run that ends at the last segment read. -/
def zeroSpan (segments : List UInt16) : Span :=
  let step := fun (spans : Span × Span) (read : UInt16 × Nat) =>
    let (longest, current) := spans
    if read.1 = 0 then
      let current : Span := ⟨if current.len = 0 then read.2 else current.start, current.len + 1⟩
      (if longest.len < current.len then current else longest, current)
    else (longest, ⟨0, 0⟩)
  (segments.zipIdx.foldl step (⟨0, 0⟩, ⟨0, 0⟩)).1

def fmtSubslice (chunk : List UInt16) : List Char :=
  List.intercalate [':'] (chunk.map fun segment => Nat.toDigits 16 segment.toNat)

def displayV6 (segments : List UInt16) : List Char :=
  if segments.take 6 = [0, 0, 0, 0, 0, 0xffff] then
    -- an address of the fourth version in the sixth's clothes
    let octets := (segments.drop 6).flatMap fun s => [s.toNat / 256, s.toNat % 256]
    [':', ':', 'f', 'f', 'f', 'f', ':'] ++ dotted octets
  else
    let zeroes := zeroSpan segments
    if 1 < zeroes.len then
      fmtSubslice (segments.take zeroes.start) ++ [':', ':']
        ++ fmtSubslice (segments.drop (zeroes.start + zeroes.len))
    else fmtSubslice segments

def IpAddr.display : IpAddr → List Char
  | .v4 addr => dotted (toBeBytes addr)
  | .v6 segments => displayV6 segments.toList

/-- The characters of an address's text are visible. -/
def Shown (c : Char) : Prop := 33 ≤ c.toNat ∧ c.toNat < 127

theorem mem_toDigits {base n : Nat} {c : Char} (two : 1 < base) (member : c ∈ Nat.toDigits base n)
    : ∃ d < base, c = Nat.digitChar d := by
  induction n using Nat.strongRecOn with
  | ind n ih =>
      rw [Nat.toDigits_eq_if two] at member
      by_cases small : n < base
      · rw [if_pos small] at member
        exact ⟨n, small, List.mem_singleton.mp member⟩
      · rw [if_neg small, List.mem_append] at member
        rcases member with front | last
        · exact ih (n / base) (Nat.div_lt_self (by omega) two) front
        · exact ⟨n % base, Nat.mod_lt n (by omega), List.mem_singleton.mp last⟩

theorem shown_hex {n : Nat} {c : Char} (member : c ∈ Nat.toDigits 16 n) : Shown c := by
  obtain ⟨d, small, rfl⟩ := mem_toDigits (by decide) member
  have each : ∀ d < 16, 33 ≤ (Nat.digitChar d).toNat ∧ (Nat.digitChar d).toNat < 127 := by decide
  exact each d small

theorem shown_dotted {octets : List Nat} {c : Char} (member : c ∈ dotted octets) : Shown c := by
  rcases mem_dotted member with dot | digit
  · subst dot
    exact ⟨by decide, by decide⟩
  · exact ⟨by omega, by omega⟩

theorem shown_fmtSubslice {chunk : List UInt16} {c : Char} (member : c ∈ fmtSubslice chunk)
    : Shown c := by
  rcases mem_intercalate member with colon | ⟨piece, held, inPiece⟩
  · rw [List.mem_singleton.mp colon]
    exact ⟨by decide, by decide⟩
  · obtain ⟨segment, -, rfl⟩ := List.mem_map.mp held
    exact shown_hex inPiece

theorem shown_displayV6 {segments : List UInt16} {c : Char} (member : c ∈ displayV6 segments)
    : Shown c := by
  rw [displayV6] at member
  by_cases mapped : segments.take 6 = [0, 0, 0, 0, 0, 0xffff]
  · rw [if_pos mapped, List.mem_append] at member
    rcases member with start | octets
    · have each : [':', ':', 'f', 'f', 'f', 'f', ':'].all
          (fun c => 33 ≤ c.toNat && c.toNat < 127) = true := rfl
      simpa [Shown] using List.all_eq_true.mp each c start
    · exact shown_dotted octets
  · rw [if_neg mapped] at member
    by_cases long : 1 < (zeroSpan segments).len
    · simp only [long, ↓reduceIte, List.mem_append, or_assoc] at member
      rcases member with front | colons | back
      · exact shown_fmtSubslice front
      · have colon : c = ':' := by simpa using colons
        rw [colon]
        exact ⟨by decide, by decide⟩
      · exact shown_fmtSubslice back
    · simp only [long, ↓reduceIte] at member
      exact shown_fmtSubslice member

theorem shown_display {addr : IpAddr} {c : Char} (member : c ∈ addr.display) : Shown c := by
  cases addr with
  | v4 addr => exact shown_dotted member
  | v6 segments => exact shown_displayV6 member

end Delonix.Net
