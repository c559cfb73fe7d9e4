import Delonix.Library.Collections
import Delonix.Library.DebugText
import Delonix.Net.Cidr

/-! The address set of a namespace. Its name is a hash of the namespace without the characters
outside the ASCII letters, the digits, `_` and `-`, so names that differ in such characters
alone share a set.
-/

namespace Delonix.Firewall

open Delonix.Library.Text
open Delonix.Library.DebugText
open Delonix.Library.Collections
open Delonix.Net

/-- The namespace a record belongs to: trimmed, `default` when blank. -/
def namespaceOf (ns : String) : String :=
  let trimmed := trim ns.toList
  if trimmed.isEmpty then "default" else String.ofList trimmed

def keptInKey (c : Char) : Bool := c.isAlphanum || c == '_' || c == '-'

/-- The text of a namespace that is hashed into a set name. -/
def namespaceIsolationKey (ns : String) : String := String.ofList (ns.toList.filter keptInKey)

/-- A word as eight lowercase hexadecimal digits. -/
def hex8 (v : UInt32) : List Char := (Nat.toDigits 16 v.toNat).leftpad 8 '0'

def dlxnsSet (ns : String) : String := "dlxns" ++ String.ofList (hex8 (fnv32 ns))

/-- The set of every workload address. -/
def dlxallSet : String := "dlxall"

/-- The set the chain of a namespace accepts, and its workloads join. -/
def nsSet (ns : String) : String := dlxnsSet (namespaceIsolationKey ns)

/-- Whether the other end of a packet is in a set: only workloads are in one, all of them in
`dlxall` and each in the set of its namespace.
-/
def inSet (peerNamespace : Option String) (set : String) : Bool :=
  match peerNamespace with
  | none => false
  | some ns => if set = dlxallSet then true else nsSet ns == set

/-- Eight digits tell every two words apart: leading zeros do not change the number read. -/
theorem hex8_injective {v w : UInt32} (same : hex8 v = hex8 w) : v = w := by
  have read (u : UInt32) : parseDigits 16 0xFFFFFFFF 0 (hex8 u) = some u.toNat := by
    have zeros (k : Nat) : parseDigits 16 0xFFFFFFFF 0 (List.replicate k '0') = some 0 := by
      have zero : digitValue 16 '0' = some 0 := by decide
      induction k with
      | zero => rfl
      | succ k ih => simp [List.replicate_succ, parseDigits, zero, ih]
    rw [hex8, List.leftpad, parseDigits_append, zeros]
    exact parseDigits_hex (by have := u.toNat_lt; omega)
  have values := read v
  rw [same, read w] at values
  exact UInt32.toNat_inj.mp (Option.some.inj values).symm

theorem dlxnsSet_eq_iff {a b : String} : dlxnsSet a = dlxnsSet b ↔ fnv32 a = fnv32 b := by
  constructor
  · intro same
    have texts := congrArg String.toList same
    simp only [dlxnsSet, String.toList_append, String.toList_ofList] at texts
    exact hex8_injective (List.append_cancel_left texts)
  · intro same
    rw [dlxnsSet, same, ← dlxnsSet]

theorem nsSet_ne_dlxallSet (ns : String) : nsSet ns ≠ dlxallSet := by
  intro same
  have fourth := congrArg (fun s => s.toList[3]?) same
  simp [nsSet, dlxnsSet, dlxallSet] at fourth

theorem namespaceIsolationKey_eq_iff {n m : String}
    : namespaceIsolationKey n = namespaceIsolationKey m
      ↔ SameBut (fun c => keptInKey c = false) n.toList m.toList := by
  rw [sameBut_iff_filter_eq, namespaceIsolationKey, namespaceIsolationKey, String.ofList_inj]

/-- The two namespaces have sets of their own, and a workload of the second is not in the set
the chain of the first accepts.
-/
def Isolated (n m : String) : Prop := nsSet n ≠ nsSet m ∧ inSet (some m) (nsSet n) = false

instance (n m : String) : Decidable (Isolated n m) := inferInstanceAs (Decidable (_ ∧ _))

/-- Unless the hash collides, two namespaces are isolated exactly when they differ in a
character other than those the key drops.
-/
theorem isolated_iff_not_sameBut {n m : String}
    (collisionFree : fnv32 (namespaceIsolationKey n) = fnv32 (namespaceIsolationKey m)
      → namespaceIsolationKey n = namespaceIsolationKey m)
    : Isolated n m ↔ ¬ SameBut (fun c => keptInKey c = false) n.toList m.toList := by
  have sets : nsSet n = nsSet m
      ↔ SameBut (fun c => keptInKey c = false) n.toList m.toList := by
    rw [← namespaceIsolationKey_eq_iff, nsSet, nsSet, dlxnsSet_eq_iff]
    exact ⟨collisionFree, congrArg fnv32⟩
  have member : inSet (some m) (nsSet n) = (nsSet m == nsSet n) := by
    rw [inSet, if_neg (nsSet_ne_dlxallSet n)]
  rw [Isolated, member, ← sets]
  constructor
  · rintro ⟨apart, _⟩
    exact apart
  · intro apart
    exact ⟨apart, beq_false_of_ne (Ne.symm apart)⟩

theorem isolated_team_names : Isolated "team-a" "team-b" := by
  apply (isolated_iff_not_sameBut (by decide +kernel)).mpr
  rw [sameBut_iff_filter_eq]
  decide +kernel

/-- A dot is all that tells these two names apart. -/
theorem dotted_name_shares_set
    : ¬ ∀ n m : String, namespaceOf n ≠ namespaceOf m
      → (fnv32 (namespaceIsolationKey n) = fnv32 (namespaceIsolationKey m)
        → namespaceIsolationKey n = namespaceIsolationKey m)
      → Isolated n m := by
  intro isolated
  have apart := isolated "team.a" "teama" (by decide +kernel) (by decide +kernel)
  exact absurd apart (by decide +kernel)

end Delonix.Firewall
