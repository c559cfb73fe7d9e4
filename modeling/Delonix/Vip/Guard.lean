import Delonix.Net.RoutePlan
import Delonix.Vip.LeaseKept
import Delonix.Vip.Script
import Mathlib.Data.Set.Lattice
import Mathlib.Order.CompletePartialOrder

/-! The guard set of the virtual addresses. Its elements partition the addresses of the pools and
the strict addresses in use, the script names each of them, and the file of the pools is read back
as it was written.
-/

namespace Delonix.Vip

open Delonix.IpPool (parseIpv4 parseIpv4_fmtU32)
open Delonix.Library.Checks
open Delonix.Library.Text
open Delonix.Net
open Delonix.RoutePlan (not_both_of_apart)

variable {unprintable : Char → Bool} {pools : List Cidr}

/-- The body of the file of the pools. -/
def poolFileBody (pools : List Cidr) : List Char :=
  pools.flatMap fun c => c.toStringCidr.toList ++ ['\n']

/-- What makes a prefix a pool. -/
structure IsPool (c : Cidr) : Prop where
  wellFormed : c.WellFormed
  wide : 16 ≤ c.len
  narrow : c.len ≤ 29
  inside : (privateSpace.any fun p => p.len ≤ c.len && p.contains c.base) = true

theorem isPool_of_validatePool {s : List Char} {c : Cidr}
    (valid : validatePool unprintable s = .ok c)
    : IsPool c := by
  simp only [validatePool] at valid
  split at valid
  · cases valid
  split at valid
  · cases valid
  split at valid
  · cases valid
  split at valid
  · cases valid
  case h_2 cidr parsed =>
    split at valid
    · cases valid
    split at valid
    · cases valid
    case isFalse length =>
      split at valid
      · cases valid
      case isFalse inside =>
        cases valid
        simp only [Bool.or_eq_true, decide_eq_true_eq, not_or, Nat.not_lt] at length
        exact ⟨Cidr.parse_wellFormed parsed, length.1, length.2, by simpa using inside⟩

/-- The spelling of a prefix has neither blanks nor commas. -/
theorem char_toStringCidr {c : Cidr} {d : Char} (member : d ∈ c.toStringCidr.toList)
    : isWhitespace d = false ∧ d ≠ ',' := by
  have shown : d = '.' ∨ d = '/' ∨ (48 ≤ d.toNat ∧ d.toNat ≤ 57) := by
    rw [Cidr.toList_toStringCidr, List.mem_append, List.mem_cons] at member
    rcases member with address | slash | length
    · exact (mem_dotted address).imp_right .inr
    · exact .inr (.inl slash)
    · exact .inr (.inr (isDigit_toDigits length))
  rcases shown with rfl | rfl | digit
  · decide
  · decide
  · refine ⟨isWhitespace_eq_false_of_range (by omega) (by omega), ?_⟩
    rintro rfl
    exact absurd digit.1 (by decide)

theorem trim_toStringCidr (c : Cidr) : trim c.toStringCidr.toList = c.toStringCidr.toList :=
  trim_eq_self fun _ member => (char_toStringCidr member).1

/-- A pool is accepted as it is spelled. -/
theorem validatePool_toStringCidr {c : Cidr} (pool : IsPool c)
    : validatePool unprintable c.toStringCidr.toList = .ok c := by
  have cut : splitOnce '/' c.toStringCidr.toList
      = some ((Cidr.fmtU32 c.base).toList, decimal c.len) := by
    rw [Cidr.toList_toStringCidr, Cidr.fmtU32, String.toList_ofList]
    exact splitOnce_append _ (slash_not_mem_dotted _)
  have digits : ((decimal c.len).isEmpty || !(decimal c.len).all Char.isDigit) = false := by
    rw [Bool.or_eq_false_iff, List.isEmpty_eq_false_iff, Bool.not_eq_false', List.all_eq_true]
    refine ⟨decimal_ne_nil _, fun d member => ?_⟩
    have digit := isDigit_toDigits member
    simpa [Char.isDigit, UInt32.le_iff_toNat_le] using digit
  have parsed : Cidr.parse (String.ofList c.toStringCidr.toList) = some c := by
    rw [String.ofList_toList, Cidr.parse_toStringCidr pool.wellFormed]
  have length : ¬ (c.len < 16 ∨ 29 < c.len) := by
    have := pool.wide
    have := pool.narrow
    omega
  rw [validatePool]
  simp only [trim_toStringCidr, cut, parseIpv4_fmtU32, digits, parsed, pool.inside]
  simp [length]

theorem pools_of_foldlM {items : List (List Char)} {out : List Cidr}
    (before : ∀ p ∈ out, IsPool p) (apart : out.Pairwise fun a b => a.overlaps b = false)
    (accepted : items.foldlM (addPool unprintable) out = .ok pools)
    : (∀ p ∈ pools, IsPool p) ∧ pools.Pairwise fun a b => a.overlaps b = false := by
  induction items generalizing out with
  | nil =>
      cases accepted
      exact ⟨before, apart⟩
  | cons item rest ih =>
      rw [List.foldlM_cons] at accepted
      obtain ⟨more, added, accepted⟩ := bind_eq_ok.mp accepted
      obtain ⟨c, valid, added⟩ := bind_eq_ok.mp added
      cases found : out.find? fun p => p.overlaps c with
      | some prev => simp [found] at added
      | none =>
          simp only [found] at added
          cases added
          refine ih ?_ ?_ accepted
          · intro p member
            rcases List.mem_append.mp member with member | member
            · exact before p member
            · rw [List.mem_singleton.mp member]
              exact isPool_of_validatePool valid
          · refine List.pairwise_append.mpr ⟨apart, List.pairwise_singleton _ _, ?_⟩
            intro p member q last
            rw [List.mem_singleton.mp last]
            simpa using List.find?_eq_none.mp found p member

/-- An accepted list is one of pools that do not overlap. -/
theorem pools_of_parsePoolList {text : List Char}
    (accepted : parsePoolList unprintable text = .ok pools)
    : (∀ p ∈ pools, IsPool p) ∧ pools.Pairwise fun a b => a.overlaps b = false :=
  pools_of_foldlM (List.forall_mem_nil _) .nil accepted

/-- The spellings of pools that do not overlap are accepted one after the other. -/
theorem foldlM_toStringCidr {out : List Cidr} (each : ∀ p ∈ pools, IsPool p)
    (apart : (out ++ pools).Pairwise fun a b => a.overlaps b = false)
    : (pools.map fun c => c.toStringCidr.toList).foldlM (addPool unprintable) out
      = .ok (out ++ pools) := by
  induction pools generalizing out with
  | nil => simp [pure, Except.pure]
  | cons c rest ih =>
      obtain ⟨here, later⟩ := List.forall_mem_cons.mp each
      have none : (out.find? fun p => p.overlaps c) = none := by
        rw [List.find?_eq_none]
        intro p member
        have := (List.pairwise_append.mp apart).2.2 p member c List.mem_cons_self
        simp [this]
      have added : addPool unprintable out c.toStringCidr.toList = .ok (out ++ [c]) := by
        simp [addPool, validatePool_toStringCidr here, none, bind, Except.bind]
      have next := @ih (out ++ [c]) later (by rwa [List.append_assoc, List.singleton_append])
      rw [List.map_cons, List.foldlM_cons, added]
      simpa [bind, Except.bind] using next

/-- The items of the file of the pools are their spellings. -/
theorem items_poolFileBody (pools : List Cidr)
    : (((poolFileBody pools).splitOnP fun c => c = ',' || c = '\n').map trim).filter
        (fun item => !item.isEmpty)
      = pools.map fun c => c.toStringCidr.toList := by
  induction pools with
  | nil => rfl
  | cons c rest ih =>
      have clear : ∀ d ∈ c.toStringCidr.toList, (decide (d = ',') || decide (d = '\n')) = false := by
        intro d member
        obtain ⟨visible, comma⟩ := char_toStringCidr member
        have newline : d ≠ '\n' := by
          rintro rfl
          cases visible
        simp [comma, newline]
      have shown : c.toStringCidr.toList ≠ [] := by simp [Cidr.toList_toStringCidr]
      have body : poolFileBody (c :: rest) = c.toStringCidr.toList ++ '\n' :: poolFileBody rest := by
        simp [poolFileBody]
      rw [body, List.splitOnP_append_cons _ _ rfl, List.splitOnP_eq_singleton clear,
        List.singleton_append, List.map_cons, trim_toStringCidr, List.filter_cons_of_pos, ih,
        List.map_cons]
      simpa using shown

/-- What the file of the pools is read as. -/
theorem parsePoolList_poolFileBody (each : ∀ p ∈ pools, IsPool p)
    (apart : pools.Pairwise fun a b => a.overlaps b = false)
    : parsePoolList unprintable (poolFileBody pools) = .ok pools := by
  rw [parsePoolList, items_poolFileBody]
  exact foldlM_toStringCidr each (by rwa [List.nil_append])

/-- The addresses of a prefix. -/
def addresses (net : Cidr) : Set UInt32 :=
  {ip | net.base.toNat ≤ ip.toNat ∧ ip.toNat < net.base.toNat + 2 ^ (32 - net.len)}

theorem mem_addresses {net : Cidr} (wellFormed : net.WellFormed) {ip : UInt32}
    : ip ∈ addresses net ↔ net.contains ip = true :=
  (wellFormed.contains_iff ip).symm

theorem disjoint_addresses {a b : Cidr} (left : a.WellFormed) (right : b.WellFormed)
    (apart : a.overlaps b = false)
    : Disjoint (addresses a) (addresses b) := by
  rw [Set.disjoint_left]
  intro ip first second
  exact not_both_of_apart apart ip ⟨(mem_addresses left).mp first, (mem_addresses right).mp second⟩

/-- The prefix of one address. -/
theorem wellFormed_single (ip : UInt32) : (Cidr.mk ip 32).WellFormed where
  cleared := by
    have rounded := @Cidr.toNat_and_mask ⟨ip, 32⟩ (Nat.le_refl 32) ip
    rw [Cidr.span, Nat.sub_self, Nat.pow_zero, Nat.div_one, Nat.mul_one] at rounded
    exact UInt32.toNat_inj.mp rounded
  short := Nat.le_refl 32

theorem addresses_single (ip : UInt32) : addresses ⟨ip, 32⟩ = {ip} := by
  ext other
  simp only [addresses, Set.mem_ofPred_eq, Set.mem_singleton_iff, ← UInt32.toNat_inj]
  omega

/-- Elements of a set that `nft` loads. -/
structure Loadable (out : List Cidr) : Prop where
  wellFormed : ∀ e ∈ out, e.WellFormed
  disjoint : out.Pairwise fun a b => Disjoint (addresses a) (addresses b)

/-- Every address an element covers. -/
def covered (out : List Cidr) : Set UInt32 := ⋃ e ∈ out, addresses e

theorem mem_covered {out : List Cidr} {ip : UInt32}
    : ip ∈ covered out ↔ ∃ e ∈ out, ip ∈ addresses e := by
  simp [covered]

theorem strictV4_iff {vip : String} {ip : UInt32} (parsed : Cidr.parseAddr vip = some ip)
    : strictV4 vip = true ↔ vip = Cidr.fmtU32 ip := by
  rw [strictV4, parsed, Option.any_some, beq_iff_eq, eq_comm]

/-- Pools that do not overlap are all taken. -/
theorem guardPools_eq {out : List Cidr}
    (apart : (out ++ pools).Pairwise fun a b => a.overlaps b = false)
    : guardPools out pools = out ++ pools := by
  induction pools generalizing out with
  | nil => simp [guardPools]
  | cons pool rest ih =>
      have none : (out.any fun o => o.overlaps pool) = false := by
        rw [List.any_eq_false]
        intro o member
        simp [(List.pairwise_append.mp apart).2.2 o member pool List.mem_cons_self]
      rw [guardPools, none, if_neg Bool.false_ne_true, ih (by simpa using apart)]
      simp

/-- A strict address that no element covers may be added by itself. -/
theorem Loadable.append_single {out : List Cidr} (loadable : Loadable out) {ip : UInt32}
    (uncovered : ip ∉ covered out)
    : Loadable (out ++ [⟨ip, 32⟩]) where
  wellFormed := by
    intro e member
    rcases List.mem_append.mp member with held | added
    · exact loadable.wellFormed e held
    · rw [List.mem_singleton.mp added]
      exact wellFormed_single ip
  disjoint := by
    refine List.pairwise_append.mpr ⟨loadable.disjoint, List.pairwise_singleton _ _, ?_⟩
    intro e held added single
    rw [List.mem_singleton.mp single, addresses_single, Set.disjoint_singleton_right]
    intro inside
    exact uncovered (mem_covered.mpr ⟨e, held, inside⟩)

theorem covered_append_single (out : List Cidr) (ip : UInt32)
    : covered (out ++ [⟨ip, 32⟩]) = covered out ∪ {ip} := by
  ext other
  simp only [mem_covered, List.mem_append, List.mem_singleton, or_and_right, exists_or,
    exists_eq_left, addresses_single, Set.mem_union]

/-- The strict addresses that are not covered yet are added one by one: what is loadable stays so,
and what is covered grows by them. By induction over the addresses, of which those already seen
are covered.
-/
theorem guardVips_covers {seen : List UInt32} {out : List Cidr} (loadable : Loadable out)
    (seenCovered : ∀ ip ∈ seen, ip ∈ covered out) (vips : List String)
    : Loadable (guardVips seen out vips)
      ∧ covered (guardVips seen out vips) = covered out ∪ {ip | Cidr.fmtU32 ip ∈ vips}
      ∧ ∀ e ∈ guardVips seen out vips, e ∈ out ∨ e.len = 32 := by
  induction vips generalizing seen out with
  | nil => exact ⟨loadable, by simp [guardVips], fun e member => .inl member⟩
  | cons vip rest ih =>
      -- What the rest does after a step that covers this address, if it is one.
      have step {seen' : List UInt32} {out' : List Cidr} (loadable' : Loadable out')
          (seenCovered' : ∀ ip ∈ seen', ip ∈ covered out')
          (covers : covered out' = covered out ∪ {ip | vip = Cidr.fmtU32 ip})
          (added : ∀ e ∈ out', e ∈ out ∨ e.len = 32)
          : Loadable (guardVips seen' out' rest)
            ∧ covered (guardVips seen' out' rest)
              = covered out ∪ {ip | Cidr.fmtU32 ip ∈ vip :: rest}
            ∧ ∀ e ∈ guardVips seen' out' rest, e ∈ out ∨ e.len = 32 := by
        obtain ⟨load, covers', elements⟩ := ih loadable' seenCovered'
        refine ⟨load, ?_, fun e member => (elements e member).elim (added e) .inr⟩
        rw [covers', covers]
        ext ip
        simp only [Set.mem_union, Set.mem_ofPred_eq, List.mem_cons, or_assoc,
          eq_comm (a := vip)]
      have skip {seen' : List UInt32} (seenCovered' : ∀ ip ∈ seen', ip ∈ covered out)
          (nothing : ∀ ip, vip = Cidr.fmtU32 ip → ip ∈ covered out) :=
        step loadable seenCovered' (Set.union_eq_left.mpr nothing).symm fun _ => .inl
      rw [guardVips]
      cases parsed : Cidr.parseAddr vip with
      | none =>
          refine skip seenCovered fun ip same => ?_
          rw [same, Cidr.parseAddr_fmtU32] at parsed
          cases parsed
      | some addr =>
          have own (ip : UInt32) (same : vip = Cidr.fmtU32 ip) : ip = addr := by
            rw [same, Cidr.parseAddr_fmtU32] at parsed
            exact Option.some.inj parsed
          dsimp only
          cases strict : strictV4 vip with
          | false =>
              refine skip seenCovered fun ip same => ?_
              rw [own ip same] at same
              rw [(strictV4_iff parsed).mpr same] at strict
              cases strict
          | true =>
              by_cases met : addr ∈ seen
              · simp only [List.contains_iff_mem.mpr met, Bool.not_true, Bool.false_or, if_true]
                refine skip seenCovered fun ip same => ?_
                rw [own ip same]
                exact seenCovered addr met
              · have fresh : seen.contains addr = false := by simpa using met
                simp only [fresh, Bool.not_true, Bool.or_self, Bool.false_eq_true, if_false]
                have inside : (out.any fun o => o.contains addr) = true ↔ addr ∈ covered out := by
                  rw [List.any_eq_true, mem_covered]
                  exact exists_congr fun e => and_congr_right fun member =>
                    (mem_addresses (loadable.wellFormed e member)).symm
                split
                case isTrue held =>
                  rw [inside] at held
                  exact skip (List.forall_mem_cons.mpr ⟨held, seenCovered⟩)
                    fun ip same => own ip same ▸ held
                case isFalse uncovered =>
                  rw [inside] at uncovered
                  have named : {ip | vip = Cidr.fmtU32 ip} = {addr} := by
                    ext ip
                    exact ⟨own ip, fun is => is ▸ (strictV4_iff parsed).mp strict⟩
                  refine step (loadable.append_single uncovered) ?_ ?_ ?_
                  · rw [covered_append_single]
                    exact List.forall_mem_cons.mpr
                      ⟨.inr rfl, fun ip member => .inl (seenCovered ip member)⟩
                  · rw [covered_append_single, named]
                  · simp only [List.mem_append, List.mem_singleton]
                    rintro e (held | rfl)
                    · exact .inl held
                    · exact .inr rfl

/-- What an element of a set means to `nft`: a prefix, or an address alone. -/
def readElement (text : List Char) : Option Cidr :=
  match splitOnce '/' text with
  | some _ => Cidr.parse (String.ofList text)
  | none => (Cidr.parseAddr (String.ofList text)).map fun ip => ⟨ip, 32⟩

/-- What a set means to `nft`: its elements, between commas and blanks. -/
def readSet (text : List Char) : Option (List Cidr) :=
  ((text.splitOn ',').map trim).mapM readElement

/-- The set as the script writes it. -/
def setText (guard : List Cidr) : String := ", ".intercalate (guard.map guardElement)

theorem readElement_guardElement {e : Cidr} (wellFormed : e.WellFormed)
    : readElement (guardElement e).toList = some e := by
  rw [guardElement]
  split
  case isTrue single =>
    have plain : '/' ∉ (Cidr.fmtU32 e.base).toList := by
      rw [Cidr.fmtU32, String.toList_ofList]
      exact slash_not_mem_dotted _
    rw [readElement, splitOnce_eq_none plain]
    simp only [String.ofList_toList, Cidr.parseAddr_fmtU32, Option.map_some, ← single]
  case isFalse =>
    rw [readElement, Cidr.toList_toStringCidr, splitOnce_append _ (slash_not_mem_dotted _),
      ← Cidr.toList_toStringCidr, String.ofList_toList]
    exact Cidr.parse_toStringCidr wellFormed

theorem char_guardElement {e : Cidr} {d : Char} (member : d ∈ (guardElement e).toList)
    : isWhitespace d = false ∧ d ≠ ',' := by
  rw [guardElement] at member
  split at member
  case isTrue =>
    apply char_toStringCidr (c := e)
    rw [Cidr.toStringCidr, String.toList_append, String.toList_append]
    exact List.mem_append_left _ (List.mem_append_left _ member)
  case isFalse => exact char_toStringCidr member

/-- Blanks in front of a list change no item of it. -/
theorem trim_splitOn_blank (text : List Char)
    : ((' ' :: text).splitOn ',').map trim = (text.splitOn ',').map trim := by
  rw [List.splitOn, List.splitOn, List.splitOnP_cons_eq_if_modifyHead, if_neg (by decide)]
  cases text.splitOnP (· == ',') with
  | nil => rfl
  | cons item rest => rfl

theorem items_setText {guard : List Cidr} (nonempty : guard ≠ [])
    : (((setText guard).toList.splitOn ',').map trim)
      = guard.map fun e => (guardElement e).toList := by
  have visible (e : Cidr) : trim (guardElement e).toList = (guardElement e).toList :=
    trim_eq_self fun _ member => (char_guardElement member).1
  induction guard with
  | nil => contradiction
  | cons e rest ih =>
      cases rest with
      | nil =>
          have alone : (guardElement e).toList.splitOn ',' = [(guardElement e).toList] :=
            List.splitOnP_eq_singleton fun d member => by
              simpa using (char_guardElement member).2
          simp [setText, alone, visible]
      | cons f rest =>
          have text : (setText (e :: f :: rest)).toList
              = (guardElement e).toList ++ ',' :: ' ' :: (setText (f :: rest)).toList := by
            simp [setText, String.intercalate_cons_cons]
          have clear : ∀ d ∈ (guardElement e).toList, (d == ',') = false := fun d member => by
            simpa using (char_guardElement member).2
          rw [text, List.splitOn, List.splitOnP_append_cons_of_forall_mem clear _ rfl,
            List.map_cons, visible, ← List.splitOn, trim_splitOn_blank,
            ih (List.cons_ne_nil _ _)]
          rfl

theorem readSet_setText {guard : List Cidr} (nonempty : guard ≠ [])
    (wellFormed : ∀ e ∈ guard, e.WellFormed)
    : readSet (setText guard).toList = some guard := by
  have each : ∀ guard : List Cidr, (∀ e ∈ guard, e.WellFormed)
      → (guard.map fun e => (guardElement e).toList).mapM readElement = some guard := by
    intro guard wellFormed
    induction guard with
    | nil => rfl
    | cons e rest ih =>
        obtain ⟨here, later⟩ := List.forall_mem_cons.mp wellFormed
        rw [List.map_cons, List.mapM_cons, readElement_guardElement here, ih later]
        rfl
  rw [readSet, items_setText nonempty]
  exact each guard wellFormed

/-- The script names the set. -/
theorem renderScript_setText (table : String) (plans : List VipPlan) {guard : List Cidr}
    (nonempty : guard ≠ [])
    : ∃ front back, renderScript table plans guard
      = front ++ (" ip daddr \x7b " ++ (setText guard
        ++ (" \x7d meta l4proto tcp counter reject with tcp reset\nadd rule ip " ++ back))) := by
  obtain ⟨back, rules⟩ : ∃ back, guardRules table guard
      = "add rule ip " ++ (table ++ (" " ++ (vipGuardChain ++ (" ip daddr \x7b " ++ (setText guard
        ++ (" \x7d meta l4proto tcp counter reject with tcp reset\nadd rule ip " ++ back)))))) := by
    unfold guardRules
    rw [if_neg (by simpa using nonempty), ← setText]
    simp only [String.append_assoc]
    exact ⟨_, rfl⟩
  unfold renderScript
  rw [rules]
  generalize String.join (plans.map (planRules table)) = served
  exact ⟨chainHead table svcPreChain "prerouting" "nat" "-101"
    ++ chainHead table svcOutChain "output" "nat" "-101"
    ++ chainHead table vipGuardChain "forward" "filter" "-20"
    ++ chainHead table vipGuardOutChain "output" "filter" "-20" ++ served
    ++ ("add rule ip " ++ (table ++ (" " ++ vipGuardChain))), back,
    by simp only [String.append_assoc]⟩

/-- The elements of the guard set partition the addresses of the pools and the strict addresses in
use; the script names the set, which is read as these elements; and the file of the pools is read
back as it was written.
-/
theorem guardSet_partitions {text : List Char} (accepted : parsePoolList unprintable text = .ok pools)
    (vips : List String)
    : (guardSet pools vips).Pairwise (fun a b => Disjoint (addresses a) (addresses b))
      ∧ covered (guardSet pools vips) = covered pools ∪ {ip | Cidr.fmtU32 ip ∈ vips}
      ∧ (∀ e ∈ guardSet pools vips, readElement (guardElement e).toList = some e)
      ∧ (guardSet pools vips ≠ [] → readSet (setText (guardSet pools vips)).toList
          = some (guardSet pools vips)
        ∧ ∀ table plans, ∃ front back, renderScript table plans (guardSet pools vips)
          = front ++ (" ip daddr \x7b " ++ (setText (guardSet pools vips)
            ++ (" \x7d meta l4proto tcp counter reject with tcp reset\nadd rule ip " ++ back))))
      ∧ parsePoolList unprintable (poolFileBody pools) = .ok pools := by
  obtain ⟨each, apart⟩ := pools_of_parsePoolList accepted
  have loadable : Loadable pools := by
    refine ⟨fun p member => (each p member).wellFormed, ?_⟩
    exact apart.imp_of_mem fun first second disjoint =>
      disjoint_addresses (each _ first).wellFormed (each _ second).wellFormed disjoint
  have start : guardSet pools vips = guardVips [] pools vips := by
    rw [guardSet, guardPools_eq (by rwa [List.nil_append]), List.nil_append]
  obtain ⟨load, covers, -⟩ := guardVips_covers loadable (List.forall_mem_nil _) vips
  rw [start]
  exact ⟨load.disjoint, covers, fun e member => readElement_guardElement (load.wellFormed e member),
    fun nonempty => ⟨readSet_setText nonempty load.wellFormed,
      fun table plans => renderScript_setText table plans nonempty⟩,
    parsePoolList_poolFileBody each apart⟩

/-- Two pools and three VIPs: one of a pool, one outside, and one not in the strict spelling. -/
theorem guardSet_partitions_two
    : let pools : List Cidr := [⟨0x0A600000, 16⟩, ⟨0x64400000, 24⟩]
      let vips := ["10.96.0.7", "192.168.1.9", "192.168.1.010"]
      guardSet pools vips = [⟨0x0A600000, 16⟩, ⟨0x64400000, 24⟩, ⟨0xC0A80109, 32⟩]
        ∧ covered (guardSet pools vips) = covered pools ∪ {ip | Cidr.fmtU32 ip ∈ vips}
        ∧ readSet (setText (guardSet pools vips)).toList = some (guardSet pools vips) := by
  have accepted : parsePoolList (fun _ => false) "10.96.0.0/16, 100.64.0.0/24\n".toList
      = .ok [⟨0x0A600000, 16⟩, ⟨0x64400000, 24⟩] := by
    rfl
  have all := guardSet_partitions accepted ["10.96.0.7", "192.168.1.9", "192.168.1.010"]
  refine ⟨by decide +kernel, all.2.1, (all.2.2.2.1 (by decide +kernel)).1⟩

end Delonix.Vip
