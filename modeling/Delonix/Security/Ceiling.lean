import Delonix.Library.Checks
import Delonix.Security.Capabilities

/-! The ceiling on capabilities holds: what the arguments made under it are resolved to is what
the engine would have granted, within the ceiling.
-/

namespace Delonix.Security.Capabilities

open Delonix.Library.Checks
open Delonix.Library.Text

/-- A number with a name. -/
def Named (n : Nat) : Prop := (capName n).isSome

/-- A word of a ceiling allows a capability. -/
def Adds (tok : Text) (n : Nat) : Prop :=
  if toAsciiLowercase tok = "none".toList then False
  else if toAsciiLowercase tok = "default".toList then n ∈ keptCaps
  else capNum tok = some n

/-- A ceiling allows a capability; a blank one, those that are kept by default. -/
def Allowed (spec : Text) (n : Nat) : Prop :=
  if trim spec = [] then n ∈ keptCaps else ∃ tok ∈ tokens spec, Adds tok n

/-- A request names a capability, or asks for all that the kernel has. -/
def Asked (last : Nat) (capAdd : List Text) (privileged : Bool) (n : Nat) : Prop :=
  (privileged || capAdd.any isAll) = true ∧ n ≤ last ∨ ∃ c ∈ capAdd, capNum c = some n

/-- What a request asks for that can be had: of all capabilities, those that the kernel has. -/
def Available (last : Nat) (capAdd : List Text) (privileged : Bool) (n : Nat) : Prop :=
  if (privileged || capAdd.any isAll) = true then n ≤ last else ∃ c ∈ capAdd, capNum c = some n

theorem getLsbD_bit {n i : Nat} (small : n < 64) : (bit n).getLsbD i = decide (i = n) := by
  simp only [bit, BitVec.getLsbD_shiftLeft, BitVec.getLsbD_one]
  by_cases same : i = n
  · subst same
    simp [small]
  · simp only [same, decide_false]
    by_cases below : i < n
    · simp [below]
    · simp
      omega

theorem getLsbD_allCapsMask (last : Nat) {i : Nat} (small : i < 64)
    : (allCapsMask last).getLsbD i = decide (i ≤ last) := by
  have masks : ∀ k < 63, bit (k + 1) - 1#64 = BitVec.ofNat 64 (2 ^ (k + 1) - 1) := by decide
  rw [allCapsMask]
  split
  case isTrue whole =>
    have below : i ≤ last := by omega
    rw [BitVec.getLsbD_allOnes, decide_eq_true small, decide_eq_true below]
  case isFalse part =>
    rw [masks _ (by omega), BitVec.getLsbD_ofNat, Nat.testBit_two_pow_sub_one]
    simp only [small, decide_true, Bool.true_and, decide_eq_decide]
    omega

theorem lookup_numbers_lt {name : String} {n : Nat} (found : numbers.lookup name = some n)
    : n < 41 := by
  obtain ⟨_, _, is, -⟩ := List.lookup_eq_some_iff.mp found
  have all : ∀ entry ∈ numbers, entry.2 < 41 := by decide
  exact all (name, n) (by rw [is]; simp)

theorem capNum_lt {name : Text} {n : Nat} (found : capNum name = some n) : n < 41 :=
  lookup_numbers_lt found

theorem named_iff {n : Nat} : Named n ↔ n < 41 := by
  simp [Named, capName, names]

theorem capNum_capName {n : Nat} {name : Text} (is : capName n = some name)
    : capNum name = some n ∧ isAll name = false := by
  have all : ∀ k < 41, ∀ name, capName k = some name →
      capNum name = some k ∧ isAll name = false := by
    decide +kernel
  exact all n (named_iff.mp (by simp [Named, is])) name is

theorem getLsbD_addCaps (mask : Mask) (caps : List Text) (i : Nat)
    : (addCaps mask caps).getLsbD i = true
      ↔ mask.getLsbD i = true ∨ ∃ c ∈ caps, capNum c = some i := by
  induction caps generalizing mask with
  | nil => simp [addCaps]
  | cons c rest ih =>
      rw [addCaps, List.foldl_cons, ← addCaps, ih]
      cases found : capNum c with
      | none => simp [found]
      | some n =>
          have small := capNum_lt found
          simp only [Option.elim_some, BitVec.getLsbD_or, Bool.or_eq_true,
            getLsbD_bit (show n < 64 by omega), decide_eq_true_eq, List.mem_cons,
            exists_eq_or_imp, found, Option.some.injEq, or_assoc, eq_comm (a := i)]

theorem getLsbD_defaultKeptMask (i : Nat)
    : defaultKeptMask.getLsbD i = true ↔ i ∈ keptCaps := by
  by_cases small : i < 64
  · have all : ∀ k < 64, defaultKeptMask.getLsbD k = true ↔ k ∈ keptCaps := by decide
    exact all i small
  · have outside : ∀ k ∈ keptCaps, k < 64 := by decide
    simp only [BitVec.getLsbD_of_ge _ _ (Nat.not_lt.mp small), Bool.false_eq_true, false_iff]
    exact fun member => small (outside i member)

theorem mem_namesFromMask {mask : Mask} {name : Text}
    : name ∈ namesFromMask mask ↔ ∃ n, mask.getLsbD n = true ∧ capName n = some name := by
  simp only [namesFromMask, List.mem_filterMap, List.mem_filter, List.mem_range]
  constructor
  · rintro ⟨n, ⟨-, set⟩, is⟩
    exact ⟨n, set, is⟩
  · rintro ⟨n, set, is⟩
    refine ⟨n, ⟨?_, set⟩, is⟩
    by_contra large
    rw [BitVec.getLsbD_of_ge _ _ (Nat.not_lt.mp large)] at set
    cases set

theorem readToken_spec {seen next : Mask × Bool} {tok : Text}
    (read : readToken seen tok = .ok next) (bounded : isAll tok = false)
    : next.2 = seen.2
      ∧ ∀ i, next.1.getLsbD i = true ↔ seen.1.getLsbD i = true ∨ Adds tok i := by
  have bounded : toAsciiLowercase tok ≠ "all".toList := by simpa [isAll] using bounded
  simp only [readToken, if_neg bounded] at read
  simp only [Adds]
  split at read
  case isTrue none =>
    cases read
    simp only [if_pos none, or_false, implies_true, and_self]
  case isFalse notNone =>
    simp only [if_neg notNone]
    split at read
    case isTrue default =>
      cases read
      simp only [if_pos default, BitVec.getLsbD_or, Bool.or_eq_true, getLsbD_defaultKeptMask,
        implies_true, and_self]
    case isFalse notDefault =>
      simp only [if_neg notDefault]
      split at read
      case h_1 n found =>
        cases read
        have small := capNum_lt found
        refine ⟨rfl, fun i => ?_⟩
        rw [BitVec.getLsbD_or, Bool.or_eq_true, getLsbD_bit (by omega), decide_eq_true_eq, found,
          Option.some.injEq, @eq_comm _ n i]
      case h_2 => cases read

theorem readTokens_spec {toks : List Text} {seen last : Mask × Bool}
    (read : toks.foldlM readToken seen = .ok last) (bounded : ∀ tok ∈ toks, isAll tok = false)
    : last.2 = seen.2
      ∧ ∀ i, last.1.getLsbD i = true ↔ seen.1.getLsbD i = true ∨ ∃ tok ∈ toks, Adds tok i := by
  induction toks generalizing seen with
  | nil =>
      cases read
      simp
  | cons tok rest ih =>
      rw [List.foldlM_cons, bind_eq_ok] at read
      obtain ⟨next, first, others⟩ := read
      obtain ⟨unlimited, here⟩ := readToken_spec first (bounded tok List.mem_cons_self)
      obtain ⟨unlimited', later⟩ :=
        ih others fun tok' member => bounded tok' (List.mem_cons_of_mem _ member)
      refine ⟨unlimited'.trans unlimited, fun i => ?_⟩
      rw [later, here, or_assoc]
      simp

/-- Without the word `all` there is a bound, and it is the one of the text. -/
theorem parse_spec {spec mode : Text} {ceiling : CapCeiling}
    (accepted : CapCeiling.parse spec mode = .ok ceiling)
    (bounded : ∀ tok ∈ tokens spec, isAll tok = false)
    : ∃ mask, ceiling.mask = some mask ∧ ∀ i, mask.getLsbD i = true ↔ Allowed spec i := by
  simp only [CapCeiling.parse, bind_eq_ok] at accepted
  obtain ⟨mode, -, rest⟩ := accepted
  simp only [Allowed]
  split at rest
  case isTrue blank =>
    cases rest
    refine ⟨_, rfl, fun i => ?_⟩
    rw [if_pos blank, getLsbD_defaultKeptMask]
  case isFalse notBlank =>
    rw [bind_eq_ok] at rest
    obtain ⟨read, folded, made⟩ := rest
    obtain ⟨unlimited, bits⟩ := readTokens_spec folded bounded
    split at made
    · cases made
    · cases made
      refine ⟨read.1, by rw [unlimited]; rfl, fun i => ?_⟩
      rw [bits, if_neg notBlank]
      simp

theorem readArgs_adds (adds : List Text)
    : readArgs (adds.flatMap fun name => ["--cap-add".toList, name]) = ([], adds) := by
  induction adds with
  | nil => rfl
  | cons name rest ih =>
      have other : "--cap-add".toList ≠ "--cap-drop".toList := by decide
      rw [List.flatMap_cons, List.cons_append, List.cons_append, List.nil_append, readArgs, ih]
      simp only [if_neg other, if_true]

/-- The arguments resolve to the capabilities they name, and no others. -/
theorem replay_spec (last : Nat) (mask : Mask) (i : Nat)
    : (replay last ("--cap-drop".toList :: "ALL".toList
        :: (namesFromMask mask).flatMap fun name => ["--cap-add".toList, name])).getLsbD i = true
      ↔ Named i ∧ mask.getLsbD i = true := by
  have named : (namesFromMask mask).any isAll = false := by
    rw [List.any_eq_false]
    intro name member
    obtain ⟨n, -, is⟩ := mem_namesFromMask.mp member
    simp [(capNum_capName is).2]
  rw [replay, readArgs, readArgs_adds]
  have dropped : ["ALL".toList].any isAll = true := rfl
  simp only [if_true, resolveCapKeep, named, dropped, Bool.false_eq_true, if_false,
    getLsbD_addCaps, BitVec.getLsbD_zero, false_or]
  constructor
  · rintro ⟨name, member, number⟩
    obtain ⟨n, set, is⟩ := mem_namesFromMask.mp member
    rw [(capNum_capName is).1] at number
    cases number
    exact ⟨by simp [Named, is], set⟩
  · rintro ⟨has, set⟩
    obtain ⟨name, is⟩ := Option.isSome_iff_exists.mp has
    exact ⟨name, mem_namesFromMask.mpr ⟨i, set, is⟩, (capNum_capName is).1⟩

/-- A request that nothing is rejected of is within the ceiling. -/
theorem allowed_of_rejected_eq_nil {ceiling : CapCeiling} {mask : Mask}
    (has : ceiling.mask = some mask) (rejects : ceiling.mode = .reject) {last : Nat}
    {capAdd : List Text} {privileged : Bool}
    (fits : ceiling.rejected last capAdd privileged = []) {n : Nat} (named : Named n)
    (asked : Available last capAdd privileged n)
    : mask.getLsbD n = true := by
  have small := named_iff.mp named
  simp only [CapCeiling.rejected, has, rejects, ne_eq, not_true_eq_false, if_false] at fits
  by_contra outside
  obtain ⟨name, is⟩ := Option.isSome_iff_exists.mp named
  have requested : (if (privileged || capAdd.any isAll) = true then allCapsMask last
      else addCaps 0#64 capAdd).getLsbD n = true := by
    rw [Available] at asked
    split
    case isTrue all =>
      rw [if_pos all] at asked
      rw [getLsbD_allCapsMask last (by omega), decide_eq_true asked]
    case isFalse some =>
      rw [if_neg some] at asked
      exact (getLsbD_addCaps _ _ _).mpr (.inr asked)
  have member : name ∈ namesFromMask ((if (privileged || capAdd.any isAll) = true
      then allCapsMask last else addCaps 0#64 capAdd) &&& ~~~ mask) := by
    rw [mem_namesFromMask]
    refine ⟨n, ?_, is⟩
    rw [BitVec.getLsbD_and, requested, BitVec.getLsbD_not, Bool.eq_false_iff.mpr outside,
      decide_eq_true (show n < 64 by omega)]
    rfl
  rw [fits] at member
  cases member

/-- What is asked for is granted: additions come after drops. -/
theorem granted_of_asked {last : Nat} {capAdd : List Text} (capDrop : List Text)
    {privileged : Bool} {n : Nat} (named : Named n) (asked : Available last capAdd privileged n)
    : (granted last capAdd capDrop privileged).getLsbD n = true := by
  have small := named_iff.mp named
  rw [Available] at asked
  rw [granted]
  split
  case isTrue all =>
    rw [if_pos (by rw [all]; rfl)] at asked
    rw [getLsbD_allCapsMask last (by omega), decide_eq_true asked]
  case isFalse notAll =>
    have notAll : privileged = false := by simpa using notAll
    subst notAll
    rw [Bool.false_or] at asked
    simp only [resolveCapKeep]
    split
    case isTrue all =>
      rw [if_pos all] at asked
      rw [getLsbD_allCapsMask last (by omega), decide_eq_true asked]
    case isFalse some =>
      rw [if_neg some] at asked
      exact (getLsbD_addCaps _ _ _).mpr (.inr asked)

/-- Under a ceiling without the word `all` the arguments resolve to the named capabilities that
the engine would have granted and the ceiling allows. Where nothing is rejected these are all
that the request asked for, of a request for everything those that the kernel has.
-/
theorem ceiling_holds {spec mode : Text} {ceiling : CapCeiling}
    (accepted : CapCeiling.parse spec mode = .ok ceiling)
    (bounded : ∀ tok ∈ tokens spec, isAll tok = false) (last : Nat) (capAdd capDrop : List Text)
    (privileged : Bool)
    : ∃ args, ceiling.capArgs last capAdd capDrop privileged = some args
      ∧ (∀ n, (replay last args).getLsbD n = true
          ↔ Named n ∧ (granted last capAdd capDrop privileged).getLsbD n = true
            ∧ Allowed spec n)
      ∧ (ceiling.mode = .reject → ceiling.rejected last capAdd privileged = [] →
          ∀ n, Named n → Available last capAdd privileged n →
            (replay last args).getLsbD n = true) := by
  obtain ⟨mask, has, allowed⟩ := parse_spec accepted bounded
  refine ⟨_, by rw [CapCeiling.capArgs, has]; rfl, ?_, ?_⟩
  · intro n
    rw [replay_spec, BitVec.getLsbD_and, Bool.and_eq_true, allowed]
  · intro rejects fits n named asked
    rw [replay_spec, BitVec.getLsbD_and, Bool.and_eq_true]
    exact ⟨named, granted_of_asked capDrop named asked,
      allowed_of_rejected_eq_nil has rejects fits named asked⟩

theorem ceiling_holds_netAdmin
    : ∃ args, (CapCeiling.mk (some (defaultKeptMask ||| bit 12)) .reject).capArgs 40
          ["cap_net_admin".toList] ["ALL".toList] false = some args
        ∧ ∀ n, Named n → Available 40 ["cap_net_admin".toList] false n →
          (replay 40 args).getLsbD n = true := by
  have accepted : CapCeiling.parse "default, NET_ADMIN".toList "".toList
      = .ok ⟨some (defaultKeptMask ||| bit 12), .reject⟩ := by decide +kernel
  have bounded : ∀ tok ∈ tokens "default, NET_ADMIN".toList, isAll tok = false := by
    decide +kernel
  have holds := ceiling_holds accepted bounded 40 ["cap_net_admin".toList] ["ALL".toList] false
  obtain ⟨args, is, -, whole⟩ := holds
  exact ⟨args, is, whole rfl (by decide +kernel)⟩

/-- Next to a request for everything, the name of a capability that the kernel does not have
adds nothing.
-/
theorem beyond_kernel_not_granted
    : ¬ ∀ (spec mode : Text) (ceiling : CapCeiling), CapCeiling.parse spec mode = .ok ceiling →
        (∀ tok ∈ tokens spec, isAll tok = false) →
        ∀ (last : Nat) (capAdd capDrop : List Text) (privileged : Bool),
          ∃ args, ceiling.capArgs last capAdd capDrop privileged = some args
            ∧ (∀ n, (replay last args).getLsbD n = true
                ↔ Named n ∧ (granted last capAdd capDrop privileged).getLsbD n = true
                  ∧ Allowed spec n)
            ∧ (ceiling.mode = .reject → ceiling.rejected last capAdd privileged = [] →
                ∀ n, Named n → Asked last capAdd privileged n →
                  (replay last args).getLsbD n = true) := by
  intro always
  let words := ["default", "DAC_READ_SEARCH", "LINUX_IMMUTABLE", "NET_ADMIN", "IPC_LOCK",
    "IPC_OWNER", "SYS_MODULE", "SYS_RAWIO", "SYS_PTRACE", "SYS_PACCT", "SYS_ADMIN", "SYS_BOOT",
    "SYS_NICE", "SYS_RESOURCE", "SYS_TIME", "SYS_TTY_CONFIG", "MKNOD", "LEASE", "AUDIT_CONTROL",
    "MAC_OVERRIDE", "MAC_ADMIN", "SYSLOG", "WAKE_ALARM", "BLOCK_SUSPEND", "AUDIT_READ", "PERFMON",
    "BPF"]
  let spec := [','].intercalate (words.map String.toList)
  have accepted : CapCeiling.parse spec [] = .ok ⟨some (bit 40 - 1#64), .reject⟩ := by
    decide +kernel
  have bounded : ∀ tok ∈ tokens spec, isAll tok = false := by decide +kernel
  obtain ⟨args, is, -, whole⟩ :=
    always spec [] _ accepted bounded 37 ["ALL".toList, "BPF".toList] [] false
  cases is
  have missing := whole rfl (by decide +kernel) 39 rfl
    (.inr ⟨"BPF".toList, by decide, by decide +kernel⟩)
  revert missing
  decide +kernel

end Delonix.Security.Capabilities
