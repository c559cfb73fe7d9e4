import Delonix.GitOps.Spec
import Delonix.Library.Checks
import Delonix.Library.Pieces

/-! What an accepted registration promises about the texts it carries. -/

namespace Delonix.GitOps

open Delonix.Library.Checks
open Delonix.Library.Text
open Delonix.Stack

@[simp] theorem require_eq_ok {holds : Bool} {message : String}
    : require holds message = .ok () ↔ holds = true := by
  cases holds <;> simp [require, invalidSource]

/-- The checks of a registration other than the one on its protected resources. -/
structure AcceptedApart (spec : GitOpsSourceSpec) (namespaceName name : String) : Prop where
  identity : validIdent name = true ∧ validIdent namespaceName = true
  source : ∃ transport, validateUrl spec.source.url = .ok transport
    ∧ checkTransport spec.source transport = .ok ()
  ref : validateRef spec.source.gitRef = .ok ()
  path : validateRepoPath spec.source.path = .ok ()
  interval : ∃ seconds, parseInterval spec.source.interval = .ok seconds
  secretRef : ∀ v, spec.source.secretRef = some v → validSecretRef v = true
  knownHostsRef : ∀ v, spec.source.knownHostsRef = some v → validSecretRef v = true
  trustedKeysRef : ∀ v, spec.source.trustedKeysRef = some v → validSecretRef v = true
  signed : spec.source.signedCommitsRequired = spec.source.trustedKeysRef.isSome
  allow : ∀ action ∈ spec.safety.allow, action ∈ allowable
  kinds : ∀ kind ∈ spec.safety.kinds, checkKind kind = .ok ()
  stack : ∀ s, spec.stack = some s → validIdent s = true

theorem checkSecretRef_eq_ok {field : String} {value : Option String}
    : checkSecretRef field value = .ok () ↔ ∀ v, value = some v → validSecretRef v = true := by
  cases value <;> simp [checkSecretRef]

theorem checkStack_eq_ok {stack : Option String}
    : checkStack stack = .ok () ↔ ∀ s, stack = some s → validIdent s = true := by
  cases stack <;> simp [checkStack]

/-- A registration is accepted when its protected resources are and everything else is. -/
theorem validateSpec_eq_ok {spec : GitOpsSourceSpec} {namespaceName name : String}
    : validateSpec spec namespaceName name = .ok ()
      ↔ AcceptedApart spec namespaceName name
        ∧ ∀ entry ∈ spec.safety.protectedResources, acceptedEntry entry = true := by
  simp only [validateSpec, checkIdentity, bind_eq_ok, exists_unit, forM_eq_ok, checkAllow,
    checkProtected, require_eq_ok, checkSecretRef_eq_ok, checkStack_eq_ok, Bool.and_eq_true,
    beq_iff_eq, List.contains_eq_mem, decide_eq_true_eq]
  constructor
  · rintro ⟨identity, transport, url, ref, path, ⟨seconds, interval, secretRef, knownHostsRef,
      trustedKeysRef, readable, signed, allow, kinds, entries, stack⟩⟩
    exact ⟨⟨identity, ⟨transport, url, readable⟩, ref, path, ⟨seconds, interval⟩, secretRef,
      knownHostsRef, trustedKeysRef, signed, allow, kinds, stack⟩, entries⟩
  · rintro ⟨⟨identity, ⟨transport, url, readable⟩, ref, path, ⟨seconds, interval⟩, secretRef,
      knownHostsRef, trustedKeysRef, signed, allow, kinds, stack⟩, entries⟩
    exact ⟨identity, transport, url, ref, path, seconds, interval, secretRef, knownHostsRef,
      trustedKeysRef, readable, signed, allow, kinds, entries, stack⟩

end Delonix.GitOps

/-! How much of an accepted registration its flattened text form determines.
Actions, Kinds and secret names carry no comma and are never empty. An entry of the protected
resources may carry commas, so a joined list of them can be cut in more than one way.
-/

namespace Delonix.GitOps

open Delonix.Library.Checks
open Delonix.Library.Text
open Delonix.Stack

/-- The list of protected resources has one accepted spelling: at most one entry, and that
entry is not two accepted entries around a comma.
-/
def UnambiguousEntries (entries : List String) : Prop :=
  entries.length ≤ 1 ∧ ∀ before after, before ++ "," ++ after ∈ entries →
    ¬ (acceptedEntry before = true ∧ acceptedEntry after = true)

theorem plain_of_allowable {action : String} (member : action ∈ allowable)
    : Plain ',' action := by
  have all : ∀ action ∈ allowable, ',' ∉ action.toList ∧ action ≠ "" := by decide
  exact all action member

theorem mem_kindTable_of_inStack {kind : String} (applied : inStack kind = true)
    : ∃ row ∈ kindTable, row.kind = kind := by
  simp only [inStack, facts, Option.any_eq_true] at applied
  obtain ⟨row, found, _⟩ := applied
  exact ⟨row, List.mem_of_find?_eq_some found, by simpa using List.find?_some found⟩

/-- A comma survives lowercasing. -/
theorem comma_mem_toAsciiLowercase {text : String} (comma : ',' ∈ text.toList)
    : ',' ∈ (toAsciiLowercase text).toList := by
  simp only [toAsciiLowercase, String.toList_ofList, List.mem_map]
  exact ⟨',', comma, by decide⟩

/-- A Kind that `safety.kinds` accepts has no comma, in any spelling. -/
theorem plain_of_checkKind {kind : String} (accepted : checkKind kind = .ok ())
    : Plain ',' kind := by
  have applied : inStack (canonicalKind kind) = true := by
    simp only [checkKind, bind_eq_ok, exists_unit, require_eq_ok, Bool.and_eq_true] at accepted
    exact accepted.2.2
  unfold canonicalKind at applied
  split at applied
  case h_1 spelling canonical found =>
    have lower : toAsciiLowercase spelling = toAsciiLowercase kind := by
      simpa [eqIgnoreAsciiCase] using List.find?_some found
    have spellings : ∀ entry ∈ kindAliases,
        ',' ∉ (toAsciiLowercase entry.1).toList ∧ toAsciiLowercase entry.1 ≠ "" := by decide
    obtain ⟨noComma, nonempty⟩ := spellings _ (List.mem_of_find?_eq_some found)
    constructor
    · intro comma
      exact noComma (lower ▸ comma_mem_toAsciiLowercase comma)
    · rintro rfl
      exact nonempty lower
  case h_2 =>
    have names : ∀ row ∈ kindTable, ',' ∉ row.kind.toList ∧ row.kind ≠ "" := by decide
    obtain ⟨row, member, rfl⟩ := mem_kindTable_of_inStack applied
    exact names row member

theorem ne_empty_of_validIdent {text : String} (valid : validIdent text = true)
    : text ≠ "" := by
  rintro rfl
  exact absurd valid (by decide)

theorem ne_empty_of_validSecretRef {text : String} (valid : validSecretRef text = true)
    : text ≠ "" := by
  rintro rfl
  exact absurd valid (by decide)

/-- An option of non-empty texts is determined by its text form. -/
theorem getD_empty_injective {left right : Option String} (hl : ∀ v, left = some v → v ≠ "")
    (hr : ∀ v, right = some v → v ≠ "") (same : left.getD "" = right.getD "")
    : left = right := by
  cases left with
  | none =>
      cases right with
      | none => rfl
      | some v => exact (hr v rfl same.symm).elim
  | some u =>
      cases right with
      | none => exact (hl u rfl same).elim
      | some v => exact congrArg some same

/-- An accepted entry stays accepted with more text after a comma. -/
theorem acceptedEntry_append {entry : String} (accepted : acceptedEntry entry = true)
    (more : String)
    : acceptedEntry (entry ++ "," ++ more) = true := by
  simp only [acceptedEntry] at accepted ⊢
  split at accepted
  case h_1 kind name cut =>
    obtain ⟨shape, absent⟩ := splitOnce_eq_some cut
    have text : (entry ++ "," ++ more).toList = kind ++ '/' :: (name ++ ',' :: more.toList) := by
      simp [shape]
    rw [text, splitOnce_append _ absent]
    simp only [Bool.and_eq_true] at accepted ⊢
    exact ⟨accepted.1, by simp⟩
  case h_2 => contradiction

theorem ne_empty_of_acceptedEntry {entry : String} (accepted : acceptedEntry entry = true)
    : entry ≠ "" := by
  rintro rfl
  exact absurd accepted (by decide)

theorem acceptedEntry_joinWith {entry : String} (accepted : acceptedEntry entry = true)
    (rest : List String)
    : acceptedEntry (joinWith ',' (entry :: rest)) = true := by
  cases rest with
  | nil => rwa [joinWith_singleton]
  | cons next rest =>
      rw [joinWith_cons_cons]
      exact acceptedEntry_append accepted _

/-- An unambiguous list is the only accepted one with its joined text. -/
theorem UnambiguousEntries.eq {mine theirs : List String} (clear : UnambiguousEntries mine)
    (hm : ∀ entry ∈ mine, acceptedEntry entry = true)
    (ht : ∀ entry ∈ theirs, acceptedEntry entry = true)
    (same : joinWith ',' theirs = joinWith ',' mine)
    : theirs = mine := by
  match mine, theirs with
  | [], [] => rfl
  | [], [entry] =>
      rw [joinWith_singleton, joinWith_nil] at same
      exact (ne_empty_of_acceptedEntry (ht entry (by simp)) same).elim
  | [], first :: second :: rest =>
      rw [joinWith_cons_cons, joinWith_nil] at same
      exact absurd (congrArg String.toList same) (by simp)
  | [entry], [] =>
      rw [joinWith_singleton, joinWith_nil] at same
      exact (ne_empty_of_acceptedEntry (hm entry (by simp)) same.symm).elim
  | [entry], [other] =>
      rw [joinWith_singleton, joinWith_singleton] at same
      rw [same]
  | [entry], first :: second :: rest =>
      rw [joinWith_cons_cons, joinWith_singleton] at same
      have cut : first ++ "," ++ joinWith ',' (second :: rest) = entry := same
      exact (clear.2 first (joinWith ',' (second :: rest)) (by simp [cut])
        ⟨ht first (by simp), acceptedEntry_joinWith (ht second (by simp)) rest⟩).elim
  | first :: second :: rest, _ =>
      have short := clear.1
      simp at short

/-- Every other list of accepted entries shares its joined text with another one. -/
theorem exists_other_entries {entries : List String}
    (accepted : ∀ entry ∈ entries, acceptedEntry entry = true)
    (ambiguous : ¬ UnambiguousEntries entries)
    : ∃ other, other ≠ entries ∧ (∀ entry ∈ other, acceptedEntry entry = true)
      ∧ joinWith ',' other = joinWith ',' entries := by
  match entries with
  | [] => exact (ambiguous ⟨by simp, by simp⟩).elim
  | [entry] =>
      simp only [UnambiguousEntries, List.length_singleton, Nat.le_refl, List.mem_singleton,
        true_and, not_forall, Classical.not_not] at ambiguous
      obtain ⟨before, after, cut, left, right⟩ := ambiguous
      refine ⟨[before, after], by simp, by simp [left, right], ?_⟩
      rw [joinWith_cons_cons, joinWith_singleton, joinWith_singleton]
      exact cut
  | first :: second :: rest =>
      refine ⟨[joinWith ',' (first :: second :: rest)], by simp, ?_, joinWith_singleton _ _⟩
      intro entry member
      rw [List.mem_singleton.mp member]
      exact acceptedEntry_joinWith (accepted first (by simp)) _

end Delonix.GitOps
