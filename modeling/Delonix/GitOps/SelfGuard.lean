import Delonix.GitOps.Flattening
import Delonix.GitOps.Guard
import Delonix.GitOps.Spelling

/-! What a commit can do to the registration that judges it.
The guard compares a flattened text form, so the question is which accepted registrations
share one.
-/

namespace Delonix.GitOps

open Delonix.Library.Text
open Delonix.Stack

/-- The two registrations differ at most in `ref`, `path` and `interval`. -/
def SamePolicy (mine theirs : GitOpsSourceSpec) : Prop :=
  theirs = { mine with
    source := { mine.source with
      gitRef := theirs.source.gitRef
      path := theirs.source.path
      interval := theirs.source.interval } }

/-- The texts of a registration that a commit may not change. -/
structure SameTexts (mine theirs : GitOpsSourceSpec) : Prop where
  allow : joinWith ',' theirs.safety.allow = joinWith ',' mine.safety.allow
  automated : toString theirs.sync.automated = toString mine.sync.automated
  kinds : joinWith ',' theirs.safety.kinds = joinWith ',' mine.safety.kinds
  knownHostsRef : theirs.source.knownHostsRef.getD "" = mine.source.knownHostsRef.getD ""
  maximumDeletes :
    toString theirs.safety.maximumDeletes.toNat = toString mine.safety.maximumDeletes.toNat
  protectedResources : joinWith ',' theirs.safety.protectedResources
    = joinWith ',' mine.safety.protectedResources
  prune : toString theirs.safety.prune = toString mine.safety.prune
  secretRef : theirs.source.secretRef.getD "" = mine.source.secretRef.getD ""
  signed : toString theirs.source.signedCommitsRequired
    = toString mine.source.signedCommitsRequired
  stack : theirs.stack.getD "" = mine.stack.getD ""
  trustedKeysRef : theirs.source.trustedKeysRef.getD "" = mine.source.trustedKeysRef.getD ""
  url : theirs.source.url = mine.source.url

/-- The guard finds no changed field when the two text forms agree outside `ref`, `path` and
`interval`.
-/
theorem changedFields_eq_nil {mine theirs : GitOpsSourceSpec}
    : changedFields (gitopsFields mine) (gitopsFields theirs) = [] ↔ SameTexts mine theirs := by
  simp only [changedFields, selfMutable, List.contains_eq_mem, List.mem_cons, List.not_mem_nil,
    or_false, Bool.decide_or, Bool.not_or, gitopsFields, List.lookup_cons, List.lookup_nil,
    List.map_eq_nil_iff, List.filter_eq_nil_iff, Bool.and_eq_true, Bool.not_eq_eq_eq_not,
    Bool.not_true,
    decide_eq_false_iff_not, bne_iff_ne, ne_eq, not_and, Decidable.not_not, and_imp,
    forall_eq_or_imp, String.reduceEq, not_false_eq_true, BEq.rfl, Option.some.injEq,
    forall_const, String.reduceBEq, not_true_eq_false, IsEmpty.forall_iff, forall_eq,
    true_and]
  constructor
  · rintro ⟨allow, automated, kinds, knownHostsRef, maximumDeletes, entries, prune, secretRef,
      signed, stack, trustedKeysRef, url⟩
    exact ⟨allow, automated, kinds, knownHostsRef, maximumDeletes, entries, prune, secretRef,
      signed, stack, trustedKeysRef, url⟩
  · rintro ⟨allow, automated, kinds, knownHostsRef, maximumDeletes, entries, prune, secretRef,
      signed, stack, trustedKeysRef, url⟩
    exact ⟨allow, automated, kinds, knownHostsRef, maximumDeletes, entries, prune, secretRef,
      signed, stack, trustedKeysRef, url⟩

/-- Two accepted registrations with one text form are one policy when the protected resources
are: every other part is determined by its text.
-/
theorem samePolicy_of_sameTexts {mine theirs : GitOpsSourceSpec}
    {namespaceName name namespaceName' name' : String}
    (hm : AcceptedApart mine namespaceName name)
    (ht : AcceptedApart theirs namespaceName' name') (texts : SameTexts mine theirs)
    (entries : theirs.safety.protectedResources = mine.safety.protectedResources)
    : SamePolicy mine theirs := by
  have allow := joinWith_injective (fun _ member => plain_of_allowable (ht.allow _ member))
    (fun _ member => plain_of_allowable (hm.allow _ member)) texts.allow
  have kinds := joinWith_injective (fun _ member => plain_of_checkKind (ht.kinds _ member))
    (fun _ member => plain_of_checkKind (hm.kinds _ member)) texts.kinds
  have deletes : theirs.safety.maximumDeletes = mine.safety.maximumDeletes :=
    UInt32.toNat_inj.mp (toString_nat_injective texts.maximumDeletes)
  have secretRef := getD_empty_injective
    (fun v some => ne_empty_of_validSecretRef (ht.secretRef v some))
    (fun v some => ne_empty_of_validSecretRef (hm.secretRef v some)) texts.secretRef
  have knownHostsRef := getD_empty_injective
    (fun v some => ne_empty_of_validSecretRef (ht.knownHostsRef v some))
    (fun v some => ne_empty_of_validSecretRef (hm.knownHostsRef v some)) texts.knownHostsRef
  have trustedKeysRef := getD_empty_injective
    (fun v some => ne_empty_of_validSecretRef (ht.trustedKeysRef v some))
    (fun v some => ne_empty_of_validSecretRef (hm.trustedKeysRef v some)) texts.trustedKeysRef
  have stack := getD_empty_injective
    (fun v some => ne_empty_of_validIdent (ht.stack v some))
    (fun v some => ne_empty_of_validIdent (hm.stack v some)) texts.stack
  have automated := toString_bool_injective texts.automated
  have prune := toString_bool_injective texts.prune
  have signed := toString_bool_injective texts.signed
  have source : theirs.source = { mine.source with
      gitRef := theirs.source.gitRef
      path := theirs.source.path
      interval := theirs.source.interval } := by
    dsimp only
    rw [← texts.url, ← secretRef, ← knownHostsRef, ← signed, ← trustedKeysRef]
  have sync : theirs.sync = mine.sync := congrArg SyncSpec.mk automated
  have safety : theirs.safety = mine.safety := by
    show SafetySpec.mk _ _ _ _ _ = SafetySpec.mk _ _ _ _ _
    rw [allow, prune, deletes, entries, kinds]
  rw [SamePolicy]
  dsimp only at source ⊢
  rw [← source, ← sync, ← safety, ← stack]

/-- The document is the source itself and, when its spec is accepted, keeps the policy. -/
structure OwnSource (readers : DocReaders) (namespaceName name : String)
    (spec : GitOpsSourceSpec) (d : ManifestDoc) : Prop where
  sameName : d.metadata.name = name
  sameNamespace : eqIgnoreAsciiCase (namespaceOf d) namespaceName = true
  policy : ∀ theirs, readers.sourceSpec d.spec = .ok theirs →
    validateSpec theirs (namespaceOf d) d.metadata.name = .ok () →
    namespaceOf d = namespaceName ∧ SamePolicy spec theirs

/-- Every source a commit declares is the one that judges it, with its policy. -/
def KeepsPolicy (readers : DocReaders) (namespaceName name : String)
    (spec : GitOpsSourceSpec) (docs : List ManifestDoc) : Prop :=
  ∀ d ∈ docs, d.kind = Kind.gitopsSource → OwnSource readers namespaceName name spec d

/-- What the guard established about a source document it let through. -/
theorem guardSelf_eq_nil {readers : DocReaders} {d : ManifestDoc} {namespaceName name : String}
    {spec : GitOpsSourceSpec}
    : guardSelf readers d namespaceName name spec = []
      ↔ d.metadata.name = name ∧ eqIgnoreAsciiCase (namespaceOf d) namespaceName = true
        ∧ ∃ theirs, readers.sourceSpec d.spec = .ok theirs ∧ SameTexts spec theirs := by
  unfold guardSelf
  split
  case isTrue other =>
    simp only [List.cons_ne_nil, false_iff, not_and]
    intro sameName sameNamespace
    simp [sameName, sameNamespace] at other
  case isFalse own =>
    simp only [not_or, Classical.not_not, Bool.not_eq_false] at own
    split
    case h_1 failed => simp [failed]
    case h_2 theirs parsed =>
      simp only [own.1, own.2, parsed, true_and, Except.ok.injEq, exists_eq_left']
      rw [← changedFields_eq_nil]
      split
      case isTrue same => simpa using same
      case isFalse changed => simpa using changed

/-- Lowercase identifiers that agree up to case agree. -/
theorem eq_of_eqIgnoreAsciiCase {left right : String} (hl : validIdent left = true)
    (hr : validIdent right = true) (same : eqIgnoreAsciiCase left right = true)
    : left = right := by
  have lower {text : String} (valid : validIdent text = true)
      : toAsciiLowercase text = text := by
    simp only [validIdent, Bool.and_eq_true, List.all_eq_true] at valid
    rw [← String.toList_inj, toAsciiLowercase, String.toList_ofList]
    refine (List.map_congr_left ?_).trans (List.map_id _)
    intro c member
    have plain := valid.1.1.2 c member
    simp only [Bool.or_eq_true, beq_iff_eq] at plain
    obtain (letter | digit) | rfl := plain
    · have low : 97 ≤ c.toNat := by
        simpa [UInt32.le_iff_toNat_le] using (Bool.and_eq_true_iff.mp letter).1
      exact toLower_eq_self (by omega)
    · have high : c.toNat ≤ 57 := by
        simpa [UInt32.le_iff_toNat_le] using (Bool.and_eq_true_iff.mp digit).2
      exact toLower_eq_self (by omega)
    · rfl
  rw [← lower hl, ← lower hr]
  simpa [eqIgnoreAsciiCase] using same

/-- A source document the guard let through, when the protected resources have one accepted
spelling.
-/
theorem ownSource_of_guardSelf {readers : DocReaders} {d : ManifestDoc}
    {namespaceName name : String} {spec : GitOpsSourceSpec}
    (accepted : validateSpec spec namespaceName name = .ok ())
    (clear : UnambiguousEntries spec.safety.protectedResources)
    (silent : guardSelf readers d namespaceName name spec = [])
    : OwnSource readers namespaceName name spec d := by
  obtain ⟨sameName, sameNamespace, theirs, parsed, texts⟩ := guardSelf_eq_nil.mp silent
  obtain ⟨apart, entries⟩ := validateSpec_eq_ok.mp accepted
  refine ⟨sameName, sameNamespace, ?_⟩
  intro other parsedOther acceptedOther
  obtain rfl : theirs = other := Except.ok.inj (parsed.symm.trans parsedOther)
  obtain ⟨apartOther, entriesOther⟩ := validateSpec_eq_ok.mp acceptedOther
  constructor
  · exact eq_of_eqIgnoreAsciiCase apartOther.identity.2 apart.identity.2 sameNamespace
  · exact samePolicy_of_sameTexts apart apartOther texts
      (clear.eq entries entriesOther texts.protectedResources)

/-- The registration with another list of protected resources. -/
def withEntries (spec : GitOpsSourceSpec) (entries : List String) : GitOpsSourceSpec :=
  { spec with safety := { spec.safety with protectedResources := entries } }

/-- The document in which a source declares itself. -/
def selfDocument (namespaceName name : String) (value : Yaml) : ManifestDoc :=
  { kind := Kind.gitopsSource
    metadata := { name, namespaceName := some namespaceName }
    spec := value }

theorem validateSpec_withEntries {spec : GitOpsSourceSpec} {namespaceName name : String}
    {entries : List String} (accepted : validateSpec spec namespaceName name = .ok ())
    (acceptedEntries : ∀ entry ∈ entries, acceptedEntry entry = true)
    : validateSpec (withEntries spec entries) namespaceName name = .ok () := by
  obtain ⟨apart, _⟩ := validateSpec_eq_ok.mp accepted
  refine validateSpec_eq_ok.mpr ⟨?_, acceptedEntries⟩
  exact ⟨apart.identity, apart.source, apart.ref, apart.path, apart.interval, apart.secretRef,
    apart.knownHostsRef, apart.trustedKeysRef, apart.signed, apart.allow, apart.kinds,
    apart.stack⟩

theorem namespaceOf_selfDocument (name : String) (value : Yaml) {namespaceName : String}
    (valid : validIdent namespaceName = true)
    : namespaceOf (selfDocument namespaceName name value) = namespaceName := by
  have nonempty : namespaceName ≠ "" := ne_empty_of_validIdent valid
  have kept : (!namespaceName.isEmpty) = true := by simpa using nonempty
  simp [namespaceOf, selfDocument, Option.filter, kept]

/-- The guard keeps the policy of a registration against every commit exactly when the
registration's protected resources have one accepted spelling.
-/
theorem guardDocuments_keepsPolicy_iff {readers : DocReaders} {namespaceName name : String}
    {spec : GitOpsSourceSpec} (accepted : validateSpec spec namespaceName name = .ok ())
    (written : ∀ theirs, ∃ value, readers.sourceSpec value = .ok theirs)
    : (∀ docs, guardDocuments readers docs namespaceName name spec = [] →
        KeepsPolicy readers namespaceName name spec docs)
      ↔ UnambiguousEntries spec.safety.protectedResources := by
  constructor
  · intro keeps
    by_contra ambiguous
    obtain ⟨apart, entries⟩ := validateSpec_eq_ok.mp accepted
    obtain ⟨other, differs, acceptedOther, sameText⟩ := exists_other_entries entries ambiguous
    obtain ⟨value, parsed⟩ := written (withEntries spec other)
    have own := namespaceOf_selfDocument name value apart.identity.2
    have silent : guardSelf readers (selfDocument namespaceName name value) namespaceName name
        spec = [] := by
      refine guardSelf_eq_nil.mpr ⟨rfl, ?_, withEntries spec other, parsed, ?_⟩
      · simp [own, eqIgnoreAsciiCase]
      · exact ⟨rfl, rfl, rfl, rfl, rfl, sameText, rfl, rfl, rfl, rfl, rfl, rfl⟩
    have kept := keeps [selfDocument namespaceName name value]
      (by simpa [guardDocuments, maxDocuments, guardDocument, selfDocument] using silent)
      _ (List.mem_singleton_self _) rfl
    have policy := (kept.policy _ parsed (by
      rw [own]
      exact validateSpec_withEntries accepted acceptedOther)).2
    exact differs (congrArg (fun s => s.safety.protectedResources) policy)
  · intro clear docs silent d member isSource
    unfold guardDocuments at silent
    split at silent
    case isTrue => exact absurd silent (List.cons_ne_nil _ _)
    case isFalse =>
      have document := List.flatMap_eq_nil_iff.mp silent d member
      rw [guardDocument, if_pos isSource] at document
      exact ownSource_of_guardSelf accepted clear document

/-- Readers of documents that declare no workload. -/
def sourceReaders : DocReaders :=
  { sourceSpec := readSpec
    docRunOpts := fun _ => .error "no workload"
    podMembers := fun _ => .error "no workload" }

/-- The document of a commit in which the site's source protects the given resources. -/
def siteDocument (entries : List String) : ManifestDoc :=
  selfDocument "prod" "site" (writeSpec (siteSpec entries))

theorem guardDocuments_keepsPolicy_oneEntry
    : validateSpec (siteSpec ["Container/web"]) "prod" "site" = .ok ()
      ∧ guardDocuments sourceReaders [siteDocument ["Container/web"]] "prod" "site"
        (siteSpec ["Container/web"]) = []
      ∧ KeepsPolicy sourceReaders "prod" "site" (siteSpec ["Container/web"])
        [siteDocument ["Container/web"]] := by
  have accepted : validateSpec (siteSpec ["Container/web"]) "prod" "site" = .ok () := by
    decide +kernel
  have silent : guardDocuments sourceReaders [siteDocument ["Container/web"]] "prod" "site"
      (siteSpec ["Container/web"]) = [] := by decide +kernel
  have clear : UnambiguousEntries ["Container/web"] := by
    refine ⟨by simp, ?_⟩
    intro before after member
    have comma : ',' ∈ "Container/web".toList := by
      rw [← List.mem_singleton.mp member]
      simp
    exact absurd comma (by decide)
  exact ⟨accepted, silent, (guardDocuments_keepsPolicy_iff accepted
    (fun theirs => ⟨writeSpec theirs, readSpec_writeSpec theirs⟩)).mpr clear _ silent⟩

/-- Two protected resources and one whose name carries the separator read the same: the commit
passes the guard and protects neither of the two.
-/
theorem twoEntries_not_keepsPolicy
    : validateSpec (siteSpec ["Container/a", "Volume/b"]) "prod" "site" = .ok ()
      ∧ guardDocuments sourceReaders [siteDocument ["Container/a,Volume/b"]] "prod" "site"
        (siteSpec ["Container/a", "Volume/b"]) = []
      ∧ ¬ KeepsPolicy sourceReaders "prod" "site" (siteSpec ["Container/a", "Volume/b"])
        [siteDocument ["Container/a,Volume/b"]] := by
  refine ⟨by decide +kernel, by decide +kernel, ?_⟩
  intro keeps
  have own := keeps _ (List.mem_singleton_self _) rfl
  have policy := (own.policy (siteSpec ["Container/a,Volume/b"]) (readSpec_writeSpec _)
    (by decide +kernel)).2
  have entries : ["Container/a,Volume/b"] = ["Container/a", "Volume/b"] :=
    congrArg (fun s => s.safety.protectedResources) policy
  exact absurd entries (by decide)

end Delonix.GitOps
