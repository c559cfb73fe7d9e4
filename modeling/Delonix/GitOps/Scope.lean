import Delonix.GitOps.SelfGuard

/-! The namespace of a commit's documents: a pass puts them into the source's own before it
guards their Kinds.
-/

namespace Delonix.GitOps

open Delonix.Stack

/-- Its Kind is always namespaced. -/
def alwaysNamespaced (kind : String) : Bool :=
  (facts kind).any fun row => row.namespaced == .always

def namesNone (d : ManifestDoc) : Bool := (d.metadata.namespaceName.getD "").isEmpty

/-- A document that names no namespace is given the source's. -/
def scopeDocument (namespaceName : String) (d : ManifestDoc) : ManifestDoc :=
  if alwaysNamespaced d.kind && namesNone d && namespaceName != "default" then
    { d with metadata := { d.metadata with namespaceName := some namespaceName } }
  else d

/-- One that names another namespace is refused. -/
def scopeReasons (namespaceName : String) (d : ManifestDoc) : List String :=
  if alwaysNamespaced d.kind && !namesNone d && !eqIgnoreAsciiCase (namespaceOf d) namespaceName
  then
    [docId d ++ ": namespace '" ++ namespaceOf d ++ "' — this source applies only into '"
      ++ namespaceName ++ "'"]
  else []

def scopeDocuments (docs : List ManifestDoc) (namespaceName : String)
    : List ManifestDoc × List String :=
  (docs.map (scopeDocument namespaceName), docs.flatMap (scopeReasons namespaceName))

/-- A pass applies only into its own namespace and only the Kinds it may. -/
structure Contained (namespaceName : String) (spec : GitOpsSourceSpec) (docs : List ManifestDoc)
    : Prop where
  namespaces : ∀ d ∈ docs, alwaysNamespaced d.kind = true → namespaceOf d = namespaceName
  refused : ∀ d ∈ docs, d.kind ∉ hardRefused
  named : ∀ d ∈ docs, d.kind ∈ optIn → ∃ k ∈ spec.safety.kinds, canonicalKind k = d.kind

/-- The document names no namespace, or the source's in its own spelling. -/
def OwnSpelling (namespaceName : String) (d : ManifestDoc) : Prop :=
  if namesNone d then namespaceName ≠ "" else d.metadata.namespaceName = some namespaceName

theorem kindAllowed_eq_ok {spec : GitOpsSourceSpec} {kind : String}
    (allowed : kindAllowed spec kind = .ok ())
    : kind ∉ hardRefused
      ∧ (kind ∈ optIn → ∃ k ∈ spec.safety.kinds, canonicalKind k = kind) := by
  rw [kindAllowed] at allowed
  split at allowed
  · cases allowed
  case isFalse applied =>
    refine ⟨by simpa using applied, fun opt => ?_⟩
    split at allowed
    case isTrue unnamed =>
      rw [if_pos (by simpa using opt)] at allowed
      cases allowed
    case isFalse named =>
      split at allowed
      case isTrue found => simpa using found
      · cases allowed

/-- The source's own Kind is neither refused nor opt-in. -/
theorem gitopsSource_free : Kind.gitopsSource ∉ hardRefused ∧ Kind.gitopsSource ∉ optIn := by
  decide +kernel

/-- What the guard lets through is of Kinds the pass may apply. -/
theorem kinds_of_guarded {readers : DocReaders} {docs : List ManifestDoc}
    {namespaceName name : String} {spec : GitOpsSourceSpec}
    (guarded : guardDocuments readers docs namespaceName name spec = [])
    : ∀ d ∈ docs, d.kind ∉ hardRefused
      ∧ (d.kind ∈ optIn → ∃ k ∈ spec.safety.kinds, canonicalKind k = d.kind) := by
  intro d member
  rw [guardDocuments] at guarded
  split at guarded
  · cases guarded
  · have quiet := List.flatMap_eq_nil_iff.mp guarded d member
    rw [guardDocument] at quiet
    split at quiet
    case isTrue own =>
      rw [own]
      exact ⟨gitopsSource_free.1, fun opt => absurd opt gitopsSource_free.2⟩
    · cases allowed : kindAllowed spec d.kind with
      | error why =>
          rw [allowed] at quiet
          cases quiet
      | ok done => exact kindAllowed_eq_ok allowed

theorem scopeDocument_kind (namespaceName : String) (d : ManifestDoc)
    : (scopeDocument namespaceName d).kind = d.kind := by
  rw [scopeDocument]
  split <;> rfl

/-- After scoping a document is in the source's namespace when it spelled it as the source. -/
theorem namespaceOf_scopeDocument {namespaceName : String} {d : ManifestDoc}
    (always : alwaysNamespaced d.kind = true)
    : namespaceOf (scopeDocument namespaceName d) = namespaceName
      ↔ OwnSpelling namespaceName d := by
  have given (n : String) : namespaceOf { d with
      metadata := { d.metadata with namespaceName := some n } }
      = if n.isEmpty then "default" else n := by
    by_cases empty : n.isEmpty = true <;> simp [namespaceOf, Option.filter, empty]
  cases unnamed : namesNone d
  · -- the document names a namespace and keeps it
    have kept : scopeDocument namespaceName d = d := by
      rw [scopeDocument, unnamed, Bool.and_false, Bool.false_and, if_neg Bool.false_ne_true]
    cases its : d.metadata.namespaceName with
    | none => simp [namesNone, its] at unnamed
    | some n =>
        have nonempty : n.isEmpty = false := by simpa [namesNone, its] using unnamed
        rw [kept]
        simp [OwnSpelling, unnamed, namespaceOf, its, Option.filter, nonempty]
  · have absent : namespaceOf d = "default" := by
      cases its : d.metadata.namespaceName with
      | none => simp [namespaceOf, its]
      | some n =>
          have empty : n.isEmpty = true := by simpa [namesNone, its] using unnamed
          simp [namespaceOf, its, Option.filter, empty]
    by_cases standard : namespaceName = "default"
    · have kept : scopeDocument namespaceName d = d := by simp [scopeDocument, standard]
      rw [kept, absent, OwnSpelling, unnamed, if_pos rfl, standard]
      exact iff_of_true rfl (by decide)
    · have moved : scopeDocument namespaceName d = { d with
          metadata := { d.metadata with namespaceName := some namespaceName } } := by
        simp [scopeDocument, always, unnamed, standard]
      rw [moved, given, OwnSpelling, unnamed, if_pos rfl]
      by_cases empty : namespaceName = ""
      · simp [empty]
      · simp [empty]

variable {readers : DocReaders} {docs : List ManifestDoc} {namespaceName name : String}
  {spec : GitOpsSourceSpec}

/-- What passes both checks is contained exactly when every namespace is spelled as the source
spells it.
-/
theorem scopeDocuments_contained_iff
    (guarded : guardDocuments readers (scopeDocuments docs namespaceName).1 namespaceName name spec
      = [])
    : Contained namespaceName spec (scopeDocuments docs namespaceName).1
      ↔ ∀ d ∈ docs, alwaysNamespaced d.kind = true → OwnSpelling namespaceName d := by
  constructor
  · intro contained d member always
    refine (namespaceOf_scopeDocument always).mp (contained.namespaces _ ?_ ?_)
    · exact List.mem_map_of_mem member
    · rw [scopeDocument_kind]
      exact always
  · intro spelled
    have kinds := kinds_of_guarded guarded
    refine ⟨?_, fun d member => (kinds d member).1, fun d member => (kinds d member).2⟩
    intro after member always
    obtain ⟨d, mem, rfl⟩ := List.mem_map.mp member
    rw [scopeDocument_kind] at always
    exact (namespaceOf_scopeDocument always).mpr (spelled d mem always)

/-- A container on a network of its own, in the source's namespace under another spelling. -/
def strayContainer (namespaceName : String) : ManifestDoc :=
  { kind := Kind.container, metadata := { name := "web", namespaceName := some namespaceName }
    spec := .null }

def harmless : RunOpts :=
  { privileged := false, net := "front", pod := none, hostPid := false, hostIpc := false,
    volumes := [], devices := [], gpus := none, capAdd := [], securityOpt := [],
    apparmor := none, selinux := none, envFile := [] }

def workloadReaders : DocReaders := { sourceReaders with docRunOpts := fun _ => .ok harmless }

/-- The commit is let through, into `Prod` instead of `prod`. -/
theorem strayContainer_not_contained
    : validateSpec (siteSpec []) "prod" "site" = .ok ()
      ∧ (scopeDocuments [strayContainer "Prod"] "prod").2 = []
      ∧ guardDocuments workloadReaders (scopeDocuments [strayContainer "Prod"] "prod").1 "prod"
        "site" (siteSpec []) = []
      ∧ ¬ Contained "prod" (siteSpec []) (scopeDocuments [strayContainer "Prod"] "prod").1 := by
  refine ⟨by decide +kernel, by decide +kernel, by decide +kernel, fun contained => ?_⟩
  have same := contained.namespaces (scopeDocument "prod" (strayContainer "Prod")) (by
    exact List.mem_singleton.mpr rfl) (by decide +kernel)
  revert same
  decide +kernel

theorem ownContainer_contained_iff
    : Contained "prod" (siteSpec []) (scopeDocuments [strayContainer "prod"] "prod").1
      ↔ ∀ d ∈ [strayContainer "prod"], alwaysNamespaced d.kind = true → OwnSpelling "prod" d :=
  @scopeDocuments_contained_iff workloadReaders [strayContainer "prod"] "prod" "site" (siteSpec [])
    (by decide +kernel)

end Delonix.GitOps
