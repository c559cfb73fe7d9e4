import Delonix.Compose.MergedMeaning
import Delonix.Library.Inheritance
import Delonix.Library.KeyedMerge

/-! `extends` of a service: what it does not declare comes from another service of the project.
Services are resolved in place, in the order of their names.
-/

namespace Delonix.Compose.Merging

open Delonix.Library.Inheritance
open Delonix.Library.Tables
open Delonix.Library.Text

variable {yaml : Yaml}

/-- The key and the value of a line. -/
def pairOf (sep : Char) (pair : Text) : Text × Text := (splitOnce sep pair).getD (pair, [])

def pairText (sep : Char) (entry : Text × Text) : Text := entry.1 ++ sep :: entry.2

/-- The entries of lines: each key where it stands first, with its last value. -/
def entriesOf (sep : Char) (lines : List Text) : List (Text × Text) :=
  Library.KeyedMerge.upsertAll Prod.fst [] (lines.map (pairOf sep))

def mergePairs (base child : List Text) (sep : Char) : List Text :=
  (entriesOf sep (base ++ child)).map (pairText sep)

def mergeEnv (base child : ComposeEnv yaml) : ComposeEnv yaml :=
  .list (mergePairs base.toKvPairs child.toKvPairs '=')

def mergeExtraHosts (base child : ComposeEnv yaml) : ComposeEnv yaml :=
  .list (mergePairs base.toHostPairs child.toHostPairs ':')

def dedupConcat (base child : List Text) : List Text := concatNew id base child

def mergeNetworks (base child : ComposeServiceNetworks) : ComposeServiceNetworks :=
  match child with
  | .empty => base
  | declared => declared

def mergeService (base child : ComposeService yaml) : ComposeService yaml where
  image := child.image.or base.image
  extending := none
  build := child.build.or base.build
  environment := mergeEnv base.environment child.environment
  envFile := .many (base.envFile.intoVec ++ child.envFile.intoVec)
  ports := base.ports ++ child.ports
  volumes := base.volumes ++ child.volumes
  command := child.command.or base.command
  entrypoint := child.entrypoint.or base.entrypoint
  dependsOn := child.dependsOn
  profiles := child.profiles
  healthcheck := child.healthcheck.or base.healthcheck
  restart := child.restart.or base.restart
  networks := mergeNetworks base.networks child.networks
  labels := mergeEnv base.labels child.labels
  workingDir := child.workingDir.or base.workingDir
  user := child.user.or base.user
  capAdd := dedupConcat base.capAdd child.capAdd
  capDrop := dedupConcat base.capDrop child.capDrop
  privileged := base.privileged || child.privileged
  tmpfs := .many (base.tmpfs.intoVec ++ child.tmpfs.intoVec)
  extraHosts := mergeExtraHosts base.extraHosts child.extraHosts
  deploy := child.deploy.or base.deploy
  containerName := child.containerName.or base.containerName
  hostname := child.hostname.or base.hostname
  readOnly := base.readOnly || child.readOnly
  secrets := base.secrets ++ child.secrets
  configs := base.configs ++ child.configs
  shmSize := child.shmSize.or base.shmSize
  stopGracePeriod := child.stopGracePeriod.or base.stopGracePeriod
  expose := base.expose ++ child.expose
  memLimit := child.memLimit.or base.memLimit
  cpus := child.cpus.or base.cpus
  ulimits := base.ulimits ∪ child.ulimits

theorem extending_mergeService (base child : ComposeService yaml)
    : (mergeService base child).extending = none :=
  rfl

def extension (yaml : Yaml) : Scheme Text (ComposeService yaml) where
  link := ComposeService.extending
  combine := mergeService
  consumed := extending_mergeService

def resolveExtends (services : Table (ComposeService yaml))
    : Except (Failure Text) (Table (ComposeService yaml)) :=
  resolveAll (extension yaml) services services.keys

theorem pairOf_pairText {sep : Char} {entry : Text × Text} (absent : sep ∉ entry.1)
    : pairOf sep (pairText sep entry) = entry := by
  rw [pairOf, pairText, splitOnce_append entry.2 absent, Option.getD_some]

theorem not_mem_pairOf (sep : Char) (line : Text) : sep ∉ (pairOf sep line).1 := by
  rw [pairOf]
  cases split : splitOnce sep line with
  | none => exact not_mem_of_splitOnce_eq_none split
  | some pair =>
      obtain ⟨before, after⟩ := pair
      exact (splitOnce_eq_some split).2

/-- Merged lines have the entries of all lines. -/
theorem entriesOf_mergePairs (sep : Char) (base child : List Text)
    : entriesOf sep (mergePairs base child sep) = entriesOf sep (base ++ child) := by
  have back : (mergePairs base child sep).map (pairOf sep) = entriesOf sep (base ++ child) := by
    rw [mergePairs, List.map_map]
    refine (List.map_congr_left fun entry member => ?_).trans (List.map_id _)
    obtain ⟨pair, split, same⟩ := Library.KeyedMerge.exists_of_mem_upsertAll member
    obtain ⟨line, -, rfl⟩ := List.mem_map.mp split
    exact pairOf_pairText (same ▸ not_mem_pairOf sep line)
  rw [entriesOf, back]
  exact Library.KeyedMerge.upsertAll_eq_self (Library.KeyedMerge.nodup_upsertAll _)

theorem entriesOf_append (sep : Char) (lines more : List Text)
    : entriesOf sep (lines ++ more)
      = Library.KeyedMerge.upsertAll Prod.fst (entriesOf sep lines) (more.map (pairOf sep)) := by
  rw [entriesOf, List.map_append]
  exact List.foldl_append

def ComposeServiceNetworks.declared : ComposeServiceNetworks → Option ComposeServiceNetworks
  | .empty => none
  | declared => some declared

/-- The fields that a service takes when it has none. -/
inductive TakenField {yaml : Yaml} : {α : Type} → (ComposeService yaml → Option α) → Prop
  | image : TakenField ComposeService.image
  | build : TakenField ComposeService.build
  | command : TakenField ComposeService.command
  | entrypoint : TakenField ComposeService.entrypoint
  | healthcheck : TakenField ComposeService.healthcheck
  | restart : TakenField ComposeService.restart
  | networks : TakenField fun svc => svc.networks.declared
  | workingDir : TakenField ComposeService.workingDir
  | user : TakenField ComposeService.user
  | deploy : TakenField ComposeService.deploy
  | containerName : TakenField ComposeService.containerName
  | hostname : TakenField ComposeService.hostname
  | shmSize : TakenField ComposeService.shmSize
  | stopGracePeriod : TakenField ComposeService.stopGracePeriod
  | memLimit : TakenField ComposeService.memLimit
  | cpus : TakenField ComposeService.cpus
  | ulimit (name : Text) : TakenField fun svc => svc.ulimits[name]?

/-- The fields that a service adds its own to. -/
inductive JoinedField {yaml : Yaml} : {α : Type} → (ComposeService yaml → List α) → Prop
  | envFile : JoinedField fun svc => svc.envFile.intoVec
  | ports : JoinedField ComposeService.ports
  | volumes : JoinedField ComposeService.volumes
  | tmpfs : JoinedField fun svc => svc.tmpfs.intoVec
  | secrets : JoinedField ComposeService.secrets
  | configs : JoinedField ComposeService.configs
  | expose : JoinedField ComposeService.expose

/-- The fields that a service adds what is new of its own to. -/
inductive DedupField {yaml : Yaml} : (ComposeService yaml → List Text) → Prop
  | capAdd : DedupField ComposeService.capAdd
  | capDrop : DedupField ComposeService.capDrop

/-- The fields of lines, with what ends the key of a line. -/
inductive LineField {yaml : Yaml} : Char → (ComposeService yaml → List Text) → Prop
  | environment : LineField '=' fun svc => svc.environment.toKvPairs
  | labels : LineField '=' fun svc => svc.labels.toKvPairs
  | extraHosts : LineField ':' fun svc => svc.extraHosts.toHostPairs

inductive MarkField {yaml : Yaml} : (ComposeService yaml → Bool) → Prop
  | privileged : MarkField ComposeService.privileged
  | readOnly : MarkField ComposeService.readOnly

/-- The fields that no service takes from another one. -/
inductive OwnField {yaml : Yaml} : {α : Type} → (ComposeService yaml → α) → Prop
  | dependsOn : OwnField ComposeService.dependsOn
  | profiles : OwnField ComposeService.profiles

/-- A service is what its lineage adds up to, field by field. -/
structure Inherits (farthest : ComposeService yaml) (rest : List (ComposeService yaml))
    (svc : ComposeService yaml) : Prop where
  /-- The nearest declaration wins. -/
  taken : ∀ {α : Type} (field : ComposeService yaml → Option α), TakenField field
    → field svc = (farthest :: rest).reverse.findSome? field
  joined : ∀ {α : Type} (field : ComposeService yaml → List α), JoinedField field
    → field svc = (farthest :: rest).flatMap field
  dedup : ∀ field : ComposeService yaml → List Text, DedupField field
    → field svc = dedupConcat (field farthest) (rest.flatMap field)
  /-- A key has the value that is named last. -/
  lines : ∀ (sep : Char) (field : ComposeService yaml → List Text), LineField sep field
    → ∀ key, (entriesOf sep (field svc)).find? (fun entry => decide (entry.1 = key))
      = (((farthest :: rest).flatMap field).map (pairOf sep)).reverse.find?
        fun entry => decide (entry.1 = key)
  /-- A key stands where it is named first. -/
  order : ∀ (sep : Char) (field : ComposeService yaml → List Text), LineField sep field
    → (entriesOf sep (field svc)).map Prod.fst
      = Library.KeyedMerge.concatNew id []
        (((farthest :: rest).flatMap field).map fun line => (pairOf sep line).1)
  marked : ∀ field : ComposeService yaml → Bool, MarkField field
    → field svc = (farthest :: rest).any field
  own : ∀ {α : Type} (field : ComposeService yaml → α), OwnField field
    → field svc = field (rest.getLastD farthest)

theorem entriesOf_foldl {sep : Char} {field : ComposeService yaml → List Text}
    (kind : LineField sep field) (farthest : ComposeService yaml)
    (rest : List (ComposeService yaml))
    : entriesOf sep (field (rest.foldl mergeService farthest))
      = entriesOf sep ((farthest :: rest).flatMap field) := by
  have merged (base child : ComposeService yaml)
      : field (mergeService base child) = mergePairs (field base) (field child) sep := by
    cases kind <;> rfl
  induction rest using List.reverseRecOn with
  | nil => rw [List.flatMap_singleton, List.foldl_nil]
  | append_singleton rest child ih =>
      rw [List.foldl_append, List.foldl_cons, List.foldl_nil, merged, ← List.cons_append,
        List.flatMap_append, List.flatMap_singleton, entriesOf_mergePairs, entriesOf_append, ih,
        ← entriesOf_append]

theorem inherits_foldl (farthest : ComposeService yaml) (rest : List (ComposeService yaml))
    : Inherits farthest rest (rest.foldl mergeService farthest) where
  taken field kind := by
    refine foldl_nearest (fun base child => ?_) farthest rest
    cases kind with
    | networks =>
        show (mergeNetworks base.networks child.networks).declared
          = child.networks.declared.or base.networks.declared
        cases child.networks <;> rfl
    | ulimit name => exact Std.ExtTreeMap.getElem?_union
    | _ => rfl
  joined field kind := by
    refine foldl_joined (fun base child => ?_) farthest rest
    cases kind <;> rfl
  dedup field kind := by
    have merged (base child : ComposeService yaml)
        : field (mergeService base child) = dedupConcat (field base) (field child) := by
      cases kind <;> rfl
    induction rest using List.reverseRecOn with
    | nil => rfl
    | append_singleton rest child ih =>
        rw [List.foldl_append, List.foldl_cons, List.foldl_nil, merged, ih, List.flatMap_append,
          List.flatMap_singleton]
        exact List.foldl_append.symm
  lines sep field kind key := by
    rw [entriesOf_foldl kind, entriesOf, Library.KeyedMerge.find?_upsertAll, List.find?_nil,
      Option.or_none]
  order sep field kind := by
    rw [entriesOf_foldl kind, entriesOf, Library.KeyedMerge.keys_upsertAll, List.map_map]
    rfl
  marked field kind := by
    refine foldl_marked (fun base child => ?_) farthest rest
    cases kind <;> rfl
  own field kind := by
    refine foldl_own (fun base child => ?_) farthest rest
    cases kind <;> rfl

/-- Either every service ends up extending nothing, as what it and all that it extends, the farthest
first, add up to; or the failure shows an extended service that is not there, or services that
extend each other in a circle.
-/
theorem resolveExtends_inherits (services : Table (ComposeService yaml))
    : (∃ resolved, resolveExtends services = .ok resolved
        ∧ (∀ name, name ∈ resolved ↔ name ∈ services)
        ∧ ∀ name svc, resolved[name]? = some svc
          → svc.extending = none
          ∧ ∃ farthest rest, Lineage (extension yaml) services name farthest rest
            ∧ (rest = [] → svc = farthest) ∧ Inherits farthest rest svc)
      ∨ ∃ failure, resolveExtends services = .error failure
        ∧ failure.Real (extension yaml) services := by
  rcases resolveAll_resolves (extension yaml) services
    (fun _ there => Std.ExtTreeMap.mem_keys.mpr there) with
    ⟨resolved, is, stored, all⟩ | ⟨failure, is, real, -⟩
  case inr => exact .inr ⟨failure, is, real⟩
  refine .inl ⟨resolved, is, fun name => ⟨fun there => ?_, fun there => ?_⟩, ?_⟩
  · obtain ⟨svc, found⟩ := Option.isSome_iff_exists.mp
      (Std.ExtTreeMap.mem_iff_isSome_getElem?.mp there)
    exact ((stored name svc).mp found).mem
  · obtain ⟨svc, resolves⟩ := all name there
    exact Std.ExtTreeMap.mem_iff_isSome_getElem?.mpr (by rw [(stored name svc).mpr resolves]; rfl)
  · intro name svc found
    have resolves := (stored name svc).mp found
    obtain ⟨farthest, rest, lineage, rfl⟩ := resolves_iff_lineage.mp resolves
    refine ⟨resolves.link_eq, farthest, rest, lineage, ?_, inherits_foldl farthest rest⟩
    intro alone
    rw [alone]
    rfl

/-- The order in which services are resolved matters to neither outcome, nor does it matter whether
one is resolved again.
-/
theorem resolveExtends_any_order {services : Table (ComposeService yaml)} {names : List Text}
    (all : ∀ name ∈ services, name ∈ names)
    : (∃ resolved, resolveExtends services = .ok resolved
        ∧ resolveAll (extension yaml) services names = .ok resolved)
      ∨ ∃ failure other, resolveExtends services = .error failure
        ∧ resolveAll (extension yaml) services names = .error other
        ∧ ∃ name ∈ services, ∀ farthest rest,
          ¬ Lineage (extension yaml) services name farthest rest := by
  rcases resolveAll_resolves (extension yaml) services
    (fun _ there => Std.ExtTreeMap.mem_keys.mpr there) with
    ⟨resolved, is, stored, means⟩ | ⟨failure, is, -, name, there, lacks⟩
  · rcases resolveAll_resolves (extension yaml) services all with
      ⟨again, is', stored', -⟩ | ⟨-, -, -, name, there, lacks⟩
    · have same : again = resolved := by
        refine Std.ExtTreeMap.ext_getElem? fun name => Option.ext fun svc => ?_
        rw [stored', stored]
      exact .inl ⟨resolved, is, same ▸ is'⟩
    · obtain ⟨svc, resolves⟩ := means name there
      exact (lacks svc resolves).elim
  · rcases resolveAll_resolves (extension yaml) services all with
      ⟨-, -, -, means⟩ | ⟨other, is', -⟩
    · obtain ⟨svc, resolves⟩ := means name there
      exact (lacks svc resolves).elim
    · refine .inr ⟨failure, other, is, is', name, there, fun farthest rest lineage => ?_⟩
      exact lacks _ (resolves_iff_lineage.mpr ⟨farthest, rest, lineage, rfl⟩)

/-- Nothing but integers is read as a number. -/
def integersOnly : Yaml := ⟨Int, Unit, fun n => (toString n).toList, fun _ => none⟩

def webOnBase : Table (ComposeService integersOnly) :=
  ((∅ : Table (ComposeService integersOnly)).insert "base".toList
    { image := some "nginx".toList }).insert "web".toList { extending := some "base".toList }

theorem resolveExtends_web_first
    : (∃ resolved, resolveExtends webOnBase = .ok resolved
        ∧ resolveAll (extension integersOnly) webOnBase ["web".toList, "base".toList]
          = .ok resolved)
      ∨ ∃ failure other, resolveExtends webOnBase = .error failure
        ∧ resolveAll (extension integersOnly) webOnBase ["web".toList, "base".toList]
          = .error other
        ∧ ∃ name ∈ webOnBase, ∀ farthest rest,
          ¬ Lineage (extension integersOnly) webOnBase name farthest rest := by
  refine resolveExtends_any_order fun name there => ?_
  simp only [webOnBase, Std.ExtTreeMap.mem_insert, Std.LawfulEqCmp.compare_eq_iff_eq,
    Std.ExtTreeMap.not_mem_empty, or_false] at there
  rcases there with rfl | rfl
  · exact List.mem_cons_self
  · exact List.mem_cons_of_mem _ List.mem_cons_self

end Delonix.Compose.Merging
