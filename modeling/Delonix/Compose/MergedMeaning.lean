import Delonix.Compose.Merging

/-! What a merge of compose files must keep: every declaration, what each file says of a service, and
for each key the word of the last file that has it. It does so exactly when no file has secrets or
configs of its own and no list of variables or hosts is written in a way that the common table
spells differently.
-/

namespace Delonix.Compose.Merging

open Delonix.Library.Tables
open Delonix.Library.Text

variable {yaml : Yaml}

-----------------------------------------------------------------------------------------
-- What services and files say
-----------------------------------------------------------------------------------------

def ComposeDependsOn.waits : ComposeDependsOn → List (Text × Text)
  | .short names => names.map fun name => (name, "service_started".toList)
  | .long entries => entries.toList

def ComposeServiceNetworks.attached : ComposeServiceNetworks → List (Text × Option Text)
  | .empty => []
  | .list keys => keys.map fun key => (key, none)
  | .map entries => entries.toList

/-- A service without the fields of two forms. -/
def ComposeService.others (svc : ComposeService yaml) : ComposeService yaml :=
  { svc with
    environment := default, labels := default, extraHosts := default, envFile := default,
    tmpfs := default, dependsOn := default, networks := default }

/-- Two services that say the same, as sets of entries where a field has two forms. -/
structure SameService (s t : ComposeService yaml) : Prop where
  environment : ∀ line, line ∈ s.environment.toKvPairs ↔ line ∈ t.environment.toKvPairs
  labels : ∀ line, line ∈ s.labels.toKvPairs ↔ line ∈ t.labels.toKvPairs
  extraHosts : ∀ line, line ∈ s.extraHosts.toHostPairs ↔ line ∈ t.extraHosts.toHostPairs
  dependsOn : ∀ entry, entry ∈ s.dependsOn.waits ↔ entry ∈ t.dependsOn.waits
  networks : ∀ entry, entry ∈ s.networks.attached ↔ entry ∈ t.networks.attached
  envFile : s.envFile.intoVec = t.envFile.intoVec
  tmpfs : s.tmpfs.intoVec = t.tmpfs.intoVec
  others : s.others = t.others

structure SameFile (f g : ComposeFile yaml) : Prop where
  name : f.name = g.name
  services : ∀ key : Text, Option.Rel SameService f.services[key]? g.services[key]?
  networks : f.networks = g.networks
  volumes : f.volumes = g.volumes
  secrets : f.secrets = g.secrets
  configs : f.configs = g.configs

theorem SameService.refl (s : ComposeService yaml) : SameService s s where
  environment _ := Iff.rfl
  labels _ := Iff.rfl
  extraHosts _ := Iff.rfl
  dependsOn _ := Iff.rfl
  networks _ := Iff.rfl
  envFile := rfl
  tmpfs := rfl
  others := rfl

theorem SameFile.refl (f : ComposeFile yaml) : SameFile f f where
  name := rfl
  services key := by
    cases f.services[key]? with
    | none => exact .none
    | some svc => exact .some (.refl svc)
  networks := rfl
  volumes := rfl
  secrets := rfl
  configs := rfl

/-- The fields that are merged by key. -/
inductive EnvField where
  | environment
  | labels
  | extraHosts

namespace EnvField

def of (field : EnvField) (svc : ComposeService yaml) : ComposeEnv yaml :=
  match field with
  | .environment => svc.environment
  | .labels => svc.labels
  | .extraHosts => svc.extraHosts

/-- What stands between a key and its value. -/
def sep : EnvField → Char
  | .environment | .labels => '='
  | .extraHosts => ':'

def text (field : EnvField) (value : Option yaml.Value) : Text :=
  match field with
  | .environment | .labels => ComposeEnv.kvText value
  | .extraHosts => ComposeEnv.hostText value

def toPairs (field : EnvField) (env : ComposeEnv yaml) : List Text :=
  match field with
  | .environment | .labels => env.toKvPairs
  | .extraHosts => env.toHostPairs

/-- The key of a line of the list form. -/
def keyOf (field : EnvField) (line : Text) : Text :=
  ((splitOnce field.sep line).map Prod.fst).getD line

/-- What a field says of a key. -/
def entriesFor (field : EnvField) (env : ComposeEnv yaml) (key : Text) : Set Text :=
  match env with
  | .list v => {line | line ∈ v ∧ field.keyOf line = key}
  | .map m => {line | ∃ value, m[key]? = some value ∧ line = key ++ field.sep :: field.text value}

end EnvField

/-- A file that names a service and nothing of it. -/
def onlyService (yaml : Yaml) (key : Text) : ComposeFile yaml :=
  { services := (∅ : Table (ComposeService yaml)).insert key {} }

/-- A merge that loses and invents nothing. -/
structure MergesFaithfully (files : List (ComposeFile yaml)) : Prop where
  services : ∀ key, key ∈ (mergeComposeFiles files).services ↔ ∃ f ∈ files, key ∈ f.services
  networks : ∀ key, key ∈ (mergeComposeFiles files).networks ↔ ∃ f ∈ files, key ∈ f.networks
  volumes : ∀ key, key ∈ (mergeComposeFiles files).volumes ↔ ∃ f ∈ files, key ∈ f.volumes
  secrets : ∀ key, key ∈ (mergeComposeFiles files).secrets ↔ ∃ f ∈ files, key ∈ f.secrets
  configs : ∀ key, key ∈ (mergeComposeFiles files).configs ↔ ∃ f ∈ files, key ∈ f.configs
  emptyFile : ∀ before after, files = before ++ after →
    SameFile (mergeComposeFiles (before ++ {} :: after)) (mergeComposeFiles files)
  emptyService : ∀ f ∈ files, ∀ key ∈ f.services,
    SameFile (mergeComposeFiles [f, onlyService yaml key]) f
  /-- The last file that names a key of a service decides what is said of it. -/
  lastDecides : ∀ before f after svc, files = before ++ f :: after →
    ∀ (service : Text) (field : EnvField) (key : Text), f.services[service]? = some svc →
    (field.entriesFor (field.of svc) key).Nonempty →
    (∀ g ∈ after, ∀ other, g.services[service]? = some other →
      field.entriesFor (field.of other) key = ∅) →
    ∃ merged, (mergeComposeFiles files).services[service]? = some merged
      ∧ field.entriesFor (field.of merged) key = field.entriesFor (field.of svc) key
  /-- Nothing is said of a key that no file names. -/
  invents : ∀ (service : Text) (field : EnvField) (key : Text) merged,
    (mergeComposeFiles files).services[service]? = some merged →
    (∀ f ∈ files, ∀ svc, f.services[service]? = some svc →
      field.entriesFor (field.of svc) key = ∅) →
    field.entriesFor (field.of merged) key = ∅
  associative : ∀ before after, files = before ++ after →
    SameFile (mergeComposeFiles [mergeComposeFiles before, mergeComposeFiles after])
      (mergeComposeFiles files)

/-- The lines all have a value, and no two of them give one variable two values. -/
def PlainLines : ComposeEnv yaml → Prop
  | .list v => (∀ line ∈ v, '=' ∈ line)
      ∧ ∀ line ∈ v, ∀ other ∈ v,
        (splitOnce '=' line).map Prod.fst = (splitOnce '=' other).map Prod.fst → line = other
  | .map _ => True

def NoHostLines : ComposeEnv yaml → Prop
  | .list v => v = []
  | .map _ => True

/-- A service whose lists read the same from the common table. -/
structure Regular (svc : ComposeService yaml) : Prop where
  environment : PlainLines svc.environment
  labels : PlainLines svc.labels
  extraHosts : NoHostLines svc.extraHosts

structure Mergeable (f : ComposeFile yaml) : Prop where
  secrets : f.secrets = ∅
  configs : f.configs = ∅
  regular : ∀ (key : Text) svc, f.services[key]? = some svc → Regular svc

-----------------------------------------------------------------------------------------
-- Lines and the common table
-----------------------------------------------------------------------------------------

theorem getElem?_of_envEntry {v : List Text} {k : Text} {value : Option yaml.Value}
    (found : (envAsMap (.list v))[k]? = some value)
    : ∃ line ∈ v, @envEntry yaml line = (k, value) := by
  obtain ⟨line, member, is⟩ := List.mem_map.mp (mem_of_getElem?_collect found)
  exact ⟨line, member, is⟩

theorem exists_of_mem_list {v : List Text} {line : Text} (member : line ∈ v)
    : ∃ value, (envAsMap (.list v : ComposeEnv yaml))[(@envEntry yaml line).1]?
      = some value :=
  exists_getElem?_collect (List.mem_map_of_mem member)

/-- What a line is taken for: a key without separator, and the line again unless it has none. -/
theorem envEntry_cases (line : Text)
    : (∃ k value, line = k ++ '=' :: value ∧ '=' ∉ k
        ∧ @envEntry yaml line = (k, some (.string value)))
      ∨ '=' ∉ line ∧ @envEntry yaml line = (line, none) := by
  cases cut : splitOnce '=' line with
  | none => exact .inr ⟨not_mem_of_splitOnce_eq_none cut, by rw [envEntry, cut]⟩
  | some parts =>
      obtain ⟨k, value⟩ := parts
      obtain ⟨is, absent⟩ := splitOnce_eq_some cut
      exact .inl ⟨k, value, is, absent, by rw [envEntry, cut]⟩

theorem mem_pairs_map {field : EnvField} {m : Table (Option yaml.Value)} {line : Text}
    : line ∈ field.toPairs (.map m)
      ↔ ∃ (k : Text) (value : Option yaml.Value), m[k]? = some value
        ∧ line = k ++ field.sep :: field.text value := by
  cases field with
  | environment | labels | extraHosts =>
      simp only [EnvField.toPairs, ComposeEnv.toKvPairs, ComposeEnv.toHostPairs, List.mem_map,
        Prod.exists, Std.ExtTreeMap.mem_toList_iff_getElem?_eq_some, eq_comm, EnvField.sep,
        EnvField.text]

theorem not_mem_key {v : List Text} {k : Text} {value : Option yaml.Value}
    (found : (envAsMap (.list v))[k]? = some value)
    : '=' ∉ k := by
  obtain ⟨line, -, is⟩ := getElem?_of_envEntry found
  obtain ⟨k', value', -, absent, entry⟩ | ⟨absent, entry⟩ := @envEntry_cases yaml line
  · rw [← (Prod.mk.inj (entry.symm.trans is)).1]
    exact absent
  · rw [← (Prod.mk.inj (entry.symm.trans is)).1]
    exact absent

/-- The lines that the common table has for a list of lines are its own exactly when each has a
value and none contradicts another.
-/
theorem sameLines_iff {field : EnvField} (equals : field.sep = '=')
    (string : ∀ s, field.text (some (.string s) : Option yaml.Value) = s) {v : List Text}
    : (∀ line, line ∈ field.toPairs (.map (envAsMap (.list v : ComposeEnv yaml))) ↔ line ∈ v)
      ↔ PlainLines (.list v : ComposeEnv yaml) := by
  simp only [mem_pairs_map, equals]
  constructor
  · intro same
    refine ⟨?_, ?_⟩
    · intro line member
      obtain ⟨k, value, -, rfl⟩ := (same line).mpr member
      simp
    · intro line member other also cuts
      obtain ⟨k, value, found, rfl⟩ := (same line).mpr member
      obtain ⟨k', value', found', rfl⟩ := (same other).mpr also
      rw [splitOnce_append _ (not_mem_key found), splitOnce_append _ (not_mem_key found')] at cuts
      obtain rfl : k = k' := Option.some.inj cuts
      rw [Option.some.inj (found.symm.trans found')]
  · intro plain line
    obtain ⟨valued, agree⟩ := plain
    have shape {line : Text} (member : line ∈ v)
        : ∃ k value, line = k ++ '=' :: value ∧ '=' ∉ k
          ∧ @envEntry yaml line = (k, some (.string value)) :=
      (envEntry_cases line).resolve_right fun bare => bare.1 (valued line member)
    constructor
    · rintro ⟨k, value, found, rfl⟩
      obtain ⟨line, member, is⟩ := getElem?_of_envEntry found
      obtain ⟨k', value', rfl, -, entry⟩ := shape member
      obtain ⟨rfl, rfl⟩ := Prod.mk.inj (entry.symm.trans is)
      rwa [string]
    · intro member
      obtain ⟨k, value, rfl, absent, entry⟩ := shape member
      obtain ⟨read, found⟩ := @exists_of_mem_list yaml _ _ member
      rw [entry] at found
      obtain ⟨line, also, is⟩ := getElem?_of_envEntry found
      obtain ⟨k', value', rfl, absent', entry'⟩ := shape also
      obtain ⟨rfl, rfl⟩ := Prod.mk.inj (entry'.symm.trans is)
      have one := agree _ member _ also (by
        rw [splitOnce_append _ absent, splitOnce_append _ absent']
        rfl)
      exact ⟨k', _, found, by rw [string, one]⟩

/-- A line is longer than another, or as long with fewer `=` in it. -/
def weight (line : Text) : Nat := (line.map fun c => if c = '=' then 1 else 2).sum

/-- A list of hosts is never the same in the common table: each line there is heavier than the one
it was made of, and the lightest line of the list is made of none.
-/
theorem eq_nil_of_sameHosts {v : List Text}
    (same : ∀ line, line ∈ ComposeEnv.toHostPairs (.map (envAsMap (.list v : ComposeEnv yaml)))
      ↔ line ∈ v)
    : v = [] := by
  have lighter {line : Text} (member : line ∈ v) : ∃ other ∈ v, weight other < weight line := by
    obtain ⟨k, value, found, rfl⟩ :=
      (@mem_pairs_map yaml .extraHosts _ _).mp ((same line).mpr member)
    obtain ⟨other, also, is⟩ := getElem?_of_envEntry found
    refine ⟨other, also, ?_⟩
    obtain ⟨k', value', rfl, -, entry⟩ | ⟨-, entry⟩ := @envEntry_cases yaml other
    · obtain ⟨rfl, rfl⟩ := Prod.mk.inj (entry.symm.trans is)
      simp [weight, EnvField.sep, EnvField.text, ComposeEnv.hostText]
    · obtain ⟨rfl, rfl⟩ := Prod.mk.inj (entry.symm.trans is)
      simp [weight, EnvField.sep, EnvField.text, ComposeEnv.hostText]
  have none (n : Nat) : ∀ line ∈ v, weight line ≠ n := by
    induction n using Nat.strongRecOn with
    | ind n ih =>
        intro line member is
        obtain ⟨other, also, less⟩ := lighter member
        exact ih _ (is ▸ less) other also rfl
  exact List.eq_nil_iff_forall_not_mem.mpr fun line member => none _ line member rfl

theorem mem_waits {d : ComposeDependsOn} {entry : Text × Text}
    : entry ∈ d.waits ↔ (dependsOnAsMap d)[entry.1]? = some entry.2 := by
  cases d with
  | long m => exact Std.ExtTreeMap.mem_toList_iff_getElem?_eq_some
  | short names =>
      constructor
      · intro member
        obtain ⟨value, found⟩ : ∃ value, (dependsOnAsMap (.short names))[entry.1]? = some value :=
          exists_getElem?_collect member
        obtain ⟨name, -, rfl⟩ := List.mem_map.mp member
        obtain ⟨other, -, is⟩ := List.mem_map.mp (mem_of_getElem?_collect found)
        rw [← (Prod.mk.inj is).2] at found
        exact found
      · exact mem_of_getElem?_collect

theorem mem_attached {n : ComposeServiceNetworks} {entry : Text × Option Text}
    : entry ∈ n.attached ↔ (serviceNetworksAsMap n)[entry.1]? = some entry.2 := by
  cases n with
  | empty => simp [ComposeServiceNetworks.attached, serviceNetworksAsMap]
  | map m => exact Std.ExtTreeMap.mem_toList_iff_getElem?_eq_some
  | list keys =>
      constructor
      · intro member
        obtain ⟨value, found⟩
            : ∃ value, (serviceNetworksAsMap (.list keys))[entry.1]? = some value :=
          exists_getElem?_collect member
        obtain ⟨key, -, rfl⟩ := List.mem_map.mp member
        obtain ⟨other, -, is⟩ := List.mem_map.mp (mem_of_getElem?_collect found)
        rw [← (Prod.mk.inj is).2] at found
        exact found
      · exact mem_of_getElem?_collect

theorem serviceNetworksAsMap_merge (base overlay : ComposeServiceNetworks)
    : serviceNetworksAsMap (mergeServiceNetworks base overlay)
      = serviceNetworksAsMap base ∪ serviceNetworksAsMap overlay := by
  rw [mergeServiceNetworks]
  split
  case isTrue empty => exact (Std.ExtTreeMap.isEmpty_iff.mp empty).symm
  case isFalse => rfl

-----------------------------------------------------------------------------------------
-- A service over another
-----------------------------------------------------------------------------------------

theorem envAsMap_default : envAsMap (default : ComposeEnv yaml) = ∅ := rfl

theorem mergeEnvOverlay_default (env : ComposeEnv yaml)
    : mergeEnvOverlay env default = .map (envAsMap env) := by
  rw [mergeEnvOverlay, envAsMap_default, union_empty]

theorem sameLines_default_iff {field : EnvField} (equals : field.sep = '=')
    (string : ∀ s, field.text (some (.string s) : Option yaml.Value) = s)
    (lines : ∀ v, field.toPairs (.list v : ComposeEnv yaml) = v) (env : ComposeEnv yaml)
    : (∀ line, line ∈ field.toPairs (mergeEnvOverlay env default) ↔ line ∈ field.toPairs env)
      ↔ PlainLines env := by
  rw [mergeEnvOverlay_default]
  cases env with
  | map m => exact ⟨fun _ => trivial, fun _ _ => Iff.rfl⟩
  | list v =>
      rw [lines]
      exact sameLines_iff equals string

theorem sameHosts_default_iff (env : ComposeEnv yaml)
    : (∀ line, line ∈ (mergeEnvOverlay env default).toHostPairs ↔ line ∈ env.toHostPairs)
      ↔ NoHostLines env := by
  rw [mergeEnvOverlay_default]
  cases env with
  | map m => exact ⟨fun _ => trivial, fun _ _ => Iff.rfl⟩
  | list v =>
      refine ⟨eq_nil_of_sameHosts, ?_⟩
      intro empty line
      obtain rfl : v = [] := empty
      exact Iff.rfl

/-- An empty service over another changes nothing exactly when the other is regular. -/
theorem sameService_empty_iff (svc : ComposeService yaml)
    : SameService (mergeServiceOverlay svc {}) svc ↔ Regular svc := by
  have environment := @sameLines_default_iff yaml .environment rfl (fun _ => rfl)
    (fun _ => rfl) svc.environment
  have labels := @sameLines_default_iff yaml .labels rfl (fun _ => rfl) (fun _ => rfl)
    svc.labels
  have extraHosts := sameHosts_default_iff svc.extraHosts
  constructor
  · intro same
    exact ⟨environment.mp same.environment, labels.mp same.labels, extraHosts.mp same.extraHosts⟩
  · intro regular
    refine ⟨environment.mpr regular.environment, labels.mpr regular.labels,
      extraHosts.mpr regular.extraHosts, ?_, ?_, ?_, ?_, ?_⟩
    · intro entry
      rw [mem_waits, mem_waits]
      exact iff_of_eq (congrArg (·[entry.1]? = some entry.2) (union_empty _))
    · intro entry
      rw [mem_attached, mem_attached, mergeServiceOverlay, serviceNetworksAsMap_merge]
      exact iff_of_eq (congrArg (·[entry.1]? = some entry.2) (union_empty _))
    · simp [mergeServiceOverlay, OneOrMany.intoVec, default]
    · simp [mergeServiceOverlay, OneOrMany.intoVec, default]
    · simp [mergeServiceOverlay, ComposeService.others, concatDedup, concatSecretRefs,
        concatNew, List.foldl_nil, union_empty]

theorem mem_keys_concatNew {α : Type} {key : α → Text} {base overlay : List α} {k : Text}
    : (∃ item ∈ concatNew key base overlay, key item = k)
      ↔ (∃ item ∈ base, key item = k) ∨ ∃ item ∈ overlay, key item = k := by
  rw [concatNew]
  induction overlay generalizing base with
  | nil => simp
  | cons item overlay ih =>
      rw [List.foldl_cons, ih]
      split
      case isTrue known =>
        obtain ⟨other, member, same⟩ := List.any_eq_true.mp known
        have same : key other = key item := eq_of_beq same
        constructor
        · rintro (old | ⟨new, member, is⟩)
          · exact .inl old
          · exact .inr ⟨new, List.mem_cons_of_mem _ member, is⟩
        · rintro (old | ⟨new, is_new, is⟩)
          · exact .inl old
          · obtain rfl | later := List.mem_cons.mp is_new
            · exact .inl ⟨other, member, same.trans is⟩
            · exact .inr ⟨new, later, is⟩
      case isFalse =>
        simp only [List.mem_append, List.mem_cons, List.not_mem_nil, or_false, or_and_right,
          exists_or, exists_eq_left, or_assoc]

/-- By induction from the end of the last list: an item that the middle one drops is dropped by all
three, for its key is among theirs.
-/
theorem concatNew_assoc {α : Type} (key : α → Text) (a b c : List α)
    : concatNew key (concatNew key a b) c = concatNew key a (concatNew key b c) := by
  induction c using List.reverseRecOn with
  | nil => rfl
  | append_singleton c item ih =>
      have step (base : List α) : concatNew key base (c ++ [item])
          = if (concatNew key base c).any (fun e => key e == key item) then concatNew key base c
            else concatNew key base c ++ [item] := by
        simp [concatNew]
      rw [step, step, ih]
      by_cases known : (concatNew key b c).any (fun e => key e == key item) = true
      · rw [if_pos known, if_pos]
        obtain ⟨other, member, same⟩ := List.any_eq_true.mp known
        obtain ⟨e, member, is⟩ : ∃ e ∈ concatNew key a (concatNew key b c), key e = key item :=
          mem_keys_concatNew.mpr (.inr ⟨other, member, eq_of_beq same⟩)
        exact List.any_eq_true.mpr ⟨e, member, beq_iff_eq.mpr is⟩
      · rw [if_neg known]
        simp [concatNew]

theorem mergeServiceNetworks_congr {a b a' b' : ComposeServiceNetworks}
    (same : serviceNetworksAsMap a ∪ serviceNetworksAsMap b
      = serviceNetworksAsMap a' ∪ serviceNetworksAsMap b')
    : mergeServiceNetworks a b = mergeServiceNetworks a' b' := by
  rw [mergeServiceNetworks, mergeServiceNetworks, same]

theorem mergeServiceNetworks_assoc (a b c : ComposeServiceNetworks)
    : mergeServiceNetworks (mergeServiceNetworks a b) c
      = mergeServiceNetworks a (mergeServiceNetworks b c) := by
  apply mergeServiceNetworks_congr
  rw [serviceNetworksAsMap_merge, serviceNetworksAsMap_merge, union_assoc]

theorem mergeServiceOverlay_assoc (a b c : ComposeService yaml)
    : mergeServiceOverlay (mergeServiceOverlay a b) c
      = mergeServiceOverlay a (mergeServiceOverlay b c) := by
  simp only [mergeServiceOverlay, mergeEnvOverlay, mergeDependsOn, envAsMap, dependsOnAsMap,
    OneOrMany.intoVec, concatDedup, concatSecretRefs, concatNew_assoc, Option.or_assoc,
    List.append_assoc, Bool.or_assoc, union_assoc, mergeServiceNetworks_assoc]

-----------------------------------------------------------------------------------------
-- Files over each other
-----------------------------------------------------------------------------------------

theorem mergeNext_assoc (a b c : ComposeFile yaml)
    : mergeNext (mergeNext a b) c = mergeNext a (mergeNext b c) := by
  simp only [mergeNext, mergeServices, overlay_assoc mergeServiceOverlay_assoc, union_assoc,
    Option.or_assoc]

theorem mergeNext_empty (f : ComposeFile yaml) : mergeNext f {} = f := by
  simp only [mergeNext, mergeServices, overlay_empty, union_empty, Option.none_or]

/-- An empty file under another: the secrets and configs are gone. -/
theorem empty_mergeNext (f : ComposeFile yaml)
    : mergeNext {} f = { f with secrets := ∅, configs := ∅ } := by
  simp only [mergeNext, mergeServices, empty_overlay, empty_union, Option.or_none]

theorem foldl_mergeNext (a b : ComposeFile yaml) (files : List (ComposeFile yaml))
    : files.foldl mergeNext (mergeNext a b) = mergeNext a (files.foldl mergeNext b) := by
  induction files generalizing b with
  | nil => rfl
  | cons f files ih => rw [List.foldl_cons, List.foldl_cons, mergeNext_assoc, ih]

/-- Merging is associative, to the letter. -/
theorem mergeComposeFiles_append {before after : List (ComposeFile yaml)} (first : before ≠ [])
    (last : after ≠ [])
    : mergeComposeFiles (before ++ after)
      = mergeComposeFiles [mergeComposeFiles before, mergeComposeFiles after] := by
  obtain ⟨f, fs, rfl⟩ := List.exists_cons_of_ne_nil first
  obtain ⟨g, gs, rfl⟩ := List.exists_cons_of_ne_nil last
  simp only [mergeComposeFiles, List.cons_append, List.foldl_append, List.foldl_cons,
    List.foldl_nil, foldl_mergeNext]

theorem mergeComposeFiles_snoc {files : List (ComposeFile yaml)} (some : files ≠ [])
    (last : ComposeFile yaml)
    : mergeComposeFiles (files ++ [last]) = mergeNext (mergeComposeFiles files) last := by
  obtain ⟨f, fs, rfl⟩ := List.exists_cons_of_ne_nil some
  simp [mergeComposeFiles]

theorem secrets_mergeComposeFiles (f : ComposeFile yaml) (files : List (ComposeFile yaml))
    : (mergeComposeFiles (f :: files)).secrets = f.secrets
      ∧ (mergeComposeFiles (f :: files)).configs = f.configs := by
  induction files using List.reverseRecOn with
  | nil => exact ⟨rfl, rfl⟩
  | append_singleton files last ih =>
      rw [← List.cons_append, mergeComposeFiles_snoc (List.cons_ne_nil f files)]
      exact ih

/-- What is declared for a name: what the files declare, laid over each other. -/
theorem getElem?_services_snoc (files : List (ComposeFile yaml)) (last : ComposeFile yaml)
    (key : Text)
    : (mergeComposeFiles (files ++ [last])).services[key]?
      = Option.merge mergeServiceOverlay (mergeComposeFiles files).services[key]?
        last.services[key]? := by
  cases files with
  | nil => exact (Option.merge_none_left ..).symm
  | cons f files =>
      rw [mergeComposeFiles_snoc (List.cons_ne_nil f files)]
      exact getElem?_overlay ..

theorem mem_services_merge {files : List (ComposeFile yaml)} {key : Text}
    : key ∈ (mergeComposeFiles files).services ↔ ∃ f ∈ files, key ∈ f.services := by
  induction files using List.reverseRecOn with
  | nil => simp [mergeComposeFiles, default]
  | append_singleton files last ih =>
      rw [Std.ExtTreeMap.mem_iff_isSome_getElem?, getElem?_services_snoc]
      simp only [List.mem_append, List.mem_singleton, or_and_right, exists_or, exists_eq_left, ← ih]
      simp only [Std.ExtTreeMap.mem_iff_isSome_getElem?]
      cases (mergeComposeFiles files).services[key]? <;> cases last.services[key]? <;> simp

theorem mem_resources_merge {files : List (ComposeFile yaml)} {key : Text}
    : (key ∈ (mergeComposeFiles files).networks ↔ ∃ f ∈ files, key ∈ f.networks)
      ∧ (key ∈ (mergeComposeFiles files).volumes ↔ ∃ f ∈ files, key ∈ f.volumes) := by
  induction files using List.reverseRecOn with
  | nil => simp [mergeComposeFiles, default]
  | append_singleton files last ih =>
      cases files with
      | nil => simp [mergeComposeFiles]
      | cons f files =>
          rw [mergeComposeFiles_snoc (List.cons_ne_nil f files)]
          simp only [mergeNext, Std.ExtTreeMap.mem_union_iff, ih.1, ih.2]
          simp only [List.mem_append, List.mem_singleton, or_and_right, exists_or, exists_eq_left,
            and_self]

-----------------------------------------------------------------------------------------
-- The word of the last file
-----------------------------------------------------------------------------------------

/-- A field whose lines read the same from the common table. -/
def EnvField.Plain (field : EnvField) (env : ComposeEnv yaml) : Prop :=
  match field with
  | .environment | .labels => PlainLines env
  | .extraHosts => NoHostLines env

theorem Regular.plain {svc : ComposeService yaml} (regular : Regular svc) (field : EnvField)
    : field.Plain (field.of svc) := by
  cases field with
  | environment => exact regular.environment
  | labels => exact regular.labels
  | extraHosts => exact regular.extraHosts

theorem regular_merge (base overlay : ComposeService yaml)
    : Regular (mergeServiceOverlay base overlay) :=
  ⟨trivial, trivial, trivial⟩

/-- What a list says of a key is what its table says of it. -/
theorem entriesFor_list {field : EnvField} (equals : field.sep = '=')
    (string : ∀ s, field.text (some (.string s) : Option yaml.Value) = s) {v : List Text}
    (plain : PlainLines (.list v : ComposeEnv yaml)) (key : Text)
    : field.entriesFor (.list v : ComposeEnv yaml) key
      = field.entriesFor (.map (envAsMap (.list v : ComposeEnv yaml))) key := by
  have same := (sameLines_iff equals string).mpr plain
  have keyed {k : Text} {value : Option yaml.Value} (found : (envAsMap (.list v))[k]? = some value)
      : field.keyOf (k ++ field.sep :: field.text value) = k := by
    rw [EnvField.keyOf, equals, splitOnce_append _ (not_mem_key found)]
    rfl
  ext line
  constructor
  · rintro ⟨member, is⟩
    obtain ⟨k, value, found, rfl⟩ := mem_pairs_map.mp ((same line).mpr member)
    rw [keyed found] at is
    subst is
    exact ⟨value, found, rfl⟩
  · rintro ⟨value, found, rfl⟩
    exact ⟨(same _).mp (mem_pairs_map.mpr ⟨key, value, found, rfl⟩), keyed found⟩

theorem entriesFor_eq_map {field : EnvField} {env : ComposeEnv yaml} (plain : field.Plain env)
    (key : Text)
    : field.entriesFor env key = field.entriesFor (.map (envAsMap env)) key := by
  cases env with
  | map m => rfl
  | list v =>
      cases field with
      | environment => exact entriesFor_list rfl (fun _ => rfl) plain key
      | labels => exact entriesFor_list rfl (fun _ => rfl) plain key
      | extraHosts =>
          obtain rfl : v = [] := plain
          simp [EnvField.entriesFor, envAsMap, collect]

theorem of_merge (field : EnvField) (base overlay : ComposeService yaml)
    : field.of (mergeServiceOverlay base overlay)
      = .map (envAsMap (field.of base) ∪ envAsMap (field.of overlay)) := by
  cases field <;> rfl

/-- What the overlay says of a key stands. -/
theorem entriesFor_merge_of_nonempty {field : EnvField} {key : Text}
    (base : ComposeService yaml) {overlay : ComposeService yaml} (regular : Regular overlay)
    (named : (field.entriesFor (field.of overlay) key).Nonempty)
    : field.entriesFor (field.of (mergeServiceOverlay base overlay)) key
      = field.entriesFor (field.of overlay) key := by
  rw [entriesFor_eq_map (regular.plain field)] at named ⊢
  obtain ⟨-, value, found, -⟩ := named
  simp only [of_merge, EnvField.entriesFor, Std.ExtTreeMap.getElem?_union, found, Option.some_or]

/-- Where it says nothing, the base does. -/
theorem entriesFor_merge_of_empty {field : EnvField} {key : Text} {base : ComposeService yaml}
    {overlay : ComposeService yaml} (below : Regular base) (regular : Regular overlay)
    (silent : field.entriesFor (field.of overlay) key = ∅)
    : field.entriesFor (field.of (mergeServiceOverlay base overlay)) key
      = field.entriesFor (field.of base) key := by
  rw [entriesFor_eq_map (regular.plain field)] at silent
  rw [entriesFor_eq_map (below.plain field)]
  have absent : (envAsMap (field.of overlay))[key]? = none := by
    cases found : (envAsMap (field.of overlay))[key]? with
    | none => rfl
    | some value => exact (Set.eq_empty_iff_forall_notMem.mp silent _ ⟨value, found, rfl⟩).elim
  simp only [of_merge, EnvField.entriesFor, Std.ExtTreeMap.getElem?_union, absent, Option.none_or]

section Runs

variable {service : Text} {field : EnvField} {key : Text}

theorem regular_of_merge {files : List (ComposeFile yaml)} (mergeable : ∀ f ∈ files, Mergeable f)
    {svc : ComposeService yaml}
    (merged : (mergeComposeFiles files).services[service]? = some svc)
    : Regular svc := by
  induction files using List.reverseRecOn generalizing svc with
  | nil => simp [mergeComposeFiles, default] at merged
  | append_singleton files last ih =>
      have earlier : ∀ f ∈ files, Mergeable f :=
        fun f member => mergeable f (List.mem_append_left _ member)
      have mine := (mergeable last (List.mem_append_right _ List.mem_cons_self)).regular service
      rw [getElem?_services_snoc] at merged
      cases base : (mergeComposeFiles files).services[service]? with
      | none =>
          rw [base, Option.merge_none_left] at merged
          exact mine svc merged
      | some old =>
          cases new : last.services[service]? with
          | none =>
              rw [base, new, Option.merge_none_right] at merged
              exact ih earlier (base.trans merged)
          | some overlay =>
              rw [base, new] at merged
              obtain rfl := Option.some.inj merged
              exact regular_merge ..

/-- By induction from the end of the files behind the one that decides. -/
theorem last_decides {before after : List (ComposeFile yaml)} {f : ComposeFile yaml}
    {svc : ComposeService yaml} (mergeable : ∀ g ∈ before ++ f :: after, Mergeable g)
    (declared : f.services[service]? = some svc)
    (named : (field.entriesFor (field.of svc) key).Nonempty)
    (silent : ∀ g ∈ after, ∀ other, g.services[service]? = some other →
      field.entriesFor (field.of other) key = ∅)
    : ∃ merged, (mergeComposeFiles (before ++ f :: after)).services[service]? = some merged
      ∧ field.entriesFor (field.of merged) key = field.entriesFor (field.of svc) key := by
  induction after using List.reverseRecOn with
  | nil =>
      have regular := (mergeable f (by simp)).regular service svc declared
      rw [getElem?_services_snoc, declared]
      cases (mergeComposeFiles before).services[service]? with
      | none => exact ⟨svc, rfl, rfl⟩
      | some base => exact ⟨_, rfl, entriesFor_merge_of_nonempty base regular named⟩
  | append_singleton after last ih =>
      rw [← List.cons_append, ← List.append_assoc] at mergeable ⊢
      have earlier : ∀ g ∈ before ++ f :: after, Mergeable g :=
        fun g member => mergeable g (List.mem_append_left _ member)
      obtain ⟨merged, found, told⟩ := ih earlier fun g member other =>
        silent g (List.mem_append_left _ member) other
      rw [getElem?_services_snoc, found]
      cases new : last.services[service]? with
      | none => exact ⟨merged, rfl, told⟩
      | some overlay =>
          have regular := (mergeable last (by simp)).regular service overlay new
          have nothing := silent last (by simp) overlay new
          refine ⟨_, rfl, ?_⟩
          rw [entriesFor_merge_of_empty (regular_of_merge earlier found) regular nothing, told]

theorem nothing_invented {files : List (ComposeFile yaml)} (mergeable : ∀ f ∈ files, Mergeable f)
    {merged : ComposeService yaml}
    (found : (mergeComposeFiles files).services[service]? = some merged)
    (silent : ∀ f ∈ files, ∀ svc, f.services[service]? = some svc →
      field.entriesFor (field.of svc) key = ∅)
    : field.entriesFor (field.of merged) key = ∅ := by
  induction files using List.reverseRecOn generalizing merged with
  | nil => simp [mergeComposeFiles, default] at found
  | append_singleton files last ih =>
      have earlier : ∀ f ∈ files, Mergeable f :=
        fun f member => mergeable f (List.mem_append_left _ member)
      have before := fun f member => silent f (List.mem_append_left _ member)
      have mine := silent last (List.mem_append_right _ List.mem_cons_self)
      have regular := (mergeable last (List.mem_append_right _ List.mem_cons_self)).regular service
      rw [getElem?_services_snoc] at found
      cases base : (mergeComposeFiles files).services[service]? with
      | none =>
          rw [base, Option.merge_none_left] at found
          exact mine merged found
      | some old =>
          cases new : last.services[service]? with
          | none =>
              rw [base, new, Option.merge_none_right] at found
              exact ih earlier (base.trans found) before
          | some overlay =>
              rw [base, new] at found
              obtain rfl := Option.some.inj found
              rw [entriesFor_merge_of_empty (regular_of_merge earlier base)
                (regular overlay new) (mine overlay new)]
              exact ih earlier base before

end Runs

-----------------------------------------------------------------------------------------
-- When nothing is lost
-----------------------------------------------------------------------------------------

theorem merge_empty_inside {before after : List (ComposeFile yaml)}
    (mergeable : ∀ f ∈ before ++ after, Mergeable f)
    : mergeComposeFiles (before ++ {} :: after) = mergeComposeFiles (before ++ after) := by
  cases before with
  | nil =>
      cases after with
      | nil => rfl
      | cons f after =>
          have own := mergeable f (by simp)
          simp only [List.nil_append, mergeComposeFiles, List.foldl_cons, empty_mergeNext]
          rw [← own.secrets, ← own.configs]
  | cons f before =>
      simp only [List.cons_append, mergeComposeFiles, List.foldl_append, List.foldl_cons,
        mergeNext_empty]

theorem merge_in_two {before after : List (ComposeFile yaml)}
    (mergeable : ∀ f ∈ before ++ after, Mergeable f)
    : mergeComposeFiles [mergeComposeFiles before, mergeComposeFiles after]
      = mergeComposeFiles (before ++ after) := by
  cases before with
  | nil =>
      cases after with
      | nil => exact mergeNext_empty _
      | cons f after =>
          obtain ⟨secrets, configs⟩ := secrets_mergeComposeFiles f after
          have own := mergeable f (by simp)
          refine (empty_mergeNext _).trans ?_
          rw [← own.secrets, ← own.configs, ← secrets, ← configs]
          rfl
  | cons f before =>
      cases after with
      | nil =>
          rw [List.append_nil]
          exact mergeNext_empty _
      | cons g after =>
          exact (mergeComposeFiles_append (List.cons_ne_nil f _) (List.cons_ne_nil g _)).symm

theorem getElem?_services_onlyService (f : ComposeFile yaml) (key k : Text)
    : (mergeComposeFiles [f, onlyService yaml key]).services[k]?
      = Option.merge mergeServiceOverlay f.services[k]? (if key = k then some {} else none) := by
  refine (getElem?_services_snoc [f] _ k).trans ?_
  simp only [onlyService, Std.ExtTreeMap.getElem?_insert, Std.LawfulEqCmp.compare_eq_iff_eq,
    Std.ExtTreeMap.getElem?_empty]
  rfl

theorem sameFile_onlyService {f : ComposeFile yaml} (mergeable : Mergeable f) (key : Text)
    (declared : key ∈ f.services)
    : SameFile (mergeComposeFiles [f, onlyService yaml key]) f where
  name := Option.none_or
  services k := by
    rw [getElem?_services_onlyService]
    cases found : f.services[k]? with
    | none =>
        have other : key ≠ k := by
          rintro rfl
          rw [Std.ExtTreeMap.mem_iff_isSome_getElem?, found] at declared
          cases declared
        rw [if_neg other]
        exact .none
    | some svc =>
        split
        · exact .some ((sameService_empty_iff svc).mpr (mergeable.regular k svc found))
        · exact .some (.refl svc)
  networks := union_empty _
  volumes := union_empty _
  secrets := rfl
  configs := rfl

theorem not_mem_of_mergeable {files : List (ComposeFile yaml)}
    (mergeable : ∀ f ∈ files, Mergeable f) (key : Text)
    : (key ∈ (mergeComposeFiles files).secrets ↔ ∃ f ∈ files, key ∈ f.secrets)
      ∧ (key ∈ (mergeComposeFiles files).configs ↔ ∃ f ∈ files, key ∈ f.configs) := by
  cases files with
  | nil => simp [mergeComposeFiles, default]
  | cons f files =>
      obtain ⟨secrets, configs⟩ := secrets_mergeComposeFiles f files
      rw [secrets, configs]
      constructor
      · refine ⟨fun member => ⟨f, List.mem_cons_self, member⟩, ?_⟩
        rintro ⟨g, member, has⟩
        rw [(mergeable g member).secrets] at has
        simp at has
      · refine ⟨fun member => ⟨f, List.mem_cons_self, member⟩, ?_⟩
        rintro ⟨g, member, has⟩
        rw [(mergeable g member).configs] at has
        simp at has

/-- Nothing is lost or invented exactly when no file has secrets or configs of its own and each of
its services is regular.
-/
theorem mergesFaithfully_iff (files : List (ComposeFile yaml))
    : MergesFaithfully files ↔ ∀ f ∈ files, Mergeable f := by
  constructor
  · intro faithful
    have none : ∀ f ∈ files, ∀ key, key ∉ f.secrets ∧ key ∉ f.configs := by
      intro f member key
      have first := faithful.emptyFile [] files rfl
      obtain ⟨noSecrets, noConfigs⟩ := secrets_mergeComposeFiles {} files
      constructor
      · intro has
        have kept := (faithful.secrets key).mpr ⟨f, member, has⟩
        rw [← first.secrets, List.nil_append, noSecrets] at kept
        simp at kept
      · intro has
        have kept := (faithful.configs key).mpr ⟨f, member, has⟩
        rw [← first.configs, List.nil_append, noConfigs] at kept
        simp at kept
    intro f member
    refine ⟨?_, ?_, ?_⟩
    · exact Std.ExtTreeMap.eq_empty_iff_forall_not_mem.mpr fun key => (none f member key).1
    · exact Std.ExtTreeMap.eq_empty_iff_forall_not_mem.mpr fun key => (none f member key).2
    · intro key svc found
      have declared : key ∈ f.services := by
        rw [Std.ExtTreeMap.mem_iff_isSome_getElem?, found]
        rfl
      have same := (faithful.emptyService f member key declared).services key
      rw [getElem?_services_onlyService, if_pos rfl, found] at same
      obtain same | _ := same
      exact (sameService_empty_iff svc).mp same
  · intro mergeable
    refine ⟨fun key => mem_services_merge, fun key => mem_resources_merge.1,
      fun key => mem_resources_merge.2, fun key => (not_mem_of_mergeable mergeable key).1,
      fun key => (not_mem_of_mergeable mergeable key).2, ?_, ?_, ?_, ?_, ?_⟩
    · rintro before after rfl
      rw [merge_empty_inside mergeable]
      exact .refl _
    · exact fun f member key declared => sameFile_onlyService (mergeable f member) key declared
    · rintro before f after svc rfl service field key declared named silent
      exact last_decides mergeable declared named silent
    · intro service field key merged found silent
      exact nothing_invented mergeable found silent
    · rintro before after rfl
      rw [merge_in_two mergeable]
      exact .refl _

/-- A service in one file, and in another the secret it is given. -/
def secretApart (yaml : Yaml) : List (ComposeFile yaml) := [
  { services := (∅ : Table (ComposeService yaml)).insert "web".toList
      { image := some "nginx".toList, secrets := [.short "db".toList] } },
  { secrets := (∅ : Table ComposeSecretDef).insert "db".toList
      { file := some "./db.txt".toList, environment := none, external := false, name := none } }]

/-- The merge does not have it. -/
theorem secretApart_lost
    : (∀ yaml, (mergeComposeFiles (secretApart yaml)).secrets = ∅)
      ∧ ¬ ∀ yaml (files : List (ComposeFile yaml)), MergesFaithfully files := by
  have lost (yaml : Yaml) : (mergeComposeFiles (secretApart yaml)).secrets = ∅ := rfl
  refine ⟨lost, fun all => ?_⟩
  let yaml : Yaml := ⟨Int, Unit, fun n => (toString n).toList, fun _ => none⟩
  have kept := ((all yaml (secretApart yaml)).secrets "db".toList).mpr
    ⟨_, List.mem_cons_of_mem _ List.mem_cons_self, Std.ExtTreeMap.mem_insert_self⟩
  rw [lost] at kept
  simp at kept

end Delonix.Compose.Merging
