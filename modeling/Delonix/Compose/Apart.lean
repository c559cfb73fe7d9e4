import Delonix.Compose.Names

/-! When the names of two projects coincide. A doubled underscore next to the join reads as the end
of the project or as the start of the key, so names stay apart exactly where no underscores can
move from one side of the join to the other.
-/

namespace Delonix.Compose

variable {p q k l s t : Text} {m : Nat}

/-- Underscores that end the first project start the second key. -/
def Shifts (m : Nat) (p k q l : Text) : Prop :=
  p = q ++ List.replicate m '_' ∧ l = List.replicate m '_' ++ k

/-- The two keys differ by underscores that the projects end with. -/
def Clash (p k q l : Text) : Prop := ∃ m > 0, Shifts m p k q l ∨ Shifts m q l p k

@[simp] theorem escape_underscore : escape ('_' :: s) = '_' :: '_' :: escape s := by
  simp [escape]

theorem escape_cons_of_ne {c : Char} (other : c ≠ '_') : escape (c :: s) = c :: escape s := by
  simp [escape, other]

theorem escape_append (s t : Text) : escape (s ++ t) = escape s ++ escape t := List.flatMap_append

theorem escape_underscores (m : Nat)
    : escape (List.replicate m '_') = List.replicate m '_' ++ List.replicate m '_' := by
  induction m with
  | zero => rfl
  | succ m ih =>
    rw [List.replicate_succ, escape_underscore, ih, List.cons_append, List.append_cons,
      ← List.replicate_succ', List.replicate_succ, List.cons_append]

/-- An escaped text that starts with an underscore starts with two. -/
theorem of_escape_eq_underscore (same : escape s = '_' :: t)
    : ∃ rest, s = '_' :: rest ∧ t = '_' :: escape rest := by
  cases s with
  | nil => cases same
  | cons c rest =>
    by_cases underscore : c = '_'
    · subst underscore
      rw [escape_underscore] at same
      exact ⟨rest, rfl, (List.cons.inj same).2.symm⟩
    · rw [escape_cons_of_ne underscore] at same
      exact absurd (List.cons.inj same).1 underscore

theorem escape_inj : escape s = escape t ↔ s = t := by
  refine ⟨?_, congrArg escape⟩
  induction s generalizing t with
  | nil =>
    intro same
    cases t with
    | nil => rfl
    | cons c rest =>
      by_cases underscore : c = '_'
      · subst underscore
        rw [escape_underscore] at same
        cases same
      · rw [escape_cons_of_ne underscore] at same
        cases same
  | cons c s ih =>
    intro same
    by_cases underscore : c = '_'
    · subst underscore
      obtain ⟨rest, rfl, tail⟩ := of_escape_eq_underscore (same.symm.trans escape_underscore)
      rw [ih (List.cons.inj tail).2]
    · rw [escape_cons_of_ne underscore] at same
      cases t with
      | nil => cases same
      | cons d t =>
        by_cases underscore' : d = '_'
        · subst underscore'
          rw [escape_underscore] at same
          exact absurd (List.cons.inj same).1 underscore
        · rw [escape_cons_of_ne underscore'] at same
          obtain ⟨rfl, tail⟩ := List.cons.inj same
          rw [ih tail]

/-- Underscores pass over one more. -/
theorem underscores_cons (m : Nat) (s : Text)
    : List.replicate m '_' ++ '_' :: s = '_' :: (List.replicate m '_' ++ s) := by
  rw [List.append_cons, ← List.replicate_succ', List.replicate_succ, List.cons_append]

/-- Underscores move over the join. -/
theorem Shifts.composeScopedName (shifts : Shifts m p k q l)
    : composeScopedName p k = composeScopedName q l := by
  obtain ⟨rfl, rfl⟩ := shifts
  simp only [Compose.composeScopedName, escape_append, escape_underscores, List.append_assoc,
    underscores_cons]

theorem Shifts.cons {c : Char} (shifts : Shifts m p k q l) : Shifts m (c :: p) k (c :: q) l :=
  ⟨congrArg (c :: ·) shifts.1, shifts.2⟩

/-- The join of an empty project, read with another project. By induction on that project. -/
theorem exists_shifts_of_join (same : '_' :: escape k = escape q ++ '_' :: escape l)
    : ∃ m, Shifts m q l [] k := by
  induction q generalizing k with
  | nil => exact ⟨0, rfl, escape_inj.mp (List.cons.inj same).2⟩
  | cons c q ih =>
    have underscore : c = '_' := by
      by_contra other
      rw [escape_cons_of_ne other] at same
      exact other (List.cons.inj same).1.symm
    subst underscore
    rw [escape_underscore, List.cons_append] at same
    obtain ⟨rest, rfl, tail⟩ := of_escape_eq_underscore (List.cons.inj same).2
    obtain ⟨m, rfl, rfl⟩ := ih tail.symm
    exact ⟨m + 1, rfl, rfl⟩

/-- By induction on the first project: the second reads the same characters until one ends. -/
theorem exists_shifts (same : composeScopedName p k = composeScopedName q l)
    : ∃ m, Shifts m p k q l ∨ Shifts m q l p k := by
  induction p generalizing q with
  | nil =>
    obtain ⟨m, shifts⟩ := exists_shifts_of_join same
    exact ⟨m, .inr shifts⟩
  | cons c p ih =>
    cases q with
    | nil =>
      obtain ⟨m, shifts⟩ := exists_shifts_of_join same.symm
      exact ⟨m, .inl shifts⟩
    | cons d q =>
      have heads : c = d ∧ composeScopedName p k = composeScopedName q l := by
        unfold composeScopedName at same ⊢
        by_cases first : c = '_'
        · subst first
          by_cases second : d = '_'
          · subst second
            rw [escape_underscore, escape_underscore] at same
            exact ⟨rfl, (List.cons.inj (List.cons.inj same).2).2⟩
          · rw [escape_underscore, escape_cons_of_ne second] at same
            exact absurd (List.cons.inj same).1.symm second
        · rw [escape_cons_of_ne first] at same
          by_cases second : d = '_'
          · subst second
            rw [escape_underscore] at same
            exact absurd (List.cons.inj same).1 first
          · rw [escape_cons_of_ne second] at same
            exact List.cons.inj same
      obtain ⟨rfl, rest⟩ := heads
      obtain ⟨m, shifts⟩ := ih rest
      exact ⟨m, shifts.imp Shifts.cons Shifts.cons⟩

/-- Two names coincide exactly where they are one name or underscores move over the join. -/
theorem composeScopedName_eq_iff
    : composeScopedName p k = composeScopedName q l ↔ (p = q ∧ k = l) ∨ Clash p k q l := by
  constructor
  · intro same
    obtain ⟨m, shifts⟩ := exists_shifts same
    rcases m.eq_zero_or_pos with rfl | pos
    · obtain ⟨rfl, rfl⟩ | ⟨rfl, rfl⟩ := shifts
      · exact .inl ⟨List.append_nil q, rfl⟩
      · exact .inl ⟨(List.append_nil p).symm, rfl⟩
    · exact .inr ⟨m, pos, shifts⟩
  · rintro (⟨rfl, rfl⟩ | ⟨m, -, shifts | shifts⟩)
    · rfl
    · exact shifts.composeScopedName
    · exact shifts.composeScopedName.symm

theorem Clash.ne (clash : Clash p k q l) : p ≠ q := by
  rintro rfl
  obtain ⟨m, pos, ⟨same, -⟩ | ⟨same, -⟩⟩ := clash
  all_goals
    have lengths := congrArg List.length same
    rw [List.length_append, List.length_replicate] at lengths
    omega

/-- The names of two projects coincide exactly where they clash. -/
theorem composeScopedName_eq_iff_of_ne (different : p ≠ q)
    : composeScopedName p k = composeScopedName q l ↔ Clash p k q l := by
  rw [composeScopedName_eq_iff]
  exact or_iff_right fun same => different same.1

/-- An entry without `external` and `name`, whose name is derived. -/
def Resource.derived (resource : Resource) : Bool := !resource.external && resource.name.isNone

/-- No entry with this key says the name otherwise. -/
def derives (resources : AList fun _ : Text => Resource) (key : Text) : Bool :=
  (resources.lookup key).all Resource.derived

def derivedNetworks (project : Text) (compose : ComposeFile) : List Text :=
  ((resolveNetworkNames project compose).filter fun entry =>
    derives compose.networks entry.1).map (·.2)

def derivedVolumes (project : Text) (compose : ComposeFile) : List Text :=
  ((resolveVolumeNames project compose).filter fun entry =>
      derives compose.volumes entry.1).map (·.2)
    ++ anonymousVolumes project compose

/-- The keys of the networks whose names are derived. -/
def networkKeys (compose : ComposeFile) : List Text :=
  (if defaultKey ∈ compose.networks then compose.networks.keys
    else compose.networks.keys ++ [defaultKey]).filter (derives compose.networks)

/-- The keys of the volumes whose names are derived, those of the anonymous ones too. -/
def volumeKeys (compose : ComposeFile) : List Text :=
  compose.volumes.keys.filter (derives compose.volumes)
    ++ compose.services.entries.flatMap fun ⟨service, mounts⟩ => anonymousKeys service mounts

/-- The names that a file gives outright to volumes of the project. -/
def outrightVolumes (compose : ComposeFile) : List Text :=
  compose.volumes.entries.filterMap fun ⟨_, vol⟩ => if vol.external then none else vol.name

theorem resourceName_of_derives {resources : AList fun _ : Text => Resource} {key : Text}
    {resource : Resource} (entry : ⟨key, resource⟩ ∈ resources.entries)
    (own : derives resources key = true)
    : resourceName p key resource = composeScopedName p key := by
  rw [derives, AList.mem_lookup_iff.mpr entry] at own
  obtain ⟨inside, unnamed⟩ : resource.external = false ∧ resource.name = none := by
    simpa [Resource.derived] using own
  rw [resourceName, inside, unnamed]
  rfl

/-- Where entries that derive their names have the scoped one, these names are read off the keys. -/
theorem filter_names {resources : AList fun _ : Text => Resource} (entries : List (Text × Text))
    (own : ∀ entry ∈ entries, derives resources entry.1 = true →
      entry.2 = composeScopedName p entry.1)
    : (entries.filter fun entry => derives resources entry.1).map (·.2)
      = ((entries.map (·.1)).filter (derives resources)).map (composeScopedName p) := by
  rw [List.filter_map, List.map_map]
  refine List.map_congr_left fun entry member => ?_
  obtain ⟨member, derived⟩ := List.mem_filter.mp member
  exact own entry member derived

theorem keys_resources (project : Text) (resources : AList fun _ : Text => Resource)
    : (resources.entries.map fun entry =>
        (entry.1, resourceName project entry.1 entry.2)).map (·.1)
      = resources.keys := by
  rw [List.map_map]
  rfl

theorem derivedNetworks_eq (project : Text) (compose : ComposeFile)
    : derivedNetworks project compose
      = (networkKeys compose).map (composeScopedName project) := by
  have names (entry : Text × Text) (member : entry ∈ resolveNetworkNames project compose)
      (own : derives compose.networks entry.1 = true)
      : entry.2 = composeScopedName project entry.1 := by
    have declared (member : entry ∈ compose.networks.entries.map fun entry =>
        (entry.1, resourceName project entry.1 entry.2))
        : entry.2 = composeScopedName project entry.1 := by
      obtain ⟨⟨key, net⟩, declared, rfl⟩ := List.mem_map.mp member
      exact resourceName_of_derives declared own
    simp only [resolveNetworkNames] at member
    split at member
    · exact declared member
    · obtain member | member := List.mem_append.mp member
      · exact declared member
      · rw [List.mem_singleton.mp member]
  rw [derivedNetworks, filter_names _ names, networkKeys]
  congr 2
  simp only [resolveNetworkNames]
  split
  · exact keys_resources project compose.networks
  · rw [List.map_append, keys_resources]
    rfl

theorem derivedVolumes_eq (project : Text) (compose : ComposeFile)
    : derivedVolumes project compose = (volumeKeys compose).map (composeScopedName project) := by
  have names (entry : Text × Text) (member : entry ∈ resolveVolumeNames project compose)
      (own : derives compose.volumes entry.1 = true)
      : entry.2 = composeScopedName project entry.1 := by
    obtain ⟨⟨key, vol⟩, declared, rfl⟩ := List.mem_map.mp member
    exact resourceName_of_derives declared own
  rw [derivedVolumes, filter_names _ names, volumeKeys, List.map_append, List.map_flatMap]
  rw [resolveVolumeNames, keys_resources]
  rfl

theorem derives_eq {resources : AList fun _ : Text => Resource} {key : Text} {resource : Resource}
    (entry : ⟨key, resource⟩ ∈ resources.entries)
    : derives resources key = resource.derived := by
  rw [derives, AList.mem_lookup_iff.mpr entry]
  rfl

/-- `down -v` removes the volumes of the project, derived or named outright. -/
theorem mem_downVolumes {compose : ComposeFile} {name : Text}
    : name ∈ downVolumes p compose
      ↔ name ∈ derivedVolumes p compose ∨ name ∈ outrightVolumes compose := by
  have removed (name : Text)
      : name ∈ (compose.volumes.entries.filter fun entry => !entry.2.external).map
          (fun entry => resourceName p entry.1 entry.2)
        ↔ name ∈ ((resolveVolumeNames p compose).filter fun entry =>
              derives compose.volumes entry.1).map (·.2)
          ∨ name ∈ outrightVolumes compose := by
    constructor
    · intro member
      obtain ⟨⟨key, vol⟩, kept, rfl⟩ := List.mem_map.mp member
      obtain ⟨entry, inside⟩ := List.mem_filter.mp kept
      replace inside : vol.external = false := by simpa using inside
      cases outright : vol.name with
      | none =>
        have declared : (key, resourceName p key vol) ∈ resolveVolumeNames p compose :=
          List.mem_map.mpr ⟨⟨key, vol⟩, entry, rfl⟩
        refine .inl (List.mem_map.mpr ⟨_, List.mem_filter.mpr ⟨declared, ?_⟩, rfl⟩)
        rw [derives_eq entry, Resource.derived, inside, outright]
        rfl
      | some name =>
        refine .inr (List.mem_filterMap.mpr ⟨⟨key, vol⟩, entry, ?_⟩)
        simp only [inside, outright, resourceName, Bool.false_eq_true, if_false, Option.getD_some]
    · rintro (member | member)
      · obtain ⟨_, kept, rfl⟩ := List.mem_map.mp member
        obtain ⟨named, own⟩ := List.mem_filter.mp kept
        obtain ⟨⟨key, vol⟩, entry, rfl⟩ := List.mem_map.mp named
        rw [derives_eq entry, Resource.derived, Bool.and_eq_true] at own
        exact List.mem_map_of_mem (List.mem_filter.mpr ⟨entry, own.1⟩)
      · obtain ⟨⟨key, vol⟩, entry, outright⟩ := List.mem_filterMap.mp member
        cases outside : vol.external with
        | true => simp [outside] at outright
        | false =>
          simp only [outside, Bool.false_eq_true, if_false] at outright
          refine List.mem_map.mpr ⟨⟨key, vol⟩, List.mem_filter.mpr ⟨entry, ?_⟩, ?_⟩
          · rw [outside]
            rfl
          · simp only [resourceName, outside, outright, Bool.false_eq_true, if_false,
              Option.getD_some]
  rw [downVolumes, derivedVolumes, List.mem_append, List.mem_append, removed]
  exact or_right_comm

/-- No key of one project clashes with a key of the other. -/
def NoClash (p q : Text) (keys keys' : List Text) : Prop :=
  ∀ k ∈ keys, ∀ l ∈ keys', ¬ Clash p k q l

theorem disjoint_scoped_iff {keys keys' : List Text} (different : p ≠ q)
    : (keys.map (composeScopedName p)).Disjoint (keys'.map (composeScopedName q))
      ↔ NoClash p q keys keys' := by
  constructor
  · intro disjoint k key l key' clash
    refine disjoint (List.mem_map_of_mem key) ?_
    rw [(composeScopedName_eq_iff_of_ne different).mpr clash]
    exact List.mem_map_of_mem key'
  · intro none name first second
    obtain ⟨k, key, rfl⟩ := List.mem_map.mp first
    obtain ⟨l, key', same⟩ := List.mem_map.mp second
    exact none k key l key' ((composeScopedName_eq_iff_of_ne different).mp same.symm)

/-- The names of two projects stay apart exactly where no underscores move from one side of the join
to the other, and `down -v` of one keeps the volumes of the other where neither names one of them
outright. -/
theorem projects_apart
    : (∀ k l, (composeScopedName p k = composeScopedName q l → p = q ∧ k = l) ↔ ¬ Clash p k q l)
      ∧ (p ≠ q → ∀ f g : ComposeFile,
        ((derivedNetworks p f).Disjoint (derivedNetworks q g)
            ↔ NoClash p q (networkKeys f) (networkKeys g))
        ∧ ((derivedVolumes p f).Disjoint (derivedVolumes q g)
            ↔ NoClash p q (volumeKeys f) (volumeKeys g))
        ∧ ((downVolumes p f).Disjoint (downVolumes q g)
            ↔ NoClash p q (volumeKeys f) (volumeKeys g)
              ∧ (outrightVolumes f).Disjoint (downVolumes q g)
              ∧ (outrightVolumes g).Disjoint (derivedVolumes p f))) := by
  refine ⟨fun k l => ?_, fun different f g => ⟨?_, ?_, ?_⟩⟩
  · rw [composeScopedName_eq_iff, or_imp, and_iff_right id]
    exact ⟨fun unique clash => clash.ne (unique clash).1, fun none clash => absurd clash none⟩
  · rw [derivedNetworks_eq, derivedNetworks_eq, disjoint_scoped_iff different]
  · rw [derivedVolumes_eq, derivedVolumes_eq, disjoint_scoped_iff different]
  · rw [← disjoint_scoped_iff different, ← derivedVolumes_eq, ← derivedVolumes_eq]
    constructor
    · intro disjoint
      refine ⟨?_, ?_, ?_⟩
      all_goals intro name first second
      · exact disjoint (mem_downVolumes.mpr (.inl first)) (mem_downVolumes.mpr (.inl second))
      · exact disjoint (mem_downVolumes.mpr (.inr first)) second
      · exact disjoint (mem_downVolumes.mpr (.inl second)) (mem_downVolumes.mpr (.inr first))
    · rintro ⟨derived, outright, outright'⟩ name first second
      obtain first | first := mem_downVolumes.mp first
      · obtain second | second := mem_downVolumes.mp second
        · exact derived first second
        · exact outright' second first
      · exact outright first second

/-- A volume of a compose file that says nothing about it. -/
def plainVolumes (key : Text) : ComposeFile where
  services := ∅
  networks := ∅
  volumes := AList.insert key ⟨false, none⟩ ∅

theorem shop_web_apart
    : "web".toList ≠ "shop".toList
      ∧ (downVolumes "web".toList (plainVolumes "db".toList)).Disjoint
        (downVolumes "shop".toList (plainVolumes "db".toList)) := by
  have different : "web".toList ≠ "shop".toList := by decide
  refine ⟨different, ((projects_apart.2 different _ _).2.2).mpr
    ⟨?_, List.disjoint_nil_left _, List.disjoint_nil_left _⟩⟩
  rintro k key l key' ⟨m, pos, clash⟩
  obtain rfl : k = "db".toList := List.mem_singleton.mp key
  obtain rfl : l = "db".toList := List.mem_singleton.mp key'
  obtain ⟨-, keys⟩ | ⟨-, keys⟩ := clash
  all_goals
    have lengths := congrArg List.length keys
    rw [List.length_append, List.length_replicate] at lengths
    omega

/-- Project `a_` and volume `b`, project `a` and volume `_b`: one name, and each removes it. -/
theorem trailing_underscore_not_apart
    : validComposeProjectName "a_".toList = true ∧ validComposeProjectName "a".toList = true
      ∧ composeScopedName "a_".toList "b".toList = composeScopedName "a".toList "_b".toList
      ∧ downVolumes "a_".toList (plainVolumes "b".toList) = ["a___b".toList]
      ∧ derivedVolumes "a".toList (plainVolumes "_b".toList) = ["a___b".toList] := by
  decide

end Delonix.Compose
