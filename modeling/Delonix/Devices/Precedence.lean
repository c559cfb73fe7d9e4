import Delonix.Devices.Cdi

/-! The documented precedence: only specs of the very kind that is asked for count, and of several
that declare a device the last one does. What the loop takes beside that is harmless where it
brings nothing of its own.
-/

namespace Delonix.Devices

open Delonix.Library.FirstSeen
open Delonix.Library.Text

/-- `<vendor>/<class>=<device>`. -/
structure QualifiedName where
  vendorClass : String
  device : String
  closed : '=' ∉ vendorClass.toList

def QualifiedName.text (q : QualifiedName) : String := q.vendorClass ++ "=" ++ q.device

def CdiSpec.declares (vendorClass name : String) (spec : CdiSpec) : Bool :=
  spec.kind == vendorClass && spec.devices.any (·.name == name)

/-- The devices of a spec that are asked for and that no later spec declares again. -/
def CdiSpec.effective (q : QualifiedName) (spec : CdiSpec) (later : List CdiSpec)
    : List CdiDevice :=
  spec.devices.filter fun device =>
    asks q.device device && !later.any (CdiSpec.declares q.vendorClass device.name)

/-- The edits that count, by the documentation. -/
def rightful (q : QualifiedName) : List CdiSpec → List ContainerEdits
  | [] => []
  | spec :: later =>
      (if spec.kind = q.vendorClass then spec.edits (spec.effective q later) else [])
        ++ rightful q later

/-- Nothing is there twice. -/
structure CdiEdits.Once (out : CdiEdits) : Prop where
  devices : out.devices.Nodup
  mounts : (out.mounts.map Mount.key).Nodup
  env : out.env.Nodup

/-- Some edits are added to what was there, each thing once. -/
structure Merged (added : List ContainerEdits) (out result : CdiEdits) : Prop where
  devices : ∀ device, device ∈ result.devices ↔ device ∈ out.devices
    ∨ ∃ edits ∈ added, device ∈ edits.deviceNodes.map CdiDeviceNode.device
  mounts : ∀ key, key ∈ result.mounts.map Mount.key ↔ key ∈ out.mounts.map Mount.key
    ∨ ∃ edits ∈ added, key ∈ edits.mounts.map (Mount.key ∘ CdiMount.mount)
  env : ∀ entry, entry ∈ result.env ↔ entry ∈ out.env ∨ ∃ edits ∈ added, entry ∈ edits.env
  hooks : result.hadUnexecutedHooks = true ↔ out.hadUnexecutedHooks = true
    ∨ ∃ edits ∈ added, edits.hooks ≠ []
  once : result.Once

/-- A resolution that keeps to the documentation: the rightful edits are added, and a device nobody
declares is an error that changes nothing.
-/
def KeepsPrecedence (specs : List CdiSpec) (q : QualifiedName) (out : CdiEdits) : Prop :=
  match resolveCdiDeviceIn (specs.map some) q.text out with
  | (.ok _, result) => rightful q specs ≠ [] ∧ Merged (rightful q specs) out result
  | (.error _, result) => rightful q specs = [] ∧ result = out

/-- A spec gives a device that it should not: it is of another kind that only begins like the one
asked for, or a later spec declares the device again.
-/
def IsStray (q : QualifiedName) (specs : List CdiSpec) (spec : CdiSpec) (device : CdiDevice)
    : Prop :=
  ∃ front later, specs = front ++ spec :: later ∧ device ∈ spec.devices
    ∧ asks q.device device = true ∧ q.vendorClass.toList <+: spec.kind.toList
    ∧ (spec.kind ≠ q.vendorClass
      ∨ later.any (CdiSpec.declares q.vendorClass device.name) = true)

/-- Everything in `edits` is there anyway. -/
structure Covered (added : List ContainerEdits) (out : CdiEdits) (edits : ContainerEdits) : Prop where
  devices : ∀ device ∈ edits.deviceNodes.map CdiDeviceNode.device, device ∈ out.devices
    ∨ ∃ other ∈ added, device ∈ other.deviceNodes.map CdiDeviceNode.device
  mounts : ∀ key ∈ edits.mounts.map (Mount.key ∘ CdiMount.mount), key ∈ out.mounts.map Mount.key
    ∨ ∃ other ∈ added, key ∈ other.mounts.map (Mount.key ∘ CdiMount.mount)
  env : ∀ entry ∈ edits.env, entry ∈ out.env ∨ ∃ other ∈ added, entry ∈ other.env
  hooks : edits.hooks ≠ [] → out.hadUnexecutedHooks = true ∨ ∃ other ∈ added, other.hooks ≠ []

/-- What strays bring is brought by others too. Where no spec declares the device, there are none,
and what has been gathered holds nothing twice.
-/
structure Harmless (specs : List CdiSpec) (q : QualifiedName) (out : CdiEdits) : Prop where
  known : rightful q specs ≠ [] → ∀ spec device, IsStray q specs spec device →
    Covered (rightful q specs) out device.containerEdits
      ∧ Covered (rightful q specs) out spec.containerEdits
  unknown : rightful q specs = [] → (∀ spec device, ¬ IsStray q specs spec device)
    ∧ (specs ≠ [] → out.Once)

theorem passes_iff {vendorClass : String} {spec : CdiSpec}
    : spec.passes vendorClass = true ↔ vendorClass.toList <+: spec.kind.toList := by
  rw [CdiSpec.passes, ← List.isPrefixOf_iff_prefix]
  cases start : vendorClass.toList.isPrefixOf spec.kind.toList with
  | true => simp
  | false =>
      have other : spec.kind ≠ vendorClass := by
        intro same
        rw [same, List.isPrefixOf_iff_prefix.mpr List.prefix_rfl] at start
        cases start
      simp [other]

theorem mem_edits {spec : CdiSpec} {devices : List CdiDevice} {edits : ContainerEdits}
    : edits ∈ spec.edits devices ↔ ∃ device ∈ devices,
      edits = device.containerEdits ∨ edits = spec.containerEdits := by
  cases devices with
  | nil => simp [CdiSpec.edits]
  | cons first rest =>
      simp only [CdiSpec.edits, List.isEmpty_cons, Bool.false_eq_true, ↓reduceIte, List.mem_append,
        List.mem_map, List.mem_singleton]
      constructor
      · intro found
        rcases found with ⟨device, member, rfl⟩ | rfl
        · exact ⟨device, member, .inl rfl⟩
        · exact ⟨first, List.mem_cons_self, .inr rfl⟩
      · intro found
        rcases found with ⟨device, member, rfl | rfl⟩
        · exact .inl ⟨device, member, rfl⟩
        · exact .inr rfl

/-- A spec gives edits for a device that no later spec declares again. -/
theorem mem_rightful {q : QualifiedName} {specs : List CdiSpec} {edits : ContainerEdits}
    : edits ∈ rightful q specs ↔ ∃ front spec later device, specs = front ++ spec :: later
      ∧ spec.kind = q.vendorClass ∧ device ∈ spec.devices ∧ asks q.device device = true
      ∧ later.any (CdiSpec.declares q.vendorClass device.name) = false
      ∧ (edits = device.containerEdits ∨ edits = spec.containerEdits) := by
  induction specs with
  | nil => simp [rightful]
  | cons spec rest ih =>
      rw [rightful, List.mem_append, ih]
      constructor
      · intro found
        rcases found with here | ⟨front, other, later, device, rfl, last⟩
        · by_cases kind : spec.kind = q.vendorClass
          · rw [if_pos kind, mem_edits] at here
            obtain ⟨device, member, is⟩ := here
            simp only [CdiSpec.effective, List.mem_filter, Bool.and_eq_true,
              Bool.not_eq_true'] at member
            exact ⟨[], spec, rest, device, rfl, kind, member.1, member.2.1, member.2.2, is⟩
          · simp [kind] at here
        · exact ⟨spec :: front, other, later, device, rfl, last⟩
      · intro found
        rcases found with ⟨front, other, later, device, same, kind, member, asked, last, is⟩
        cases front with
        | nil =>
            obtain ⟨rfl, rfl⟩ := List.cons.inj same
            refine .inl ?_
            rw [if_pos kind, mem_edits]
            exact ⟨device, by simp [CdiSpec.effective, member, asked, last], is⟩
        | cons first front =>
            obtain ⟨rfl, rfl⟩ := List.cons.inj same
            exact .inr ⟨front, other, later, device, rfl, kind, member, asked, last, is⟩

/-- What is taken is what counts and what strays bring. -/
theorem mem_taken {q : QualifiedName} {specs : List CdiSpec} {edits : ContainerEdits}
    : edits ∈ taken q.vendorClass q.device specs ↔ edits ∈ rightful q specs
      ∨ ∃ spec device, IsStray q specs spec device
        ∧ (edits = device.containerEdits ∨ edits = spec.containerEdits) := by
  constructor
  · intro found
    obtain ⟨spec, listed, here⟩ := List.mem_flatMap.mp found
    cases passed : spec.passes q.vendorClass with
    | false => simp [CdiSpec.taken, passed] at here
    | true =>
        rw [CdiSpec.taken, if_pos passed, mem_edits] at here
        obtain ⟨device, member, is⟩ := here
        obtain ⟨member, asked⟩ := List.mem_filter.mp member
        obtain ⟨front, later, rfl⟩ := List.append_of_mem listed
        have start := passes_iff.mp passed
        by_cases counts : spec.kind = q.vendorClass
            ∧ later.any (CdiSpec.declares q.vendorClass device.name) = false
        · exact .inl (mem_rightful.mpr
            ⟨front, spec, later, device, rfl, counts.1, member, asked, counts.2, is⟩)
        · rw [not_and_or, Bool.not_eq_false] at counts
          exact .inr ⟨spec, device, ⟨front, later, rfl, member, asked, start, counts⟩, is⟩
  · intro found
    have gives {front later : List CdiSpec} {spec : CdiSpec} {device : CdiDevice}
        (start : q.vendorClass.toList <+: spec.kind.toList) (member : device ∈ spec.devices)
        (asked : asks q.device device = true)
        (is : edits = device.containerEdits ∨ edits = spec.containerEdits)
        : edits ∈ taken q.vendorClass q.device (front ++ spec :: later) := by
      refine List.mem_flatMap.mpr ⟨spec, by simp, ?_⟩
      rw [CdiSpec.taken, if_pos (passes_iff.mpr start), mem_edits]
      exact ⟨device, List.mem_filter.mpr ⟨member, asked⟩, is⟩
    rcases found with counts | ⟨spec, device, ⟨front, later, rfl, member, asked, start, -⟩, is⟩
    · obtain ⟨front, spec, later, device, rfl, kind, member, asked, -, is⟩ :=
        mem_rightful.mp counts
      exact gives (kind ▸ List.prefix_rfl) member asked is
    · exact gives start member asked is

theorem applyAll_eq (added : List ContainerEdits) (out : CdiEdits)
    : applyAll added out = {
        devices := out.devices
          ++ added.flatMap fun edits => edits.deviceNodes.map CdiDeviceNode.device
        mounts := out.mounts ++ added.flatMap fun edits => edits.mounts.map CdiMount.mount
        env := out.env ++ added.flatMap ContainerEdits.env
        hadUnexecutedHooks := out.hadUnexecutedHooks || added.any fun edits => !edits.hooks.isEmpty
      } := by
  induction added generalizing out with
  | nil => simp [applyAll]
  | cons edits rest ih =>
      have next : applyAll (edits :: rest) out = applyAll rest (applyEdits edits out) := rfl
      rw [next, ih]
      simp [applyEdits, Bool.or_assoc]

theorem once_dedupe (out : CdiEdits) : out.dedupe.Once := by
  refine ⟨?_, nodup_keepFirst out.mounts, ?_⟩
  · have once : ((keepFirst id out.devices).map id).Nodup := nodup_keepFirst out.devices
    simpa [CdiEdits.dedupe] using once
  · have once : ((keepFirst id out.env).map id).Nodup := nodup_keepFirst out.env
    simpa [CdiEdits.dedupe] using once

theorem dedupe_eq_self_iff {out : CdiEdits} : out.dedupe = out ↔ out.Once := by
  constructor
  · intro same
    exact same ▸ once_dedupe out
  · intro once
    obtain ⟨devices, mounts, env, hooks⟩ := out
    simp only [CdiEdits.dedupe, CdiEdits.mk.injEq, and_true]
    exact ⟨keepFirst_eq_self_iff.mpr (by simpa using once.devices),
      keepFirst_eq_self_iff.mpr once.mounts, keepFirst_eq_self_iff.mpr (by simpa using once.env)⟩

theorem merged_dedupe (added : List ContainerEdits) (out : CdiEdits)
    : Merged added out (applyAll added out).dedupe where
  devices device := by
    have left := @mem_keys_keepFirst _ _ _ id (applyAll added out).devices device
    simp only [List.map_id] at left
    simp only [CdiEdits.dedupe, left]
    simp [applyAll_eq]
  mounts key := by
    simp only [CdiEdits.dedupe, mem_keys_keepFirst]
    simp [applyAll_eq, List.map_flatMap]
  env entry := by
    have left := @mem_keys_keepFirst _ _ _ id (applyAll added out).env entry
    simp only [List.map_id] at left
    simp only [CdiEdits.dedupe, left]
    simp [applyAll_eq]
  hooks := by simp [CdiEdits.dedupe, applyAll_eq]
  once := once_dedupe _

/-- Among the edits that are taken, only those count that bring what no other brings. -/
theorem merged_iff_covered {right all : List ContainerEdits} {out result : CdiEdits}
    (merged : Merged all out result) (inside : ∀ edits ∈ right, edits ∈ all)
    : Merged right out result ↔ ∀ edits ∈ all, Covered right out edits := by
  constructor
  · intro counts edits member
    exact {
      devices := fun device here =>
        (counts.devices device).mp ((merged.devices device).mpr (.inr ⟨edits, member, here⟩))
      mounts := fun key here =>
        (counts.mounts key).mp ((merged.mounts key).mpr (.inr ⟨edits, member, here⟩))
      env := fun entry here =>
        (counts.env entry).mp ((merged.env entry).mpr (.inr ⟨edits, member, here⟩))
      hooks := fun here => counts.hooks.mp (merged.hooks.mpr (.inr ⟨edits, member, here⟩))
    }
  · intro covered
    have narrows {P : ContainerEdits → Prop} {there : Prop}
        (each : ∀ edits ∈ all, P edits → there ∨ ∃ other ∈ right, P other)
        : (there ∨ ∃ edits ∈ all, P edits) ↔ there ∨ ∃ edits ∈ right, P edits := by
      constructor
      · intro found
        rcases found with before | ⟨edits, member, here⟩
        · exact .inl before
        · exact each edits member here
      · intro found
        rcases found with before | ⟨edits, member, here⟩
        · exact .inl before
        · exact .inr ⟨edits, inside edits member, here⟩
    exact {
      devices := fun device => (merged.devices device).trans
        (narrows fun edits member => (covered edits member).devices device)
      mounts := fun key => (merged.mounts key).trans
        (narrows fun edits member => (covered edits member).mounts key)
      env := fun entry => (merged.env entry).trans
        (narrows fun edits member => (covered edits member).env entry)
      hooks := merged.hooks.trans (narrows fun edits member => (covered edits member).hooks)
      once := merged.once
    }

theorem covered_of_mem {added : List ContainerEdits} {out : CdiEdits} {edits : ContainerEdits}
    (member : edits ∈ added)
    : Covered added out edits where
  devices _ here := .inr ⟨edits, member, here⟩
  mounts _ here := .inr ⟨edits, member, here⟩
  env _ here := .inr ⟨edits, member, here⟩
  hooks here := .inr ⟨edits, member, here⟩

/-- Over some files, nothing taken is an error, and whatever is taken is merged. -/
theorem keepsPrecedence_of_some {specs : List CdiSpec} (some_ : specs ≠ []) (q : QualifiedName)
    (out : CdiEdits)
    : KeepsPrecedence specs q out
      ↔ if taken q.vendorClass q.device specs = [] then rightful q specs = [] ∧ out.dedupe = out
        else rightful q specs ≠ [] ∧ Merged (rightful q specs) out
          (applyAll (taken q.vendorClass q.device specs) out).dedupe := by
  have cut : splitOnce '=' q.text.toList = some (q.vendorClass.toList, q.device.toList) := by
    have chars : q.text.toList = q.vendorClass.toList ++ '=' :: q.device.toList := by
      simp [QualifiedName.text]
    rw [chars, splitOnce_append _ q.closed]
  have present : (specs.map some).isEmpty = false := by
    cases specs with
    | nil => exact absurd rfl some_
    | cons => rfl
  simp only [KeepsPrecedence, resolveCdiDeviceIn, cut, present, Bool.false_eq_true, ↓reduceIte,
    foldl_mergeSpec, String.ofList_toList, Bool.false_or]
  cases found : (taken q.vendorClass q.device specs).isEmpty with
  | true => simp [List.isEmpty_iff.mp found, applyAll]
  | false =>
      have nonempty : taken q.vendorClass q.device specs ≠ [] := by
        intro none_
        simp [none_] at found
      simp [nonempty]

/-- A resolution keeps to the documentation exactly where strays are harmless. -/
theorem keepsPrecedence_iff (specs : List CdiSpec) (q : QualifiedName) (out : CdiEdits)
    : KeepsPrecedence specs q out ↔ Harmless specs q out := by
  by_cases empty : specs = []
  · subst empty
    have noStray : ∀ spec device, ¬ IsStray q [] spec device := by
      intro spec device stray
      obtain ⟨front, later, is, -⟩ := stray
      simp at is
    have unknown : KeepsPrecedence [] q out := by
      rw [KeepsPrecedence, resolveCdiDeviceIn]
      cases splitOnce '=' q.text.toList <;> simp [rightful]
    exact iff_of_true unknown
      ⟨fun known => absurd rfl known, fun _ => ⟨noStray, fun some_ => absurd rfl some_⟩⟩
  rw [keepsPrecedence_of_some empty]
  by_cases counts : rightful q specs = []
  · have nothing : taken q.vendorClass q.device specs = []
        ↔ ∀ spec device, ¬ IsStray q specs spec device := by
      constructor
      · intro none_ spec device stray
        have member := mem_taken.mpr (.inr ⟨spec, device, stray, .inl rfl⟩)
        rw [none_] at member
        cases member
      · intro noStray
        rw [List.eq_nil_iff_forall_not_mem]
        intro edits member
        rcases mem_taken.mp member with right | ⟨spec, device, stray, -⟩
        · rw [counts] at right
          cases right
        · exact noStray spec device stray
    by_cases none_ : taken q.vendorClass q.device specs = []
    · rw [if_pos none_, dedupe_eq_self_iff]
      constructor
      · intro keeps
        exact ⟨fun known => absurd counts known, fun _ => ⟨nothing.mp none_, fun _ => keeps.2⟩⟩
      · intro harmless
        exact ⟨counts, (harmless.unknown counts).2 empty⟩
    · rw [if_neg none_]
      constructor
      · intro keeps
        exact absurd counts keeps.1
      · intro harmless
        exact absurd (nothing.mpr (harmless.unknown counts).1) none_
  · have inside : ∀ edits ∈ rightful q specs, edits ∈ taken q.vendorClass q.device specs :=
      fun edits member => mem_taken.mpr (.inl member)
    have some_ : taken q.vendorClass q.device specs ≠ [] := by
      intro none_
      obtain ⟨edits, member⟩ := List.exists_mem_of_ne_nil _ counts
      have taken_ := inside edits member
      rw [none_] at taken_
      cases taken_
    rw [if_neg some_, merged_iff_covered (merged_dedupe _ out) inside]
    constructor
    · intro keeps
      refine ⟨fun _ spec device stray => ⟨?_, ?_⟩, fun none_ => absurd none_ counts⟩
      · exact keeps.2 _ (mem_taken.mpr (.inr ⟨spec, device, stray, .inl rfl⟩))
      · exact keeps.2 _ (mem_taken.mpr (.inr ⟨spec, device, stray, .inr rfl⟩))
    · intro harmless
      refine ⟨counts, fun edits member => ?_⟩
      rcases mem_taken.mp member with right | ⟨spec, device, stray, is⟩
      · exact covered_of_mem right
      · have both := harmless.known counts spec device stray
        rcases is with rfl | rfl
        · exact both.1
        · exact both.2

/-- A spec of one GPU with its driver library. -/
def gpuSpec (library : String) : CdiSpec where
  kind := "nvidia.com/gpu"
  containerEdits := ⟨[], [⟨library, library, ["ro"]⟩], [], []⟩
  devices := [⟨"0", ⟨[⟨"/dev/nvidia0", none⟩], [], [], []⟩⟩]

def gpu : QualifiedName := ⟨"nvidia.com/gpu", "0", by decide⟩

/-- The static spec is overridden, and its library is mounted all the same. -/
theorem stale_driver_taken : ¬ ∀ specs q out, KeepsPrecedence specs q out := by
  intro all
  let stale := gpuSpec "/usr/lib/libcuda.so.570"
  let current := gpuSpec "/usr/lib/libcuda.so.580"
  have keeps := all [stale, current] gpu .default
  have right : rightful gpu [stale, current]
      = current.devices.map CdiDevice.containerEdits ++ [current.containerEdits] := by
    decide
  have both : taken gpu.vendorClass gpu.device [stale, current]
      = stale.devices.map CdiDevice.containerEdits ++ [stale.containerEdits]
        ++ rightful gpu [stale, current] := by
    decide
  rw [keepsPrecedence_of_some (by simp), if_neg (by simp [both])] at keeps
  have inside : ∀ edits ∈ rightful gpu [stale, current],
      edits ∈ taken gpu.vendorClass gpu.device [stale, current] := by
    intro edits member
    rw [both]
    exact List.mem_append_right _ member
  have covered := (merged_iff_covered (merged_dedupe _ _) inside).mp keeps.2 stale.containerEdits
    (by simp [both])
  have mounted := covered.mounts ("/usr/lib/libcuda.so.570", "/usr/lib/libcuda.so.570", true)
    (by decide)
  rw [right] at mounted
  revert mounted
  decide

end Delonix.Devices
