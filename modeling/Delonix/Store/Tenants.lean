import Delonix.Store.Lookup
import Mathlib.Data.List.Nodup
import Mathlib.Logic.Function.Basic

/-! Whose record a lookup answers with. A lookup that nothing disturbs walks the whole directory,
in whatever order it is listed. Before it walks it tries the key as a file name, and a file name
keeps less than the key says.
-/

namespace Delonix.Store

open Delonix.Library.Text

variable {Body : Type}

/-- The files after some saves, the oldest first. -/
def saved (records : List (Container Body)) : Files Body :=
  records.foldl (fun files c => Function.update files (safeKey c.id) (some c)) fun _ => none

/-- An order in which a walk meets the records. A file that is called only by its extension has
none, and the walk passes it.
-/
structure Lists (files : Files Body) (entries : List String) : Prop where
  once : entries.Nodup
  all : ∀ file, file ∈ entries ↔ file ≠ "" ∧ (files file).isSome

/-- How a lookup goes on while it has no answer. -/
def Loading.go (files : Files Body) (key : String) (loading : Loading Body) (act : LoadAct)
    : Loading Body :=
  match loading with
  | .going stage => load files key stage act
  | answer => answer

/-- A whole lookup: the exact file, or a walk over the entries and the file it settles on. -/
def loadAlone (files : Files Body) (entries : List String) (key : String) : Loading Body :=
  (LoadAct.next :: entries.map LoadAct.visit ++ [LoadAct.next, LoadAct.next]).foldl
    (Loading.go files key) (.going .lookup)

def Stored (files : Files Body) (c : Container Body) : Prop := ∃ file, files file = some c

/-- Records of a name stand in two namespaces. -/
def Shared (files : Files Body) (name : String) : Prop :=
  ∃ a b, Stored files a ∧ Stored files b ∧ a.name = name ∧ b.name = name
    ∧ a.namespaceName ≠ b.namespaceName

/-- An answer that crosses no tenant: a qualified key gives a record of that namespace and that
name, a shared bare name gives none of its bearers unless by id, and the key is one the record
goes by.
-/
structure Answers (files : Files Body) (key : String) (c : Container Body) : Prop where
  tenant : ∀ ns name, qualified key = some (ns, name) →
    c.namespaceName.toList = ns ∧ c.name.toList = name
  unguessed : qualified key = none → Shared files key → c.name = key → c.id = key
  named : key = c.id ∨ key = c.name ∨ key = c.namespaceName ++ "/" ++ c.name
    ∨ key.toList <+: c.id.toList

/-- The record without an id bears the name and the walk meets exactly one other bearer, in
another namespace.
-/
def Hidden (files : Files Body) (key : String) : Prop :=
  ∃ missed c, files "" = some missed ∧ missed.name = key
    ∧ (∃ file, file ≠ "" ∧ files file = some c ∧ c.name = key)
    ∧ (∀ file d, file ≠ "" → files file = some d → d.name = key → d = c)
    ∧ missed.namespaceName ≠ c.namespaceName

/-- What is stored where the key would be, as a file name, is a record the key may answer with;
and where nothing is, no bearer of a bare name escapes the walk.
-/
def Unmistaken (files : Files Body) (key : String) : Prop :=
  match files (safeKey key) with
  | some c => Answers files key c
  | none => qualified key = none → ¬ Hidden files key

/-- Every record is in the file its id gives. -/
def Placed (files : Files Body) : Prop := ∀ file c, files file = some c → safeKey c.id = file

theorem Placed.update {files : Files Body} (placed : Placed files) (c : Container Body)
    : Placed (Function.update files (safeKey c.id) (some c)) := by
  intro file d holds
  by_cases same : file = safeKey c.id
  · rw [same, Function.update_self] at holds
    rw [same, ← Option.some.inj holds]
  · rw [Function.update_of_ne same] at holds
    exact placed file d holds

theorem placed_saved (records : List (Container Body)) : Placed (saved records) := by
  have none : Placed (fun _ => none : Files Body) := by
    intro file c holds
    cases holds
  rw [saved]
  generalize (fun _ => Option.none : Files Body) = files at none
  induction records generalizing files with
  | nil => exact none
  | cons c rest ih => exact ih _ (none.update c)

variable {files : Files Body} {entries : List String} {key : String}

/-- A lookup that is about to read passes over entries. -/
theorem go_reading (entries : List String) (file : String)
    : (entries.map LoadAct.visit).foldl (Loading.go files key) (.going (.read file))
      = .going (.read file) := by
  induction entries with
  | nil => rfl
  | cons entry rest ih => exact ih

/-- What a walk finds on its way over the entries. -/
def walked (files : Files Body) (key : String) (found : Found) (entries : List String) : Found :=
  (entries.filterMap files).foldl (fun found c => found.add key c.ident) found

theorem go_scanning (found : Found) (entries : List String)
    : (entries.map LoadAct.visit).foldl (Loading.go files key) (.going (.scan found))
      = .going (.scan (walked files key found entries)) := by
  induction entries generalizing found with
  | nil => rfl
  | cons entry rest ih =>
      rw [List.map_cons, List.foldl_cons]
      cases holds : files entry with
      | none =>
          have passed : Loading.go files key (.going (.scan found)) (.visit entry)
              = .going (.scan found) := by
            simp [Loading.go, load, holds]
          rw [passed, ih]
          simp [walked, holds]
      | some c =>
          have added : Loading.go files key (.going (.scan found)) (.visit entry)
              = .going (.scan (found.add key c.ident)) := by
            simp [Loading.go, load, holds]
          rw [added, ih]
          simp [walked, holds]

theorem loadAlone_exact {c : Container Body} (holds : files (safeKey key) = some c)
    : loadAlone files entries key = .loaded c := by
  rw [loadAlone, List.cons_append, List.foldl_cons, List.foldl_append]
  have first : Loading.go files key (.going .lookup) .next = .going (.read (safeKey key)) := by
    simp [Loading.go, load, holds]
  rw [first, go_reading]
  simp [Loading.go, load, holds]

/-- The file a walk settles on, and the record in it. -/
theorem loadAlone_walked {c : Container Body} (absent : files (safeKey key) = none)
    : loadAlone files entries key = .loaded c
      ↔ ∃ hit, (walked files key {} entries).pick key = .ok hit
        ∧ files (safeKey hit.id) = some c := by
  rw [loadAlone, List.cons_append, List.foldl_cons, List.foldl_append]
  have first : Loading.go files key (.going .lookup) .next = .going (.scan {}) := by
    simp [Loading.go, load, absent]
  rw [first, go_scanning]
  cases picked : (walked files key {} entries).pick key with
  | error error => simp [Loading.go, load, picked]
  | ok hit =>
      cases holds : files (safeKey hit.id) <;> simp [Loading.go, load, picked, holds]

/-- The records a walk takes for the key's name. -/
def bears (key : String) (idt : Ident) : Bool :=
  match qualified key with
  | some (ns, name) => idt.namespaceName.toList = ns ∧ idt.name.toList = name
  | none => idt.name = key

theorem bears_of_bare (bare : qualified key = none) (idt : Ident)
    : bears key idt = true ↔ idt.name = key := by
  rw [bears, bare]
  exact decide_eq_true_iff

theorem bears_of_qualified {ns name : List Char} (cut : qualified key = some (ns, name))
    (idt : Ident)
    : bears key idt = true ↔ idt.namespaceName.toList = ns ∧ idt.name.toList = name := by
  rw [bears, cut]
  exact decide_eq_true_iff

theorem named_add (found : Found) (idt : Ident)
    : (found.add key idt).named = found.named ++ [idt].filter (bears key) := by
  unfold Found.add
  split <;> rename_i cut
  · split <;> simp_all [bears]
  · dsimp only
    split <;> simp_all [bears]

theorem named_walked (found : Found) (entries : List String)
    : (walked files key found entries).named
      = found.named ++ ((entries.filterMap files).map Container.ident).filter (bears key) := by
  rw [walked]
  induction entries.filterMap files generalizing found with
  | nil => simp
  | cons c rest ih =>
      rw [List.foldl_cons, ih, named_add, List.map_cons, List.append_assoc,
        ← List.filter_append, List.singleton_append]

theorem mem_hits_add {found : Found} {idt hit : Ident}
    (member : hit ∈ (found.add key idt).hits)
    : hit ∈ found.hits ∨ hit = idt ∧ key.toList <+: idt.id.toList := by
  unfold Found.add at member
  split at member
  · split at member <;> exact .inl member
  · dsimp only at member
    split at member
    case isTrue starts =>
      rcases List.mem_append.mp member with earlier | new
      · exact .inl earlier
      · exact .inr ⟨List.mem_singleton.mp new, starts⟩
    case isFalse => exact .inl member

theorem mem_hits_walked {found : Found} {hit : Ident}
    (member : hit ∈ (walked files key found entries).hits)
    : hit ∈ found.hits
      ∨ (∃ c ∈ entries.filterMap files, c.ident = hit) ∧ key.toList <+: hit.id.toList := by
  rw [walked] at member
  generalize entries.filterMap files = records at member
  induction records generalizing found with
  | nil => exact .inl member
  | cons c rest ih =>
      rcases ih member with earlier | ⟨⟨d, later, is⟩, starts⟩
      · rcases mem_hits_add earlier with earlier | ⟨rfl, starts⟩
        · exact .inl earlier
        · exact .inr ⟨⟨c, List.mem_cons_self, rfl⟩, starts⟩
      · exact .inr ⟨⟨d, List.mem_cons_of_mem _ later, is⟩, starts⟩

theorem mem_of_newest {hits : List Ident} {hit : Ident} (is : newest hits = some hit)
    : hit ∈ hits :=
  List.mem_mergeSort.mp (List.mem_of_head? is)

/-- A walk settles on the one bearer of the name, or on the start of an id. -/
theorem pick_eq_ok {found : Found} {hit : Ident} (picked : found.pick key = .ok hit)
    : found.named = [hit]
      ∨ found.named = [] ∧ qualified key = none ∧ hit ∈ found.hits := by
  unfold Found.pick at picked
  repeat' split at picked
  all_goals cases picked
  · exact .inl ‹_›
  · refine .inr ⟨‹_›, ?_, mem_of_newest ‹_›⟩
    simpa using ‹¬ (qualified key).isSome = true›

/-- Two records of one id are the same record. -/
theorem Placed.eq_of_ident (placed : Placed files) {c d : Container Body} (c_in : Stored files c)
    (d_in : Stored files d) (same : c.ident = d.ident)
    : c = d := by
  obtain ⟨file, holds⟩ := c_in
  obtain ⟨other, other_holds⟩ := d_in
  have ids : c.id = d.id := congrArg Ident.id same
  have files_same : file = other := by
    rw [← placed _ _ holds, ← placed _ _ other_holds, ids]
  rw [files_same] at holds
  exact Option.some.inj (holds.symm.trans other_holds)

theorem mem_records (listed : Lists files entries) {c : Container Body}
    : c ∈ entries.filterMap files ↔ ∃ file, file ≠ "" ∧ files file = some c := by
  rw [List.mem_filterMap]
  constructor
  · rintro ⟨file, member, holds⟩
    exact ⟨file, ((listed.all file).mp member).1, holds⟩
  · rintro ⟨file, named, holds⟩
    exact ⟨file, (listed.all file).mpr ⟨named, by simp [holds]⟩, holds⟩

theorem mem_named (listed : Lists files entries) {idt : Ident}
    : idt ∈ (walked files key {} entries).named
      ↔ (∃ file c, file ≠ "" ∧ files file = some c ∧ c.ident = idt) ∧ bears key idt := by
  rw [named_walked, List.nil_append, List.mem_filter, List.mem_map]
  constructor
  · rintro ⟨⟨c, member, is⟩, bearing⟩
    obtain ⟨file, named, holds⟩ := (mem_records listed).mp member
    exact ⟨⟨file, c, named, holds, is⟩, bearing⟩
  · rintro ⟨⟨file, c, named, holds, is⟩, bearing⟩
    exact ⟨⟨c, (mem_records listed).mpr ⟨file, named, holds⟩, is⟩, bearing⟩

theorem nodup_named (placed : Placed files) (listed : Lists files entries)
    : (walked files key {} entries).named.Nodup := by
  have records : (entries.filterMap files).Nodup := by
    refine List.Nodup.filterMap ?_ listed.once
    intro file other c holds other_holds
    rw [← placed _ _ holds, ← placed _ _ other_holds]
  rw [named_walked, List.nil_append]
  refine (List.Nodup.map_on ?_ records).filter _
  intro c member d other same
  obtain ⟨file, -, holds⟩ := (mem_records listed).mp member
  obtain ⟨otherFile, -, other_holds⟩ := (mem_records listed).mp other
  exact placed.eq_of_ident ⟨file, holds⟩ ⟨otherFile, other_holds⟩ same

/-- The one bearer the walk meets is the one it settles on. -/
theorem named_eq_singleton (placed : Placed files) (listed : Lists files entries) {idt : Ident}
    (only : ∀ other, other ∈ (walked files key {} entries).named ↔ other = idt)
    : (walked files key {} entries).named = [idt] := by
  refine List.perm_singleton.mp ?_
  refine (List.perm_ext_iff_of_nodup (nodup_named placed listed) (List.nodup_singleton _)).mpr ?_
  intro other
  rw [only, List.mem_singleton]

theorem qualified_eq_some {ns name : List Char} (cut : qualified key = some (ns, name))
    : key = String.ofList ns ++ "/" ++ String.ofList name := by
  obtain ⟨whole, -⟩ := splitOnce_eq_some cut
  apply String.toList_inj.mp
  simp [whole]

/-- The one bearer a walk met, when no other escaped it. -/
theorem answers_of_named (placed : Placed files) (listed : Lists files entries)
    (shown : qualified key = none → ¬ Hidden files key) {c : Container Body}
    (only : (walked files key {} entries).named = [c.ident]) (stored : Stored files c)
    : Answers files key c := by
  have met : c.ident ∈ (walked files key {} entries).named := by simp [only]
  obtain ⟨⟨file, d, file_named, holds, is⟩, bearing⟩ := (mem_named listed).mp met
  obtain rfl := placed.eq_of_ident ⟨file, holds⟩ stored is
  -- What the walk meets under the name is this record.
  have unique {other : Container Body} {at_file : String} (walkable : at_file ≠ "")
      (is_in : files at_file = some other) (called : bears key other.ident)
      : other = d := by
    have member : other.ident ∈ (walked files key {} entries).named :=
      (mem_named listed).mpr ⟨⟨at_file, other, walkable, is_in, rfl⟩, called⟩
    rw [only, List.mem_singleton] at member
    exact placed.eq_of_ident ⟨_, is_in⟩ stored member
  cases cut : qualified key with
  | some parts =>
      obtain ⟨ns, name⟩ := parts
      have fields : d.namespaceName.toList = ns ∧ d.name.toList = name :=
        (bears_of_qualified cut _).mp bearing
      refine ⟨?_, ?_, .inr (.inr (.inl ?_))⟩
      · intro ns' name' same
        cases cut.symm.trans same
        exact fields
      · intro bare
        cases cut.symm.trans bare
      · rw [qualified_eq_some cut, ← fields.1, ← fields.2]
        simp
  | none =>
      have called : d.name = key := (bears_of_bare cut _).mp bearing
      refine ⟨?_, ?_, .inr (.inl called.symm)⟩
      · intro ns name same
        cases cut.symm.trans same
      · rintro - ⟨a, b, ⟨a_file, a_in⟩, ⟨b_file, b_in⟩, a_named, b_named, apart⟩ -
        have bearer {r : Container Body} (is : r.name = key) : bears key r.ident :=
          (bears_of_bare cut _).mpr is
        refine absurd ?_ (shown cut)
        by_cases a_hidden : a_file = ""
        · have b_met : b_file ≠ "" := by
            rintro rfl
            rw [a_hidden, b_in] at a_in
            exact apart (by rw [Option.some.inj a_in])
          have b_is := unique b_met b_in (bearer b_named)
          refine ⟨a, d, by rw [← a_hidden, a_in], a_named, ⟨file, file_named, holds, called⟩,
            fun other r met r_in r_named => unique met r_in (bearer r_named), ?_⟩
          rwa [← b_is]
        · have a_is := unique a_hidden a_in (bearer a_named)
          have b_hidden : b_file = "" := by
            by_contra b_met
            exact apart (by rw [a_is, unique b_met b_in (bearer b_named)])
          refine ⟨b, d, by rw [← b_hidden, b_in], b_named, ⟨file, file_named, holds, called⟩,
            fun other r met r_in r_named => unique met r_in (bearer r_named), ?_⟩
          rw [← a_is]
          exact Ne.symm apart

/-- A record taken by the start of its id: no record the walk met bears the key as a name. -/
theorem answers_of_hit (listed : Lists files entries) (bare : qualified key = none)
    (unnamed : (walked files key {} entries).named = []) {file : String} {c : Container Body}
    (walkable : file ≠ "") (holds : files file = some c) (starts : key.toList <+: c.id.toList)
    : Answers files key c := by
  refine ⟨?_, ?_, .inr (.inr (.inr starts))⟩
  · intro ns name same
    cases bare.symm.trans same
  · intro _ _ called
    have member : c.ident ∈ (walked files key {} entries).named :=
      (mem_named listed).mpr
        ⟨⟨file, c, walkable, holds, rfl⟩, (bears_of_bare bare _).mpr called⟩
    simp [unnamed] at member

/-- With no file where the key would be, every answer is right when no bearer of the name
escapes the walk.
-/
theorem answers_of_walked (placed : Placed files) (listed : Lists files entries)
    (absent : files (safeKey key) = none) (shown : qualified key = none → ¬ Hidden files key)
    {c : Container Body} (answered : loadAlone files entries key = .loaded c)
    : Answers files key c := by
  obtain ⟨hit, picked, holds⟩ := (loadAlone_walked absent).mp answered
  rcases pick_eq_ok picked with only | ⟨unnamed, bare, member⟩
  · have met : hit ∈ (walked files key {} entries).named := by simp [only]
    obtain ⟨⟨file, d, -, d_holds, rfl⟩, -⟩ := (mem_named listed).mp met
    have same : c = d := by
      rw [show safeKey d.ident.id = file from placed _ _ d_holds, d_holds] at holds
      exact (Option.some.inj holds).symm
    rw [same]
    exact answers_of_named placed listed shown only ⟨file, d_holds⟩
  · rcases mem_hits_walked member with none | ⟨⟨d, d_in, rfl⟩, starts⟩
    · cases none
    · obtain ⟨file, walkable, d_holds⟩ := (mem_records listed).mp d_in
      have same : c = d := by
        rw [show safeKey d.ident.id = file from placed _ _ d_holds, d_holds] at holds
        exact (Option.some.inj holds).symm
      rw [same]
      exact answers_of_hit listed bare unnamed walkable d_holds starts

/-- A bearer that escapes the walk makes it take the other one for the only one. -/
theorem loadAlone_of_hidden (placed : Placed files) (listed : Lists files entries)
    (absent : files (safeKey key) = none) (bare : qualified key = none)
    (hidden : Hidden files key)
    : ∃ c, loadAlone files entries key = .loaded c ∧ ¬ Answers files key c := by
  obtain ⟨missed, c, missed_in, missed_named, ⟨file, walkable, holds, called⟩, only, apart⟩ :=
    hidden
  refine ⟨c, (loadAlone_walked absent).mpr ⟨c.ident, ?_, ?_⟩, ?_⟩
  · have one : (walked files key {} entries).named = [c.ident] := by
      apply named_eq_singleton placed listed
      intro other
      rw [mem_named listed]
      constructor
      · rintro ⟨⟨at_file, d, met, d_in, rfl⟩, bearing⟩
        rw [only at_file d met d_in ((bears_of_bare bare _).mp bearing)]
      · rintro rfl
        exact ⟨⟨file, c, walkable, holds, rfl⟩, (bears_of_bare bare _).mpr called⟩
    rw [Found.pick, one]
  · rw [show safeKey c.ident.id = file from placed _ _ holds, holds]
  · intro answers
    have shared : Shared files key :=
      ⟨missed, c, ⟨_, missed_in⟩, ⟨_, holds⟩, missed_named, called, apart⟩
    have by_id := answers.unguessed bare shared called
    rw [← by_id, placed _ _ holds, holds] at absent
    cases absent

/-- A lookup crosses no tenant exactly when the file the key would name holds a record the key
may answer with or, where there is none, no bearer of a bare name escapes the walk.
-/
theorem load_answers_iff_unmistaken (records : List (Container Body)) (entries : List String)
    (key : String) (listed : Lists (saved records) entries)
    : (∀ c, loadAlone (saved records) entries key = .loaded c → Answers (saved records) key c)
      ↔ Unmistaken (saved records) key := by
  have placed := placed_saved records
  unfold Unmistaken
  cases holds : saved records (safeKey key) with
  | some c =>
      rw [loadAlone_exact holds]
      constructor
      · intro answers
        exact answers c rfl
      · rintro answers d ⟨⟩
        exact answers
  | none =>
      constructor
      · intro answers bare hidden
        obtain ⟨c, answered, wrong⟩ := loadAlone_of_hidden placed listed holds bare hidden
        exact wrong (answers c answered)
      · intro shown c answered
        exact answers_of_walked placed listed holds shown answered

/-- A record with an id of its own, of a name in a namespace. -/
def tenantOf (id ns name : String) : Container Unit := ⟨id, name, ns, 1, ()⟩

def twoOwners : List (Container Unit) :=
  [tenantOf "aaa1" "teamA" "db", tenantOf "bbb2" "teamB" "db"]

/-- Where two tenants own a name the bare name is refused and each qualified one is its own. -/
theorem load_answers_twoOwners
    : Lists (saved twoOwners) ["bbb2", "aaa1"]
      ∧ (∀ c, loadAlone (saved twoOwners) ["bbb2", "aaa1"] "db" = .loaded c →
        Answers (saved twoOwners) "db" c)
      ∧ loadAlone (saved twoOwners) ["bbb2", "aaa1"] "teamA/db"
        = .loaded (tenantOf "aaa1" "teamA" "db") := by
  have listed : Lists (saved twoOwners) ["bbb2", "aaa1"] := by
    refine ⟨by decide, ?_⟩
    intro file
    by_cases first : file = "aaa1"
    · subst first
      decide
    by_cases second : file = "bbb2"
    · subst second
      decide
    · have none : saved twoOwners file = none := by
        simp [saved, twoOwners, tenantOf, first, second,
          show safeKey "aaa1" = "aaa1" by decide, show safeKey "bbb2" = "bbb2" by decide]
      simp [first, second, none]
  refine ⟨listed, (load_answers_iff_unmistaken twoOwners _ "db" listed).mpr ?_, rfl⟩
  rw [Unmistaken, show saved twoOwners (safeKey "db") = none by decide]
  rintro - ⟨missed, c, missed_in, -⟩
  rw [show saved twoOwners "" = none by decide] at missed_in
  cases missed_in

def dashedId : List (Container Unit) := [tenantOf "teamA-db" "teamB" "cache"]

/-- A qualified key of one tenant answered with the record of another, whose id the key becomes
as a file name.
-/
theorem qualified_key_crosses
    : Lists (saved dashedId) ["teamA-db"]
      ∧ loadAlone (saved dashedId) ["teamA-db"] "teamA/db"
        = .loaded (tenantOf "teamA-db" "teamB" "cache")
      ∧ ¬ Answers (saved dashedId) "teamA/db" (tenantOf "teamA-db" "teamB" "cache") := by
  have file : safeKey "teamA/db" = safeKey "teamA-db" :=
    congrArg String.ofList (by decide)
  refine ⟨⟨by decide, ?_⟩, loadAlone_exact (by simp [file, saved, dashedId, tenantOf]), ?_⟩
  · intro file
    by_cases only : file = "teamA-db"
    · subst only
      decide
    · have none : saved dashedId file = none := by
        simp [saved, dashedId, tenantOf, only,
          show safeKey "teamA-db" = "teamA-db" by decide]
      simp [only, none]
  · intro answers
    have tenant := answers.tenant "teamA".toList "db".toList (by decide)
    exact absurd tenant.1 (by decide)

end Delonix.Store
