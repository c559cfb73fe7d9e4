import Delonix.Library.Checks
import Delonix.Secrets.Vault

/-! Where a rotation of the master key stops. Up to the write of the new key the old one is on
disk, and from there on the new one; what is readable at a stop is what was not written under the
other key.
-/

namespace Delonix.Secrets

open Delonix.Library.Checks
open Delonix.Library.Stops

variable {Key : Type}

theorem key_after_of_notMem (disk : Disk Key) {writes : List (Write Key)}
    (none : ∀ key, .key key ∉ writes)
    : (disk.after writes).key = disk.key := by
  refine foldl_untouched (fun write member disk => ?_) disk
  cases write with
  | key key => exact absurd member (none key)
  | cred name blob => rfl
  | secret name blob => rfl

theorem creds_write (disk : Disk Key) (write : Write Key) (name : String)
    : (disk.write write).creds name
      = match write with
        | .cred other blob => if name = other then some blob else disk.creds name
        | _ => disk.creds name := by
  cases write with
  | key key => rfl
  | secret other blob => rfl
  | cred other blob =>
      by_cases same : name = other
      · simp [Disk.write, same]
      · simp [Disk.write, same]

theorem secrets_write (disk : Disk Key) (write : Write Key) (name : String)
    : (disk.write write).secrets name
      = match write with
        | .secret other blob => if name = other then some blob else disk.secrets name
        | _ => disk.secrets name := by
  cases write with
  | key key => rfl
  | cred other blob => rfl
  | secret other blob =>
      by_cases same : name = other
      · simp [Disk.write, same]
      · simp [Disk.write, same]

/-- What is written of a file when every write of it has one content. -/
theorem creds_after (disk : Disk Key) {writes : List (Write Key)} {name : String}
    {blob : Blob Key String} (one : ∀ other, .cred name other ∈ writes → other = blob)
    : ((∀ other, .cred name other ∉ writes) → (disk.after writes).creds name = disk.creds name)
      ∧ ((∃ other, .cred name other ∈ writes) → (disk.after writes).creds name = some blob) := by
  let file : Disk Key → Option (Blob Key String) := fun disk => disk.creds name
  have each : ∀ write ∈ writes, (∀ disk : Disk Key, file (disk.write write) = file disk)
      ∨ ∃ other, write = .cred name other := by
    intro write _
    cases write with
    | key key => exact .inl fun _ => rfl
    | secret other blob => exact .inl fun _ => rfl
    | cred other blob =>
        by_cases same : name = other
        · exact .inr ⟨blob, by rw [same]⟩
        · refine .inl fun disk => ?_
          simp [file, creds_write, same]
  constructor
  · intro none
    refine foldl_untouched (fun write member => (each write member).resolve_right ?_) disk
    rintro ⟨other, rfl⟩
    exact none other member
  · rintro ⟨other, member⟩
    have sets (other : Blob Key String) (member : .cred name other ∈ writes) (disk : Disk Key)
        : file (disk.write (.cred name other)) = some blob := by
      simp [file, creds_write, one other member]
    refine foldl_set (fun write member => (each write member).imp_right ?_)
      ⟨_, member, sets other member⟩ disk
    rintro ⟨other, rfl⟩
    exact sets other member

theorem secrets_after (disk : Disk Key) {writes : List (Write Key)} {name : String}
    {blob : Blob Key Secret} (one : ∀ other, .secret name other ∈ writes → other = blob)
    : ((∀ other, .secret name other ∉ writes) →
        (disk.after writes).secrets name = disk.secrets name)
      ∧ ((∃ other, .secret name other ∈ writes) →
        (disk.after writes).secrets name = some blob) := by
  let file : Disk Key → Option (Blob Key Secret) := fun disk => disk.secrets name
  have each : ∀ write ∈ writes, (∀ disk : Disk Key, file (disk.write write) = file disk)
      ∨ ∃ other, write = .secret name other := by
    intro write _
    cases write with
    | key key => exact .inl fun _ => rfl
    | cred other blob => exact .inl fun _ => rfl
    | secret other blob =>
        by_cases same : name = other
        · exact .inr ⟨blob, by rw [same]⟩
        · refine .inl fun disk => ?_
          simp [file, secrets_write, same]
  constructor
  · intro none
    refine foldl_untouched (fun write member => (each write member).resolve_right ?_) disk
    rintro ⟨other, rfl⟩
    exact none other member
  · rintro ⟨other, member⟩
    have sets (other : Blob Key Secret) (member : .secret name other ∈ writes) (disk : Disk Key)
        : file (disk.write (.secret name other)) = some blob := by
      simp [file, secrets_write, one other member]
    refine foldl_set (fun write member => (each write member).imp_right ?_)
      ⟨_, member, sets other member⟩ disk
    rintro ⟨other, rfl⟩
    exact sets other member

/-- The writes a stop has behind it: some of the credentials, or all of them, the key and some of
the secrets.
-/
theorem prefix_cases {creds secrets done : List (Write Key)} {write : Write Key}
    (stopped : done <+: creds ++ write :: secrets)
    : done <+: creds ∨ ∃ some_, some_ <+: secrets ∧ done = creds ++ write :: some_ := by
  obtain ⟨rest, split⟩ := stopped
  rcases List.append_eq_append_iff.mp split with ⟨more, is, -⟩ | ⟨more, is, left⟩
  · exact .inl ⟨more, is.symm⟩
  · cases more with
    | nil =>
        rw [List.append_nil] at is
        rw [is]
        exact .inl List.prefix_rfl
    | cons head some_ =>
        obtain ⟨rfl, tail⟩ := List.cons.inj left
        exact .inr ⟨some_, ⟨rest, tail.symm⟩, is⟩

/-- The file of a secret under the new key. -/
def resealed (new : Key) (s : Secret) : Blob Key Secret :=
  .sealed new { s with version := max s.version 1 }

theorem mem_reseal {new : Key} {secrets : List Secret} {write : Write Key}
    (member : write ∈ (reseal new secrets).1)
    : ∃ s ∈ secrets, write = .secret s.name (resealed new s) := by
  induction secrets with
  | nil => cases member
  | cons s rest ih =>
      rw [reseal] at member
      split at member
      · cases member
      · rcases List.mem_cons.mp member with rfl | later
        · exact ⟨s, List.mem_cons_self, rfl⟩
        · obtain ⟨other, inRest, is⟩ := ih later
          exact ⟨other, List.mem_cons_of_mem _ inRest, is⟩

theorem reseal_all {new : Key} {secrets : List Secret} (passed : (reseal new secrets).2 = none)
    {s : Secret} (member : s ∈ secrets)
    : .secret s.name (resealed new s) ∈ (reseal new secrets).1 := by
  induction secrets with
  | nil => cases member
  | cons head rest ih =>
      rw [reseal] at passed ⊢
      split at passed
      · cases passed
      case h_2 =>
        rcases List.mem_cons.mp member with rfl | later
        · exact List.mem_cons_self
        · exact List.mem_cons_of_mem _ (ih passed later)

section

variable [DecidableEq Key] {disk : Disk Key} {key new : Key}

theorem mem_readCreds {names : List String} {plain : List (String × String)}
    (read : readCreds disk key names = .ok plain) {name value : String}
    : (name, value) ∈ plain ↔ name ∈ names ∧ get disk key name = .ok (some value) := by
  induction names generalizing plain with
  | nil =>
      cases read
      simp
  | cons head rest ih =>
      rw [readCreds] at read
      obtain ⟨found, first, read⟩ := bind_eq_ok.mp read
      obtain ⟨later, rest, read⟩ := bind_eq_ok.mp read
      cases found with
      | none =>
          cases read
          rw [ih rest, List.mem_cons]
          constructor
          · rintro ⟨member, has⟩
            exact ⟨.inr member, has⟩
          · rintro ⟨rfl | member, has⟩
            · cases first.symm.trans has
            · exact ⟨member, has⟩
      | some value' =>
          cases read
          rw [List.mem_cons, ih rest, List.mem_cons]
          constructor
          · rintro (same | ⟨member, has⟩)
            · cases same
              exact ⟨.inl rfl, first⟩
            · exact ⟨.inr member, has⟩
          · rintro ⟨rfl | member, has⟩
            · cases first.symm.trans has
              exact .inl rfl
            · exact .inr ⟨member, has⟩

/-- The credentials, then the key, then the secrets, each with the content it had. -/
structure Rotates (disk : Disk Key) (key new : Key) (names credNames : List String)
    (creds secrets : List (Write Key)) : Prop where
  creds : ∀ write, write ∈ creds ↔ ∃ name value, name ∈ credNames
    ∧ get disk key name = .ok (some value) ∧ write = .cred name (.sealed new value)
  secrets : ∀ write ∈ secrets, ∃ name ∈ names, ∃ s, load disk key name = .ok s
    ∧ write = .secret s.name (resealed new s)

theorem rotateKey_writes (disk : Disk Key) (key new : Key) (names credNames : List String)
    : ((rotateKey disk key new names credNames).1 = []
        ∧ (rotateKey disk key new names credNames).2 ≠ none)
      ∨ ∃ creds secrets, (rotateKey disk key new names credNames).1 = creds ++ .key new :: secrets
        ∧ Rotates disk key new names credNames creds secrets
        ∧ ((rotateKey disk key new names credNames).2 = none →
          ∀ name ∈ names, ∀ s, load disk key name = .ok s →
            .secret s.name (resealed new s) ∈ secrets) := by
  cases loads : names.mapM (load disk key) with
  | error refusal =>
      refine .inl ?_
      rw [rotateKey, loads]
      exact ⟨rfl, Option.some_ne_none refusal⟩
  | ok loaded =>
      cases reads : readCreds disk key credNames with
      | error refusal =>
          refine .inl ?_
          simp [rotateKey, loads, reads]
      | ok plain =>
          have all := mapM_eq_ok.mp loads
          refine .inr ⟨plain.map fun entry => .cred entry.1 (.sealed new entry.2),
            (reseal new loaded).1, ?_, ⟨?_, ?_⟩, ?_⟩
          · rw [rotateKey, loads]
            simp only [reads]
          · intro write
            simp only [List.mem_map, Prod.exists, mem_readCreds reads]
            constructor
            · rintro ⟨name, value, ⟨member, has⟩, rfl⟩
              exact ⟨name, value, member, has, rfl⟩
            · rintro ⟨name, value, member, has, rfl⟩
              exact ⟨name, value, ⟨member, has⟩, rfl⟩
          · intro write member
            obtain ⟨s, inLoaded, is⟩ := mem_reseal member
            obtain ⟨name, inNames, has⟩ := exists_of_forall₂_right all inLoaded
            exact ⟨name, inNames, s, has, is⟩
          · intro passed name member s has
            have passed : (reseal new loaded).2 = none := by
              rw [rotateKey, loads] at passed
              simpa only [reads] using passed
            obtain ⟨other, inLoaded, also⟩ := exists_of_forall₂_left all member
            cases has.symm.trans also
            exact reseal_all passed inLoaded

/-- What is readable where a rotation stopped. Until the new key is written every secret is, and
every credential that is not yet under the new key; from then on every credential is, and every
secret that is under the new key.
-/
structure Survives (disk : Disk Key) (key new : Key) (done : List (Write Key)) : Prop where
  unrotated : .key new ∉ done → (disk.after done).key = some key
    ∧ (∀ name s, load disk key name = .ok s → load (disk.after done) key name = .ok s)
    ∧ ∀ name value, get disk key name = .ok (some value) →
      (∀ blob, .cred name blob ∉ done) → get (disk.after done) key name = .ok (some value)
  rotated : .key new ∈ done → (disk.after done).key = some new
    ∧ (∀ name value, get disk key name = .ok (some value) →
      get (disk.after done) new name = .ok (some value))
    ∧ ∀ name s, load disk key name = .ok s → (∃ blob, .secret name blob ∈ done) →
      load (disk.after done) new name = .ok { s with version := max s.version 1 }

theorem load_after_same {done : List (Write Key)} {name : String}
    (same : (disk.after done).secrets name = disk.secrets name) (key : Key)
    : load (disk.after done) key name = load disk key name := by
  rw [load, load, same]

theorem get_after_same {done : List (Write Key)} {name : String}
    (same : (disk.after done).creds name = disk.creds name) (key : Key)
    : get (disk.after done) key name = get disk key name := by
  rw [get, get, same]

theorem validName_of_load {name : String} {s : Secret} (has : load disk key name = .ok s)
    : validName name = true := by
  by_contra invalid
  rw [load, if_neg invalid] at has
  cases has

theorem validCredName_of_get {name : String} {value : Option String}
    (has : get disk key name = .ok value)
    : validCredName name = true := by
  by_contra invalid
  rw [get, if_neg invalid] at has
  cases has

theorem creds_of_get {name value : String} (has : get disk key name = .ok (some value))
    : (disk.creds name).isSome := by
  cases file : disk.creds name with
  | some blob => rfl
  | none =>
      rw [get, if_pos (validCredName_of_get has), file] at has
      cases has

theorem get_of_sealed {disk : Disk Key} {name value : String} (valid : validCredName name = true)
    (file : disk.creds name = some (.sealed key value))
    : get disk key name = .ok (some value) := by
  rw [get, if_pos valid, file]
  simp

theorem load_of_sealed {disk : Disk Key} {name : String} {s : Secret}
    (valid : validName name = true) (file : disk.secrets name = some (.sealed key s))
    : load disk key name = .ok s := by
  rw [load, if_pos valid, file]
  simp [decode]

section

variable {names credNames : List String} {creds secrets : List (Write Key)}

theorem Rotates.cred (rotates : Rotates disk key new names credNames creds secrets)
    {done : List (Write Key)} (within : ∀ write ∈ done, write ∈ creds ++ .key new :: secrets)
    {name value : String} (has : get disk key name = .ok (some value)) {blob : Blob Key String}
    (member : .cred name blob ∈ done)
    : blob = .sealed new value := by
  rcases List.mem_append.mp (within _ member) with ofCreds | other
  · obtain ⟨name', value', -, has', is⟩ := (rotates.creds _).mp ofCreds
    cases is
    cases has.symm.trans has'
    rfl
  · rcases List.mem_cons.mp other with is | ofSecrets
    · cases is
    · obtain ⟨_, _, _, _, is⟩ := rotates.secrets _ ofSecrets
      cases is

theorem Rotates.secret (rotates : Rotates disk key new names credNames creds secrets)
    (named : ∀ name s, load disk key name = .ok s → s.name = name)
    {done : List (Write Key)} (within : ∀ write ∈ done, write ∈ creds ++ .key new :: secrets)
    {name : String} {s : Secret} (has : load disk key name = .ok s) {blob : Blob Key Secret}
    (member : .secret name blob ∈ done)
    : blob = resealed new s := by
  rcases List.mem_append.mp (within _ member) with ofCreds | other
  · obtain ⟨_, _, _, _, is⟩ := (rotates.creds _).mp ofCreds
    cases is
  · rcases List.mem_cons.mp other with is | ofSecrets
    · cases is
    · obtain ⟨name', _, s', has', is⟩ := rotates.secrets _ ofSecrets
      cases is
      rw [named name' s' has'] at has
      cases has.symm.trans has'
      rfl

/-- Before the key: only credentials are written. -/
theorem Rotates.survives_unrotated (rotates : Rotates disk key new names credNames creds secrets)
    (opened : disk.key = some key) {done : List (Write Key)} (within : ∀ write ∈ done, write ∈ creds)
    : Survives disk key new done := by
  have only : ∀ write ∈ done, ∃ name value, write = .cred name (.sealed new value) := by
    intro write member
    obtain ⟨name, value, -, -, is⟩ := (rotates.creds _).mp (within write member)
    exact ⟨name, value, is⟩
  have noKey (k : Key) : .key k ∉ done := by
    intro member
    obtain ⟨_, _, is⟩ := only _ member
    cases is
  have noSecret (name : String) (blob : Blob Key Secret) : .secret name blob ∉ done := by
    intro member
    obtain ⟨_, _, is⟩ := only _ member
    cases is
  constructor
  · intro _
    refine ⟨(key_after_of_notMem disk noKey).trans opened, ?_, ?_⟩
    · intro name s has
      have kept := (secrets_after disk
        (fun other member => absurd member (noSecret name other) : ∀ other,
          .secret name other ∈ done → other = .corrupt)).1 (noSecret name)
      rw [load_after_same kept, has]
    · intro name value has untouched
      have kept := (creds_after disk
        (fun other member => absurd member (untouched other) : ∀ other,
          .cred name other ∈ done → other = .corrupt)).1 untouched
      rw [get_after_same kept, has]
  · intro member
    exact absurd member (noKey new)

/-- With the key on disk every credential is under it. -/
theorem Rotates.survives_rotated (rotates : Rotates disk key new names credNames creds secrets)
    (named : ∀ name s, load disk key name = .ok s → s.name = name)
    (listed : ∀ name, (disk.creds name).isSome → name ∈ credNames)
    {some_ : List (Write Key)} (within : ∀ write ∈ some_, write ∈ secrets)
    : Survives disk key new (creds ++ .key new :: some_) := by
  have here : .key new ∈ creds ++ .key new :: some_ := by simp
  have subset : ∀ write ∈ creds ++ .key new :: some_, write ∈ creds ++ .key new :: secrets := by
    intro write member
    rcases List.mem_append.mp member with ofCreds | other
    · exact List.mem_append_left _ ofCreds
    · refine List.mem_append_right _ ?_
      rcases List.mem_cons.mp other with rfl | ofSecrets
      · exact List.mem_cons_self
      · exact List.mem_cons_of_mem _ (within write ofSecrets)
  constructor
  · intro absent
    exact absurd here absent
  · intro _
    refine ⟨?_, ?_, ?_⟩
    · have noKey (k : Key) : .key k ∉ some_ := by
        intro member
        obtain ⟨_, _, _, _, is⟩ := rotates.secrets _ (within _ member)
        cases is
      rw [Disk.after, List.foldl_append, List.foldl_cons]
      exact key_after_of_notMem _ noKey
    · intro name value has
      have written : .cred name (.sealed new value) ∈ creds ++ .key new :: some_ :=
        List.mem_append_left _ ((rotates.creds _).mpr
          ⟨name, value, listed name (creds_of_get has), has, rfl⟩)
      have file := (creds_after disk fun other member =>
        rotates.cred subset has member).2 ⟨_, written⟩
      exact get_of_sealed (validCredName_of_get has) file
    · intro name s has written
      have file := (secrets_after disk fun other member =>
        rotates.secret named subset has member).2 written
      exact load_of_sealed (validName_of_load has) file

end

theorem load_isSome {name : String} {s : Secret} (has : load disk key name = .ok s)
    : (disk.secrets name).isSome := by
  cases file : disk.secrets name with
  | some blob => rfl
  | none =>
      rw [load, if_pos (validName_of_load has), file] at has
      cases has

/-- A rotation may stop after any of its writes; when it does not stop and refuses nothing, every
secret and credential is under the new key.
-/
theorem rotation_survives {names credNames : List String} (opened : disk.key = some key)
    (named : ∀ name s, load disk key name = .ok s → s.name = name)
    (listed : ∀ name, (disk.secrets name).isSome → name ∈ names)
    (listedCreds : ∀ name, (disk.creds name).isSome → name ∈ credNames)
    {done : List (Write Key)} (stopped : done <+: (rotateKey disk key new names credNames).1)
    : Survives disk key new done
      ∧ (done = (rotateKey disk key new names credNames).1 →
        (rotateKey disk key new names credNames).2 = none → (disk.after done).key = some new
        ∧ ∀ name s, load disk key name = .ok s →
          load (disk.after done) new name = .ok { s with version := max s.version 1 }) := by
  rcases rotateKey_writes disk key new names credNames
    with ⟨none, refused⟩ | ⟨creds, secrets, is, rotates, all⟩
  · rw [none, List.prefix_nil] at stopped
    subst stopped
    refine ⟨⟨?_, ?_⟩, ?_⟩
    · exact fun _ => ⟨opened, fun _ _ has => has, fun _ _ has _ => has⟩
    · intro member
      cases member
    · intro _ passed
      exact absurd passed refused
  · rw [is] at stopped ⊢
    have survives : Survives disk key new done := by
      rcases prefix_cases stopped with early | ⟨some_, within, rfl⟩
      · exact rotates.survives_unrotated opened fun write member => early.subset member
      · exact rotates.survives_rotated named listedCreds fun write member => within.subset member
    refine ⟨survives, ?_⟩
    intro complete passed
    have rotated := survives.rotated (by rw [complete]; simp)
    refine ⟨rotated.1, ?_⟩
    intro name s has
    refine rotated.2.2 name s has ?_
    have written := all passed name (listed name (load_isSome has)) s has
    rw [named name s has] at written
    rw [complete]
    exact ⟨_, List.mem_append_right _ (List.mem_cons_of_mem _ written)⟩

end

/-- A host with a credential and a secret, and a record from before versions. -/
def host : Disk Nat where
  key := some 1
  creds := fun name => if name = "ngrok" then some (.sealed 1 "token") else none
  secrets := fun name =>
    if name = "db" then some (.sealed 1 ⟨"db", [("PASS", "x")], 4⟩)
    else if name = "old" then some (.plain ⟨"old", [("K", "v")], 0⟩)
    else none

theorem host_named (name : String) (s : Secret) (has : load host 1 name = .ok s)
    : s.name = name := by
  unfold load at has
  split at has
  case isFalse => cases has
  case isTrue =>
    by_cases db : name = "db"
    · subst db
      cases has
      rfl
    · by_cases old : name = "old"
      · subst old
        cases has
        rfl
      · simp [host, db, old] at has

theorem host_listed (name : String) (has : (host.secrets name).isSome) : name ∈ ["db", "old"] := by
  by_cases db : name = "db"
  · simp [db]
  · by_cases old : name = "old"
    · simp [old]
    · simp [host, db, old] at has

theorem host_listedCreds (name : String) (has : (host.creds name).isSome) : name ∈ ["ngrok"] := by
  by_cases ngrok : name = "ngrok"
  · simp [ngrok]
  · simp [host, ngrok] at has

theorem rotation_survives_host
    : (rotateKey host 1 2 ["db", "old"] ["ngrok"]).2 = none
      ∧ Survives host 1 2 (rotateKey host 1 2 ["db", "old"] ["ngrok"]).1 :=
  ⟨by decide +kernel,
    (rotation_survives rfl host_named host_listed host_listedCreds List.prefix_rfl).1⟩

/-- Readable with the key on disk, with its value and version. -/
def Unharmed [DecidableEq Key] (disk : Disk Key) (key : Key) (after : Disk Key) : Prop :=
  ∃ now, after.key = some now
    ∧ (∀ name s, load disk key name = .ok s → load after now name = .ok s)
    ∧ ∀ name value, get disk key name = .ok (some value) → get after now name = .ok (some value)

/-- A credential under the new key is unreadable until that is on disk, a secret under the old one
once it is, and a record from before versions comes out with version 1.
-/
theorem rotation_loses
    : (∃ done, done <+: (rotateKey host 1 2 ["db", "old"] ["ngrok"]).1
        ∧ .key 2 ∉ done ∧ ¬ Unharmed host 1 (host.after done))
      ∧ (∃ done, done <+: (rotateKey host 1 2 ["db", "old"] ["ngrok"]).1
        ∧ .key 2 ∈ done ∧ get (host.after done) 2 "ngrok" = .ok (some "token")
        ∧ ¬ Unharmed host 1 (host.after done))
      ∧ load (host.after (rotateKey host 1 2 ["db", "old"] ["ngrok"]).1) 2 "old"
        = .ok ⟨"old", [("K", "v")], 1⟩ := by
  have writes : (rotateKey host 1 2 ["db", "old"] ["ngrok"]).1
      = [.cred "ngrok" (.sealed 2 "token"), .key 2,
        .secret "db" (.sealed 2 ⟨"db", [("PASS", "x")], 4⟩),
        .secret "old" (.sealed 2 ⟨"old", [("K", "v")], 1⟩)] := by
    rfl
  have token : get host 1 "ngrok" = .ok (some "token") := by decide +kernel
  have pass : load host 1 "db" = .ok ⟨"db", [("PASS", "x")], 4⟩ := by decide +kernel
  rw [writes]
  refine ⟨⟨[.cred "ngrok" (.sealed 2 "token")], ?_, ?_, ?_⟩,
    ⟨[.cred "ngrok" (.sealed 2 "token"), .key 2], ?_, ?_, ?_, ?_⟩, ?_⟩
  · exact ⟨_, rfl⟩
  · simp
  · rintro ⟨now, is, -, creds⟩
    cases is
    have lost : get (host.after [.cred "ngrok" (.sealed 2 "token")]) 1 "ngrok"
        = .error .vault := by
      decide +kernel
    cases lost.symm.trans (creds "ngrok" "token" token)
  · exact ⟨_, rfl⟩
  · simp
  · decide +kernel
  · rintro ⟨now, is, secrets, -⟩
    cases is
    have lost : load (host.after [.cred "ngrok" (.sealed 2 "token"), .key 2]) 2 "db"
        = .error .vault := by
      decide +kernel
    cases lost.symm.trans (secrets "db" _ pass)
  · decide +kernel

end Delonix.Secrets
