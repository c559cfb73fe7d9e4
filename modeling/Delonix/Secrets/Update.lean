import Delonix.Secrets.Vault
import Mathlib.Data.List.Basic

/-! The read-modify-write of one secret, over the bytes of its file. Whatever keeps a secret from
being read counts as a secret that is not there yet: the change is made to an empty one, and what
the file held is written over.
-/

namespace Delonix.Secrets

/-- The file of a secret. -/
inductive File where
  | absent
  /-- It is there, and reading it fails. -/
  | unreadable
  | holds (bytes : List UInt8)
deriving DecidableEq

/-- The vault under the host's key, and the reader and writer of JSON. -/
structure Codec where
  unsealBytes : List UInt8 → Option (List UInt8)
  sealBytes : List UInt8 → Option (List UInt8)
  fromSlice : List UInt8 → Option Secret
  toVec : Secret → Option (List UInt8)

inductive Failure where
  | refused (refusal : Refusal)
  | io
  | vault
  | json
deriving DecidableEq

def sealedMagic : List UInt8 := "DLXSEC1\n".toList.map Char.toUInt8

/-- The secrets directory. -/
abbrev Files := String → File

variable (codec : Codec)

/-- `SecretStore::decode`. -/
def decodeBytes (bytes : List UInt8) : Except Failure Secret :=
  match bytes.dropPrefix? sealedMagic with
  | some sealed =>
      match codec.unsealBytes sealed with
      | none => .error .vault
      | some plain => (codec.fromSlice plain).elim (.error .json) .ok
  | none => (codec.fromSlice bytes).elim (.error .json) .ok

/-- `SecretStore::load`. -/
def loadSecret (files : Files) (name : String) : Except Failure Secret :=
  if validName name then
    match files name with
    | .absent => .error (.refused (.noSuchSecret name))
    | .unreadable => .error .io
    | .holds bytes => decodeBytes codec bytes
  else .error (.refused (.invalidSecretName name))

/-- `SecretStore::save`. `lands` is whether the file can be replaced. -/
def saveSecret (lands : Bool) (files : Files) (s : Secret) : Except Failure Unit × Files :=
  match checkSecret s with
  | .error refusal => (.error (.refused refusal), files)
  | .ok _ =>
      let previous := (loadSecret codec files s.name).mapError fun _ => Refusal.vault
      match codec.toVec { s with version := assignVersion none previous s } with
      | none => (.error .json, files)
      | some plain =>
          match codec.sealBytes plain with
          | none => (.error .vault, files)
          | some sealed =>
              if lands then
                (.ok (), Function.update files s.name (.holds (sealedMagic ++ sealed)))
              else (.error .io, files)

/-- The secret `update` hands to the change. -/
def starting (files : Files) (name : String) : Secret :=
  match loadSecret codec files name with
  | .ok s => s
  | .error _ => ⟨name, [], 0⟩

/-- `SecretStore::update`. The change says what it makes of the secret and whether to write it. -/
def updateSecret (lands : Bool) (files : Files) (name : String) (f : Secret → Secret × Bool)
    : Except Failure Secret × Files :=
  if validName name then
    let (s, writes) := f (starting codec files name)
    if writes then
      let (result, files) := saveSecret codec lands files s
      (result.map fun _ => s, files)
    else (.ok s, files)
  else (.error (.refused (.invalidSecretName name)), files)

/-- The secret cannot be read. -/
def Fails (files : Files) (name : String) : Prop :=
  ∃ failure, loadSecret codec files name = .error failure

/-- The change is made to this secret: what the update answers or writes depends on what the change
makes of it.
-/
def HandsOver (lands : Bool) (files : Files) (name : String) (s : Secret) : Prop :=
  ∃ f g : Secret → Secret × Bool,
    (∀ other, other ≠ s → f other = g other)
      ∧ updateSecret codec lands files name f ≠ updateSecret codec lands files name g

/-- A file that is there and cannot be read is an error, and stays as it is; the change begins with
an empty secret, other than one that was read, only where there is no file.
-/
def KeepsUnread (lands : Bool) (files : Files) (name : String) (f : Secret → Secret × Bool)
    : Prop :=
  (files name ≠ .absent → Fails codec files name →
    (∃ failure, (updateSecret codec lands files name f).1 = .error failure)
      ∧ (updateSecret codec lands files name f).2 name = files name)
  ∧ (HandsOver codec lands files name ⟨name, [], 0⟩ →
      loadSecret codec files name ≠ .ok ⟨name, [], 0⟩ → files name = .absent)

variable {codec} {lands : Bool} {files : Files} {name : String} {f g : Secret → Secret × Bool}

/-- A change is asked for one secret only. -/
theorem updateSecret_congr
    (same : validName name = true → f (starting codec files name) = g (starting codec files name))
    : updateSecret codec lands files name f = updateSecret codec lands files name g := by
  unfold updateSecret
  cases valid : validName name with
  | false => rfl
  | true => rw [same valid]

theorem updateSecret_discarded (valid : validName name = true)
    (keeps : (f (starting codec files name)).2 = false)
    : updateSecret codec lands files name f = (.ok (f (starting codec files name)).1, files) := by
  rw [updateSecret, if_pos valid]
  dsimp only
  rw [if_neg (by simp [keeps])]

/-- Two changes that write nothing tell the secret they are given by what they answer. -/
theorem handsOver_iff {s : Secret}
    : HandsOver codec lands files name s
      ↔ validName name = true ∧ starting codec files name = s := by
  constructor
  · rintro ⟨f, g, same, differ⟩
    by_contra elsewhere
    refine differ (updateSecret_congr fun valid => same _ fun is => elsewhere ⟨valid, is⟩)
  · rintro ⟨valid, rfl⟩
    let other : Secret :=
      { starting codec files name with version := (starting codec files name).version + 1 }
    refine ⟨fun s => (s, false),
      fun s => (if s = starting codec files name then other else s, false), ?_, ?_⟩
    · exact fun s ne => congrArg (·, false) (if_neg ne).symm
    · rw [updateSecret_discarded valid rfl, updateSecret_discarded valid rfl, if_pos rfl]
      intro equal
      have versions := congrArg Secret.version (Except.ok.inj (Prod.mk.inj equal).1)
      exact absurd versions (Nat.ne_of_lt (Nat.lt_succ_self _))

theorem starting_of_fails (fails : Fails codec files name)
    : starting codec files name = ⟨name, [], 0⟩ := by
  obtain ⟨failure, fails⟩ := fails
  rw [starting, fails]

/-- What cannot be read is kept exactly where there is nothing of the kind: the name is none of a
secret, there is no file, or it can be read.
-/
theorem keepsUnread_iff (codec : Codec) (lands : Bool) (files : Files) (name : String)
    (f : Secret → Secret × Bool)
    : KeepsUnread codec lands files name f
      ↔ validName name = false ∨ files name = .absent
        ∨ ∃ s, loadSecret codec files name = .ok s := by
  constructor
  · intro keeps
    cases valid : validName name with
    | false => exact .inl rfl
    | true =>
        cases read : loadSecret codec files name with
        | ok s => exact .inr (.inr ⟨s, rfl⟩)
        | error failure =>
            have empty := starting_of_fails ⟨failure, read⟩
            refine .inr (.inl (keeps.2 (handsOver_iff.mpr ⟨valid, empty⟩) ?_))
            simp [read]
  · intro fine
    rcases fine with invalid | absent | ⟨s, read⟩
    · refine ⟨fun _ _ => ?_, fun given _ => ?_⟩
      · rw [updateSecret, if_neg (by simp [invalid])]
        exact ⟨⟨_, rfl⟩, rfl⟩
      · rw [(handsOver_iff.mp given).1] at invalid
        cases invalid
    · exact ⟨fun present => absurd absent present, fun _ _ => absent⟩
    · refine ⟨fun _ fails => ?_, fun given unread => ?_⟩
      · obtain ⟨failure, fails⟩ := fails
        rw [read] at fails
        cases fails
      · have is := (handsOver_iff.mp given).2
        rw [starting, read] at is
        exact absurd (is ▸ read) unread

/-- A vault that seals nothing and a reader that knows one secret. -/
def plainCodec : Codec where
  unsealBytes sealed := if sealed = [7] then none else some sealed
  sealBytes plain := some plain
  fromSlice plain := if plain = [1] then some ⟨"db", [("A", "1"), ("B", "2")], 3⟩ else none
  toVec s := some (s.data.flatMap fun pair => pair.1.toList.map Char.toUInt8)

/-- A secret sealed under another key loses its pairs to the one that is set. -/
theorem unread_secret_lost
    : ¬ ∀ codec lands files name f, KeepsUnread codec lands files name f := by
  intro all
  let files : Files := fun _ => .holds (sealedMagic ++ [7])
  have keeps := all plainCodec true files "db" fun s => ({ s with data := [("A", "1")] }, true)
  have fails : Fails plainCodec files "db" := ⟨.vault, by decide⟩
  have lost := (keeps.1 (by simp [files]) fails).2
  revert lost
  decide

end Delonix.Secrets
