import Delonix.Library.Checks
import Mathlib.Logic.Function.Basic

/-! Named secrets and credentials, sealed under one master key of the host. A sealed file opens
under the key it was sealed with and under no other; a secret from before encryption is plain. The
two stores are one disk here: the key file, a file per credential and a file per secret.
-/

namespace Delonix.Secrets

/-- A secret; its pairs are the map's, in the order of their keys. -/
structure Secret where
  name : String
  data : List (String × String)
  version : Nat
deriving DecidableEq

/-- What a file holds. -/
inductive Blob (Key Value : Type) where
  | sealed (key : Key) (value : Value)
  /-- Without the header of a sealed file. -/
  | plain (value : Value)
  | corrupt
deriving DecidableEq

variable {Key : Type}

structure Disk (Key : Type) where
  key : Option Key
  creds : String → Option (Blob Key String)
  secrets : String → Option (Blob Key Secret)

/-- `valid_name`: ASCII letters, digits, `.`, `_` and `-`, at most 64 of them. -/
def validName (n : String) : Bool :=
  !n.isEmpty && n.utf8ByteSize ≤ 64
    && n.toList.all fun c => c.isAlphanum || c == '.' || c == '_' || c == '-'

def validEnvKey (k : String) : Bool :=
  match k.toList with
  | [] => false
  | c :: rest => (c.isAlpha || c == '_') && rest.all fun c => c.isAlphanum || c == '_'

def validCredName (n : String) : Bool :=
  !n.isEmpty && n.utf8ByteSize ≤ 96
    && n.toList.all fun c =>
      c.isLower || c.isDigit || c == '.' || c == '_' || c == '-' || c == ':'

inductive Refusal where
  | invalidSecretName (name : String)
  | invalidEnvKey (key : String)
  | invalidCredentialName (name : String)
  | noSuchSecret (name : String)
  | vault
deriving DecidableEq

section

variable [DecidableEq Key]

/-- `decode`: a sealed file needs the key it was sealed with. -/
def decode (key : Key) : Blob Key Secret → Except Refusal Secret
  | .sealed under secret => if under = key then .ok secret else .error .vault
  | .plain secret => .ok secret
  | .corrupt => .error .vault

/-- `SecretStore::load`. -/
def load (disk : Disk Key) (key : Key) (name : String) : Except Refusal Secret :=
  if validName name then
    match disk.secrets name with
    | none => .error (.noSuchSecret name)
    | some blob => decode key blob
  else .error (.invalidSecretName name)

/-- `CredVault::get`: `none` without a file. A credential is always sealed. -/
def get (disk : Disk Key) (key : Key) (name : String) : Except Refusal (Option String) :=
  if validCredName name then
    match disk.creds name with
    | none => .ok none
    | some (.sealed under value) => if under = key then .ok (some value) else .error .vault
    | some _ => .error .vault
  else .error (.invalidCredentialName name)

end

/-- One file written, whole or not at all. -/
inductive Write (Key : Type) where
  | key (key : Key)
  | cred (name : String) (blob : Blob Key String)
  | secret (name : String) (blob : Blob Key Secret)

def Disk.write (disk : Disk Key) : Write Key → Disk Key
  | .key key => { disk with key := some key }
  | .cred name blob => { disk with creds := Function.update disk.creds name (some blob) }
  | .secret name blob => { disk with secrets := Function.update disk.secrets name (some blob) }

/-- The checks of `SecretStore::write`. -/
def checkSecret (s : Secret) : Except Refusal Unit :=
  if validName s.name then
    match s.data.find? fun pair => !validEnvKey pair.1 with
    | some pair => .error (.invalidEnvKey pair.1)
    | none => .ok ()
  else .error (.invalidSecretName s.name)

/-- The version `SecretStore::write` assigns: the one it is told to keep, or the one that follows
from what is stored. A record from before versions has 0 and counts as 1.
-/
def assignVersion (keepVersion : Option Nat) (previous : Except Refusal Secret) (s : Secret)
    : Nat :=
  match keepVersion with
  | some v => max v 1
  | none =>
      match previous with
      | .ok prev => if prev.data = s.data then max prev.version 1 else max prev.version 1 + 1
      | .error _ => 1

/-- The file `SecretStore::write` puts in place, under the key the store was opened with. -/
def sealSecret (key : Key) (s : Secret) (version : Nat) : Write Key :=
  .secret s.name (.sealed key { s with version })

section

variable [DecidableEq Key]

/-- The credentials `CredVault::rotate_key` decrypts before it writes anything. -/
def readCreds (disk : Disk Key) (key : Key) : List String → Except Refusal (List (String × String))
  | [] => .ok []
  | name :: rest => do
      let value ← get disk key name
      let later ← readCreds disk key rest
      match value with
      | some value => .ok ((name, value) :: later)
      | none => .ok later

/-- The writes of step 3 of `SecretStore::rotate_key`, up to the first secret it refuses. -/
def reseal (key : Key) : List Secret → List (Write Key) × Option Refusal
  | [] => ([], none)
  | s :: rest =>
      match checkSecret s with
      | .error refusal => ([], some refusal)
      | .ok _ =>
          let later := reseal key rest
          (sealSecret key s (assignVersion (some s.version) (.ok s) s) :: later.1, later.2)

/-- `SecretStore::rotate_key` with a new key: every file it writes, in order, and the error it ends
with. Everything is read before the first write: `names` are the secrets the directory lists,
`credNames` the credentials. First the credentials are written under the new key, then the new key,
then the secrets.
-/
def rotateKey (disk : Disk Key) (key new : Key) (names credNames : List String)
    : List (Write Key) × Option Refusal :=
  match names.mapM (load disk key) with
  | .error refusal => ([], some refusal)
  | .ok loaded =>
      match readCreds disk key credNames with
      | .error refusal => ([], some refusal)
      | .ok plain =>
          let resealed := reseal new loaded
          (plain.map (fun (name, value) => .cred name (.sealed new value))
            ++ .key new :: resealed.1, resealed.2)

end

/-- The disk where a rotation stopped after some of its writes. -/
def Disk.after (disk : Disk Key) (writes : List (Write Key)) : Disk Key :=
  writes.foldl Disk.write disk

end Delonix.Secrets
