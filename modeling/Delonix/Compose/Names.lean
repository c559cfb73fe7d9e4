import Delonix.Library.Text
import Mathlib.Data.Char
import Mathlib.Data.List.AList
import Mathlib.Data.List.Lex
import Mathlib.Data.List.Sort

/-! Names that a compose project derives for its networks and volumes: the project and the key
joined by an underscore, with the underscores of both doubled. `down` removes what it derives again.
-/

namespace Delonix.Compose

open Delonix.Library.Text

abbrev Text := List Char

def validComposeProjectName (name : Text) : Bool :=
  (name.head?.any Char.isAlphanum)
    && name.all fun c => c.isLower || c.isDigit || c = '_' || c = '-'

/-- Every underscore is doubled. -/
def escape (s : Text) : Text := s.flatMap fun c => if c = '_' then ['_', '_'] else [c]

def composeScopedName (project key : Text) : Text := escape project ++ '_' :: escape key

/-- A network or a volume at the top level. -/
structure Resource where
  external : Bool
  name : Option Text

inductive VolumeMount where
  | short (text : Text)
  | long (mountType : Text) (source : Option Text) (target : Text) (readOnly : Option Bool)

/-- What the names are derived from, by key. -/
structure ComposeFile where
  services : AList fun _ : Text => List VolumeMount
  networks : AList fun _ : Text => Resource
  volumes : AList fun _ : Text => Resource

def resourceName (project key : Text) (resource : Resource) : Text :=
  if resource.external then resource.name.getD key
  else resource.name.getD (composeScopedName project key)

def defaultKey : Text := "default".toList

/-- The networks by key, with the one that services are in when they name none. -/
def resolveNetworkNames (project : Text) (compose : ComposeFile) : List (Text × Text) :=
  let map := compose.networks.entries.map fun ⟨key, net⟩ => (key, resourceName project key net)
  if defaultKey ∈ compose.networks then map
  else map ++ [(defaultKey, composeScopedName project defaultKey)]

def resolveVolumeNames (project : Text) (compose : ComposeFile) : List (Text × Text) :=
  compose.volumes.entries.map fun ⟨key, vol⟩ => (key, resourceName project key vol)

/-- The targets of the mounts without a source. -/
def anonymousTargets (mounts : List VolumeMount) : List Text :=
  mounts.filterMap fun
    | .short s => if s.contains ':' then none else some s
    | .long _ _ _ _ => none

/-- The keys of the anonymous volumes: the service and the rank of the target. -/
def anonymousKeys (service : Text) (mounts : List VolumeMount) : List Text :=
  let anon := anonymousTargets mounts
  let sorted := anon.insertionSort fun a b => a ≤ b
  anon.map fun path => service ++ "--anon".toList ++ decimal (sorted.idxOf path + 1)

def anonymousVolumeNames (project service : Text) (mounts : List VolumeMount) : List Text :=
  (anonymousKeys service mounts).map (composeScopedName project)

/-- The names of the anonymous volumes of every service. -/
def anonymousVolumes (project : Text) (compose : ComposeFile) : List Text :=
  compose.services.entries.flatMap fun ⟨service, mounts⟩ =>
    anonymousVolumeNames project service mounts

/-- The volumes that `down -v` removes. -/
def downVolumes (project : Text) (compose : ComposeFile) : List Text :=
  (compose.volumes.entries.filter fun ⟨_, vol⟩ => !vol.external).map
      (fun ⟨key, vol⟩ => resourceName project key vol)
    ++ anonymousVolumes project compose

end Delonix.Compose
