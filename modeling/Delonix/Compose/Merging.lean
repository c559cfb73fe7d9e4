import Delonix.Compose.Names
import Delonix.Compose.Shlex
import Delonix.Library.Tables

/-! Compose files merged from left to right: what a file declares, and the rule that each field of a
service has when two files declare the service.
-/

namespace Delonix.Compose.Merging

open Delonix.Library.Tables
open Delonix.Library.Text

abbrev Table (V : Type) := Std.ExtTreeMap Text V

inductive YamlValue (Number Other : Type) where
  | string (s : Text)
  | number (n : Number)
  | bool (b : Bool)
  | other (o : Other)

/-- What the YAML library reads numbers and nested values into, and how it writes values. -/
structure Yaml where
  Number : Type
  Other : Type
  numberText : Number → Text
  toText : YamlValue Number Other → Option Text

abbrev Yaml.Value (yaml : Yaml) := YamlValue yaml.Number yaml.Other

def Yaml.trimmed (yaml : Yaml) (value : yaml.Value) : Text := trim ((yaml.toText value).getD [])

inductive ComposeEnv (yaml : Yaml) where
  | list (v : List Text)
  | map (m : Table (Option yaml.Value))

variable {yaml : Yaml}

namespace ComposeEnv

instance : Inhabited (ComposeEnv yaml) := ⟨.list []⟩

/-- What stands after the `=`. -/
def kvText : Option yaml.Value → Text
  | some (.string s) => s
  | some (.number n) => yaml.numberText n
  | some (.bool b) => if b then "true".toList else "false".toList
  | some (.other o) => yaml.trimmed (.other o)
  | none => []

def toKvPairs : ComposeEnv yaml → List Text
  | .list v => v
  | .map m => m.toList.map fun entry => entry.1 ++ '=' :: kvText entry.2

/-- What stands after the `:`. -/
def hostText : Option yaml.Value → Text
  | some (.string s) => s
  | some value => yaml.trimmed value
  | none => []

def toHostPairs : ComposeEnv yaml → List Text
  | .list v => v
  | .map m => m.toList.map fun entry => entry.1 ++ ':' :: hostText entry.2

end ComposeEnv

inductive OneOrMany where
  | one (t : Text)
  | many (v : List Text)

instance : Inhabited OneOrMany := ⟨.many []⟩

def OneOrMany.intoVec : OneOrMany → List Text
  | .one t => [t]
  | .many v => v

inductive StringOrNum where
  | str (s : Text)
  | num (n : Int64)
  | float (f : Float)

inductive ComposePort where
  | short (text : Text)
  | long (target : StringOrNum) (published : Option StringOrNum) (protocol hostIp : Option Text)

inductive ComposeDependsOn where
  | short (names : List Text)
  /-- With the condition of each. -/
  | long (entries : Table Text)

instance : Inhabited ComposeDependsOn := ⟨.short []⟩

inductive ComposeServiceNetworks where
  | empty
  | list (keys : List Text)
  /-- With the address in each, if one is asked for. -/
  | map (entries : Table (Option Text))

instance : Inhabited ComposeServiceNetworks := ⟨.empty⟩

inductive ComposeSecretRef where
  | short (source : Text)
  | long (source : Text) (target : Option Text)

def ComposeSecretRef.source : ComposeSecretRef → Text
  | .short source => source
  | .long source _ => source

inductive ComposeBuild (yaml : Yaml) where
  | context (path : Text)
  | full (context : Text) (dockerfile : Option Text) (args : ComposeEnv yaml)
    (target : Option Text)

inductive ComposeHealthTest where
  | shell (text : Text)
  | list (argv : List Text)

structure ComposeHealthcheck where
  test : Option ComposeHealthTest
  interval : Option Text
  timeout : Option Text
  retries : Option UInt32
  startPeriod : Option Text

structure ComposeResourceLimits where
  cpus : Option StringOrNum
  memory : Option StringOrNum

structure ComposeDeploy where
  /-- `resources.limits`, under two keys that may be missing. -/
  resources : Option (Option ComposeResourceLimits)
  replicas : Option UInt32

inductive ComposeUlimit where
  | single (n : Int64)
  | pair (soft hard : Int64)

structure ComposeService (yaml : Yaml) where
  image : Option Text := none
  build : Option (ComposeBuild yaml) := none
  /-- The service of `extends`. -/
  extending : Option Text := none
  environment : ComposeEnv yaml := default
  envFile : OneOrMany := default
  ports : List ComposePort := []
  volumes : List VolumeMount := []
  command : Option Shlex.CmdShape := none
  entrypoint : Option Shlex.CmdShape := none
  dependsOn : ComposeDependsOn := default
  healthcheck : Option ComposeHealthcheck := none
  restart : Option Text := none
  networks : ComposeServiceNetworks := default
  labels : ComposeEnv yaml := default
  workingDir : Option Text := none
  user : Option Text := none
  capAdd : List Text := []
  capDrop : List Text := []
  privileged : Bool := false
  tmpfs : OneOrMany := default
  extraHosts : ComposeEnv yaml := default
  deploy : Option ComposeDeploy := none
  containerName : Option Text := none
  hostname : Option Text := none
  readOnly : Bool := false
  secrets : List ComposeSecretRef := []
  configs : List ComposeSecretRef := []
  profiles : List Text := []
  shmSize : Option StringOrNum := none
  stopGracePeriod : Option Text := none
  expose : List StringOrNum := []
  memLimit : Option StringOrNum := none
  cpus : Option StringOrNum := none
  ulimits : Table ComposeUlimit := ∅

/-- A network or a volume at the top level. -/
structure ComposeResource where
  external : Bool
  name : Option Text
  driver : Option Text

structure ComposeSecretDef where
  file : Option Text
  environment : Option Text
  external : Bool
  name : Option Text

structure ComposeConfigDef where
  file : Option Text
  external : Bool
  name : Option Text

structure ComposeFile (yaml : Yaml) where
  name : Option Text := none
  services : Table (ComposeService yaml) := ∅
  networks : Table ComposeResource := ∅
  volumes : Table ComposeResource := ∅
  secrets : Table ComposeSecretDef := ∅
  configs : Table ComposeConfigDef := ∅

instance : Inhabited (ComposeFile yaml) := ⟨{}⟩

/-- The entry that a line of the list form is taken for. -/
def envEntry (s : Text) : Text × Option yaml.Value :=
  match splitOnce '=' s with
  | some (k, val) => (k, some (.string val))
  | none => (s, none)

def envAsMap : ComposeEnv yaml → Table (Option yaml.Value)
  | .map m => m
  | .list v => collect (v.map envEntry)

def mergeEnvOverlay (base overlay : ComposeEnv yaml) : ComposeEnv yaml :=
  .map (envAsMap base ∪ envAsMap overlay)

def dependsOnAsMap : ComposeDependsOn → Table Text
  | .short v => collect (v.map fun name => (name, "service_started".toList))
  | .long m => m

def mergeDependsOn (base overlay : ComposeDependsOn) : ComposeDependsOn :=
  .long (dependsOnAsMap base ∪ dependsOnAsMap overlay)

def serviceNetworksAsMap : ComposeServiceNetworks → Table (Option Text)
  | .empty => ∅
  | .list v => collect (v.map fun k => (k, none))
  | .map m => m

def mergeServiceNetworks (base overlay : ComposeServiceNetworks) : ComposeServiceNetworks :=
  let merged := serviceNetworksAsMap base ∪ serviceNetworksAsMap overlay
  if merged.isEmpty then .empty else .map merged

/-- The items of `overlay` behind those of `base`, but for those whose key is there already. -/
def concatNew {α : Type} (key : α → Text) (base overlay : List α) : List α :=
  overlay.foldl
    (fun out item => if out.any (fun e => key e == key item) then out else out ++ [item]) base

def concatDedup (base overlay : List Text) : List Text := concatNew id base overlay

def concatSecretRefs (base overlay : List ComposeSecretRef) : List ComposeSecretRef :=
  concatNew ComposeSecretRef.source base overlay

def mergeServiceOverlay (base overlay : ComposeService yaml) : ComposeService yaml where
  image := overlay.image.or base.image
  build := overlay.build.or base.build
  environment := mergeEnvOverlay base.environment overlay.environment
  envFile := .many (base.envFile.intoVec ++ overlay.envFile.intoVec)
  ports := base.ports ++ overlay.ports
  volumes := base.volumes ++ overlay.volumes
  command := overlay.command.or base.command
  entrypoint := overlay.entrypoint.or base.entrypoint
  dependsOn := mergeDependsOn base.dependsOn overlay.dependsOn
  healthcheck := overlay.healthcheck.or base.healthcheck
  restart := overlay.restart.or base.restart
  networks := mergeServiceNetworks base.networks overlay.networks
  labels := mergeEnvOverlay base.labels overlay.labels
  workingDir := overlay.workingDir.or base.workingDir
  user := overlay.user.or base.user
  capAdd := concatDedup base.capAdd overlay.capAdd
  capDrop := concatDedup base.capDrop overlay.capDrop
  privileged := base.privileged || overlay.privileged
  tmpfs := .many (base.tmpfs.intoVec ++ overlay.tmpfs.intoVec)
  extraHosts := mergeEnvOverlay base.extraHosts overlay.extraHosts
  deploy := overlay.deploy.or base.deploy
  containerName := overlay.containerName.or base.containerName
  hostname := overlay.hostname.or base.hostname
  readOnly := base.readOnly || overlay.readOnly
  extending := overlay.extending.or base.extending
  secrets := concatSecretRefs base.secrets overlay.secrets
  configs := concatSecretRefs base.configs overlay.configs
  profiles := concatDedup base.profiles overlay.profiles
  shmSize := overlay.shmSize.or base.shmSize
  stopGracePeriod := overlay.stopGracePeriod.or base.stopGracePeriod
  expose := base.expose ++ overlay.expose
  memLimit := overlay.memLimit.or base.memLimit
  cpus := overlay.cpus.or base.cpus
  ulimits := base.ulimits ∪ overlay.ulimits

def mergeServices (base overlay : Table (ComposeService yaml)) : Table (ComposeService yaml) :=
  Library.Tables.overlay mergeServiceOverlay base overlay

/-- One turn of the loop. The secrets and configs are those of the file before. -/
def mergeNext (merged next : ComposeFile yaml) : ComposeFile yaml where
  services := mergeServices merged.services next.services
  networks := merged.networks ∪ next.networks
  volumes := merged.volumes ∪ next.volumes
  name := next.name.or merged.name
  secrets := merged.secrets
  configs := merged.configs

def mergeComposeFiles : List (ComposeFile yaml) → ComposeFile yaml
  | [] => default
  | first :: rest => rest.foldl mergeNext first

end Delonix.Compose.Merging
