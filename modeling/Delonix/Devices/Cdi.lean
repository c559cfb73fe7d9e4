import Delonix.Library.Collections
import Delonix.Library.Text

/-! What a CDI-qualified device name stands for: the edits of the spec files that declare it. A
spec carries edits of its own beside those of its devices, and it is there that the driver's
libraries are.
-/

namespace Delonix.Devices

open Delonix.Library.FirstSeen
open Delonix.Library.Text

structure CdiDeviceNode where
  path : String
  hostPath : Option String
deriving DecidableEq

structure CdiMount where
  hostPath : String
  containerPath : String
  options : List String
deriving DecidableEq

structure ContainerEdits where
  deviceNodes : List CdiDeviceNode
  mounts : List CdiMount
  env : List String
  hooks : List String
deriving DecidableEq

structure CdiDevice where
  name : String
  containerEdits : ContainerEdits
deriving DecidableEq

structure CdiSpec where
  kind : String
  containerEdits : ContainerEdits
  devices : List CdiDevice
deriving DecidableEq

structure Mount where
  source : String
  target : String
  readonly : Bool
  propagation : Option String
  optional : Bool
deriving DecidableEq

/-- What has been gathered for a container. -/
structure CdiEdits where
  devices : List String
  mounts : List Mount
  env : List String
  hadUnexecutedHooks : Bool
deriving DecidableEq

inductive Refusal where
  | invalidCdiDeviceName (text : String)
  | noCdiSpec (text : String)
  | cdiDeviceNotFound (text : String)
deriving DecidableEq

def CdiEdits.default : CdiEdits := ⟨[], [], [], false⟩

/-- `host:container`. -/
def CdiDeviceNode.device (node : CdiDeviceNode) : String :=
  node.hostPath.getD node.path ++ ":" ++ node.path

def CdiMount.mount (m : CdiMount) : Mount where
  source := m.hostPath
  target := m.containerPath
  readonly := m.options.any (· == "ro")
  propagation := none
  optional := true

/-- What tells a mount from another. -/
def Mount.key (m : Mount) : String × String × Bool := (m.source, m.target, m.readonly)

def applyEdits (edits : ContainerEdits) (out : CdiEdits) : CdiEdits where
  devices := out.devices ++ edits.deviceNodes.map CdiDeviceNode.device
  mounts := out.mounts ++ edits.mounts.map CdiMount.mount
  env := out.env ++ edits.env
  hadUnexecutedHooks := out.hadUnexecutedHooks || !edits.hooks.isEmpty

def CdiEdits.dedupe (out : CdiEdits) : CdiEdits where
  devices := keepFirst id out.devices
  mounts := keepFirst Mount.key out.mounts
  env := keepFirst id out.env
  hadUnexecutedHooks := out.hadUnexecutedHooks

def asks (name : String) (device : CdiDevice) : Bool := name == "all" || device.name == name

/-- Whether the loop goes past its test of the kind. -/
def CdiSpec.passes (vendorClass : String) (spec : CdiSpec) : Bool :=
  !(!vendorClass.toList.isPrefixOf spec.kind.toList && spec.kind != vendorClass)

/-- The body of the loop over the spec files. What cannot be read or parsed is `none`. -/
def mergeSpec (vendorClass name : String) (state : CdiEdits × Bool) (read : Option CdiSpec)
    : CdiEdits × Bool :=
  match read with
  | none => state
  | some spec =>
      if spec.passes vendorClass then
        let (out, contributed) := spec.devices.foldl
          (fun (out, contributed) device =>
            if asks name device then (applyEdits device.containerEdits out, true)
            else (out, contributed))
          (state.1, false)
        if contributed then (applyEdits spec.containerEdits out, true) else (out, state.2)
      else state

/-- `resolve_cdi_device_in`, with the edits it leaves in `out`. -/
def resolveCdiDeviceIn (specs : List (Option CdiSpec)) (qualifiedName : String) (out : CdiEdits)
    : Except Refusal Unit × CdiEdits :=
  match splitOnce '=' qualifiedName.toList with
  | none =>
      (.error (.invalidCdiDeviceName ("invalid CDI device name: '" ++ qualifiedName
        ++ "' (expected vendor.com/class=name)")), out)
  | some (vendorClass, name) =>
      if specs.isEmpty then
        (.error (.noCdiSpec ("'" ++ qualifiedName
          ++ "': no CDI spec found (checked /etc/cdi, /var/run/cdi)")), out)
      else
        let (out, found) := specs.foldl
          (mergeSpec (String.ofList vendorClass) (String.ofList name)) (out, false)
        if found then (.ok (), out.dedupe)
        else
          (.error (.cdiDeviceNotFound ("'" ++ qualifiedName
            ++ "': not found in any discovered CDI spec")), out.dedupe)

/-- The edits a spec gives for these of its devices: theirs, then its own. -/
def CdiSpec.edits (spec : CdiSpec) (devices : List CdiDevice) : List ContainerEdits :=
  if devices.isEmpty then [] else devices.map CdiDevice.containerEdits ++ [spec.containerEdits]

/-- The edits the loop takes of one spec. -/
def CdiSpec.taken (vendorClass name : String) (spec : CdiSpec) : List ContainerEdits :=
  if spec.passes vendorClass then spec.edits (spec.devices.filter (asks name)) else []

/-- The edits the loop takes. -/
def taken (vendorClass name : String) (specs : List CdiSpec) : List ContainerEdits :=
  specs.flatMap (CdiSpec.taken vendorClass name)

def applyAll (added : List ContainerEdits) (out : CdiEdits) : CdiEdits :=
  added.foldl (fun out edits => applyEdits edits out) out

theorem applyAll_append (front back : List ContainerEdits) (out : CdiEdits)
    : applyAll (front ++ back) out = applyAll back (applyAll front out) :=
  List.foldl_append ..

theorem foldl_devices (name : String) (devices : List CdiDevice) (out : CdiEdits)
    (contributed : Bool)
    : devices.foldl
        (fun (out, contributed) device =>
          if asks name device then (applyEdits device.containerEdits out, true)
          else (out, contributed))
        (out, contributed)
      = (applyAll ((devices.filter (asks name)).map CdiDevice.containerEdits) out,
          contributed || !(devices.filter (asks name)).isEmpty) := by
  induction devices generalizing out contributed with
  | nil => simp [applyAll]
  | cons device rest ih =>
      cases asked : asks name device with
      | true => simp [List.foldl_cons, asked, ih, applyAll]
      | false => simp [List.foldl_cons, asked, ih, applyAll]

/-- One spec adds what is taken of it. -/
theorem mergeSpec_eq (vendorClass name : String) (spec : CdiSpec) (out : CdiEdits) (found : Bool)
    : mergeSpec vendorClass name (out, found) (some spec)
      = (applyAll (spec.taken vendorClass name) out,
          found || !(spec.taken vendorClass name).isEmpty) := by
  simp only [mergeSpec, CdiSpec.taken, CdiSpec.edits]
  cases passed : spec.passes vendorClass with
  | false => simp [applyAll]
  | true =>
      simp only [↓reduceIte, foldl_devices, Bool.false_or]
      cases none_ : (spec.devices.filter (asks name)).isEmpty with
      | true => simp [List.isEmpty_iff.mp none_, applyAll]
      | false =>
          simp only [Bool.not_false, ↓reduceIte, Bool.false_eq_true, applyAll_append]
          simp [applyAll]

/-- The whole loop adds what is taken, in order. -/
theorem foldl_mergeSpec (vendorClass name : String) (specs : List CdiSpec) (out : CdiEdits)
    (found : Bool)
    : (specs.map some).foldl (mergeSpec vendorClass name) (out, found)
      = (applyAll (taken vendorClass name specs) out,
          found || !(taken vendorClass name specs).isEmpty) := by
  induction specs generalizing out found with
  | nil => simp [taken, applyAll]
  | cons spec rest ih =>
      have split : taken vendorClass name (spec :: rest)
          = spec.taken vendorClass name ++ taken vendorClass name rest := rfl
      rw [List.map_cons, List.foldl_cons, mergeSpec_eq, ih, split, applyAll_append]
      cases spec.taken vendorClass name <;> simp

end Delonix.Devices
