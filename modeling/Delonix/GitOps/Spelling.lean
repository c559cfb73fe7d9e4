import Delonix.GitOps.Spec

/-! The mapping a registration is written as.
Absent fields have the defaults of the typed form and an unknown key is refused.
-/

namespace Delonix.GitOps

open Delonix.Stack

def readText : Yaml → Except String String
  | .string text => .ok text
  | _ => .error "invalid type: expected a string"

def readFlag : Yaml → Except String Bool
  | .bool flag => .ok flag
  | _ => .error "invalid type: expected a boolean"

def readCount : Yaml → Except String UInt32
  | .integer (.ofNat n) =>
      if n < UInt32.size then .ok (UInt32.ofNat n) else .error "invalid value: expected u32"
  | _ => .error "invalid type: expected u32"

def readTexts : Yaml → Except String (List String)
  | .sequence items => items.mapM readText
  | _ => .error "invalid type: expected a sequence"

def readOptional : Yaml → Except String (Option String)
  | .null => .ok none
  | value => (readText value).map some

/-- The value of a key, or the default when the key is absent. -/
def readKey {α : Type} (value : Yaml) (key : String) (read : Yaml → Except String α)
    (absent : Except String α) : Except String α :=
  match value.get key with
  | some v => read v
  | none => absent

/-- A mapping with no key outside the list. -/
def onlyKeys (keys : List String) : Yaml → Except String Unit
  | .mapping entries =>
      if entries.all (fun entry => match entry.1 with
          | .string name => keys.contains name
          | _ => false) then .ok ()
      else .error "unknown field"
  | _ => .error "invalid type: expected a mapping"

def readSourceSpec (value : Yaml) : Except String SourceSpec := do
  onlyKeys ["url", "ref", "path", "interval", "secretRef", "knownHostsRef",
    "signedCommitsRequired", "trustedKeysRef"] value
  return {
    url := ← readKey value "url" readText (.error "missing field url")
    gitRef := ← readKey value "ref" readText (.ok "refs/heads/main")
    path := ← readKey value "path" readText (.ok "")
    interval := ← readKey value "interval" readText (.ok "60s")
    secretRef := ← readKey value "secretRef" readOptional (.ok none)
    knownHostsRef := ← readKey value "knownHostsRef" readOptional (.ok none)
    signedCommitsRequired := ← readKey value "signedCommitsRequired" readFlag (.ok false)
    trustedKeysRef := ← readKey value "trustedKeysRef" readOptional (.ok none) }

def readSyncSpec (value : Yaml) : Except String SyncSpec := do
  onlyKeys ["automated"] value
  return { automated := ← readKey value "automated" readFlag (.ok false) }

def defaultAllow : List String := ["Create", "Update"]

def readSafetySpec (value : Yaml) : Except String SafetySpec := do
  onlyKeys ["allow", "prune", "maximumDeletes", "protectedResources", "kinds"] value
  return {
    allow := ← readKey value "allow" readTexts (.ok defaultAllow)
    prune := ← readKey value "prune" readFlag (.ok false)
    maximumDeletes := ← readKey value "maximumDeletes" readCount (.ok 5)
    protectedResources := ← readKey value "protectedResources" readTexts (.ok [])
    kinds := ← readKey value "kinds" readTexts (.ok []) }

def defaultSafety : SafetySpec :=
  { allow := defaultAllow, prune := false, maximumDeletes := 5, protectedResources := [],
    kinds := [] }

/-- The registration a mapping spells. -/
def readSpec (value : Yaml) : Except String GitOpsSourceSpec := do
  onlyKeys ["source", "sync", "safety", "stack"] value
  return {
    source := ← readKey value "source" readSourceSpec (.error "missing field source")
    sync := ← readKey value "sync" readSyncSpec (.ok { automated := false })
    safety := ← readKey value "safety" readSafetySpec (.ok defaultSafety)
    stack := ← readKey value "stack" readOptional (.ok none) }

def writeFields (fields : List (String × Yaml)) : Yaml :=
  .mapping (fields.map (fun field => (.string field.1, field.2)))

def writeTexts (texts : List String) : Yaml := .sequence (texts.map .string)

def writeOptional : Option String → Yaml
  | none => .null
  | some text => .string text

def writeSourceSpec (source : SourceSpec) : Yaml :=
  writeFields
    [ ("url", .string source.url),
      ("ref", .string source.gitRef),
      ("path", .string source.path),
      ("interval", .string source.interval),
      ("secretRef", writeOptional source.secretRef),
      ("knownHostsRef", writeOptional source.knownHostsRef),
      ("signedCommitsRequired", .bool source.signedCommitsRequired),
      ("trustedKeysRef", writeOptional source.trustedKeysRef) ]

def writeSafetySpec (safety : SafetySpec) : Yaml :=
  writeFields
    [ ("allow", writeTexts safety.allow),
      ("prune", .bool safety.prune),
      ("maximumDeletes", .integer safety.maximumDeletes.toNat),
      ("protectedResources", writeTexts safety.protectedResources),
      ("kinds", writeTexts safety.kinds) ]

/-- A registration with every key written out. -/
def writeSpec (spec : GitOpsSourceSpec) : Yaml :=
  writeFields
    [ ("source", writeSourceSpec spec.source),
      ("sync", writeFields [("automated", .bool spec.sync.automated)]),
      ("safety", writeSafetySpec spec.safety),
      ("stack", writeOptional spec.stack) ]

theorem readOptional_writeOptional (value : Option String)
    : readOptional (writeOptional value) = .ok value := by
  cases value <;> rfl

theorem readTexts_writeTexts (texts : List String)
    : readTexts (writeTexts texts) = .ok texts := by
  simp only [readTexts, writeTexts]
  induction texts with
  | nil => rfl
  | cons text rest ih =>
      rw [List.map_cons, List.mapM_cons, ih]
      rfl

theorem readCount_toNat (count : UInt32)
    : readCount (.integer count.toNat) = .ok count := by
  have bound : count.toNat < UInt32.size := count.toNat_lt_size
  simp [readCount, bound]

theorem readSourceSpec_write (source : SourceSpec)
    : readSourceSpec (writeSourceSpec source) = .ok source := by
  simp [readSourceSpec, writeSourceSpec, writeFields, onlyKeys, readKey, Yaml.get, readText,
    readFlag, readOptional_writeOptional, bind, Except.bind, pure, Except.pure]

theorem readSafetySpec_write (safety : SafetySpec)
    : readSafetySpec (writeSafetySpec safety) = .ok safety := by
  simp [readSafetySpec, writeSafetySpec, writeFields, onlyKeys, readKey, Yaml.get, readFlag,
    readTexts_writeTexts, readCount_toNat, bind, Except.bind, pure, Except.pure]

/-- Every registration can be written, and is read back as it was. -/
theorem readSpec_writeSpec (spec : GitOpsSourceSpec) : readSpec (writeSpec spec) = .ok spec := by
  simp [readSpec, writeSpec, writeFields, onlyKeys, readKey, Yaml.get, readSourceSpec_write,
    readSafetySpec_write, readSyncSpec, readFlag, readOptional_writeOptional, bind, Except.bind,
    pure, Except.pure]

end Delonix.GitOps
