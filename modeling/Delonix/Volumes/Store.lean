import Delonix.Library.Faults
import Delonix.Library.Words
import Mathlib.Data.List.Infix

/-! The names of volumes, snapshots and namespaces, and the paths the store makes of them. A path
is what its text names component by component; two dots are kept, as the system walks them.

The volume store: a directory per volume under its root, with the record in `meta.json` and
the data beside it. What the store does is written over the calls it makes of the system, so that
one text of it serves every reading of those calls.
-/

namespace Delonix.Volumes

/-- The components of an absolute path. -/
abbrev Path := List String

/-- The components of a path's text; repeated separators and single dots name nothing. -/
def components (text : String) : Path :=
  ((text.toList.splitOn '/').map String.ofList).filter fun part => part ≠ "" && part ≠ "."

/-- `Path::join`: an absolute text replaces what it is joined to. -/
def join (base : Path) (text : String) : Path :=
  if text.toList.head? = some '/' then components text else base ++ components text

def isNameChar (c : Char) : Bool := c.isAlphanum || c == '-' || c == '_' || c == '.'

def validName (name : String) : Bool :=
  name ≠ "" && name.utf8ByteSize ≤ 64 && name.toList.head? ≠ some '-'
    && name.toList.head? ≠ some '.' && !decide ("..".toList <:+: name.toList)
    && name.toList.all isNameChar

/-- Safe snapshot name: `[A-Za-z0-9._-]+`. -/
def safeSnapshotName (s : String) : Bool :=
  s ≠ "" && s.utf8ByteSize ≤ 128 && s.toList.head? ≠ some '.'
    && s.toList.all fun c => c.isAlphanum || c == '.' || c == '_' || c == '-'

/-- Two dots name the directory above. -/
def Descends (path : Path) : Prop := ".." ∉ path

theorem not_mem_slash {s : List Char} {allowed : Char → Bool} (all : s.all allowed = true)
    (slash : allowed '/' = false)
    : '/' ∉ s := by
  intro member
  have named := List.all_eq_true.mp all '/' member
  rw [slash] at named
  cases named

/-- A text without a separator is one component. -/
theorem components_single {text : String} (single : '/' ∉ text.toList) (notEmpty : text ≠ "")
    (notDot : text ≠ ".")
    : components text = [text] := by
  rw [components, List.splitOn_eq_singleton single, List.map_singleton, String.ofList_toList]
  simp [notEmpty, notDot]

/-- Such a text is joined as itself. -/
theorem join_single {base : Path} {text : String} (single : '/' ∉ text.toList)
    (notEmpty : text ≠ "") (notDot : text ≠ ".")
    : join base text = base ++ [text] := by
  have relative : text.toList.head? ≠ some '/' := by
    intro starts
    exact single (List.mem_of_mem_head? starts)
  rw [join, if_neg relative, components_single single notEmpty notDot]

theorem ne_of_head {text other : String} (head : text.toList.head? ≠ other.toList.head?)
    : text ≠ other := by
  rintro rfl
  exact head rfl

structure ValidName (name : String) : Prop where
  single : '/' ∉ name.toList
  notEmpty : name ≠ ""
  notDot : name ≠ "."
  notDots : name ≠ ".."

theorem validName_spec {name : String} (valid : validName name = true) : ValidName name := by
  simp only [validName, Bool.and_eq_true, decide_eq_true_eq, ne_eq] at valid
  obtain ⟨⟨⟨⟨⟨notEmpty, _⟩, _⟩, noDot⟩, _⟩, chars⟩ := valid
  exact
    { single := not_mem_slash chars (by decide)
      notEmpty := notEmpty
      notDot := ne_of_head noDot
      notDots := ne_of_head noDot }

theorem join_validName {base : Path} {name : String} (valid : validName name = true)
    : join base name = base ++ [name] := by
  have spec := validName_spec valid
  exact join_single spec.single spec.notEmpty spec.notDot

open Delonix.Library.Faults Delonix.Library.Text Delonix.Library.Words

structure Volume where
  name : String
  mountpoint : String
  createdUnix : Nat
  driver : String
  device : Option String
  options : Option String
  quotaBytes : Option Nat
  alertPct : Option Nat
  labels : List (String × String)
  annotations : List (String × String)
  parent : Option String
  pool : Option String
deriving DecidableEq, Repr

inductive Error where
  | invalidName (name : String)
  | missingDevice (driver : String)
  | noDevice (driver name : String)
  | noSuchVolume (name : String)
  | noSuchSnapshot (snap volume : String)
  | invalidSnapshotName (snap : String)
  | quotaOnNonEmpty
  | quotaBelowUsage
  | usageUnmeasurable
  | inUse
  | ambiguous (src ns : String)
  | invalidSpec (spec : String)
  | unsupportedBindOption (option : String)
  | relativeTarget (target : String)
  | command (context message : String)
  /-- A failure of the layers underneath. -/
  | engine (why : String)
deriving DecidableEq, Repr

structure Mount where
  source : String
  target : String
  readonly : Bool
  propagation : Option String
deriving DecidableEq, Repr

structure Usage where
  bytes : Nat
  unreadable : Nat
deriving DecidableEq, Repr

/-- An argument of a host tool: a path the store made of a name, or a text. -/
inductive Arg where
  | path (path : Path)
  | text (text : String)
deriving DecidableEq, Repr

structure Output where
  success : Bool
  stdout : List Char
  stderr : List Char
deriving DecidableEq, Repr

/-- The calls the store makes; one that fails refuses. -/
structure Fs (World : Type) where
  stands : Path → Prog World Error Bool
  /-- Reads and parses the record at the path. -/
  readRecord : Path → Prog World Error Volume
  /-- `/proc/mounts`, when it can be read. -/
  mountTable : Prog World Error (Option (List Char))
  /-- Runs a host tool, and says why it could not run. -/
  command : String → List Arg → Prog World Error (Except String Output)
  /-- The names in a directory as they come; one that cannot be read ends them. -/
  listing : Path → Prog World Error (List (Option String))
  /-- A directory, and not a link to one. -/
  isDir : Path → Prog World Error Bool
  removeTree : Path → Prog World Error Unit
  removeFile : Path → Prog World Error Unit
  removeDir : Path → Prog World Error Unit

/-- The calls that make or measure something. -/
structure FullFs (World : Type) extends Fs World where
  writeRecord : Path → Volume → Prog World Error Unit
  makeDirs : Path → Prog World Error Unit
  usage : Path → Prog World Error Usage
  size : Path → Prog World Error (Option Nat)
  canonicalize : String → Prog World Error String
  now : Prog World Error Nat

variable {World α : Type}

/-- A call whose failure is passed over. -/
def tried (prog : Prog World Error α) : Prog World Error (Option α) :=
  (some <$> prog).onRefusal fun _ => pure none

theorem tried_apply (prog : Prog World Error α) (w : World)
    : tried prog w
      = match prog w with
        | (.ok a, w) => (.ok (some a), w)
        | (.error (.refused _), w) => (.ok none, w)
        | (.error .crashed, w) => (.error .crashed, w) := by
  have mapped : (some <$> prog) w = (prog >>= fun a => pure (some a)) w := rfl
  rw [tried, Prog.onRefusal, mapped, Prog.bind_apply]
  cases prog w with
  | mk result w' =>
      cases result with
      | ok a => rfl
      | error stop => cases stop <;> rfl

def dir (store : Path) (name : String) : Path := join store name

def dataDir (store : Path) (name : String) : Path := dir store name ++ ["_data"]

def metaPath (store : Path) (name : String) : Path := dir store name ++ ["meta.json"]

def loopImg (store : Path) (name : String) : Path := dir store name ++ ["data.img"]

def snapshotsDir (store : Path) (name : String) : Path := dir store name ++ ["_snapshots"]

def nsSubtree : String := ".ns"

/-- The root of a namespace's own store. -/
def scopedRoot (store : Path) (ns : String) : Path := join (store ++ [nsSubtree]) ns

/-- The text of an absolute path. -/
def pathText (path : Path) : String := "/" ++ "/".intercalate path

def isNetworkDriver (driver : String) : Bool :=
  ["nfs", "cifs", "smb", "webdav", "dav"].contains driver

def mountFstype (driver : String) : String :=
  if driver = "cifs" ∨ driver = "smb" then "cifs"
  else if driver = "webdav" ∨ driver = "dav" then "davfs"
  else "nfs"

/-- Whether the table has a line for the mount point. -/
def listsMount (table : List Char) (path : String) : Bool :=
  (lines table).any fun line => (splitWhitespace line)[1]? == some path.toList

def refuseUnless (good : Bool) (error : Error) : Prog World Error Unit :=
  if good then pure () else Prog.refuse error

namespace Fs

variable (fs : Fs World)

def isMounted (path : String) : Prog World Error Bool := do
  match ← fs.mountTable with
  | some table => pure (listsMount table path)
  | none => pure false

def inspect (store : Path) (name : String) : Prog World Error Volume := do
  if ← fs.stands (metaPath store name) then fs.readRecord (metaPath store name)
  else Prog.refuse (.noSuchVolume name)

def snapshotPath (store : Path) (volume snap : String) : Except Error Path :=
  if safeSnapshotName snap then .ok (join (snapshotsDir store volume) (snap ++ ".tar.gz"))
  else .error (.invalidSnapshotName snap)

def removeSnapshot (store : Path) (volume snap : String) : Prog World Error Unit :=
  match snapshotPath store volume snap with
  | .error e => Prog.refuse e
  | .ok p => do
      if ← fs.stands p then fs.removeFile p
      else Prog.refuse (.noSuchSnapshot snap volume)

/-- Unmounts a network share or a quota image before its data goes; the outcome is passed over.
-/
def unmount (store : Path) (name : String) : Prog World Error Unit := do
  match ← tried (fs.inspect store name) with
  | none => pure ()
  | some v =>
      if isNetworkDriver v.driver || v.quotaBytes.isSome then do
        if ← fs.isMounted v.mountpoint then do
          let _ ← fs.command "umount" [.text v.mountpoint]
          pure ()
        else pure ()
      else pure ()

/-- The injected remover, where there is one. -/
def removeMapped (rmtree : Option (Path → Prog World Error Unit)) (path : Path)
    : Prog World Error Unit :=
  match rmtree with
  | some rm => rm path
  | none => pure ()

def removeEntry (rmtree : Option (Path → Prog World Error Unit)) (path : Path)
    : Prog World Error Unit := do
  if ← fs.isDir path then do
    removeMapped rmtree path
    if ← fs.stands path then fs.removeTree path else pure ()
  else fs.removeFile path

def removeEntries (rmtree : Option (Path → Prog World Error Unit)) (dir : Path)
    : List (Option String) → Prog World Error Unit
  | [] => pure ()
  | none :: _ => Prog.refuse (.engine "read_dir")
  | some entry :: rest => do
      (if entry = "meta.json" then pure () else fs.removeEntry rmtree (dir ++ [entry]))
      removeEntries rmtree dir rest

def removeMeta (path : Path) : Prog World Error Unit := do
  if ← fs.stands path then fs.removeFile path else pure ()

/-- The data first, the record after it, and the directory last. -/
def removeWith (store : Path) (rmtree : Option (Path → Prog World Error Unit)) (name : String)
    : Prog World Error Unit := do
  if ← fs.stands (dir store name) then do
    fs.unmount store name
    let entries ← fs.listing (dir store name)
    fs.removeEntries rmtree (dir store name) entries
    fs.removeMeta (metaPath store name)
    fs.removeDir (dir store name)
  else Prog.refuse (.noSuchVolume name)

end Fs

def Arg.render : Arg → String
  | .path p => pathText p
  | .text t => t

def quotaError (message : String) : Error := .command "quota" message

namespace FullFs

variable (fs : FullFs World)

def run (cmd : String) (args : List Arg) : Prog World Error Unit := do
  match ← fs.command cmd args with
  | .error e => Prog.refuse (quotaError s!"{cmd}: {e}")
  | .ok out =>
      refuseUnless out.success
        (quotaError (s!"{cmd} " ++ " ".intercalate (args.map Arg.render) ++ ": "
          ++ String.ofList (trim out.stderr)))

/-- Mounts the image of a hard quota again after a reboot; best-effort. -/
def remountImage (store : Path) (vol : Volume) : Prog World Error Unit :=
  if vol.quotaBytes.isSome then do
    let img := loopImg store vol.name
    if ← fs.stands img then do
      if ← fs.isMounted vol.mountpoint then pure ()
      else do
        let _ ← tried (fs.run "mount" [.text "-o", .text "loop", .path img, .text vol.mountpoint])
        pure ()
    else pure ()
  else pure ()

def mountArgs (vol : Volume) (device : String) : List Arg :=
  [.text "-t", .text (mountFstype vol.driver)]
    ++ (match vol.options with
        | some o => [.text "-o", .text o]
        | none => [])
    ++ [.text "--", .text device, .text vol.mountpoint]

def mountContext (driver : String) : String :=
  if mountFstype driver = "cifs" then "mount cifs"
  else if mountFstype driver = "davfs" then "mount webdav"
  else "mount nfs"

def mountShare (vol : Volume) : Prog World Error Unit :=
  match vol.device with
  | none => Prog.refuse (.noDevice vol.driver vol.name)
  | some device => do
      match ← fs.command "mount" (mountArgs vol device) with
      | .error e => Prog.refuse (.command (mountContext vol.driver) e)
      | .ok out =>
          refuseUnless out.success
            (.command (mountContext vol.driver) (String.ofList (trim out.stderr)))

def ensureMounted (store : Path) (vol : Volume) : Prog World Error Unit := do
  fs.remountImage store vol
  if isNetworkDriver vol.driver then do
    if ← fs.isMounted vol.mountpoint then pure () else fs.mountShare vol
  else pure ()

def newVolume (store : Path) (name driver : String) (device options : Option String)
    (createdUnix : Nat)
    : Volume :=
  { name, mountpoint := pathText (dataDir store name), createdUnix, driver, device, options,
    quotaBytes := none, alertPct := none, labels := [], annotations := [], parent := none,
    pool := none }

/-- The mount comes before the record, so that a share that cannot be mounted leaves none. -/
def makeVolume (store : Path) (name driver : String) (device options : Option String)
    : Prog World Error Volume := do
  fs.makeDirs (dataDir store name)
  let createdUnix ← fs.now
  let vol := newVolume store name driver device options createdUnix
  (fs.ensureMounted store vol).onRefusal fun e => do
    let _ ← tried (fs.removeTree (dir store name))
    Prog.refuse e
  fs.writeRecord (metaPath store name) vol
  pure vol

def createWith (store : Path) (name driver : String) (device options : Option String)
    : Prog World Error Volume :=
  if !validName name then Prog.refuse (.invalidName name)
  else do
    if ← fs.stands (metaPath store name) then do
      let v ← fs.inspect store name
      fs.ensureMounted store v
      pure v
    else if isNetworkDriver driver && (device.getD "") == "" then
      Prog.refuse (.missingDevice driver)
    else fs.makeVolume store name driver device options

def create (store : Path) (name : String) : Prog World Error Volume := do
  if ← fs.stands (metaPath store name) then fs.inspect store name
  else fs.createWith store name "local" none none

def loopDev (img : Path) : Prog World Error (Option (List Char)) := do
  match ← fs.command "losetup"
      [.text "-j", .path img, .text "-O", .text "NAME", .text "--noheadings"] with
  | .error _ => pure none
  | .ok out => pure (((lines out.stdout).head?.map trim).filter fun l => !l.isEmpty)

def refuseLoopbackOnNonempty (used : Usage) : Prog World Error Unit :=
  if used.unreadable ≠ 0 then Prog.refuse .usageUnmeasurable
  else refuseUnless (used.bytes == 0) .quotaOnNonEmpty

def refuseShrinkBelow (used : Usage) (quota : Nat) : Prog World Error Unit :=
  if used.unreadable ≠ 0 then Prog.refuse .usageUnmeasurable
  else refuseUnless (used.bytes ≤ quota) .quotaBelowUsage

def mountLoop (store : Path) (name : String) : Prog World Error Unit :=
  fs.run "mount"
    [.text "-o", .text "loop", .path (loopImg store name), .path (dataDir store name)]

/-- A new image over an empty data directory. -/
def makeImage (store : Path) (name : String) (quota : Nat) : Prog World Error Unit := do
  let used ← fs.usage (dataDir store name)
  refuseLoopbackOnNonempty used
  fs.run "truncate" [.text "-s", .text (toString quota), .path (loopImg store name)]
  fs.run "mkfs.ext4" [.text "-q", .text "-F", .text "-m", .text "0", .path (loopImg store name)]
  fs.makeDirs (dataDir store name)
  fs.mountLoop store name

def growImage (store : Path) (name : String) (quota : Nat) : Prog World Error Unit := do
  fs.run "truncate" [.text "-s", .text (toString quota), .path (loopImg store name)]
  match ← fs.loopDev (loopImg store name) with
  | none => Prog.refuse (quotaError "loop device not found")
  | some dev => do
      fs.run "losetup" [.text "-c", .text (String.ofList dev)]
      fs.run "resize2fs" [.text (String.ofList dev)]

/-- A file system is shrunk while it is not mounted. -/
def shrinkImage (store : Path) (name : String) (quota : Nat) : Prog World Error Unit := do
  let used ← fs.usage (dataDir store name)
  refuseShrinkBelow used quota
  let unmounted ← fs.command "umount" [.path (dataDir store name)]
  refuseUnless (match unmounted with | .ok out => out.success | .error _ => false) .inUse
  let _ ← tried (fs.run "e2fsck" [.text "-f", .text "-y", .path (loopImg store name)])
  fs.run "resize2fs" [.path (loopImg store name), .text s!"{quota / 512}s"]
  fs.run "truncate" [.text "-s", .text (toString quota), .path (loopImg store name)]
  fs.mountLoop store name

def resizeImage (store : Path) (name : String) (quota : Nat) : Prog World Error Unit := do
  let mounted ← fs.isMounted (pathText (dataDir store name))
  (if mounted then pure () else fs.mountLoop store name)
  let cur ← fs.size (loopImg store name)
  if cur.getD 0 < quota then fs.growImage store name quota
  else if quota < cur.getD 0 then fs.shrinkImage store name quota
  else pure ()

def applyLoopback (store : Path) (name : String) (quota : Nat) : Prog World Error Unit := do
  if ← fs.stands (loopImg store name) then fs.resizeImage store name quota
  else fs.makeImage store name quota

def setQuota (store : Path) (name : String) (quota alertPct : Option Nat) (privileged : Bool)
    : Prog World Error Volume := do
  let vol ← fs.inspect store name
  (match quota, privileged with
    | some q, true => fs.applyLoopback store name q
    | _, _ => pure ())
  let vol := { vol with quotaBytes := quota, alertPct := alertPct.or vol.alertPct }
  fs.writeRecord (metaPath store name) vol
  pure vol

end FullFs

/-- Read-only or not, and the propagation. -/
def bindOption : Option String → Except Error (Bool × Option String)
  | none | some "rw" => .ok (false, none)
  | some "ro" => .ok (true, none)
  | some "private" | some "rprivate" => .ok (false, some "private")
  | some "rslave" | some "slave" => .ok (false, some "rslave")
  | some "rshared" | some "shared" => .ok (false, some "rshared")
  | some "ro,rslave" => .ok (true, some "rslave")
  | some "ro,rshared" => .ok (true, some "rshared")
  | some "ro,rprivate" | some "ro,private" => .ok (true, some "private")
  | some other => .error (.unsupportedBindOption other)

structure Spec where
  src : String
  target : String
  readonly : Bool
  propagation : Option String
deriving DecidableEq, Repr

def specParts (spec : String) : List String := (spec.toList.splitOn ':').map String.ofList

/-- The part of a spec before the first colon. -/
def specSource (spec : String) : String := (specParts spec).headD ""

/-- Source, target and option of a spec, when it has two or three parts. -/
def specFields (spec : String) : Except Error (String × String × Option String) :=
  match specParts spec with
  | [src, target] => .ok (src, target, none)
  | [src, target, option] => .ok (src, target, some option)
  | _ => .error (.invalidSpec spec)

def parseSpec (spec : String) : Except Error Spec := do
  let fields ← specFields spec
  let option ← bindOption fields.2.2
  if fields.2.1.toList.head? = some '/' then
    .ok ⟨fields.1, fields.2.1, option.1, option.2⟩
  else .error (.relativeTarget fields.2.1)

/-- A source that is a path of the host. -/
def isBind (src : String) : Bool :=
  src.toList.head? == some '/' || src.toList.head? == some '.'

namespace FullFs

variable (fs : FullFs World)

def specMount (spec : Spec) (source : String) : Mount :=
  ⟨source, spec.target, spec.readonly, spec.propagation⟩

def resolveSpec (store : Path) (text : String) : Prog World Error Mount :=
  match parseSpec text with
  | .error e => Prog.refuse e
  | .ok spec =>
      if isBind spec.src then do
        let source ← fs.canonicalize spec.src
        pure (specMount spec source)
      else do
        let vol ← fs.create store spec.src
        fs.ensureMounted store vol
        pure (specMount spec vol.mountpoint)

def scopedExists (store : Path) (ns name : String) : Prog World Error Bool :=
  fs.stands (metaPath (scopedRoot store ns) name)

/-- The namespace's own volume, or the global one; never one of two. -/
def resolveSpecIn (store : Path) (text ns : String) : Prog World Error Mount :=
  let src := specSource text
  if src ≠ "" && !isBind src then do
    if ← fs.scopedExists store ns src then do
      if ← fs.stands (metaPath store src) then Prog.refuse (.ambiguous src ns)
      else fs.resolveSpec (scopedRoot store ns) text
    else fs.resolveSpec store text
  else fs.resolveSpec store text

end FullFs

end Delonix.Volumes
