import Delonix.Library.Faults
import Delonix.Library.Words
import Delonix.Storage.Allowlist

/-! Making and unmaking a pool. What the commands ask of the host and of the backend is logged,
newest first, with the answers; each answer may depend on everything that was done before.
-/

namespace Delonix.Storage

open Delonix.Library.Faults
open Delonix.Library.Words

/-- What a command left behind; without a code a signal ended it. -/
structure Output where
  code : Option Int
  stdout : String
  stderr : String
deriving DecidableEq, Repr

def Output.why (out : Output) : String :=
  let shown := (lines out.stderr.toList ++ lines out.stdout.toList).map Library.Text.trim
  (shown.find? fun line => !line.isEmpty).elim "no output" String.ofList

structure DeclaredPool where
  name : String
  entry : Declared

inductive Effect (Path : Type) where
  | resolved (device : Path) (answer : Except Error Path)
  | ran (argv : List String) (answer : Except String Output)
  | createPool (devices : List Path)
  | createdHere (answer : Except Error Bool)
  | contents (answer : Except Error (List String))
  | destroyPool

/-- How paths are compared and what a tool is told of them, and the answers of the host and of the
backend.
-/
structure Environment (Path : Type) where
  path : String → Path
  same : Path → Path → Bool
  text : Path → String
  resolve : List (Effect Path) → Path → Except Error Path
  run : List (Effect Path) → List String → Except String Output
  createPool : List (Effect Path) → List Path → Except Error String
  createdHere : List (Effect Path) → Except Error Bool
  contents : List (Effect Path) → Except Error (List String)
  destroyPool : List (Effect Path) → Except Error String

variable {Path : Type} (env : Environment Path)

abbrev AdminProg (Path : Type) := Prog (List (Effect Path)) Error

/-- A question, logged with its answer. -/
def ask {β : Type} (answer : List (Effect Path) → β) (effect : β → Effect Path)
    : AdminProg Path β := fun log => (.ok (answer log), effect (answer log) :: log)

def orRefuse {β : Type} : Except Error β → AdminProg Path β
  | .ok value => pure value
  | .error reason => .refuse reason

-----------------------------------------------------------------------------------------
-- Devices
-----------------------------------------------------------------------------------------

def blkid (r : Path) : List String := ["blkid", "-p", "-o", "export", env.text r]

def wipefs (r : Path) : List String := ["wipefs", "--all", "--", env.text r]

def signatureKind (out : Output) : String :=
  let kind line := Library.Text.stripStart "TYPE=".toList line
    <|> Library.Text.stripStart "PTTYPE=".toList line
  ((lines out.stdout.toList).findSome? kind).elim "a signature" String.ofList

/-- `signature`: two is «nothing there», and what cannot be read is refused. -/
def signature (dev : Path) : AdminProg Path (Option String) := do
  match ← ask (env.run · (blkid env dev)) (.ran (blkid env dev)) with
  | .error e => .refuse ⟨.poolUnavailable, "blkid cannot be run: " ++ e⟩
  | .ok out =>
      if out.code = some 2 then pure none
      else if out.code = some 0 then pure (some (signatureKind out))
      else .refuse ⟨.deviceInUse, env.text dev ++ " could not be probed for a signature: " ++ out.why⟩

/-- The first loop of `check_devices`. -/
def resolveAll : List Path → List Path → AdminProg Path (List Path)
  | [], real => pure real
  | d :: rest, real => do
      let r ← orRefuse (← ask (env.resolve · d) (.resolved d))
      if real.any (env.same · r) then
        .refuse ⟨.deviceInUse, env.text d ++ " resolves to " ++ env.text r
          ++ ", which another entry of create.devices already names"⟩
      else resolveAll rest (real ++ [r])

/-- The second loop: the devices that carry a signature. -/
def probeAll : List Path → AdminProg Path (List (Path × String))
  | [] => pure []
  | r :: rest => do
      let kind ← signature env r
      let later ← probeAll rest
      pure ((kind.toList.map fun kind => (r, kind)) ++ later)

/-- The third loop. -/
def wipeAll : List (Path × String) → AdminProg Path Unit
  | [] => pure ()
  | (d, _) :: rest => do
      match ← ask (env.run · (wipefs env d)) (.ran (wipefs env d)) with
      | .error e => .refuse ⟨.poolUnavailable, "wipefs cannot be run: " ++ e⟩
      | .ok out =>
          if out.code = some 0 then wipeAll rest
          else .refuse ⟨.deviceInUse, "wipefs on " ++ env.text d ++ " failed: " ++ out.why⟩

def checkDevices (devices : List Path) (wipe : Bool) : AdminProg Path (List Path) := do
  if devices.isEmpty then
    .refuse ⟨.invalidAllowlist,
      "create.devices is empty — name the devices the pool is built from"⟩
  else
    let real ← resolveAll env devices []
    let marked ← probeAll env real
    if !marked.isEmpty && !wipe then
      .refuse ⟨.deviceInUse, "these devices carry a signature and are left as they are: "
        ++ String.intercalate ", " (marked.map fun (d, k) => env.text d ++ " (" ++ k ++ ")")
        ++ " — pass --wipe-devices to overwrite them, knowing it destroys what is on them"⟩
    else
      wipeAll env marked
      pure real

-----------------------------------------------------------------------------------------
-- The commands
-----------------------------------------------------------------------------------------

def destroyGuarded (pool : DeclaredPool) : AdminProg Path String := do
  if pool.entry.create.isNone then
    .refuse ⟨.poolNotCreatedHere, "storage pool '" ++ pool.name
      ++ "' has no `create:` block in the allowlist: it existed before the engine, and is never "
      ++ "destroyed — remove its entry to stop using it"⟩
  else
    let created ← orRefuse (← ask env.createdHere .createdHere)
    if !created then
      .refuse ⟨.poolNotCreatedHere, "storage pool '" ++ pool.name
        ++ "' does not carry this helper's creation mark — it is never destroyed by this command"⟩
    else
      let held ← orRefuse (← ask env.contents .contents)
      if !held.isEmpty then
        .refuse ⟨.poolConflict, s!"storage pool '{pool.name}' still holds {held.length} volume(s): "
          ++ String.intercalate ", " held ++ " — release them first (`delonix volume rm`); "
          ++ "nothing was destroyed"⟩
      else orRefuse (← ask env.destroyPool fun _ => .destroyPool)

def createChecked (pool : DeclaredPool) (wipe : Bool) : AdminProg Path String := do
  match pool.entry.create with
  | none =>
      .refuse ⟨.invalidAllowlist, "storage pool '" ++ pool.name
        ++ "' has no `create:` block — there is nothing to create it from"⟩
  | some create =>
      let devices ← checkDevices env (create.map env.path) wipe
      orRefuse (← ask (env.createPool · devices) fun _ => .createPool devices)

-----------------------------------------------------------------------------------------
-- What a log says
-----------------------------------------------------------------------------------------

/-- The devices that were resolved, in order, with what they are. -/
def resolutions (log : List (Effect Path)) : List (Path × Path) :=
  log.reverse.filterMap fun
    | .resolved device (.ok real) => some (device, real)
    | _ => none

def codeOf : Except String Output → Option Int
  | .ok out => out.code
  | .error _ => none

/-- The runs of one program, in order, each with its exit code. -/
def runsOf (program : String) (log : List (Effect Path)) : List (List String × Option Int) :=
  log.reverse.filterMap fun
    | .ran argv answer => if argv.head? = some program then some (argv, codeOf answer) else none
    | _ => none

/-- All the devices are resolved, to devices that differ. -/
structure Resolved (devices real : List Path) (log : List (Effect Path)) : Prop where
  each : resolutions log = devices.zip real
  all : devices.length = real.length
  distinct : real.Pairwise fun a b => env.same a b = false

/-- All the devices are probed, and these answers say which carry a signature. -/
structure Probed (real : List Path) (signed : List Bool) (log : List (Effect Path)) : Prop where
  each : runsOf "blkid" log
    = (real.zip signed).map fun (r, carries) => (blkid env r, some (if carries then 0 else 2))
  all : real.length = signed.length

/-- The devices that carry a signature. -/
def marked (real : List Path) (signed : List Bool) : List Path :=
  ((real.zip signed).filter Prod.snd).map Prod.fst

/-- Nothing is overwritten before everything has passed. -/
structure Careful (devices : List Path) (wipe : Bool) (log : List (Effect Path)) : Prop where
  wipes : ∀ newer argv answer older, log = newer ++ .ran argv answer :: older →
    argv.head? = some "wipefs" → wipe = true ∧ ∃ real signed, Resolved env devices real older
      ∧ Probed env real signed older ∧ ∃ r ∈ marked real signed, argv = wipefs env r
  once : runsOf "wipefs" log = [] ∨ ∃ real signed, Resolved env devices real log
    ∧ Probed env real signed log
    ∧ (runsOf "wipefs" log).map Prod.fst <+: (marked real signed).map (wipefs env)
  creates : ∀ newer real older, log = newer ++ .createPool real :: older →
    ∃ signed, Resolved env devices real older ∧ Probed env real signed older
      ∧ runsOf "wipefs" older = (marked real signed).map fun r => (wipefs env r, some 0)

/-- A pool is unmade only where it is known to be this engine's and empty. -/
structure Guarded (pool : DeclaredPool) (result : Except (Stop Error) String)
    (log : List (Effect Path)) : Prop where
  destroys : ∀ newer older, log = newer ++ .destroyPool :: older → pool.entry.create.isSome
    ∧ .createdHere (.ok true) ∈ older ∧ .contents (.ok []) ∈ older
  unknown : (∀ answer, .createdHere answer ∈ log → answer.isOk = true) ∧
      (∀ answer, .contents answer ∈ log → answer.isOk = true)
    ∨ (∃ stop, result = .error stop) ∧ .destroyPool ∉ log

-----------------------------------------------------------------------------------------
-- One more entry
-----------------------------------------------------------------------------------------

theorem resolutions_cons (e : Effect Path) (log : List (Effect Path))
    : resolutions (e :: log) = resolutions log ++ match e with
      | .resolved device (.ok real) => [(device, real)]
      | _ => [] := by
  rw [resolutions, resolutions, List.reverse_cons, List.filterMap_append]
  cases e with
  | resolved device answer => cases answer <;> rfl
  | _ => rfl

theorem runsOf_cons (program : String) (e : Effect Path) (log : List (Effect Path))
    : runsOf program (e :: log) = runsOf program log ++ match e with
      | .ran argv answer => if argv.head? = some program then [(argv, codeOf answer)] else []
      | _ => [] := by
  rw [runsOf, runsOf, List.reverse_cons, List.filterMap_append]
  cases e with
  | ran argv answer =>
      by_cases own : argv.head? = some program
      · simp [own]
      · simp [own]
  | _ => rfl

variable {env : Environment Path} {devices real : List Path} {signed : List Bool} {wipe : Bool}
  {log : List (Effect Path)}

/-- Neither a run of `wipefs` nor the making of a pool. -/
def Effect.harmless : Effect Path → Prop
  | .ran argv _ => argv.head? ≠ some "wipefs"
  | .createPool _ => False
  | _ => True

/-- Whatever is split off a log with one more entry is that entry, or was split off before. -/
theorem split_cons {e : Effect Path} {newer older : List (Effect Path)} {other : Effect Path}
    (split : e :: log = newer ++ other :: older)
    : (other = e ∧ older = log) ∨ ∃ newer', log = newer' ++ other :: older := by
  cases newer with
  | nil =>
      obtain ⟨rfl, rfl⟩ := List.cons.inj split
      exact .inl ⟨rfl, rfl⟩
  | cons first newer => exact .inr ⟨newer, (List.cons.inj split).2⟩

theorem careful_nil : Careful env devices wipe [] where
  wipes newer _ _ older split _ := by simp at split
  once := .inl rfl
  creates newer _ older split := by simp at split

theorem runsOf_of_harmless (harmless : ∀ e ∈ log, e.harmless) : runsOf "wipefs" log = [] := by
  rw [runsOf, List.filterMap_eq_nil_iff]
  intro e member
  have here := harmless e (by simpa using member)
  cases e with
  | ran argv answer =>
      have here : argv.head? ≠ some "wipefs" := here
      simp [here]
  | _ => rfl

/-- As long as nothing is overwritten and nothing made, all is well. -/
theorem careful_of_harmless (harmless : ∀ e ∈ log, e.harmless) : Careful env devices wipe log where
  wipes newer argv answer older split own := by
    have here : Effect.harmless (.ran argv answer : Effect Path) := harmless _ (by simp [split])
    exact absurd own here
  once := .inl (runsOf_of_harmless harmless)
  creates newer made older split := by
    have here : Effect.harmless (.createPool made : Effect Path) := harmless _ (by simp [split])
    exact absurd here id

theorem Resolved.of_ran {argv : List String} {answer : Except String Output}
    (resolved : Resolved env devices real log)
    : Resolved env devices real (.ran argv answer :: log) where
  each := by simpa [resolutions_cons] using resolved.each
  all := resolved.all
  distinct := resolved.distinct

theorem Probed.of_wiped {r : Path} {answer : Except String Output}
    (probed : Probed env real signed log)
    : Probed env real signed (.ran (wipefs env r) answer :: log) where
  each := by simpa [runsOf_cons, wipefs] using probed.each
  all := probed.all

-----------------------------------------------------------------------------------------
-- The loops
-----------------------------------------------------------------------------------------

section

variable {β : Type} {pre cut : List (Effect Path) → Prop}

theorem leaves_ask {answer : List (Effect Path) → β} {effect : β → Effect Path}
    {post : β → List (Effect Path) → Prop}
    (logged : ∀ log, pre log → post (answer log) (effect (answer log) :: log))
    : Leaves pre (ask answer effect) post cut :=
  logged

theorem leaves_orRefuse {answer : Except Error β} {post : β → List (Effect Path) → Prop}
    (passed : ∀ value, answer = .ok value → ∀ log, pre log → post value log)
    (refused : ∀ reason, answer = .error reason → ∀ log, pre log → cut log)
    : Leaves pre (orRefuse answer) post cut := by
  cases answer with
  | ok value => exact .pure (passed value rfl)
  | error reason => exact .refuse (refused reason rfl)

end

/-- Nothing was done but resolve devices. -/
structure Resolving (env : Environment Path) (devices real : List Path) (log : List (Effect Path))
    : Prop where
  only : ∀ e ∈ log, ∃ device answer, e = .resolved device answer
  resolved : Resolved env devices real log

theorem Resolving.harmless (resolving : Resolving env devices real log) : ∀ e ∈ log, e.harmless := by
  intro e member
  obtain ⟨device, answer, rfl⟩ := resolving.only e member
  exact trivial

theorem leaves_resolveAll (rest done real : List Path)
    : Leaves (Resolving env done real) (resolveAll env rest real)
        (fun real log => Resolving env (done ++ rest) real log)
        (fun log => ∀ e ∈ log, e.harmless) := by
  induction rest generalizing done real with
  | nil =>
      rw [List.append_nil]
      exact .pure fun log resolving => resolving
  | cons d rest ih =>
      rw [resolveAll]
      refine .bind (fun answer log => (∀ e ∈ log, e.harmless) ∧ ∃ older, Resolving env done real older
        ∧ log = .resolved d answer :: older) (leaves_ask ?_) fun answer => ?_
      · intro log resolving
        refine ⟨?_, log, resolving, rfl⟩
        exact List.forall_mem_cons.mpr ⟨trivial, resolving.harmless⟩
      refine .bind (fun r log => (∀ e ∈ log, e.harmless) ∧ ∃ older, Resolving env done real older
        ∧ log = .resolved d (.ok r) :: older) (leaves_orRefuse ?_ fun _ _ log asked => asked.1) ?_
      · intro r ok log asked
        rwa [ok] at asked
      intro r
      cases twice : real.any (env.same · r) with
      | true =>
          rw [if_pos rfl]
          exact .refuse fun log asked => asked.1
      | false =>
          rw [if_neg (by simp)]
          refine (ih (done ++ [d]) (real ++ [r])).weaken ?_ ?_ fun _ harmless => harmless
          · intro log asked
            obtain ⟨-, older, resolving, rfl⟩ := asked
            refine ⟨List.forall_mem_cons.mpr ⟨⟨d, .ok r, rfl⟩, resolving.only⟩, ?_, ?_, ?_⟩
            · rw [resolutions_cons, resolving.resolved.each,
                List.zip_append resolving.resolved.all]
              rfl
            · simp [resolving.resolved.all]
            · refine List.pairwise_append.mpr ⟨resolving.resolved.distinct,
                List.pairwise_singleton _ _, fun a member b last => ?_⟩
              rw [List.mem_singleton.mp last]
              simpa using List.any_eq_false.mp twice a member
          · intro real log resolving
            simpa using resolving

/-- Nothing was overwritten, and the devices up to here were probed. -/
structure Probing (env : Environment Path) (devices real front : List Path) (signed : List Bool)
    (log : List (Effect Path)) : Prop where
  harmless : ∀ e ∈ log, e.harmless
  resolved : Resolved env devices real log
  probed : Probed env front signed log

theorem leaves_signature {front : List Path} {signed : List Bool} (r : Path)
    : Leaves (Probing env devices real front signed) (signature env r)
        (fun kind => Probing env devices real (front ++ [r]) (signed ++ [kind.isSome]))
        (fun log => ∀ e ∈ log, e.harmless) := by
  rw [signature]
  have stays {answer : Except String Output} {log : List (Effect Path)}
      (probing : Probing env devices real front signed log)
      : ∀ e ∈ (.ran (blkid env r) answer :: log : List (Effect Path)), e.harmless :=
    List.forall_mem_cons.mpr ⟨by simp [Effect.harmless, blkid], probing.harmless⟩
  refine .bind (fun answer log => ∃ older, Probing env devices real front signed older
    ∧ log = .ran (blkid env r) answer :: older) (leaves_ask fun log probing => ⟨log, probing, rfl⟩)
    fun answer => ?_
  have more {out : Output} {carries : Bool} {log : List (Effect Path)}
      (code : out.code = some (if carries then 0 else 2))
      (asked : ∃ older, Probing env devices real front signed older
        ∧ log = .ran (blkid env r) (.ok out) :: older)
      : Probing env devices real (front ++ [r]) (signed ++ [carries]) log := by
    obtain ⟨older, probing, rfl⟩ := asked
    refine ⟨stays probing, probing.resolved.of_ran, ?_, by simp [probing.probed.all]⟩
    rw [runsOf_cons, probing.probed.each, List.zip_append probing.probed.all, List.map_append]
    simp [blkid, codeOf, code]
  cases answer with
  | error e =>
      refine .refuse fun log asked => ?_
      obtain ⟨older, probing, rfl⟩ := asked
      exact stays probing
  | ok out =>
      dsimp only
      split
      case isTrue none_ => exact .pure fun log asked => @more out false log none_ asked
      case isFalse =>
        split
        case isTrue some_ => exact .pure fun log asked => @more out true log some_ asked
        case isFalse =>
          refine .refuse fun log asked => ?_
          obtain ⟨older, probing, rfl⟩ := asked
          exact stays probing

theorem leaves_probeAll (rest front : List Path) (signed : List Bool)
    : Leaves (Probing env devices real front signed) (probeAll env rest)
        (fun found log => ∃ signed', Probing env devices real (front ++ rest) (signed ++ signed') log
          ∧ found.map Prod.fst = marked rest signed')
        (fun log => ∀ e ∈ log, e.harmless) := by
  induction rest generalizing front signed with
  | nil =>
      refine .pure fun log probing => ⟨[], ?_, rfl⟩
      rwa [List.append_nil, List.append_nil]
  | cons r rest ih =>
      rw [probeAll]
      refine .bind _ (leaves_signature r) fun kind => ?_
      refine .bind _ (ih (front ++ [r]) (signed ++ [kind.isSome])) fun later => ?_
      refine .pure fun log found => ?_
      obtain ⟨signed', probing, is⟩ := found
      refine ⟨kind.isSome :: signed', by simpa using probing, ?_⟩
      cases kind with
      | none => simpa [marked] using is
      | some kind => simpa [marked] using is

/-- All the devices passed, and these of them are wiped. -/
structure Wiping (env : Environment Path) (devices real : List Path) (signed : List Bool)
    (wipe : Bool) (wiped : List Path) (log : List (Effect Path)) : Prop where
  careful : Careful env devices wipe log
  resolved : Resolved env devices real log
  probed : Probed env real signed log
  runs : runsOf "wipefs" log = wiped.map fun r => (wipefs env r, some 0)

/-- A device that carries a signature is wiped, and it is the next one of those. -/
theorem Wiping.careful_cons {wiped rest : List Path} {d : Path} {answer : Except String Output}
    (wiping : Wiping env devices real signed wipe wiped log) (allowed : wipe = true)
    (next : marked real signed = wiped ++ d :: rest)
    : Careful env devices wipe (.ran (wipefs env d) answer :: log) where
  wipes newer argv answer' older split own := by
    rcases split_cons split with ⟨is, rfl⟩ | ⟨newer', before⟩
    · cases is
      exact ⟨allowed, real, signed, wiping.resolved, wiping.probed, d, by simp [next], rfl⟩
    · exact wiping.careful.wipes newer' argv answer' older before own
  once := by
    refine .inr ⟨real, signed, wiping.resolved.of_ran, wiping.probed.of_wiped, ?_⟩
    rw [runsOf_cons, wiping.runs, next]
    refine ⟨rest.map (wipefs env), ?_⟩
    simp [wipefs]
  creates newer made older split := by
    rcases split_cons split with ⟨is, -⟩ | ⟨newer', before⟩
    · cases is
    · exact wiping.careful.creates newer' made older before

theorem leaves_wipeAll (found : List (Path × String)) (wiped : List Path)
    (next : marked real signed = wiped ++ found.map Prod.fst)
    (allowed : found ≠ [] → wipe = true)
    : Leaves (Wiping env devices real signed wipe wiped) (wipeAll env found)
        (fun _ => Wiping env devices real signed wipe (marked real signed))
        (Careful env devices wipe) := by
  induction found generalizing wiped with
  | nil =>
      refine .pure fun log wiping => ?_
      rwa [next, List.map_nil, List.append_nil]
  | cons first rest ih =>
      obtain ⟨d, kind⟩ := first
      have allowed := allowed (by simp)
      rw [wipeAll]
      refine .bind (fun answer log => Careful env devices wipe log
        ∧ ∃ older, Wiping env devices real signed wipe wiped older
          ∧ log = .ran (wipefs env d) answer :: older) (leaves_ask ?_) fun answer => ?_
      · intro log wiping
        exact ⟨wiping.careful_cons allowed next, log, wiping, rfl⟩
      cases answer with
      | error e => exact .refuse fun log asked => asked.1
      | ok out =>
          dsimp only
          split
          case isTrue done =>
            refine (ih (wiped ++ [d]) (by simpa using next) fun _ => allowed).weaken ?_
              (fun _ _ wiping => wiping) fun _ careful => careful
            intro log asked
            obtain ⟨careful, older, wiping, rfl⟩ := asked
            refine ⟨careful, wiping.resolved.of_ran, wiping.probed.of_wiped, ?_⟩
            rw [runsOf_cons, wiping.runs]
            simp [wipefs, codeOf, done]
          case isFalse => exact .refuse fun log asked => asked.1

-----------------------------------------------------------------------------------------
-- The commands keep their guards
-----------------------------------------------------------------------------------------

theorem leaves_checkDevices (devices : List Path) (wipe : Bool)
    : Leaves (fun log => log = []) (checkDevices env devices wipe)
        (fun real log => ∃ signed, Wiping env devices real signed wipe (marked real signed) log)
        (Careful env devices wipe) := by
  rw [checkDevices]
  split
  case isTrue =>
    refine .refuse fun log empty => ?_
    rw [empty]
    exact careful_nil
  case isFalse =>
    have start : ∀ log : List (Effect Path), log = [] → Resolving env [] [] log := by
      intro log empty
      subst empty
      exact ⟨nofun, rfl, rfl, .nil⟩
    refine .bind _ ((leaves_resolveAll devices [] []).weaken start (fun _ _ is => is)
      fun _ => careful_of_harmless) fun real => ?_
    have ready : ∀ log, Resolving env ([] ++ devices) real log
        → Probing env devices real [] [] log := by
      intro log resolving
      refine ⟨resolving.harmless, resolving.resolved, ?_, rfl⟩
      rw [List.zip_nil_right, List.map_nil, runsOf, List.filterMap_eq_nil_iff]
      intro e member
      obtain ⟨device, answer, rfl⟩ := resolving.only e (by simpa using member)
      rfl
    refine .bind _ ((leaves_probeAll real [] []).weaken ready (fun _ _ is => is)
      fun _ => careful_of_harmless) fun found => ?_
    split
    case isTrue =>
      refine .refuse fun log passed => ?_
      obtain ⟨signed, probing, -⟩ := passed
      exact careful_of_harmless probing.harmless
    case isFalse asked =>
      have allowed : found ≠ [] → wipe = true := by
        intro some_
        cases found with
        | nil => exact absurd rfl some_
        | cons => simpa using asked
      intro log passed
      obtain ⟨signed, probing, is⟩ := passed
      rw [List.nil_append, List.nil_append] at probing
      have wiping : Wiping env devices real signed wipe [] log :=
        ⟨careful_of_harmless probing.harmless, probing.resolved, probing.probed,
          runsOf_of_harmless probing.harmless⟩
      have next : marked real signed = [] ++ found.map Prod.fst := by rw [is, List.nil_append]
      refine Leaves.bind _ (leaves_wipeAll found [] next allowed) (fun _ => ?_) log wiping
      exact .pure fun log wiping => ⟨signed, wiping⟩

/-- The pool is made of the devices that passed. -/
theorem Wiping.careful_createPool
    (wiping : Wiping env devices real signed wipe (marked real signed) log)
    : Careful env devices wipe (.createPool real :: log) where
  wipes newer argv answer older split own := by
    rcases split_cons split with ⟨is, -⟩ | ⟨newer', before⟩
    · cases is
    · exact wiping.careful.wipes newer' argv answer older before own
  once := by
    refine .inr ⟨real, signed, ⟨?_, wiping.resolved.all, wiping.resolved.distinct⟩,
      ⟨?_, wiping.probed.all⟩, ?_⟩
    · simpa [resolutions_cons] using wiping.resolved.each
    · simpa [runsOf_cons] using wiping.probed.each
    · simp [runsOf_cons, wiping.runs, Function.comp_def]
  creates newer made older split := by
    rcases split_cons split with ⟨is, rfl⟩ | ⟨newer', before⟩
    · cases is
      exact ⟨signed, wiping.resolved, wiping.probed, wiping.runs⟩
    · exact wiping.careful.creates newer' made older before

theorem leaves_createChecked (pool : DeclaredPool) (wipe : Bool)
    : Leaves (fun log => log = []) (createChecked env pool wipe)
        (fun _ => Careful env ((pool.entry.create.getD []).map env.path) wipe)
        (Careful env ((pool.entry.create.getD []).map env.path) wipe) := by
  rw [createChecked]
  cases pool.entry.create with
  | none =>
      refine .refuse fun log empty => ?_
      rw [empty]
      exact careful_nil
  | some create =>
      refine .bind _ (leaves_checkDevices _ wipe) fun real => ?_
      refine .bind (fun _ => Careful env (create.map env.path) wipe) (leaves_ask ?_) fun answer => ?_
      · intro log passed
        obtain ⟨signed, wiping⟩ := passed
        exact wiping.careful_createPool
      · exact leaves_orRefuse (fun _ _ _ careful => careful) fun _ _ _ careful => careful

/-- Without an unmade pool in the log, an answer that failed leaves an error. -/
theorem guarded_of_kept {pool : DeclaredPool} {result : Except (Stop Error) String}
    (kept : .destroyPool ∉ log)
    (known : (∀ answer, .createdHere answer ∈ log → answer.isOk = true)
        ∧ (∀ answer, .contents answer ∈ log → answer.isOk = true)
      ∨ ∃ stop, result = .error stop)
    : Guarded pool result log where
  destroys newer older split := absurd (by simp [split]) kept
  unknown := known.imp_right fun failed => ⟨failed, kept⟩

theorem ask_bind {β γ : Type} (answer : List (Effect Path) → β) (effect : β → Effect Path)
    (next : β → AdminProg Path γ) (log : List (Effect Path))
    : (ask answer effect >>= next) log = next (answer log) (effect (answer log) :: log) :=
  rfl

theorem orRefuse_ok_bind {β γ : Type} (value : β) (next : β → AdminProg Path γ)
    (log : List (Effect Path))
    : (orRefuse (.ok value) >>= next) log = next value log :=
  rfl

theorem orRefuse_error_bind {β γ : Type} (reason : Error) (next : β → AdminProg Path γ)
    (log : List (Effect Path))
    : (orRefuse (.error reason) >>= next) log = (.error (.refused reason), log) :=
  rfl

/-- What is known when the pool is unmade. -/
theorem guarded_destroyGuarded (pool : DeclaredPool)
    : Guarded pool (destroyGuarded env pool []).1 (destroyGuarded env pool []).2 := by
  rw [destroyGuarded]
  cases declared : pool.entry.create.isNone with
  | true => exact guarded_of_kept (by simp [Prog.refuse]) (.inl (by simp [Prog.refuse]))
  | false =>
      rw [if_neg Bool.false_ne_true, ask_bind]
      cases env.createdHere [] with
      | error reason =>
          rw [orRefuse_error_bind]
          exact guarded_of_kept (by simp) (.inr ⟨_, rfl⟩)
      | ok mark =>
          rw [orRefuse_ok_bind]
          cases mark with
          | false =>
              refine guarded_of_kept (by simp [Prog.refuse]) (.inl ?_)
              simp [Prog.refuse, Except.isOk, Except.toBool]
          | true =>
              rw [if_neg (by simp), ask_bind]
              cases env.contents [.createdHere (.ok true)] with
              | error reason =>
                  rw [orRefuse_error_bind]
                  exact guarded_of_kept (by simp) (.inr ⟨_, rfl⟩)
              | ok held =>
                  rw [orRefuse_ok_bind]
                  cases held with
                  | cons first rest =>
                      refine guarded_of_kept (by simp [Prog.refuse]) (.inl ?_)
                      simp [Prog.refuse, Except.isOk, Except.toBool]
                  | nil =>
                      rw [if_neg (by simp), ask_bind]
                      have ends (answer : Except Error String) (log : List (Effect Path))
                          : (orRefuse answer log).2 = log := by
                        cases answer <;> rfl
                      rw [ends]
                      refine ⟨fun newer older split => ?_, .inl ?_⟩
                      · rcases split_cons split with ⟨-, rfl⟩ | ⟨newer', before⟩
                        · have some_ : pool.entry.create.isSome := by
                            rwa [← Option.not_isSome, Bool.not_eq_false'] at declared
                          exact ⟨some_, by simp, by simp⟩
                        · have member : (.destroyPool : Effect Path)
                              ∈ [.contents (.ok []), .createdHere (.ok true)] := by
                            simp [before]
                          simp at member
                      · simp [Except.isOk, Except.toBool]

/-- Whatever the host and the backend answer, no device is overwritten and no pool made before all
devices have passed, and no pool is unmade that is not known to be this engine's and empty.
-/
theorem pool_commands_guarded (env : Environment Path) (pool : DeclaredPool) (wipe : Bool)
    : Careful env ((pool.entry.create.getD []).map env.path) wipe (createChecked env pool wipe []).2
      ∧ Guarded pool (destroyGuarded env pool []).1 (destroyGuarded env pool []).2 := by
  refine ⟨?_, guarded_destroyGuarded pool⟩
  have made := @leaves_createChecked _ env pool wipe [] rfl
  split at made
  case h_1 ran => rwa [ran]
  case h_2 ran => rwa [ran]

end Delonix.Storage
