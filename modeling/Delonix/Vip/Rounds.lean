import Mathlib.Data.Finset.Basic
import Delonix.Stack.Manifest
import Delonix.Vip.Script

/-! The rounds that keep the virtual addresses served. A round reads the Services and the
container records, probes the Services that are due, and rewrites the dataplane from what the
readiness history says. Only one round runs at a time, but addresses leave and come back while
one is under way.
-/

namespace Delonix.Vip

open Delonix.Net
open Delonix.Stack (eqIgnoreAsciiCase)

/-- `spec.readiness.tcp`. -/
structure TcpReadiness where
  intervalSeconds : Nat := 2
  timeoutMilliseconds : Nat := 500
  successThreshold : Nat := 1
  failureThreshold : Nat := 2
  deriving DecidableEq, Repr

abbrev Labels := List (String × String)

/-- `spec.type` of a Service. -/
inductive ServiceType where
  | dns
  | virtualIp
  deriving DecidableEq, Repr

structure ServiceDef where
  name : String
  namespaceName : String
  matchLabels : Labels
  port : UInt16
  serviceType : ServiceType := .dns
  vip : Option String := none
  readiness : Option TcpReadiness := none
  publish : List UInt16 := []
  deriving DecidableEq, Repr

/-- What the selector and the readiness gate need from one container record. -/
structure Member where
  name : String
  namespaceName : String
  ip : String
  labels : Labels
  serving : Bool
  hasHealthCheck : Bool
  health : Option String
  running : Bool
  deriving DecidableEq, Repr

/-- An empty selector matches nothing. -/
def matchesLabels (labels matchLabels : Labels) : Bool :=
  !matchLabels.isEmpty && matchLabels.all fun (k, v) => labels.lookup k == some v

def selected (gate : Member → Bool) (namespaceName : String) (matchLabels : Labels)
    (members : List Member)
    : List Member :=
  members.filter fun m =>
    gate m && eqIgnoreAsciiCase m.namespaceName namespaceName
      && matchesLabels m.labels matchLabels

/-- The members a Service would select if they were serving. -/
def serviceCandidates : String → Labels → List Member → List Member := selected Member.running

def serviceBackends : String → Labels → List Member → List Member := selected Member.serving

def ServiceDef.key (d : ServiceDef) : String := d.namespaceName ++ "/" ++ d.name

def ServiceDef.cfg (d : ServiceDef) : TcpReadiness := d.readiness.getD {}

/-- Readiness of one backend of one Service. -/
structure ProbeState where
  ready : Bool := false
  successes : Nat := 0
  failures : Nat := 0
  deriving DecidableEq, Repr

def saturatingSucc (n : Nat) : Nat := min (n + 1) (2 ^ 32 - 1)

def ProbeState.observe (st : ProbeState) (ok : Bool) (cfg : TcpReadiness) : ProbeState :=
  if ok then
    let successes := saturatingSucc st.successes
    { ready := st.ready || max cfg.successThreshold 1 ≤ successes
      successes := successes
      failures := 0 }
  else
    let failures := saturatingSucc st.failures
    { ready := st.ready && !(max cfg.failureThreshold 1 ≤ failures : Bool)
      successes := 0
      failures := failures }

/-- The readiness history, by Service key and address. -/
abbrev Tracker := String × String → Option ProbeState

def Tracker.observe (tracker : Tracker) (key ip : String) (ok : Bool) (cfg : TcpReadiness)
    : Tracker :=
  Function.update tracker (key, ip) (some (((tracker (key, ip)).getD {}).observe ok cfg))

/-- Unknown is not ready. -/
def Tracker.isReady (tracker : Tracker) (key ip : String) : Bool :=
  (tracker (key, ip)).any ProbeState.ready

/-- Forgets every backend no longer a candidate. -/
def Tracker.retain (tracker : Tracker) (live : List (String × String)) : Tracker :=
  fun entry => if entry ∈ live then tracker entry else none

/-- One backend as the holder sees it. -/
structure BackendState where
  name : String
  ip : String
  state : String
  deriving DecidableEq, Repr

/-- One Service as the holder serves it. -/
structure ServiceState where
  namespaceName : String
  name : String
  vip : String
  port : UInt16
  backends : List BackendState
  deriving DecidableEq, Repr

/-- Instants are counted in nanoseconds. -/
abbrev Instant := Nat

structure Runtime where
  tracker : Tracker := fun _ => none
  nextDue : String → Option Instant := fun _ => none
  applied : Option String := none
  snapshot : List ServiceState := []
  gone : Finset String := ∅

structure Job where
  key : String
  ip : String
  port : UInt16
  cfg : TcpReadiness
  deriving DecidableEq, Repr

/-- A round whose probes are under way, with what it read when it began. -/
structure Round where
  defs : List ServiceDef
  pools : List Cidr
  members : List Member
  gone : Finset String
  jobs : List Job

/-- Picks the probes of the Services that are due, and sets when each is due next. -/
def pickJobs (force : Bool) (members : List Member) (now : Instant) (gone : Finset String)
    : (String → Option Instant) → List ServiceDef → (String → Option Instant) × List Job
  | nextDue, [] => (nextDue, [])
  | nextDue, d :: rest =>
      if force || (nextDue d.key).all (· ≤ now) then
        let due := now + max d.cfg.intervalSeconds 1 * 1000000000
        let backends := (serviceBackends d.namespaceName d.matchLabels members).filter
          fun m => m.ip ∉ gone
        let jobs := backends.map fun m => ⟨d.key, m.ip, d.port, d.cfg⟩
        let (nextDue, others) :=
          pickJobs force members now gone (Function.update nextDue d.key (some due)) rest
        (nextDue, jobs ++ others)
      else pickJobs force members now gone nextDue rest

/-- The first half of `sync_now`, up to the probes. A node that never served a VIP has none. -/
def Runtime.beginRound (rt : Runtime) (force : Bool) (services : List ServiceDef)
    (pools : List Cidr) (members : List Member) (now : Instant)
    : Runtime × Option Round :=
  let defs := services.filter fun d => d.serviceType == .virtualIp && d.vip.isSome
  if defs.isEmpty && pools.isEmpty && rt.applied.isNone then (rt, none)
  else
    let (nextDue, jobs) := pickJobs force members now rt.gone rt.nextDue defs
    ({ rt with nextDue := nextDue }, some ⟨defs, pools, members, rt.gone, jobs⟩)

/-- One probe that came to a result. -/
structure Observation where
  key : String
  ip : String
  ok : Bool
  cfg : TcpReadiness
  deriving DecidableEq, Repr

/-- The results of the probes, in order. A probe whose thread died has none. -/
def Round.results (round : Round) (outcomes : List (Option Bool)) : List Observation :=
  (round.jobs.zip outcomes).filterMap fun (job, outcome) =>
    outcome.map fun ok => ⟨job.key, job.ip, ok, job.cfg⟩

def Tracker.observeAll (tracker : Tracker) (results : List Observation) : Tracker :=
  results.foldl (fun tracker o => tracker.observe o.key o.ip o.ok o.cfg) tracker

def Round.inRotation (round : Round) (tracker : Tracker) (d : ServiceDef) (m : Member) : Bool :=
  m.serving && m.ip ∉ round.gone && tracker.isReady d.key m.ip

def Round.candidates (round : Round) (d : ServiceDef) : List Member :=
  serviceCandidates d.namespaceName d.matchLabels round.members

def strLe (a b : String) : Bool := a ≤ b

def Round.plan (round : Round) (tracker : Tracker) (d : ServiceDef) : VipPlan where
  vip := d.vip.getD ""
  port := d.port
  backends := (((round.candidates d).filter (round.inRotation tracker d)).map
    Member.ip).mergeSort strLe
  publish := d.publish

def backendStateText (inRotation : Bool) (m : Member) : String :=
  match inRotation, m.hasHealthCheck with
  | true, true => "healthy"
  | true, false => "ready (tcp)"
  | false, true =>
      if !m.serving then "not ready (health: " ++ m.health.getD "starting" ++ ")"
      else "not ready"
  | false, false => "not ready"

def Round.serviceState (round : Round) (tracker : Tracker) (d : ServiceDef) : ServiceState where
  namespaceName := d.namespaceName
  name := d.name
  vip := d.vip.getD ""
  port := d.port
  backends := (round.candidates d).map fun m =>
    ⟨m.name, m.ip, backendStateText (round.inRotation tracker d m) m⟩

/-- The backends whose history stays: every serving one, on the wire or not. -/
def Round.live (round : Round) : List (String × String) :=
  round.defs.flatMap fun d =>
    ((round.candidates d).filter Member.serving).map fun m => (d.key, m.ip)

def ingressTable : String := "dlxing"

/-- The second half of `sync_now`, from the probe results on. `nftOk` is the outcome of loading
a script that changed.
-/
def Runtime.finishRound (rt : Runtime) (round : Round) (outcomes : List (Option Bool))
    (nftOk : Bool)
    : Runtime :=
  let tracker := rt.tracker.observeAll (round.results outcomes)
  let script := renderScript ingressTable (round.defs.map (round.plan tracker))
    (guardSet round.pools (round.defs.map fun d => d.vip.getD ""))
  { rt with
    tracker := tracker.retain round.live
    nextDue := fun key => if key ∈ round.defs.map ServiceDef.key then rt.nextDue key else none
    snapshot := round.defs.map (round.serviceState tracker)
    applied := if rt.applied = some script ∨ nftOk = true then some script else rt.applied }

/-- An address left the wire. A node that never served a VIP does not keep it. The round that
follows is a step of its own.
-/
def Runtime.forgetAddress (rt : Runtime) (ip : String) : Runtime :=
  if rt.snapshot.isEmpty && rt.applied.isNone then rt
  else { rt with gone := insert ip rt.gone }

/-- An address was attached again. -/
def Runtime.addressBack (rt : Runtime) (ip : String) : Runtime :=
  { rt with gone := rt.gone.erase ip }

/-- The holder, and the round under way if there is one. -/
structure Holder where
  runtime : Runtime := {}
  round : Option Round := none

inductive Step where
  | beginRound (force : Bool) (services : List ServiceDef) (pools : List Cidr)
      (members : List Member) (now : Instant)
  | finishRound (outcomes : List (Option Bool)) (nftOk : Bool)
  | forgetAddress (ip : String)
  | addressBack (ip : String)

/-- A second round waits until the first is done. -/
def Holder.perform (holder : Holder) : Step → Holder
  | .beginRound force services pools members now =>
      match holder.round with
      | some _ => holder
      | none =>
          let (runtime, round) := holder.runtime.beginRound force services pools members now
          ⟨runtime, round⟩
  | .finishRound outcomes nftOk =>
      match holder.round with
      | some round => ⟨holder.runtime.finishRound round outcomes nftOk, none⟩
      | none => holder
  | .forgetAddress ip => { holder with runtime := holder.runtime.forgetAddress ip }
  | .addressBack ip => { holder with runtime := holder.runtime.addressBack ip }

end Delonix.Vip
