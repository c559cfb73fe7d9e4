import Delonix.Library.Text
import Delonix.Library.Tickets
import Delonix.Lifecycle.Record
import Mathlib.Data.List.Infix

/-! The streaming server of the CRI. A call leaves what it asks for under a random token and returns
a URL with it; the connection that comes to the URL takes it, and what it launches is made of
nothing else.
-/

namespace Delonix.Spdy.Sessions

open Delonix.Library.Tickets

abbrev Byte := UInt8

/-- Nanoseconds of the monotonic clock. -/
abbrev Instant := Nat

/-- What the source of randomness gives: sixteen bytes, or nothing. -/
abbrev Entropy := Option (Vector Byte 16)

/-- A byte as two lower-case digits. -/
def hexByte (b : Byte) : List Char := [Nat.digitChar (b.toNat / 16), Nat.digitChar (b.toNat % 16)]

def randomToken (entropy : Entropy) : Option String :=
  match entropy with
  | none => none
  | some buf =>
      if buf.toList.all fun b => b = 0 then none
      else some (String.ofList (buf.toList.flatMap hexByte))

/-- An exec, or an attach to the output of a container. -/
structure Pending where
  containerId : String
  cmd : List String
  tty : Bool
  stdin : Bool
  stdout : Bool
  stderr : Bool
  attach : Bool
  created : Instant
deriving DecidableEq

structure PfPending where
  podSandboxId : String
  ports : List Int32
  created : Instant
deriving DecidableEq

structure Streamer where
  base : String
  advertised : String
  execs : Held String Pending
  pforwards : Held String PfPending

def Streamer.new (base advertised : String) : Streamer :=
  ⟨base, advertised, fun _ => none, fun _ => none⟩

/-- Five minutes. -/
def lifetime : Nat := 300 * 10 ^ 9

namespace Streamer

/-- The URL, and the server that waits for it. Both clocks are read under the lock. -/
def preparePortForward (st : Streamer) (podSandboxId : String) (ports : List Int32)
    (entropy : Entropy) (now created : Instant) : Option String × Streamer :=
  match randomToken entropy with
  | none => (none, st)
  | some token =>
      (some (st.advertised ++ "/portforward/" ++ token),
        { st with
          pforwards := step PfPending.created lifetime st.pforwards
            (.issue token ⟨podSandboxId, ports, created⟩ now) })

/-- `prepare_exec` and `prepare_attach` past what they ask for. -/
def prepare (st : Streamer) (p : Pending) (entropy : Entropy) (now : Instant)
    : Option String × Streamer :=
  match randomToken entropy with
  | none => (none, st)
  | some token =>
      (some (st.advertised ++ "/exec/" ++ token),
        { st with execs := step Pending.created lifetime st.execs (.issue token p now) })

def prepareExec (st : Streamer) (containerId : String) (cmd : List String)
    (tty stdin stdout stderr : Bool) (entropy : Entropy) (now created : Instant)
    : Option String × Streamer :=
  st.prepare ⟨containerId, cmd, tty, stdin, stdout, stderr, false, created⟩ entropy now

def prepareAttach (st : Streamer) (containerId : String) (tty stdin stdout stderr : Bool)
    (entropy : Entropy) (now created : Instant) : Option String × Streamer :=
  st.prepare ⟨containerId, [], tty, stdin, stdout, stderr, true, created⟩ entropy now

end Streamer

def subprocessArgs (attach : Bool) (cmd : List String) (name : String) (tty : Bool) : List String :=
  if attach then ["container", "logs", "-f", name]
  else if tty then ["container", "exec", "-t", name, "--"] ++ cmd
  else ["container", "exec", name, "--"] ++ cmd

inductive Protocol where
  | spdy
  | websocket
deriving DecidableEq

/-- A request as far as it matters here: its `Upgrade` header, and whether the connection can be
taken over.
-/
structure Request where
  upgrade : Option String
  upgradable : Bool

inductive Reply where
  | notFound
  | badRequest
  /-- The connection is not taken over. -/
  | refused
  | session (protocol : Protocol) (args : List String)
deriving DecidableEq

def Request.protocol (req : Request) : Option Protocol :=
  let upgrade := (req.upgrade.getD "").toList.map Char.toLower
  if "spdy".toList <:+: upgrade then some .spdy
  else if "websocket".toList <:+: upgrade then some .websocket
  else none

def execUpgrade (st : Streamer) (token : String) (req : Request) : Reply × Streamer :=
  let taken := { st with execs := step Pending.created lifetime st.execs (.redeem token) }
  match st.execs token with
  | none => (.notFound, taken)
  | some p =>
      let name := "cri-" ++ p.containerId
      match req.protocol with
      | some protocol =>
          if req.upgradable then
            (.session protocol (subprocessArgs p.attach p.cmd name p.tty), taken)
          else (.refused, taken)
      | none => (.badRequest, taken)

/-- Where a port-forward is made. -/
inductive PfNetns where
  | host
  | nsPath (path : String)
  | pid (pid : Nat)
deriving DecidableEq

/-- What the records say of a sandbox, and of the infra container of its pod. -/
structure Sandbox where
  hostNetwork : Bool
  cniNetns : Option String
  pid : Option Nat
  pidStarttime : Option Nat

def podSandboxPid (table : Lifecycle.Table) (sandbox : Sandbox) : Option Nat :=
  sandbox.pid.filter fun pid => Lifecycle.safeToSignal table pid sandbox.pidStarttime

inductive PfReply where
  | notFound
  /-- The pod has no live network namespace. -/
  | conflict
  /-- The connection is not taken over. -/
  | refused
  | forward (netns : PfNetns)
deriving DecidableEq

def handlePortForward (req : Request) (netns : PfNetns) : PfReply :=
  if req.upgradable then .forward netns else .refused

/-- The streams that follow on the connection all connect in the namespace chosen here; one that is
known by its process is not looked up again.
-/
def portforwardUpgrade (st : Streamer) (token : String) (req : Request)
    (sandboxes : String → Sandbox) (table : Lifecycle.Table) : PfReply × Streamer :=
  let taken := { st with pforwards := step PfPending.created lifetime st.pforwards (.redeem token) }
  match st.pforwards token with
  | none => (.notFound, taken)
  | some p =>
      let sandbox := sandboxes p.podSandboxId
      if sandbox.hostNetwork then (handlePortForward req .host, taken)
      else match sandbox.cniNetns with
        | some ns => (handlePortForward req (.nsPath ns), taken)
        | none =>
            match podSandboxPid table sandbox with
            | some pid => (handlePortForward req (.pid pid), taken)
            | none => (.conflict, taken)

inductive Action where
  | prepareExec (containerId : String) (cmd : List String) (tty stdin stdout stderr : Bool)
      (entropy : Entropy) (now created : Instant)
  | prepareAttach (containerId : String) (tty stdin stdout stderr : Bool)
      (entropy : Entropy) (now created : Instant)
  | preparePortForward (podSandboxId : String) (ports : List Int32)
      (entropy : Entropy) (now created : Instant)
  | connectExec (token : String) (req : Request)
  | connectPortForward (token : String) (req : Request) (sandboxes : String → Sandbox)
      (table : Lifecycle.Table)

def Streamer.after (st : Streamer) : Action → Streamer
  | .prepareExec containerId cmd tty stdin stdout stderr entropy now created =>
      (st.prepareExec containerId cmd tty stdin stdout stderr entropy now created).2
  | .prepareAttach containerId tty stdin stdout stderr entropy now created =>
      (st.prepareAttach containerId tty stdin stdout stderr entropy now created).2
  | .preparePortForward podSandboxId ports entropy now created =>
      (st.preparePortForward podSandboxId ports entropy now created).2
  | .connectExec token req => (execUpgrade st token req).2
  | .connectPortForward token req sandboxes table =>
      (portforwardUpgrade st token req sandboxes table).2

/-- The calls and the connections of any clients, in the order in which they get the locks. -/
def Streamer.run (st : Streamer) (history : List Action) : Streamer := history.foldl after st

/-- What is given out, if there is a token for it. -/
def given {D : Type} (entropy : Entropy) (ticket : D) (now : Instant) : Op String D :=
  match randomToken entropy with
  | some token => .issue token ticket now
  | none => .other

/-- What an action does to the execs and attaches that wait. -/
def execView : Action → Op String Pending
  | .prepareExec containerId cmd tty stdin stdout stderr entropy now created =>
      given entropy ⟨containerId, cmd, tty, stdin, stdout, stderr, false, created⟩ now
  | .prepareAttach containerId tty stdin stdout stderr entropy now created =>
      given entropy ⟨containerId, [], tty, stdin, stdout, stderr, true, created⟩ now
  | .connectExec token _ => .redeem token
  | _ => .other

def portView : Action → Op String PfPending
  | .preparePortForward podSandboxId ports entropy now created =>
      given entropy ⟨podSandboxId, ports, created⟩ now
  | .connectPortForward token _ _ _ => .redeem token
  | _ => .other

theorem execs_prepare (st : Streamer) (p : Pending) (entropy : Entropy) (now : Instant)
    : (st.prepare p entropy now).2.execs
        = step Pending.created lifetime st.execs (given entropy p now)
      ∧ (st.prepare p entropy now).2.pforwards = st.pforwards := by
  rw [Streamer.prepare, given]
  cases randomToken entropy <;> exact ⟨rfl, rfl⟩

theorem preparePortForward_maps (st : Streamer) (podSandboxId : String) (ports : List Int32)
    (entropy : Entropy) (now created : Instant)
    : (st.preparePortForward podSandboxId ports entropy now created).2.pforwards
        = step PfPending.created lifetime st.pforwards
          (given entropy ⟨podSandboxId, ports, created⟩ now)
      ∧ (st.preparePortForward podSandboxId ports entropy now created).2.execs = st.execs := by
  rw [Streamer.preparePortForward, given]
  cases randomToken entropy <;> exact ⟨rfl, rfl⟩

/-- Whatever a connection is answered, its token is taken. -/
theorem execUpgrade_taken (st : Streamer) (token : String) (req : Request)
    : (execUpgrade st token req).2
      = { st with execs := step Pending.created lifetime st.execs (.redeem token) } := by
  fun_cases execUpgrade st token req <;> rfl

theorem portforwardUpgrade_taken (st : Streamer) (token : String) (req : Request)
    (sandboxes : String → Sandbox) (table : Lifecycle.Table)
    : (portforwardUpgrade st token req sandboxes table).2
      = { st with
          pforwards := step PfPending.created lifetime st.pforwards (.redeem token) } := by
  fun_cases portforwardUpgrade st token req sandboxes table <;> rfl

/-- Each action does to the two maps what its views say. -/
theorem maps_after (st : Streamer) (action : Action)
    : (st.after action).execs = step Pending.created lifetime st.execs (execView action)
      ∧ (st.after action).pforwards
        = step PfPending.created lifetime st.pforwards (portView action) := by
  cases action with
  | prepareExec => exact execs_prepare _ _ _ _
  | prepareAttach => exact execs_prepare _ _ _ _
  | preparePortForward => exact (preparePortForward_maps _ _ _ _ _ _).symm
  | connectExec => exact ⟨by rw [Streamer.after, execUpgrade_taken]; rfl, by
      rw [Streamer.after, execUpgrade_taken]; rfl⟩
  | connectPortForward => exact ⟨by rw [Streamer.after, portforwardUpgrade_taken]; rfl, by
      rw [Streamer.after, portforwardUpgrade_taken]; rfl⟩

theorem maps_run (st : Streamer) (history : List Action)
    : (st.run history).execs
        = (history.map execView).foldl (step Pending.created lifetime) st.execs
      ∧ (st.run history).pforwards
        = (history.map portView).foldl (step PfPending.created lifetime) st.pforwards := by
  induction history generalizing st with
  | nil => exact ⟨rfl, rfl⟩
  | cons action history ih =>
      obtain ⟨execs, pforwards⟩ := maps_after st action
      rw [List.map_cons, List.foldl_cons, ← execs, List.map_cons, List.foldl_cons, ← pforwards]
      exact ih (st.after action)

/-- Over any history, a connection gets a session if and only if it asks for a protocol that is
spoken and a call left a request under its token that no connection took since, no other call
replaced and none found too old; what is launched is what that call asked for.
-/
theorem session_iff (base advertised : String) (history : List Action) (token : String)
    (req : Request) (protocol : Protocol) (args : List String)
    : (execUpgrade ((Streamer.new base advertised).run history) token req).1
        = .session protocol args
      ↔ req.protocol = some protocol ∧ req.upgradable = true
        ∧ ∃ p, args = subprocessArgs p.attach p.cmd ("cri-" ++ p.containerId) p.tty
          ∧ ∃ before action after now, history = before ++ action :: after
            ∧ execView action = .issue token p now
            ∧ ∀ later ∈ after, Spares Pending.created lifetime token p (execView later) := by
  have held (p : Pending) := held_iff Pending.created lifetime execView history token p
  have map : ((Streamer.new base advertised).run history).execs
      = (history.map execView).foldl (step Pending.created lifetime) fun _ => none :=
    (maps_run _ history).1
  simp only [← held, ← map]
  generalize (Streamer.new base advertised).run history = st
  unfold execUpgrade
  cases st.execs token with
  | none => simp
  | some p =>
      cases req.protocol with
      | none => simp
      | some spoken => cases req.upgradable <;> simp [eq_comm]

/-- The namespace is that of the sandbox; a process stands for it only while it runs, and only if
it is the one that was recorded.
-/
def Sandbox.Has (sandbox : Sandbox) (table : Lifecycle.Table) : PfNetns → Prop
  | .host => sandbox.hostNetwork = true
  | .nsPath path => sandbox.hostNetwork = false ∧ sandbox.cniNetns = some path
  | .pid pid =>
      sandbox.hostNetwork = false ∧ sandbox.cniNetns = none ∧ sandbox.pid = some pid
      ∧ 0 < pid ∧ ∃ slot, table pid = some slot
        ∧ ∀ want ∈ sandbox.pidStarttime, slot.starttime = want

theorem podSandboxPid_eq_some_iff {table : Lifecycle.Table} {sandbox : Sandbox} {pid : Nat}
    : podSandboxPid table sandbox = some pid
      ↔ sandbox.pid = some pid ∧ 0 < pid ∧ ∃ slot, table pid = some slot
        ∧ ∀ want ∈ sandbox.pidStarttime, slot.starttime = want := by
  rw [podSandboxPid, Option.filter_eq_some_iff]
  refine and_congr_right fun _ => ?_
  unfold Lifecycle.safeToSignal Lifecycle.isAlive Lifecycle.procStarttime
  cases table pid with
  | none => simp
  | some slot => cases sandbox.pidStarttime <;> simp

theorem Sandbox.has_pid_iff {table : Lifecycle.Table} {sandbox : Sandbox} {pid : Nat}
    : sandbox.Has table (.pid pid)
      ↔ sandbox.hostNetwork = false ∧ sandbox.cniNetns = none
        ∧ podSandboxPid table sandbox = some pid := by
  rw [Sandbox.Has, podSandboxPid_eq_some_iff]

theorem handlePortForward_eq_forward_iff {req : Request} {netns chosen : PfNetns}
    : handlePortForward req netns = .forward chosen ↔ req.upgradable = true ∧ netns = chosen := by
  unfold handlePortForward
  cases req.upgradable <;> simp

/-- Over any history, a connection is forwarded if and only if it can be taken over and a call left
a request under its token that is still there, and only into the sandbox that the call was for, as
that sandbox is when the connection comes.
-/
theorem forward_iff (base advertised : String) (history : List Action) (token : String)
    (req : Request) (sandboxes : String → Sandbox) (table : Lifecycle.Table) (netns : PfNetns)
    : (portforwardUpgrade ((Streamer.new base advertised).run history) token req sandboxes table).1
        = .forward netns
      ↔ req.upgradable = true ∧ ∃ p, (sandboxes p.podSandboxId).Has table netns
        ∧ ∃ before action after now, history = before ++ action :: after
          ∧ portView action = .issue token p now
          ∧ ∀ later ∈ after, Spares PfPending.created lifetime token p (portView later) := by
  have held (p : PfPending) := held_iff PfPending.created lifetime portView history token p
  have map : ((Streamer.new base advertised).run history).pforwards
      = (history.map portView).foldl (step PfPending.created lifetime) fun _ => none :=
    (maps_run _ history).2
  simp only [← held, ← map]
  generalize (Streamer.new base advertised).run history = st
  unfold portforwardUpgrade
  cases st.pforwards token with
  | none => simp
  | some p =>
      simp only [Option.some.injEq, exists_eq_right']
      generalize sandboxes p.podSandboxId = sandbox
      cases mode : sandbox.hostNetwork with
      | true => cases netns <;> simp [handlePortForward_eq_forward_iff, Sandbox.Has, mode]
      | false =>
          cases named : sandbox.cniNetns with
          | some ns =>
              cases netns <;> simp [handlePortForward_eq_forward_iff, Sandbox.Has, mode, named]
          | none =>
              cases found : podSandboxPid table sandbox with
              | none =>
                  cases netns with
                  | pid other => simp [Sandbox.has_pid_iff, found]
                  | _ => simp [Sandbox.Has, mode, named]
              | some pid =>
                  cases netns with
                  | pid other =>
                      simp [handlePortForward_eq_forward_iff, Sandbox.has_pid_iff, mode, named,
                        found]
                  | _ => simp [handlePortForward_eq_forward_iff, Sandbox.Has, mode, named]

end Delonix.Spdy.Sessions
