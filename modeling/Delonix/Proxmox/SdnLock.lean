import Delonix.Library.Runs

/-! Changes of a cluster's own network under its global lock. Every write edits one pending
configuration, and an apply promotes all that is pending, whoever staged it. A transaction takes the
lock, stages its change with the token, and applies it or discards it with the same token.
-/

namespace Delonix.Proxmox.SdnLock

open Delonix.Library.Interleaving
open Delonix.Library.Runs

variable {Config Token Fate : Type}

structure Cluster (Config Token : Type) where
  running : Config
  staged : Config
  lock : Option Token
  /-- Every token that was given out. -/
  issued : List Token

/-- A request to the node; an apply and a rollback ask for the lock to be released too. -/
inductive Request (Config Token : Type) where
  | lock
  | write (edit : Config → Config) (token : Option Token)
  | apply (token : Option Token)
  | rollback (token : Option Token)
  | release (token : Option Token)
  | pendingChanges

/-- What a client learns of its request, the task that it started included. -/
inductive Reply (Token : Type) where
  | granted (token : Token)
  | done
  | failed
  | lost
  /-- Refused for a lock of the node's own; the request is sent again for a while. -/
  | busy
deriving DecidableEq

def Request.token : Request Config Token → Option Token
  | .write _ token | .apply token | .rollback token | .release token => token
  | .lock | .pendingChanges => none

/-- What a request changes, where the node serves it. -/
def Request.effect (cluster : Cluster Config Token) : Request Config Token → Cluster Config Token
  | .write edit _ => { cluster with staged := edit cluster.staged }
  | .apply _ => { cluster with running := cluster.staged, lock := none }
  | .rollback _ => { cluster with staged := cluster.running, lock := none }
  | .release _ => { cluster with lock := none }
  | .lock | .pendingChanges => cluster

/-- How the node serves a request; a fate is what happens to the request besides. -/
abbrev Serve (Config Token Fate : Type) :=
  Fate → Cluster Config Token → Request Config Token → Reply Token × Cluster Config Token

/-- What is documented of the node. A token is checked only against a lock that is held, the lock is
given only where nothing is pending, and a request that fails or whose answer is lost may have been
served.
-/
structure Documented (serve : Serve Config Token Fate) : Prop where
  lock : ∀ fate cluster,
    ((serve fate cluster .lock).2 = cluster ∧ ∀ t, (serve fate cluster .lock).1 ≠ .granted t)
      ∨ cluster.lock = none ∧ cluster.staged = cluster.running
        ∧ ∃ t, t ∉ cluster.issued
          ∧ (serve fate cluster .lock).2
            = { cluster with lock := some t, issued := t :: cluster.issued }
          ∧ ∀ other, (serve fate cluster .lock).1 = .granted other → other = t
  others : ∀ fate cluster request, request ≠ .lock →
    (serve fate cluster request).2 = cluster
      ∨ (cluster.lock = none ∨ cluster.lock = request.token)
        ∧ (serve fate cluster request).2 = request.effect cluster
        ∧ (serve fate cluster request).1 ≠ .busy

/-- Whether a change that succeeds is applied, or discarded as one that fails. -/
inductive Mode where
  | transaction
  | discardedChange
deriving DecidableEq

/-- What a rollback is for. -/
inductive Purpose where
  | recovery (mode : Mode)
  | ending
deriving DecidableEq

/-- Where a process is. With the token goes the list of its writes that the node took. -/
inductive Stage (Config Token : Type) where
  | idle
  | reading (mode : Mode)
  | rollingBack (purpose : Purpose) (token : Token)
  | probing (purpose : Purpose)
  | clearing (mode : Mode)
  | locking (mode : Mode)
  | saving (mode : Mode) (token : Token)
  | staging (mode : Mode) (token : Token) (writes : List (Config → Config))
  | applying (token : Token) (writes : List (Config → Config))
  | following (token : Token)
  | releasing (token : Token)
  | leaving
  | dead

structure HeldLock (Token : Type) where
  token : Token
  /-- The process, by its number and the time of its start. -/
  holder : Nat

structure World (Config Token : Type) where
  cluster : Cluster Config Token
  /-- The file next to the ledger. -/
  held : Option (HeldLock Token)
  alive : Nat → Bool
  /-- Which process of this engine asked for a token. -/
  asker : Token → Option Nat

inductive Act (Config Fate : Type) where
  | start (mode : Mode)
  /-- The next call; `works` is of file operations, the reads around an apply and another try. -/
  | step (fate : Fate) (works : Bool)
  | write (edit : Config → Config) (fate : Fate)
  /-- The change returns. -/
  | finish (succeeded : Bool)
  | unwind
  | die

inductive Outside (Config Token Fate : Type) where
  | request (request : Request Config Token) (fate : Fate)
  | force

/-- Where a rollback leads. -/
def Purpose.next (purpose : Purpose) (succeeded : Bool) : Stage Config Token :=
  match purpose, succeeded with
  | .recovery mode, true => .clearing mode
  | .recovery _, false => .idle
  | .ending, _ => .leaving

variable [DecidableEq Config] [DecidableEq Token]

/-- The process that the lock went to is remembered with its token. -/
def World.asked (world : World Config Token) (i : Nat) (after : Cluster Config Token)
    : World Config Token where
  cluster := after
  held := world.held
  alive := world.alive
  asker := match after.lock with
    | some t =>
        if t ∈ world.cluster.issued then world.asker else Function.update world.asker t (some i)
    | none => world.asker

/-- One call of a process. -/
def call (serve : Serve Config Token Fate) (i : Nat) (world : World Config Token) (fate : Fate)
    (works : Bool)
    : Stage Config Token → World Config Token × Stage Config Token
  | .reading mode =>
      match world.held with
      | none => (world, .locking mode)
      | some held =>
          if world.alive held.holder then (world, .idle)
          else (world, .rollingBack (.recovery mode) held.token)
  | .rollingBack purpose t =>
      let served := serve fate world.cluster (.rollback (some t))
      ({ world with cluster := served.2 },
        if served.1 = .lost then .probing purpose
        else if served.1 = .busy ∧ works then .rollingBack purpose t
        else purpose.next (served.1 = .done))
  | .probing purpose =>
      let served := serve fate world.cluster .pendingChanges
      ({ world with cluster := served.2 }, purpose.next (served.1 = .done))
  | .clearing mode => ({ world with held := if works then none else world.held }, .locking mode)
  | .locking mode =>
      let served := serve fate world.cluster .lock
      (world.asked i served.2,
        match served.1 with
        | .granted t => .saving mode t
        | _ => .idle)
  | .saving mode t =>
      ({ world with held := if works then some ⟨t, i⟩ else world.held }, .staging mode t [])
  | .applying t writes =>
      if works then
        let served := serve fate world.cluster (.apply (some t))
        ({ world with cluster := served.2 },
          match served.1 with
          | .done => .following t
          | .busy => .applying t writes
          | _ => .releasing t)
      else (world, .releasing t)
  | .following t => (world, if works then .leaving else .releasing t)
  | .releasing t =>
      let served := serve fate world.cluster (.release (some t))
      ({ world with cluster := served.2 },
        if served.1 = .busy ∧ works then .releasing t else .leaving)
  | .leaving => ({ world with held := if works then none else world.held }, .idle)
  | stage => (world, stage)

def advance (serve : Serve Config Token Fate) (i : Nat) (world : World Config Token)
    : Stage Config Token → Act Config Fate → World Config Token × Stage Config Token
  | .dead, _ => (world, .dead)
  | _, .die => ({ world with alive := Function.update world.alive i false }, .dead)
  | .idle, .start mode => (world, .reading mode)
  | .staging mode t writes, .write edit fate =>
      let after := (serve fate world.cluster (.write edit (some t))).2
      ({ world with cluster := after },
        .staging mode t
          (if after.staged = world.cluster.staged then writes else writes ++ [edit]))
  | .staging _ _ _, .unwind => (world, .leaving)
  | .staging mode t writes, .finish succeeded =>
      (world,
        if mode = .transaction ∧ succeeded then .applying t writes else .rollingBack .ending t)
  | stage, .step fate works => call serve i world fate works stage
  | stage, _ => (world, stage)

def stir (serve : Serve Config Token Fate) (world : World Config Token)
    : Outside Config Token Fate → World Config Token
  | .request request fate => { world with cluster := (serve fate world.cluster request).2 }
  | .force => { world with cluster := { world.cluster with lock := none } }

def engine (serve : Serve Config Token Fate)
    : System (World Config Token) (Stage Config Token) (Act Config Fate)
        (Outside Config Token Fate) :=
  ⟨advance serve, stir serve⟩

abbrev Engine (Config Token : Type) := State (World Config Token) (Stage Config Token)

end Delonix.Proxmox.SdnLock
