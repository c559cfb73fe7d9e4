import Delonix.Proxmox.SdnLock
import Mathlib.Algebra.GroupWithZero.Nat
import Mathlib.Algebra.Order.BigOperators.Group.List
import Mathlib.Algebra.Order.Group.Nat

/-! What the lock is for. The running configuration moves only by whole changes, and nobody moves
anything under a transaction on its way.
-/

namespace Delonix.Proxmox.SdnLock

open Delonix.Library.Interleaving
open Delonix.Library.Runs

variable {Config Token Fate : Type}

-----------------------------------------------------------------------------------------
-- The node
-----------------------------------------------------------------------------------------

section Node

variable {serve : Serve Config Token Fate} {fate : Fate} {cluster : Cluster Config Token}
variable {request : Request Config Token}

variable (fate cluster request) in
/-- What a request may do: nothing, lock a clean cluster, or have its effect under its token. -/
theorem Documented.cases (documented : Documented serve)
    : (serve fate cluster request).2 = cluster
      ∨ (cluster.lock = none ∧ cluster.staged = cluster.running
          ∧ ∃ t, t ∉ cluster.issued ∧ (serve fate cluster request).2
            = { cluster with lock := some t, issued := t :: cluster.issued })
      ∨ (cluster.lock = none ∨ cluster.lock = request.token)
          ∧ (serve fate cluster request).2 = request.effect cluster := by
  by_cases asks : request = .lock
  · subst asks
    rcases documented.lock fate cluster with ⟨same, -⟩ | ⟨free, clean, t, new, is, -⟩
    · exact .inl same
    · exact .inr (.inl ⟨free, clean, t, new, is⟩)
  · rcases documented.others fate cluster request asks with same | ⟨fits, is, -⟩
    · exact .inl same
    · exact .inr (.inr ⟨fits, is⟩)

/-- Every request that is not an apply leaves what runs. -/
theorem Documented.running (documented : Documented serve)
    (noApply : ∀ token, request ≠ .apply token)
    : (serve fate cluster request).2.running = cluster.running := by
  rcases documented.cases fate cluster request with same | ⟨-, -, t, -, is⟩ | ⟨-, is⟩
  · rw [same]
  · rw [is]
  · rw [is]
    cases request with
    | apply token => exact absurd rfl (noApply token)
    | _ => rfl

/-- Under a lock, a request that does not bring its token changes nothing. -/
theorem Documented.locked (documented : Documented serve) {t : Token}
    (locked : cluster.lock = some t) (other : request.token ≠ some t)
    : (serve fate cluster request).2 = cluster := by
  rcases documented.cases fate cluster request with same | ⟨free, -⟩ | ⟨free | mine, -⟩
  · exact same
  · cases locked.symm.trans free
  · cases locked.symm.trans free
  · exact absurd (mine.symm.trans locked) other

theorem Documented.issued (documented : Documented serve) {t : Token}
    (known : t ∈ cluster.issued)
    : t ∈ (serve fate cluster request).2.issued := by
  rcases documented.cases fate cluster request with same | ⟨-, -, u, -, is⟩ | ⟨-, is⟩
  · rwa [same]
  · rw [is]
    exact List.mem_cons_of_mem _ known
  · rw [is]
    cases request <;> exact known

/-- A lock is one that was there, or a new one. -/
theorem Documented.lock_after (documented : Documented serve) {t : Token}
    (locked : (serve fate cluster request).2.lock = some t)
    : cluster.lock = some t
      ∨ t ∉ cluster.issued ∧ t ∈ (serve fate cluster request).2.issued := by
  rcases documented.cases fate cluster request with same | ⟨-, -, u, new, is⟩ | ⟨-, is⟩
  · exact .inl (by rwa [same] at locked)
  · rw [is] at locked ⊢
    cases locked
    exact .inr ⟨new, List.mem_cons_self⟩
  · rw [is] at locked
    cases request <;> first | exact .inl locked | cases locked

end Node

-----------------------------------------------------------------------------------------
-- Tokens and their processes
-----------------------------------------------------------------------------------------

/-- The configuration after all writes of a list. -/
def whole (writes : List (Config → Config)) (config : Config) : Config :=
  writes.foldl (fun config edit => edit config) config

/-- The token of a process inside its transaction, and what it staged. -/
def Stage.active : Stage Config Token → Option (Token × List (Config → Config))
  | .saving _ t => some (t, [])
  | .staging _ t writes | .applying t writes => some (t, writes)
  | _ => none

/-- The token with which a process outside still sends requests. -/
def Stage.uses : Stage Config Token → Option Token
  | .rollingBack _ t | .following t | .releasing t => some t
  | _ => none

structure Inside (world : World Config Token) (i : Nat) (t : Token)
    (writes : List (Config → Config))
    : Prop where
  locked : world.cluster.lock = some t
  asked : world.asker t = some i
  staged : world.cluster.staged = whole writes world.cluster.running

/-- A token is the process's own, or that of a dead one. -/
def Uses (world : World Config Token) (i : Nat) (t : Token) : Prop :=
  ∃ k, world.asker t = some k ∧ (k = i ∨ world.alive k = false)

structure Fits (world : World Config Token) (i : Nat) (stage : Stage Config Token) : Prop where
  alive : stage ≠ .dead → world.alive i = true
  inside : ∀ t writes, stage.active = some (t, writes) → Inside world i t writes
  uses : ∀ t, stage.uses = some t → Uses world i t

structure Sound (world : World Config Token) : Prop where
  asked : ∀ t i, world.asker t = some i → t ∈ world.cluster.issued
  locked : ∀ t, world.cluster.lock = some t → t ∈ world.cluster.issued
  held : ∀ held, world.held = some held → world.asker held.token = some held.holder

/-- What a step leaves standing of the processes that did not take it. -/
structure Moves (before after : World Config Token) (mover : Option Nat) : Prop where
  asker : ∀ t k, before.asker t = some k → after.asker t = some k
  alive : ∀ k, some k ≠ mover → after.alive k = before.alive k
  dead : ∀ k, before.alive k = false → after.alive k = false
  under : ∀ t k, some k ≠ mover → before.alive k = true → before.cluster.lock = some t →
    before.asker t = some k → after.cluster = before.cluster

theorem Moves.refl (world : World Config Token) (mover : Option Nat) : Moves world world mover :=
  ⟨fun _ _ asked => asked, fun _ _ => rfl, fun _ dead => dead, fun _ _ _ _ _ _ => rfl⟩

/-- A process that did not move is still where it was, with its lock and what it staged. -/
theorem Moves.fits {before after : World Config Token} {mover : Option Nat}
    (moves : Moves before after mover) {j : Nat} (other : some j ≠ mover)
    {stage : Stage Config Token} (fits : Fits before j stage)
    : Fits after j stage := by
  refine ⟨?_, ?_, ?_⟩
  · intro lives
    rw [moves.alive j other]
    exact fits.alive lives
  · intro t writes active
    have lives : stage ≠ .dead := by
      intro dead
      rw [dead] at active
      cases active
    have inside := fits.inside t writes active
    have same := moves.under t j other (fits.alive lives) inside.locked inside.asked
    exact ⟨by rw [same]; exact inside.locked, moves.asker t j inside.asked,
      by rw [same]; exact inside.staged⟩
  · intro t uses
    obtain ⟨k, asked, owner⟩ := fits.uses t uses
    exact ⟨k, moves.asker t k asked, owner.imp_right (moves.dead k)⟩

structure Kept (before after : World Config Token) (i : Nat) (stage : Stage Config Token)
    : Prop where
  sound : Sound after
  moves : Moves before after (some i)
  fits : Fits after i stage

section Step

variable {serve : Serve Config Token Fate} {fate : Fate} {world : World Config Token}
variable {i : Nat} {stage : Stage Config Token}

/-- A stage outside every transaction. -/
theorem Fits.outside (lives : world.alive i = true) (inactive : stage.active = none)
    (uses : ∀ t, stage.uses = some t → Uses world i t)
    : Fits world i stage := by
  refine ⟨fun _ => lives, ?_, uses⟩
  intro t writes active
  cases inactive.symm.trans active

theorem Kept.still (sound : Sound world) (fits : Fits world i stage) : Kept world world i stage :=
  ⟨sound, .refl world _, fits⟩

/-- The file comes to hold nothing, or the token of the process. -/
theorem Kept.file (sound : Sound world) (fits : Fits world i stage)
    {held : Option (HeldLock Token)}
    (mine : ∀ h, held = some h → world.asker h.token = some h.holder)
    : Kept world { world with held := held } i stage :=
  ⟨⟨sound.asked, sound.locked, mine⟩,
    ⟨fun _ _ asked => asked, fun _ _ => rfl, fun _ dead => dead, fun _ _ _ _ _ _ => rfl⟩,
    ⟨fits.alive, fun t writes active => let inside := fits.inside t writes active
      ⟨inside.locked, inside.asked, inside.staged⟩, fits.uses⟩⟩

/-- A request with a token that the process may use changes nothing under another's lock. -/
theorem request_under (documented : Documented serve) {request : Request Config Token}
    {mover : Option Nat}
    (token : ∀ t, request.token = some t → ∀ k, world.asker t = some k →
      some k = mover ∨ world.alive k = false)
    {t : Token} {k : Nat} (other : some k ≠ mover) (lives : world.alive k = true)
    (locked : world.cluster.lock = some t) (asked : world.asker t = some k)
    : (serve fate world.cluster request).2 = world.cluster := by
  apply documented.locked locked
  intro same
  rcases token t same k asked with mine | dead
  · exact other mine
  · cases lives.symm.trans dead

theorem Sound.request (documented : Documented serve) (sound : Sound world)
    (request : Request Config Token)
    : Sound { world with cluster := (serve fate world.cluster request).2 } := by
  refine ⟨?_, ?_, sound.held⟩
  · intro t k asked
    exact documented.issued (sound.asked t k asked)
  · intro t locked
    rcases documented.lock_after locked with before | ⟨-, known⟩
    · exact documented.issued (sound.locked t before)
    · exact known

theorem Kept.request (documented : Documented serve) (sound : Sound world)
    {request : Request Config Token}
    (token : ∀ t, request.token = some t → Uses world i t)
    (fits : Fits { world with cluster := (serve fate world.cluster request).2 } i stage)
    : Kept world { world with cluster := (serve fate world.cluster request).2 } i stage := by
  refine ⟨sound.request documented request, ⟨?_, ?_, ?_, ?_⟩, fits⟩
  · exact fun _ _ asked => asked
  · exact fun _ _ => rfl
  · exact fun _ dead => dead
  · intro t k other lives locked asked
    refine request_under documented ?_ other lives locked asked
    intro u brought k' asked'
    obtain ⟨k'', is, owner⟩ := token u brought
    cases is.symm.trans asked'
    exact owner.imp_left fun mine => by rw [mine]

/-- A write under the lock is staged, or it is not among those that the node took. -/
theorem Inside.write [DecidableEq Config] (documented : Documented serve) {t : Token}
    {writes : List (Config → Config)} (inside : Inside world i t writes) (edit : Config → Config)
    : Inside { world with cluster := (serve fate world.cluster (.write edit (some t))).2 } i t
      (if (serve fate world.cluster (.write edit (some t))).2.staged = world.cluster.staged
        then writes else writes ++ [edit]) := by
  rcases documented.cases fate world.cluster (.write edit (some t))
    with same | ⟨free, -⟩ | ⟨-, is⟩
  · rw [same, if_pos rfl]
    exact inside
  · cases inside.locked.symm.trans free
  · rw [is]
    refine ⟨inside.locked, inside.asked, ?_⟩
    change edit world.cluster.staged = whole _ world.cluster.running
    split
    case isTrue same => exact (same : edit world.cluster.staged = _).trans inside.staged
    case isFalse =>
      rw [inside.staged, whole, whole, List.foldl_append]
      rfl

/-- Where a rollback leads, no token is used. -/
theorem Fits.next (lives : world.alive i = true) (purpose : Purpose) (succeeded : Bool)
    : Fits world i (purpose.next succeeded : Stage Config Token) := by
  cases purpose <;> cases succeeded <;> exact .outside lives rfl fun t uses => by cases uses

/-- An apply that is refused for a busy lock changed nothing. -/
theorem Documented.busy (documented : Documented serve) {cluster : Cluster Config Token}
    {request : Request Config Token} (asks : request ≠ .lock)
    (busy : (serve fate cluster request).1 = .busy)
    : (serve fate cluster request).2 = cluster := by
  rcases documented.others fate cluster request asks with same | ⟨-, -, free⟩
  · exact same
  · exact absurd busy free

variable [DecidableEq Token]

theorem asked_other {after : Cluster Config Token} {t : Token} {k : Nat}
    (known : t ∈ world.cluster.issued) (asked : world.asker t = some k)
    : (world.asked i after).asker t = some k := by
  rw [World.asked]
  cases after.lock with
  | none => exact asked
  | some u =>
      dsimp only
      split
      · exact asked
      case isFalse new =>
        have other : t ≠ u := fun same => new (same ▸ known)
        rw [Function.update_of_ne other]
        exact asked

/-- Taking the lock. Nobody else is inside, for the lock was free. -/
theorem Kept.lock (documented : Documented serve) (sound : Sound world)
    (lives : world.alive i = true) (mode : Mode)
    : Kept world (world.asked i (serve fate world.cluster .lock).2) i
      (match (serve fate world.cluster .lock).1 with
        | .granted t => .saving mode t
        | _ => .idle) := by
  have idle {after : Cluster Config Token}
      : Fits (world.asked i after) i (Stage.idle : Stage Config Token) :=
    .outside lives rfl fun t uses => by cases uses
  rcases documented.lock fate world.cluster with
    ⟨same, refused⟩ | ⟨free, clean, t, new, is, granted⟩
  · have unasked : world.asked i (serve fate world.cluster .lock).2 = world := by
      rw [same, World.asked]
      cases locked : world.cluster.lock with
      | none => rfl
      | some t =>
          dsimp only
          rw [if_pos (sound.locked t locked)]
    rw [unasked]
    refine .still sound ?_
    split
    case h_1 t reply => exact absurd reply (refused t)
    case h_2 => exact .outside lives rfl fun t uses => by cases uses
  · have asker : (world.asked i (serve fate world.cluster .lock).2).asker t = some i := by
      rw [is, World.asked]
      dsimp only
      rw [if_neg new, Function.update_self]
    refine ⟨⟨?_, ?_, ?_⟩, ⟨?_, fun _ _ => rfl, fun _ dead => dead, ?_⟩, ?_⟩
    · intro u k asked
      change u ∈ (serve fate world.cluster .lock).2.issued
      rw [is]
      by_cases same : u = t
      · exact same ▸ List.mem_cons_self
      · refine List.mem_cons_of_mem _ (sound.asked u k ?_)
        rw [is, World.asked] at asked
        dsimp only at asked
        rwa [if_neg new, Function.update_of_ne same] at asked
    · intro u locked
      exact (documented.lock_after locked).elim
        (fun before => documented.issued (sound.locked u before)) fun after => after.2
    · intro held file
      have asked := sound.held held file
      exact asked_other (sound.asked _ _ asked) asked
    · exact fun u k asked => asked_other (sound.asked u k asked) asked
    · intro u k _ _ locked
      cases locked.symm.trans free
    · split
      case h_1 u reply =>
        cases granted u reply
        refine ⟨fun _ => lives, ?_, fun v uses => by cases uses⟩
        intro v writes active
        cases active
        refine ⟨?_, asker, ?_⟩
        · change (serve fate world.cluster .lock).2.lock = some t
          rw [is]
        · change (serve fate world.cluster .lock).2.staged
            = (serve fate world.cluster .lock).2.running
          rw [is]
          exact clean
      case h_2 => exact idle

theorem call_kept (documented : Documented serve) (sound : Sound world)
    (fits : Fits world i stage) (lives : world.alive i = true) (works : Bool)
    : Kept world (call serve i world fate works stage).1 i
      (call serve i world fate works stage).2 := by
  have idle {w : World Config Token} (lives : w.alive i = true) {stage : Stage Config Token}
      (inactive : stage.active = none) (unused : stage.uses = none)
      : Fits w i stage :=
    .outside lives inactive fun t uses => by cases unused.symm.trans uses
  have own {w : World Config Token} {t : Token} (uses : Uses w i t) {stage : Stage Config Token}
      (used : stage.uses = some t)
      : ∀ u, stage.uses = some u → Uses w i u := by
    intro u same
    cases used.symm.trans same
    exact uses
  fun_cases call serve i world fate works stage
  case case1 mode absent => exact .still sound (idle lives rfl rfl)
  case case2 mode held file alive => exact .still sound (idle lives rfl rfl)
  case case3 mode held file dead =>
    refine .still sound (.outside lives rfl (own ?_ rfl))
    exact ⟨held.holder, sound.held held file, .inr (Bool.not_eq_true _ ▸ dead)⟩
  case case4 purpose t _ =>
    have uses := fits.uses t rfl
    refine .request documented sound (fun u same => by cases same; exact uses) ?_
    split
    · exact idle (by exact lives) rfl rfl
    split
    · exact .outside (by exact lives) rfl (own uses rfl)
    · exact .next (by exact lives) purpose _
  case case5 purpose _ =>
    refine .request documented sound (fun u same => by cases same) ?_
    exact .next (by exact lives) purpose _
  case case6 mode =>
    refine .file sound (idle lives rfl rfl) fun h file => ?_
    split at file
    · cases file
    · exact sound.held h file
  case case7 mode _ => exact .lock documented sound lives mode
  case case8 mode t =>
    have inside := fits.inside t [] rfl
    refine .file sound ⟨fun _ => lives, ?_, fun u uses => by cases uses⟩ fun h file => ?_
    · intro u writes active
      cases active
      exact inside
    · split at file
      · cases file
        exact inside.asked
      · exact sound.held h file
  case case9 t writes _ _ =>
    have inside := fits.inside t writes rfl
    have uses : Uses world i t := ⟨i, inside.asked, .inl rfl⟩
    refine .request documented sound (fun u same => by cases same; exact uses) ?_
    split
    case h_1 => exact .outside lives rfl (own uses rfl)
    case h_2 busy =>
      have same := documented.busy (by simp) busy
      rw [same]
      exact ⟨fun _ => lives, fits.inside, fun u uses => by cases uses⟩
    case h_3 => exact .outside lives rfl (own uses rfl)
  case case10 t writes _ =>
    have inside := fits.inside t writes rfl
    exact .still sound (.outside lives rfl (own ⟨i, inside.asked, .inl rfl⟩ rfl))
  case case11 t =>
    refine .still sound ?_
    split
    · exact idle lives rfl rfl
    · exact .outside lives rfl (own (fits.uses t rfl) rfl)
  case case12 t _ =>
    have uses := fits.uses t rfl
    refine .request documented sound (fun u same => by cases same; exact uses) ?_
    split
    · exact .outside (by exact lives) rfl (own uses rfl)
    · exact idle (by exact lives) rfl rfl
  case case13 =>
    refine .file sound (idle lives rfl rfl) fun h file => ?_
    split at file
    · cases file
    · exact sound.held h file
  all_goals exact .still sound fits

theorem advance_kept [DecidableEq Config] (documented : Documented serve) (sound : Sound world)
    (fits : Fits world i stage) (act : Act Config Fate)
    : Kept world (advance serve i world stage act).1 i (advance serve i world stage act).2 := by
  fun_cases advance serve i world stage act
  case case1 => exact .still sound fits
  case case2 lives =>
    refine ⟨⟨sound.asked, sound.locked, sound.held⟩, ⟨?_, ?_, ?_, ?_⟩, ⟨?_, ?_, ?_⟩⟩
    · exact fun _ _ asked => asked
    · exact fun k other => Function.update_of_ne (fun same => other (congrArg some same)) _ _
    · intro k dead
      by_cases same : k = i
      · exact same ▸ Function.update_self ..
      · exact (Function.update_of_ne same _ _).trans dead
    · exact fun _ _ _ _ _ _ => rfl
    · exact fun alive => absurd rfl alive
    · exact fun t writes active => by cases active
    · exact fun t uses => by cases uses
  case case3 mode =>
    exact .still sound (.outside (fits.alive (by simp)) rfl fun t uses => by cases uses)
  case case4 mode t writes edit fate _ =>
    have lives := fits.alive (by simp)
    have inside := fits.inside t writes rfl
    refine .request documented sound ?_ ⟨fun _ => lives, ?_, fun u uses => by cases uses⟩
    · intro u same
      cases same
      exact ⟨i, inside.asked, .inl rfl⟩
    · intro u others active
      cases active
      exact inside.write documented edit
  case case5 mode t writes =>
    exact .still sound (.outside (fits.alive (by simp)) rfl fun t uses => by cases uses)
  case case6 mode t writes succeeded =>
    have lives := fits.alive (by simp)
    have inside := fits.inside t writes rfl
    refine .still sound ?_
    split
    · exact ⟨fun _ => lives, fits.inside, fun u uses => by cases uses⟩
    · refine .outside lives rfl fun u uses => ?_
      cases uses
      exact ⟨i, inside.asked, .inl rfl⟩
  case case7 fate works lives => exact call_kept documented sound fits (fits.alive lives) works
  case case8 => exact .still sound fits

/-- Only a process that applies moves what runs. -/
theorem advance_running [DecidableEq Config] (documented : Documented serve)
    (applies : ∀ t writes, stage ≠ .applying t writes) (act : Act Config Fate)
    : (advance serve i world stage act).1.cluster.running = world.cluster.running := by
  fun_cases advance serve i world stage act
  case case4 => exact documented.running fun token => by simp
  case case7 fate works lives =>
    fun_cases call serve i world fate works stage
    case case4 => exact documented.running fun token => by simp
    case case5 => exact documented.running fun token => by simp
    case case7 => exact documented.running fun token => by simp
    case case9 t writes served _ => exact absurd rfl (applies t writes)
    case case12 => exact documented.running fun token => by simp
    all_goals rfl
  all_goals rfl

theorem advance_applying [DecidableEq Config] (documented : Documented serve) {t : Token}
    (writes : List (Config → Config)) (locked : world.cluster.lock = some t)
    (act : Act Config Fate)
    : (advance serve i world (.applying t writes) act).1.cluster = world.cluster
      ∨ (advance serve i world (.applying t writes) act).1.cluster
        = Request.effect world.cluster (.apply (some t)) := by
  cases act with
  | step fate works =>
      cases works with
      | false => exact .inl rfl
      | true =>
          rcases documented.cases fate world.cluster (.apply (some t))
            with same | ⟨free, -⟩ | ⟨-, is⟩
          · exact .inl same
          · cases locked.symm.trans free
          · exact .inr is
  | _ => exact .inl rfl

end Step

-----------------------------------------------------------------------------------------
-- Runs
-----------------------------------------------------------------------------------------

/-- Others do not know this engine's tokens, and the lock is forced only while no transaction of it
is on its way.
-/
def Allowed (state : Engine Config Token)
    : Action (Act Config Fate) (Outside Config Token Fate) → Prop
  | .op _ _ => True
  | .outside (.request request _) =>
      ∀ t, request.token = some t → state.world.asker t = none
  | .outside .force => ∀ i, (state.ops i).active = none

/-- Every process of this engine is dead or has begun nothing; a dead one may have left the lock
taken, with its token in the file.
-/
structure Fresh (state : Engine Config Token) : Prop where
  sound : Sound state.world
  ops : ∀ i, state.ops i = .idle ∧ state.world.alive i = true ∨ state.ops i = .dead

theorem Fresh.fitting {state : Engine Config Token} (fresh : Fresh state)
    : Fitting Sound Fits state := by
  refine ⟨fresh.sound, fun i => ?_⟩
  rcases fresh.ops i with ⟨idle, lives⟩ | dead
  · rw [idle]
    exact .outside lives rfl fun t uses => by cases uses
  · rw [dead]
    refine ⟨fun lives => absurd rfl lives, ?_, ?_⟩
    · exact fun t writes active => by cases active
    · exact fun t uses => by cases uses

abbrev Moment (Config Token Fate : Type) :=
  Event (Engine Config Token) (Action (Act Config Fate) (Outside Config Token Fate))

variable [DecidableEq Config] [DecidableEq Token] {serve : Serve Config Token Fate}

theorem stir_fitting (documented : Documented serve) {state : Engine Config Token}
    (fitting : Fitting Sound Fits state) {event : Outside Config Token Fate}
    (allowed : Allowed state (.outside event : Action (Act Config Fate) _))
    : Fitting Sound Fits ((engine serve).perform state (.outside event)) := by
  cases event with
  | request request fate =>
      refine ⟨fitting.world.request documented request, fun j => ?_⟩
      refine Moves.fits (?_ : Moves _ _ none) (by simp) (fitting.ops j)
      refine ⟨?_, ?_, ?_, ?_⟩
      · exact fun _ _ asked => asked
      · exact fun _ _ => rfl
      · exact fun _ dead => dead
      · intro t k other lives locked asked
        refine request_under documented ?_ other lives locked asked
        intro u brought k' asked'
        cases (allowed u brought).symm.trans asked'
  | force =>
      refine ⟨⟨fitting.world.asked, (fun t locked => ?_), fitting.world.held⟩, fun j => ?_⟩
      · cases locked
      refine ⟨(fitting.ops j).alive, ?_, (fitting.ops j).uses⟩
      intro t writes active
      cases (allowed j).symm.trans active

theorem perform_fitting (documented : Documented serve) {state : Engine Config Token}
    (fitting : Fitting Sound Fits state) {action : Action (Act Config Fate) _}
    (allowed : Allowed state action)
    : Fitting Sound Fits ((engine serve).perform state action) := by
  cases action with
  | op i act =>
      have kept := advance_kept documented fitting.world (fitting.ops i) act
      refine .moved kept.sound kept.fits fun j other => ?_
      exact kept.moves.fits (fun same => other (Option.some.inj same)) (fitting.ops j)
  | outside event => exact stir_fitting documented fitting allowed

theorem fitting_of_run (documented : Documented serve) {start state : Engine Config Token}
    (fresh : Fresh start) {history : List (Moment Config Token Fate)}
    (run : Run (StepOf (engine serve).perform) start history state) (meets : Meets Allowed history)
    : Fitting Sound Fits state :=
  run.invariant (fun _ => Fitting Sound Fits) fresh.fitting
    (fun _ _ _ _ fitting taken allowed => by
      cases taken
      exact perform_fitting documented fitting allowed) meets

/-- A step of a run, and what held before it. -/
theorem fitting_before (documented : Documented serve) {start state : Engine Config Token}
    (fresh : Fresh start) {history : List (Moment Config Token Fate)}
    (run : Run (StepOf (engine serve).perform) start history state) (meets : Meets Allowed history)
    {event : Moment Config Token Fate} (member : event ∈ history)
    : Fitting Sound Fits event.before
      ∧ event.after = (engine serve).perform event.before event.action := by
  obtain ⟨older, earlier, met, taken⟩ := run.upBefore meets member
  exact ⟨fitting_of_run documented fresh earlier met, taken⟩

-----------------------------------------------------------------------------------------
-- A node
-----------------------------------------------------------------------------------------

/-- A node that does what it is asked where it may, or loses the request. -/
def plainNode (reached : Bool) (cluster : Cluster (List Nat) Nat)
    (request : Request (List Nat) Nat)
    : Reply Nat × Cluster (List Nat) Nat :=
  if reached then
    match request with
    | .lock =>
        if cluster.lock = none ∧ cluster.staged = cluster.running then
          let t := cluster.issued.sum + 1
          (.granted t, { cluster with lock := some t, issued := t :: cluster.issued })
        else (.failed, cluster)
    | request =>
        if cluster.lock = none ∨ cluster.lock = request.token then
          (.done, request.effect cluster)
        else (.failed, cluster)
  else (.lost, cluster)

theorem documented_plainNode : Documented plainNode := by
  refine ⟨fun reached cluster => ?_, fun reached cluster request asks => ?_⟩
  · cases reached with
    | false => exact .inl ⟨rfl, by simp [plainNode]⟩
    | true =>
        by_cases free : cluster.lock = none ∧ cluster.staged = cluster.running
        · refine .inr ⟨free.1, free.2, cluster.issued.sum + 1, ?_, ?_, ?_⟩
          · intro known
            have small := List.le_sum_of_mem known
            omega
          · simp [plainNode, free]
          · simp [plainNode, free, eq_comm]
        · exact .inl (by simp [plainNode, free])
  · cases reached with
    | false => exact .inl rfl
    | true =>
        by_cases fits : cluster.lock = none ∨ cluster.lock = request.token
        · refine .inr ⟨fits, ?_⟩
          cases request <;> simp_all [plainNode]
        · refine .inl ?_
          cases request <;> simp_all [plainNode]

def quiet : Engine (List Nat) Nat :=
  ⟨⟨⟨[], [], none, []⟩, none, fun _ => true, fun _ => none⟩, fun _ => .idle⟩

theorem fresh_quiet : Fresh quiet := by
  refine ⟨⟨?_, ?_, ?_⟩, fun _ => .inl ⟨rfl, rfl⟩⟩
  · exact fun _ _ asked => by cases asked
  · exact fun _ locked => by cases locked
  · exact fun _ file => by cases file

/-- One transaction of two writes, the second of them lost, and a write without the token between
its last write and its apply.
-/
def oneChange : List (Action (Act (List Nat) Bool) (Outside (List Nat) Nat Bool)) :=
  [.op 0 (.start .transaction), .op 0 (.step true true), .op 0 (.step true true),
    .op 0 (.step true true), .op 0 (.write (5 :: ·) true), .op 0 (.write (6 :: ·) false),
    .outside (.request (.write (7 :: ·) none) true), .op 0 (.finish true), .op 0 (.step true true)]

def oneChangeHistory : List (Moment (List Nat) Nat Bool) :=
  trace (engine plainNode).perform quiet [] oneChange

theorem meets_oneChange : Meets Allowed oneChangeHistory := by
  refine meets_trace (fun _ member => by cases member) ?_
  simp [oneChange, Allowed, Request.token]

theorem run_oneChange
    : Run (StepOf (engine plainNode).perform) quiet oneChangeHistory
        (oneChange.foldl (engine plainNode).perform quiet) :=
  Run.start.trace oneChange

-----------------------------------------------------------------------------------------
-- Whole changes, one at a time
-----------------------------------------------------------------------------------------

/-- No step but its own moves the cluster under a process inside its transaction: what it staged is
neither applied nor discarded nor added to, and the lock stays.
-/
theorem transaction_isolated (documented : Documented serve) {start state : Engine Config Token}
    (fresh : Fresh start) {history : List (Moment Config Token Fate)}
    (run : Run (StepOf (engine serve).perform) start history state) (meets : Meets Allowed history)
    {event : Moment Config Token Fate} (member : event ∈ history) {j : Nat}
    (inside : (event.before.ops j).active ≠ none) (others : ∀ act, event.action ≠ .op j act)
    : event.after.world.cluster = event.before.world.cluster
      ∧ event.after.ops j = event.before.ops j := by
  obtain ⟨fitting, taken⟩ := fitting_before documented fresh run meets member
  have allowed := meets event member
  obtain ⟨⟨t, writes⟩, active⟩ := Option.ne_none_iff_exists'.mp inside
  have fits := fitting.ops j
  have lives := fits.alive fun dead => by
    rw [dead] at active
    cases active
  have its := fits.inside t writes active
  rw [taken]
  cases acted : event.action with
  | op i act =>
      have other : j ≠ i := fun same => others act (same ▸ acted)
      have kept := advance_kept documented fitting.world (fitting.ops i) act
      exact ⟨kept.moves.under t j (fun same => other (Option.some.inj same)) lives its.locked
        its.asked, System.perform_op_other _ other⟩
  | outside stirred =>
      rw [acted] at allowed
      cases stirred with
      | request request fate =>
          refine ⟨documented.locked its.locked fun brought => ?_, rfl⟩
          cases (allowed t brought).symm.trans its.asked
      | force => cases (allowed j).symm.trans active

theorem transaction_isolated_oneChange
    : ∃ event ∈ oneChangeHistory,
        event.action = .outside (.request (.write (7 :: ·) none) true)
          ∧ event.after.world.cluster = event.before.world.cluster := by
  have member : oneChangeHistory[2] ∈ oneChangeHistory := List.getElem_mem _
  refine ⟨_, member, rfl, ?_⟩
  have inside : (oneChangeHistory[2].before.ops 0).active.isSome := by decide
  exact (transaction_isolated documented_plainNode fresh_quiet run_oneChange meets_oneChange member
    (Option.isSome_iff_ne_none.mp inside) fun act acted => by cases acted).1

/-- The writes that an event makes run. -/
def commit (event : Moment Config Token Fate) : Option (List (Config → Config)) :=
  match event.action with
  | .outside _ => none
  | .op i _ =>
      match event.before.ops i with
      | .applying _ writes =>
          if event.after.world.cluster.lock = event.before.world.cluster.lock then none
          else some writes
      | _ => none

/-- The applied changes, oldest first. -/
def commits (history : List (Moment Config Token Fate)) : List (List (Config → Config)) :=
  (history.filterMap commit).reverse

/-- What a step of a process is to those who see only what runs. -/
inductive Moment.Whole (event : Moment Config Token Fate) (i : Nat) : Prop where
  | nothing (none : commit event = none)
      (same : event.after.world.cluster.running = event.before.world.cluster.running)
  /-- It makes its own writes run, all of them and nothing else, and gives up the lock. -/
  | change {t : Token} {writes : List (Config → Config)}
      (applies : event.before.ops i = .applying t writes) (commits : commit event = some writes)
      (locked : event.before.world.cluster.lock = some t)
      (runs : event.after.world.cluster.running = whole writes event.before.world.cluster.running)
      (clean : event.after.world.cluster.staged = event.after.world.cluster.running)
      (free : event.after.world.cluster.lock = none)

theorem perform_whole (documented : Documented serve) {state : Engine Config Token}
    (fitting : Fitting Sound Fits state) (i : Nat) (act : Act Config Fate)
    : Moment.Whole ⟨state, .op i act, (engine serve).perform state (.op i act)⟩ i := by
  by_cases applies : ∃ t writes, state.ops i = .applying t writes
  · obtain ⟨t, writes, applies⟩ := applies
    have inside := (fitting.ops i).inside t writes (by rw [applies]; rfl)
    have moves := advance_applying (i := i) documented writes inside.locked act
    rw [← applies] at moves
    rcases moves with same | is
    · refine .nothing ?_ (congrArg Cluster.running same)
      simp only [commit, applies]
      exact if_pos (congrArg Cluster.lock same)
    · refine .change applies ?_ inside.locked ?_ ?_ (congrArg Cluster.lock is)
      · simp only [commit, applies]
        refine if_neg fun same => ?_
        cases (congrArg Cluster.lock is).symm.trans (same.trans inside.locked)
      · exact (congrArg Cluster.running is).trans inside.staged
      · exact (congrArg Cluster.staged is).trans (congrArg Cluster.running is).symm
  · have quiet : ∀ t writes, state.ops i ≠ .applying t writes :=
      fun t writes is => applies ⟨t, writes, is⟩
    refine .nothing ?_ (advance_running documented quiet act)
    rw [commit]
    dsimp only
    split
    case h_1 t writes is => exact absurd is (quiet t writes)
    case h_2 => rfl

/-- Nothing half-done is ever applied: whatever the others do, what runs is moved by a process only
by the whole of its own change, over what ran when it took the lock.
-/
theorem commits_whole (documented : Documented serve) {start state : Engine Config Token}
    (fresh : Fresh start) {history : List (Moment Config Token Fate)}
    (run : Run (StepOf (engine serve).perform) start history state) (meets : Meets Allowed history)
    {event : Moment Config Token Fate} (member : event ∈ history) {i : Nat}
    {act : Act Config Fate} (acted : event.action = .op i act)
    : event.Whole i := by
  obtain ⟨fitting, taken⟩ := fitting_before documented fresh run meets member
  obtain ⟨before, action, after⟩ := event
  cases acted
  obtain rfl : after = (engine serve).perform before (.op i act) := taken
  exact perform_whole documented fitting i act

theorem commits_whole_oneChange
    : ∃ event ∈ oneChangeHistory, event.Whole 0 ∧ (commit event).map List.length = some 1 := by
  refine ⟨_, List.mem_cons_self, ?_, ?_⟩
  · exact commits_whole documented_plainNode fresh_quiet run_oneChange meets_oneChange
      List.mem_cons_self rfl
  · decide

/-- Where nobody else moves what runs, it is the applied changes one after the other. -/
theorem running_eq_commits (documented : Documented serve) {start state : Engine Config Token}
    (fresh : Fresh start) {history : List (Moment Config Token Fate)}
    (run : Run (StepOf (engine serve).perform) start history state) (meets : Meets Allowed history)
    (alone : ∀ event ∈ history, ∀ stirred, event.action = .outside stirred →
      event.after.world.cluster.running = event.before.world.cluster.running)
    : state.world.cluster.running
      = (commits history).foldl (fun config writes => whole writes config)
          start.world.cluster.running := by
  induction run with
  | start => rfl
  | @step history state next action earlier taken ih =>
      obtain ⟨allowed, before⟩ := meets_cons.mp meets
      have last := List.mem_cons_self (a := Event.mk state action next) (l := history)
      have is := ih before fun event member => alone event (List.mem_cons_of_mem _ member)
      cases action with
      | outside stirred =>
          refine (alone _ last stirred rfl).trans ?_
          simpa only [commits, List.filterMap_cons, commit] using is
      | op i act =>
          cases taken
          have fitting := fitting_of_run documented fresh earlier before
          rcases perform_whole documented fitting i act with ⟨none, same⟩ | ⟨-, done, -, runs, -, -⟩
          · refine same.trans ?_
            rw [commits, List.filterMap_cons, none]
            exact is
          · refine runs.trans ?_
            rw [commits, List.filterMap_cons, done]
            dsimp only
            rw [List.reverse_cons, List.foldl_append]
            exact congrArg (whole _) is

theorem running_eq_commits_oneChange
    : (oneChange.foldl (engine plainNode).perform quiet).world.cluster.running = [5] := by
  refine (running_eq_commits documented_plainNode fresh_quiet run_oneChange meets_oneChange
    ?_).trans ?_
  · simp only [oneChangeHistory, oneChange, trace, List.forall_mem_cons]
    refine ⟨?_, ?_, ?_, ?_, ?_, ?_, ?_, ?_, ?_, fun _ member => by cases member⟩
    all_goals
      intro stirred acted
      first | rfl | cases acted
  · rfl

end Delonix.Proxmox.SdnLock
