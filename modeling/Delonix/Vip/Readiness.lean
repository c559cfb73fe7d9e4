import Delonix.Library.Runs
import Delonix.Vip.Rounds

/-! Evidence for a backend that came back. The history of a backend is supported when what it
counts was observed since the address was last attached; every observation keeps it supported,
so only the attachment itself can bring in a history that nothing since supports.
-/

namespace Delonix.Vip

open Delonix.Library.Runs

abbrev HolderHistory := List (Event Holder Step)

/-- What a step observed, newest first. -/
def observed (event : Event Holder Step) : List Observation :=
  match event.action, event.before.round with
  | .finishRound outcomes _, some round => (round.results outcomes).reverse
  | _, _ => []

/-- The probes of one backend of one Service that a history observed, newest first. -/
def observedFor (key ip : String) (history : HolderHistory) : List Observation :=
  (history.flatMap observed).filter fun o => o.key == key && o.ip == ip

/-- Consecutive successes, as many as the threshold in force at the last of them asks for. -/
def FreshEvidence (observations : List Observation) : Prop :=
  ∃ newer last earlier older,
    observations = newer ++ (last :: earlier) ++ older
    ∧ (∀ o ∈ last :: earlier, o.ok = true)
    ∧ last.cfg.successThreshold ≤ (last :: earlier).length

/-- A backend that a plan lists after its address was attached again has fresh evidence since.
-/
def FreshReentry (history : HolderHistory) : Prop :=
  ∀ newer planned since back older ip,
    history = newer ++ planned :: since ++ back :: older
    → back.action = .addressBack ip
    → ∀ outcomes nftOk round, planned.action = .finishRound outcomes nftOk
    → planned.before.round = some round
    → ∀ d ∈ round.defs,
        ip ∈ (round.plan (planned.before.runtime.tracker.observeAll (round.results outcomes))
          d).backends
        → FreshEvidence (observedFor d.key ip (planned :: since))

/-- How many successes in a row were observed last. -/
def streak (observations : List Observation) : Nat :=
  (observations.takeWhile Observation.ok).length

/-- The history of a backend counts nothing that was not observed. -/
structure ProbeState.Supported (observations : List Observation) (st : ProbeState) : Prop where
  counted : st.successes ≤ streak observations
  ready : st.ready = true → FreshEvidence observations

theorem FreshEvidence.append {older : List Observation} (newer : List Observation)
    (fresh : FreshEvidence older)
    : FreshEvidence (newer ++ older) := by
  obtain ⟨before, last, earlier, rest, rfl, ok, enough⟩ := fresh
  exact ⟨newer ++ before, last, earlier, rest, by simp, ok, enough⟩

/-- A streak that reaches the threshold of its newest observation is fresh evidence. -/
theorem freshEvidence_of_streak {last : Observation} {older : List Observation}
    (ok : last.ok = true) (enough : last.cfg.successThreshold ≤ streak (last :: older))
    : FreshEvidence (last :: older) := by
  refine ⟨[], last, older.takeWhile Observation.ok, older.dropWhile Observation.ok, ?_, ?_, ?_⟩
  · simp
  · intro o member
    rcases List.mem_cons.mp member with rfl | earlier
    · exact ok
    · exact List.mem_takeWhile_imp earlier
  · simpa [streak, ok] using enough

theorem ProbeState.Supported.observe {observations : List Observation} {st : ProbeState}
    (supported : st.Supported observations) (o : Observation)
    : (st.observe o.ok o.cfg).Supported (o :: observations) := by
  cases ok : o.ok with
  | false =>
      refine ⟨Nat.zero_le _, ?_⟩
      intro ready
      have old : st.ready = true := by
        simp only [ProbeState.observe] at ready
        exact (Bool.and_eq_true_iff.mp ready).1
      exact (supported.ready old).append [o]
  | true =>
      have counted : saturatingSucc st.successes ≤ streak (o :: observations) := by
        have grows : streak (o :: observations) = streak observations + 1 := by
          simp [streak, ok]
        have := supported.counted
        simp only [saturatingSucc, grows]
        omega
      refine ⟨counted, ?_⟩
      intro ready
      simp only [ProbeState.observe, if_true, Bool.or_eq_true, decide_eq_true_eq] at ready
      rcases ready with old | enough
      · exact (supported.ready old).append [o]
      · exact freshEvidence_of_streak ok (by omega)

/-- A backend without a history starts anew. -/
theorem ProbeState.supported_default (observations : List Observation)
    : ProbeState.Supported observations {} :=
  ⟨Nat.zero_le _, by simp⟩

/-- Every history kept for the address is supported, whatever Service it is of. -/
def Tracker.SupportedAt (tracker : Tracker) (ip : String) (since : List Observation) : Prop :=
  ∀ key st, tracker (key, ip) = some st
    → st.Supported (since.filter fun o => o.key == key && o.ip == ip)

theorem Tracker.SupportedAt.observeAll {tracker : Tracker} {ip : String}
    {since : List Observation} (supported : tracker.SupportedAt ip since)
    (results : List Observation)
    : (tracker.observeAll results).SupportedAt ip (results.reverse ++ since) := by
  induction results generalizing tracker since with
  | nil => exact supported
  | cons o rest ih =>
      simp only [Tracker.observeAll, List.foldl_cons, List.reverse_cons, List.append_assoc,
        List.singleton_append]
      refine ih ?_
      intro key st found
      simp only [Tracker.observe] at found
      by_cases same : (key, ip) = (o.key, o.ip)
      · obtain ⟨rfl, rfl⟩ := Prod.mk.inj same
        rw [Function.update_self] at found
        obtain rfl := Option.some.inj found
        have before : ((tracker (o.key, o.ip)).getD {}).Supported
            (since.filter fun other => other.key == o.key && other.ip == o.ip) := by
          cases known : tracker (o.key, o.ip) with
          | none => exact ProbeState.supported_default _
          | some st => exact supported o.key st known
        simpa using before.observe o
      · rw [Function.update_of_ne same] at found
        have other : (o.key == key && o.ip == ip) = false := by
          simp only [Bool.and_eq_false_imp, beq_iff_eq, beq_eq_false_iff_ne]
          rintro rfl rfl
          exact same rfl
        simpa [other] using supported key st found

theorem Tracker.SupportedAt.retain {tracker : Tracker} {ip : String}
    {since : List Observation} (supported : tracker.SupportedAt ip since)
    (live : List (String × String))
    : (tracker.retain live).SupportedAt ip since := by
  intro key st found
  simp only [Tracker.retain] at found
  split at found
  · exact supported key st found
  · cases found

/-- When an address is attached again, no Service still counts successes of it. -/
def ReturnsForgotten (holder : Holder) (step : Step) : Prop :=
  ∀ ip, step = .addressBack ip → ∀ key st, holder.runtime.tracker (key, ip) = some st
    → st.ready = false ∧ st.successes = 0

/-- Since each attachment of an address its histories are supported. -/
def SupportedSince (history : HolderHistory) (holder : Holder) : Prop :=
  ∀ since back older ip, history = since ++ back :: older → back.action = .addressBack ip
    → holder.runtime.tracker.SupportedAt ip (since.flatMap observed)

/-- The one step that changes a history is the end of a round. -/
theorem perform_supportedAt {holder : Holder} {ip : String} {since : List Observation}
    (supported : holder.runtime.tracker.SupportedAt ip since) (step : Step)
    : (holder.perform step).runtime.tracker.SupportedAt ip
        (observed ⟨holder, step, holder.perform step⟩ ++ since) := by
  cases step with
  | beginRound force services pools members now =>
      have same : (holder.perform (.beginRound force services pools members now)).runtime.tracker
          = holder.runtime.tracker := by
        simp only [Holder.perform]
        split
        · rfl
        · simp only [Runtime.beginRound]
          split <;> rfl
      rw [same]
      exact supported
  | finishRound outcomes nftOk =>
      cases under : holder.round with
      | none => simpa [Holder.perform, observed, under] using supported
      | some round =>
          have ended := (supported.observeAll (round.results outcomes)).retain round.live
          simpa [Holder.perform, observed, under, Runtime.finishRound] using ended
  | forgetAddress other =>
      have same : (holder.runtime.forgetAddress other).tracker = holder.runtime.tracker := by
        simp only [Runtime.forgetAddress]
        split <;> rfl
      simpa [Holder.perform, observed, same] using supported
  | addressBack other => exact supported

theorem SupportedSince.perform {history : HolderHistory} {holder : Holder} {step : Step}
    (supported : SupportedSince history holder) (forgotten : ReturnsForgotten holder step)
    : SupportedSince (⟨holder, step, holder.perform step⟩ :: history) (holder.perform step) := by
  intro since back older ip cut isBack
  cases since with
  | nil =>
      obtain ⟨rfl, rfl⟩ := List.cons.inj cut
      obtain rfl : step = .addressBack ip := isBack
      intro key st found
      obtain ⟨unready, none⟩ := forgotten ip rfl key st found
      exact ⟨by simp [none], by simp [unready]⟩
  | cons newest since =>
      obtain ⟨rfl, rfl⟩ := List.cons.inj cut
      exact perform_supportedAt (supported since back older ip rfl isBack) step

theorem supportedSince_of_run {start holder : Holder} {history : HolderHistory}
    (run : Run (StepOf Holder.perform) start history holder)
    (forgotten : Meets ReturnsForgotten history)
    : SupportedSince history holder := by
  have initial : SupportedSince [] start := by
    intro since back older ip cut
    simp at cut
  refine run.invariant SupportedSince initial ?_ forgotten
  rintro history holder step next supported rfl allowed
  exact supported.perform allowed

theorem mem_plan_backends {round : Round} {tracker : Tracker} {d : ServiceDef} {ip : String}
    : ip ∈ (round.plan tracker d).backends
      ↔ ∃ m ∈ round.candidates d, round.inRotation tracker d m = true ∧ m.ip = ip := by
  simp [Round.plan, and_assoc]

/-- A backend in a plan is ready for its Service. -/
theorem isReady_of_planned {round : Round} {tracker : Tracker} {d : ServiceDef} {ip : String}
    (planned : ip ∈ (round.plan tracker d).backends)
    : tracker.isReady d.key ip = true := by
  obtain ⟨m, _, rotates, rfl⟩ := mem_plan_backends.mp planned
  simp only [Round.inRotation, Bool.and_eq_true] at rotates
  exact rotates.2

/-- In every run whose returning addresses have no history left, a backend re-enters rotation
only on fresh evidence.
-/
theorem freshReentry {start holder : Holder} {history : HolderHistory}
    (run : Run (StepOf Holder.perform) start history holder)
    (forgotten : Meets ReturnsForgotten history)
    : FreshReentry history := by
  intro newer planned since back older ip cut isBack outcomes nftOk round isEnd under d _ inPlan
  have split : history = newer ++ planned :: (since ++ back :: older) := by simpa using cut
  subst split
  have earlier : SupportedSince (since ++ back :: older) planned.before :=
    supportedSince_of_run run.split.1 (meets_cons.mp forgotten.older).2
  have supported := (earlier since back older ip rfl isBack).observeAll (round.results outcomes)
  obtain ⟨st, found, ready⟩ := Option.any_eq_true _ _ |>.mp (isReady_of_planned inPlan)
  have fresh := (supported d.key st found).ready ready
  simpa [observedFor, observed, isEnd, under] using fresh

def webService : ServiceDef where
  name := "web"
  namespaceName := "shop"
  matchLabels := [("app", "web")]
  port := 80
  serviceType := .virtualIp
  vip := some "10.90.0.10"

/-- The record of the one backend, running or stopped. -/
def webMember (running : Bool) : Member where
  name := "web-1"
  namespaceName := "shop"
  ip := "10.77.0.5"
  labels := [("app", "web")]
  serving := running
  hasHealthCheck := false
  health := none
  running := running

/-- A round that begins at an instant and whose probes all end one way. -/
def webRound (force running : Bool) (now : Instant) (ok : Bool) : List Step :=
  [.beginRound force [webService] [] [webMember running] now, .finishRound [some ok] true]

/-- A round sees the record stopped before the address is attached again. -/
def stoppedBetween : List Step :=
  webRound true true 0 true ++ [.forgetAddress "10.77.0.5"] ++ webRound false false 1 true
    ++ [.addressBack "10.77.0.5"] ++ webRound true true 2 true

theorem freshReentry_stoppedBetween
    : FreshReentry (trace Holder.perform {} [] stoppedBetween) := by
  refine freshReentry (Run.start.trace stoppedBetween) ?_
  intro event member ip isBack
  simp only [stoppedBetween, webRound, List.cons_append, List.nil_append, trace, List.mem_cons,
    List.not_mem_nil, or_false] at member
  rcases member with rfl | rfl | rfl | rfl | rfl | rfl | rfl | rfl
  all_goals cases isBack
  -- The round before the return saw no candidate, so no history is left.
  intro key st found
  cases found

/-- The address leaves and comes back while the record still runs; no probe is due then. -/
def reattached : List Step :=
  webRound true true 0 true ++ [.forgetAddress "10.77.0.5"] ++ webRound false true 1 true
    ++ [.addressBack "10.77.0.5"] ++ webRound false true 2 true

theorem reattached_not_fresh
    : ¬ FreshReentry (trace Holder.perform {} [] reattached) := by
  intro fresh
  have inPlan := fresh [] _ [_] _ _ "10.77.0.5" rfl rfl [some true] true _ rfl rfl webService
    (by decide +kernel) (mem_plan_backends.mpr ⟨webMember true, by decide +kernel⟩)
  obtain ⟨newer, last, earlier, older, is, _⟩ := inPlan
  have unprobed : ([] : List Observation) = newer ++ (last :: earlier) ++ older := is
  simp at unprobed

end Delonix.Vip
