import Delonix.Library.Runs

/-! Publishing an extracted layer. Processes extract the same digest side by side; each checks
the marker, displaces whatever stands at the layer's place and renames its own copy there. The
check and the two renames are three steps, and another process may act between them.
-/

namespace Delonix.Images

open Delonix.Library.Runs
open Delonix.Library.Interleaving

/-- The entries of a directory. -/
abbrev Directory := List String

def markerName : String := ".extracted"

/-- `layers/<hex>`, and what each process keeps beside it under names with its pid. -/
structure LayerFiles where
  dir : Option Directory
  tmp : Nat → Option Directory
  doomed : Nat → Option Directory

/-- `marker.exists()`. -/
def LayerFiles.marked (files : LayerFiles) : Bool :=
  files.dir.any (·.contains markerName)

/-- What stands at the target after `std::fs::rename` of a directory. The source has to be
there, and the target free or an empty directory.
-/
def renamed (source target : Option Directory) : Option Directory :=
  if target.all List.isEmpty then source else none

def LayerFiles.setTmp (files : LayerFiles) (pid : Nat) (content : Option Directory)
    : LayerFiles :=
  { files with tmp := Function.update files.tmp pid content }

def LayerFiles.setDoomed (files : LayerFiles) (pid : Nat) (content : Option Directory)
    : LayerFiles :=
  { files with doomed := Function.update files.doomed pid content }

/-- Where a call of `extract_one` stands. -/
inductive Phase where
  | idle
  | checked
  | extracting
  | extracted
  | discarding
  | publishing
  | cleared
  | installing (displaced : Bool)
  | installed (displaced : Bool)
  | refused (displaced : Bool)
  | restored
  | returned (ownExtraction : Bool) (ok : Bool)
  deriving DecidableEq, Repr

/-- What the next step of a call meets: the outcome of making its temporary directory, that of
its extraction, or nothing in particular. A process may also die.
-/
inductive ExtractAct where
  | next
  | create (made : Bool)
  | extract (entries : Option Directory)
  | die

/-- One step of `extract_one` in the process `pid`. -/
def extractOne (pid : Nat) (files : LayerFiles) : Phase → ExtractAct → LayerFiles × Phase
  | _, .die => (files, .idle)
  | .idle, .next => (files, if files.marked then .returned false true else .checked)
  | .checked, .create made =>
      if made then (files.setTmp pid (some []), .extracting)
      else (files.setTmp pid none, .returned false false)
  | .extracting, .extract (some entries) =>
      (files.setTmp pid (some (entries ++ [markerName])), .extracted)
  | .extracting, .extract none => (files.setTmp pid none, .returned false false)
  | .extracted, .next => (files, if files.marked then .discarding else .publishing)
  | .discarding, .next => (files.setTmp pid none, .returned true true)
  -- From here on `publish_layer_dir`.
  | .publishing, .next => (files.setDoomed pid none, .cleared)
  | .cleared, .next =>
      match renamed files.dir (files.doomed pid) with
      | some old => ({ files.setDoomed pid (some old) with dir := none }, .installing true)
      | none => (files, .installing false)
  | .installing displaced, .next =>
      match renamed (files.tmp pid) files.dir with
      | some own => ({ files.setTmp pid none with dir := some own }, .installed displaced)
      | none => (files, .refused displaced)
  | .installed displaced, .next =>
      (if displaced then files.setDoomed pid none else files, .returned true true)
  | .refused true, .next =>
      match renamed (files.doomed pid) files.dir with
      | some old => ({ files.setDoomed pid none with dir := some old }, .restored)
      | none => (files, .restored)
  | .refused false, .next => (files, .restored)
  | .restored, .next => (files.setTmp pid none, .returned true false)
  | .returned _ _, .next => (files, .idle)
  | phase, _ => (files, phase)

/-- Any number of processes over one store. Nothing else touches the layer. -/
def extraction : System LayerFiles Phase ExtractAct Empty where
  advance := extractOne
  stir _ event := nomatch event

abbrev ExtractState := State LayerFiles Phase

abbrev ExtractAction := Action ExtractAct Empty

abbrev ExtractHistory := List (Event ExtractState ExtractAction)

/-- No process extracts yet. What an earlier run left behind is arbitrary. -/
def ExtractState.fresh (files : LayerFiles) : ExtractState := ⟨files, fun _ => .idle⟩

/-- A layer that carries its marker stays as it is at every step. -/
def PublishedStable (history : ExtractHistory) : Prop :=
  ∀ event ∈ history, event.before.world.marked = true
    → event.after.world.dir = event.before.world.dir

/-- How many steps a call whose own extraction succeeded still takes at most. -/
def Phase.left : Phase → Nat
  | .extracted => 7
  | .publishing => 6
  | .cleared => 5
  | .installing _ => 4
  | .refused _ => 3
  | .restored => 2
  | .discarding | .installed _ => 1
  | _ => 0

/-- A call whose own extraction succeeded comes nearer to its end with every step, and its end
is `Ok`.
-/
def ExtractedOk (history : ExtractHistory) : Prop :=
  ∀ event ∈ history, ∀ pid, event.action = .op pid .next → 0 < (event.before.ops pid).left
    → event.after.ops pid = .returned true true
      ∨ (0 < (event.after.ops pid).left
        ∧ (event.after.ops pid).left < (event.before.ops pid).left)

/-- Between the second look at the marker and the rename that displaces. -/
def Phase.displaces : Phase → Bool
  | .publishing | .cleared => true
  | _ => false

/-- Between the two renames. -/
def Phase.installs : Phase → Bool
  | .installing _ => true
  | _ => false

/-- Between the second look at the marker and the rename that installs. -/
def Phase.inWindow (phase : Phase) : Bool := phase.displaces || phase.installs

/-- The step is not the installing rename of one process in the window of another. -/
def OutsideWindows (state : ExtractState) (action : ExtractAction) : Prop :=
  ∀ pid, action = .op pid .next → (state.ops pid).installs = true
    → ∀ other, other ≠ pid → (state.ops other).inWindow = false

/-- What a call of the process `pid` relies on. Before it displaces the layer carries no
marker, between the two renames nothing stands there, and its own copy waits to be installed.
-/
def Phase.Fits (files : LayerFiles) (pid : Nat) : Phase → Prop
  | .extracted => (files.tmp pid).isSome
  | .publishing => (files.tmp pid).isSome ∧ files.marked = false
  | .cleared => (files.tmp pid).isSome ∧ files.doomed pid = none ∧ files.marked = false
  | .installing _ => (files.tmp pid).isSome ∧ files.dir = none
  | .refused _ | .restored => False
  | _ => True

/-- What the step of a fitting call does to the layer: nothing, displacing one without a
marker, or installing where nothing stands.
-/
inductive LayerChange (files after : LayerFiles) (phase : Phase) (act : ExtractAct) : Prop where
  | kept (same : after.dir = files.dir)
  | displaced (unmarked : files.marked = false) (gone : after.dir = none)
  | installed (installs : phase.installs = true) (next : act = .next) (gone : files.dir = none)

theorem extractOne_fits (pid : Nat) {files : LayerFiles} {phase : Phase}
    (fits : phase.Fits files pid) (act : ExtractAct)
    : (extractOne pid files phase act).2.Fits (extractOne pid files phase act).1 pid
      ∧ LayerChange files (extractOne pid files phase act).1 phase act := by
  cases act with
  | die => exact ⟨trivial, .kept rfl⟩
  | create made =>
      cases phase with
      | checked => cases made <;> exact ⟨trivial, .kept rfl⟩
      | _ => exact ⟨fits, .kept rfl⟩
  | extract entries =>
      cases entries with
      | none =>
          cases phase with
          | extracting => exact ⟨trivial, .kept rfl⟩
          | _ => exact ⟨fits, .kept rfl⟩
      | some entries =>
          cases phase with
          | extracting =>
              refine ⟨?_, .kept rfl⟩
              simp [extractOne, Phase.Fits, LayerFiles.setTmp]
          | _ => exact ⟨fits, .kept rfl⟩
  | next =>
      cases phase with
      | idle =>
          refine ⟨?_, .kept rfl⟩
          cases marked : files.marked <;> simp [extractOne, Phase.Fits, marked]
      | checked | extracting | discarding | returned => exact ⟨trivial, .kept rfl⟩
      | extracted =>
          refine ⟨?_, .kept rfl⟩
          cases marked : files.marked
          · simpa [extractOne, Phase.Fits, marked] using fits
          · simp [extractOne, Phase.Fits, marked]
      | publishing =>
          refine ⟨?_, .kept rfl⟩
          simpa [extractOne, Phase.Fits, LayerFiles.setDoomed, LayerFiles.marked] using fits
      | cleared =>
          obtain ⟨own, clear, unmarked⟩ := fits
          -- The place of the displaced directory is free, so the rename fails only where
          -- nothing stands.
          have moved : renamed files.dir (files.doomed pid) = files.dir := by
            simp [renamed, clear]
          cases stands : files.dir with
          | none =>
              rw [stands] at moved
              simp only [extractOne, stands, moved]
              exact ⟨⟨own, stands⟩, .kept rfl⟩
          | some old =>
              rw [stands] at moved
              simp only [extractOne, stands, moved]
              exact ⟨⟨own, rfl⟩, .displaced unmarked rfl⟩
      | installing displaced =>
          obtain ⟨own, gone⟩ := fits
          obtain ⟨copy, own⟩ := Option.isSome_iff_exists.mp own
          have lands : renamed (files.tmp pid) files.dir = some copy := by
            simp [renamed, gone, own]
          simp only [extractOne, lands]
          exact ⟨trivial, .installed rfl rfl gone⟩
      | installed displaced =>
          refine ⟨trivial, .kept ?_⟩
          cases displaced <;> rfl
      | refused | restored => exact fits.elim

/-- A step of one process leaves the directories of another where they are. -/
theorem extractOne_frame (pid : Nat) (files : LayerFiles) (phase : Phase) (act : ExtractAct)
    {other : Nat} (apart : other ≠ pid)
    : (extractOne pid files phase act).1.tmp other = files.tmp other
      ∧ (extractOne pid files phase act).1.doomed other = files.doomed other := by
  unfold extractOne
  repeat' split
  all_goals simp [LayerFiles.setTmp, LayerFiles.setDoomed, apart]

theorem Phase.Fits.carry {before after : LayerFiles} {pid : Nat} {phase : Phase}
    (fits : phase.Fits before pid) (tmp : after.tmp pid = before.tmp pid)
    (doomed : after.doomed pid = before.doomed pid)
    (dir : after.dir = before.dir ∨ after.dir = none ∨ phase.inWindow = false)
    : phase.Fits after pid := by
  have unmarked (window : phase.inWindow = true) (plain : before.marked = false)
      : after.marked = false := by
    rcases dir with same | gone | outside
    · rw [LayerFiles.marked, same]
      exact plain
    · simp [LayerFiles.marked, gone]
    · simp [window] at outside
  cases phase with
  | extracted => simpa only [Phase.Fits, tmp] using fits
  | publishing =>
      simp only [Phase.Fits, tmp]
      exact ⟨fits.1, unmarked rfl fits.2⟩
  | cleared =>
      simp only [Phase.Fits, tmp, doomed]
      exact ⟨fits.1, fits.2.1, unmarked rfl fits.2.2⟩
  | installing displaced =>
      simp only [Phase.Fits, tmp]
      refine ⟨fits.1, ?_⟩
      rcases dir with same | gone | outside
      · exact same.trans fits.2
      · exact gone
      · cases outside
  | refused | restored => exact fits.elim
  | idle | checked | extracting | discarding | installed | returned => trivial

/-- A fitting call is never refused: with every step it comes nearer to `Ok`. -/
theorem extractOne_left (pid : Nat) {files : LayerFiles} {phase : Phase}
    (fits : phase.Fits files pid) (own : 0 < phase.left)
    : (extractOne pid files phase .next).2 = .returned true true
      ∨ (0 < (extractOne pid files phase .next).2.left
        ∧ (extractOne pid files phase .next).2.left < phase.left) := by
  cases phase with
  | idle | checked | extracting | returned => cases own
  | discarding | installed => exact .inl rfl
  | extracted => cases marked : files.marked <;> simp [extractOne, Phase.left, marked]
  | publishing => simp [extractOne, Phase.left]
  | cleared =>
      cases moved : renamed files.dir (files.doomed pid)
        <;> simp [extractOne, Phase.left, moved]
  | installing displaced =>
      obtain ⟨copy, own⟩ := Option.isSome_iff_exists.mp fits.1
      have lands : renamed (files.tmp pid) files.dir = some copy := by
        simp [renamed, fits.2, own]
      simp [extractOne, Phase.left, lands]
  | refused | restored => exact fits.elim

/-- Every call fits what stands in the store. -/
def AllFit (state : ExtractState) : Prop := ∀ pid, (state.ops pid).Fits state.world pid

theorem AllFit.perform {state : ExtractState} (fit : AllFit state) {action : ExtractAction}
    (outside : OutsideWindows state action)
    : AllFit (extraction.perform state action) := by
  rcases action with ⟨mover, act⟩ | event
  · intro pid
    obtain ⟨moved, change⟩ := extractOne_fits mover (fit mover) act
    by_cases same : pid = mover
    · rw [same, System.perform_op_self]
      exact moved
    · rw [System.perform_op_other _ same]
      obtain ⟨tmp, doomed⟩ := extractOne_frame mover state.world (state.ops mover) act same
      refine (fit pid).carry tmp doomed ?_
      rcases change with same | ⟨_, gone⟩ | ⟨installs, rfl, _⟩
      · exact .inl same
      · exact .inr (.inl gone)
      · exact .inr (.inr (outside mover rfl installs pid ‹_›))
  · exact event.elim

/-- What one step does from a state in which every call fits. -/
theorem AllFit.step {state : ExtractState} (fit : AllFit state) (action : ExtractAction)
    : (state.world.marked = true → (extraction.perform state action).world.dir = state.world.dir)
      ∧ ∀ pid, action = .op pid .next → 0 < (state.ops pid).left
        → (extraction.perform state action).ops pid = .returned true true
          ∨ (0 < ((extraction.perform state action).ops pid).left
            ∧ ((extraction.perform state action).ops pid).left < (state.ops pid).left) := by
  rcases action with ⟨mover, act⟩ | event
  · constructor
    · intro marked
      rcases (extractOne_fits mover (fit mover) act).2 with same | ⟨unmarked, _⟩ | ⟨_, _, gone⟩
      · exact same
      · simp [unmarked] at marked
      · simp [LayerFiles.marked, gone] at marked
    · rintro pid ⟨rfl, rfl⟩ own
      rw [System.perform_op_self]
      exact extractOne_left mover (fit mover) own
  · exact event.elim

theorem allFit_of_run {files : LayerFiles} {history : ExtractHistory} {state : ExtractState}
    (run : Run (StepOf extraction.perform) (ExtractState.fresh files) history state)
    (outside : Meets OutsideWindows history)
    : AllFit state := by
  have idle : AllFit (ExtractState.fresh files) := fun _ => trivial
  refine run.invariant (fun _ => AllFit) idle ?_ outside
  rintro history state action next fit rfl apart
  exact fit.perform apart

/-- While nobody installs into another's window, a published layer stays where it is and an
extraction that succeeded is not reported as an error.
-/
theorem published_layer_stable {files : LayerFiles} {history : ExtractHistory}
    {state : ExtractState}
    (run : Run (StepOf extraction.perform) (ExtractState.fresh files) history state)
    (outside : Meets OutsideWindows history)
    : PublishedStable history ∧ ExtractedOk history := by
  have fits (event) (member : event ∈ history)
      : AllFit event.before ∧ event.after = extraction.perform event.before event.action := by
    obtain ⟨older, earlier, allowed, taken⟩ := run.upBefore outside member
    exact ⟨allFit_of_run earlier allowed, taken⟩
  constructor
  · intro event member marked
    obtain ⟨fit, taken⟩ := fits event member
    rw [taken]
    exact (fit.step event.action).1 marked
  · intro event member pid next own
    obtain ⟨fit, taken⟩ := fits event member
    rw [taken]
    exact (fit.step event.action).2 pid next own

/-- An earlier run left a directory without a marker. -/
def staleFiles : LayerFiles := ⟨some ["etc"], fun _ => none, fun _ => none⟩

/-- The steps of a call up to its second look at the marker. -/
def extractSteps (pid : Nat) : List ExtractAction :=
  [.op pid .next, .op pid (.create true), .op pid (.extract (some ["etc", "bin"]))]

def nextSteps (pid count : Nat) : List ExtractAction := List.replicate count (.op pid .next)

/-- Both extract; the first publishes, the second then finds the marker. -/
def inTurn : List ExtractAction :=
  extractSteps 1 ++ extractSteps 2 ++ nextSteps 1 5 ++ nextSteps 2 2

theorem published_layer_stable_inTurn
    : PublishedStable (trace extraction.perform (ExtractState.fresh staleFiles) [] inTurn)
      ∧ ExtractedOk (trace extraction.perform (ExtractState.fresh staleFiles) [] inTurn) := by
  refine published_layer_stable (Run.start.trace inTurn) ?_
  intro event member pid next installs other apart
  simp only [inTurn, extractSteps, nextSteps, List.replicate, trace, List.mem_cons,
    List.cons_append, List.nil_append, List.not_mem_nil, or_false] at member
  rcases member with rfl | rfl | rfl | rfl | rfl | rfl | rfl | rfl | rfl | rfl | rfl | rfl | rfl
  all_goals
    injection next with same
    subst same
    cases installs
  -- Only the fourth step of the first process installs; the second has not looked yet.
  match other with
  | 1 => contradiction
  | 0 | 2 | _ + 3 => rfl

/-- Both look at the marker before either publishes. -/
def bothUnmarked : List ExtractAction :=
  extractSteps 1 ++ extractSteps 2 ++ nextSteps 1 1 ++ nextSteps 2 1

/-- The second displaces what the first has published. -/
def displacing : List ExtractAction := bothUnmarked ++ nextSteps 1 3 ++ nextSteps 2 2

/-- The first publishes between the two renames of the second. -/
def refusing : List ExtractAction := bothUnmarked ++ nextSteps 2 2 ++ nextSteps 1 3 ++ nextSteps 2 3

theorem marked_layer_displaced
    : ¬ PublishedStable (trace extraction.perform (ExtractState.fresh staleFiles) [] displacing)
      ∧ ¬ ExtractedOk (trace extraction.perform (ExtractState.fresh staleFiles) [] refusing) := by
  constructor
  · intro stable
    exact absurd (stable _ List.mem_cons_self (by decide)) (by decide)
  · intro ok
    exact absurd (ok _ List.mem_cons_self 2 rfl (by decide)) (by decide)

end Delonix.Images
