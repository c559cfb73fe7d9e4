import Delonix.Library.Collections
import Delonix.Library.Runs
import Mathlib.Algebra.Group.Nat.Defs
import Mathlib.Data.List.AList
import Mathlib.Data.List.Sort

/-! The revision history of a stack: a header and a manifest a number, in one directory.
Any number of applies record themselves there without a lock. What is atomic is one file step:
a header is created by its number only where none is, and each file is written whole.
-/

namespace Delonix.Revisions

open Delonix.Library.Collections
open Delonix.Library.Interleaving
open Delonix.Library.Runs

/-- How many revisions to keep. -/
def keep : Nat := 20

/-- What an apply recorded about itself. -/
structure Revision where
  number : Nat
  ts : Nat
  manifest : String
  ok : Bool
  error : Option String
  summary : List (String × Nat)
  rollbackOf : Option Nat
  deriving DecidableEq, Repr

/-- A header file: the call that created it, and what it holds once that call has filled it. An
empty one does not parse.
-/
structure Header where
  call : Nat
  body : Option Revision
  deriving DecidableEq, Repr

/-- A manifest file: the call that wrote it last, and the rendered text. -/
structure Manifest where
  call : Nat
  rendered : String
  deriving DecidableEq, Repr

/-- The files of one kind by their number: `{n:04}.json` and `{n:04}.yaml` name a file each. -/
abbrev Files (α : Type) := AList fun _ : Nat => α

structure Dir where
  headers : Files Header
  manifests : Files Manifest

/-- The numbers of the header files, empty ones included, in ascending order. -/
def Dir.readNums (dir : Dir) : List Nat := dir.headers.keys.insertionSort (fun a b => a ≤ b)

/-- The revision a header file parses to. -/
def Dir.read (dir : Dir) (number : Nat) : Option Revision :=
  (dir.headers.lookup number).bind Header.body

/-- The headers after a call has written through the handle it claimed one with. A file that was
unlinked, or that someone else created under the number since, is not the one it holds.
-/
def Dir.fill (dir : Dir) (call : Nat) (rev : Revision) : Dir :=
  match dir.headers.lookup rev.number with
  | some header =>
      if header.call = call then
        { dir with headers := dir.headers.insert rev.number { header with body := some rev } }
      else dir
  | none => dir

/-- What an apply is telling the record about itself, and the manifest as it was rendered. -/
structure Outcome where
  rendered : String
  manifestPath : String
  ok : Bool
  error : Option String
  summary : List (String × Nat)
  rollbackOf : Option Nat
  deriving DecidableEq, Repr

/-- One line, bounded: an error is rendered in a table. -/
def oneLine (error : String) : String :=
  let one := error.toList.map fun c => if c = '\n' then ' ' else c
  if 300 < one.length then String.ofList (one.take 300) ++ "…" else String.ofList one

def Outcome.revision (what : Outcome) (number ts : Nat) : Revision where
  number := number
  ts := ts
  manifest := what.manifestPath
  ok := what.ok
  error := what.error.map oneLine
  summary := what.summary
  rollbackOf := what.rollbackOf

/-- The number after this one, in the width numbers have. -/
def next (number : Nat) : Nat := (number + 1) % 2 ^ 32

/-- Where a call of `record` stands. -/
inductive Stage where
  /-- Not called yet. -/
  | ready
  /-- Has read the directory; `rest` is still to be read, `last` is the number in the last
  header that parsed. -/
  | scanning (rest : List Nat) (last : Option Nat)
  /-- Is about to create the header `number`, and may try `tries` numbers in all. -/
  | claiming (number tries : Nat)
  | writing (rev : Revision)
  | filling (rev : Revision)
  | pruning (recorded : Nat)
  /-- Is about to remove the header of each of `doomed`. -/
  | removing (recorded : Nat) (doomed : List Nat)
  /-- Has removed the header `number` and is about to remove its manifest. -/
  | removingManifest (recorded number : Nat) (doomed : List Nat)
  | ended (recorded : Option Nat)
  deriving DecidableEq, Repr

/-- One file step of `record`, by the call `i` at the instant `now`. -/
def advance (what : Outcome) (i : Nat) (dir : Dir) (stage : Stage) (now : Nat) : Dir × Stage :=
  match stage with
  | .ready => (dir, .scanning dir.readNums none)
  | .scanning (number :: rest) last =>
      match dir.read number with
      | some rev => (dir, .scanning rest (some rev.number))
      | none => (dir, .scanning rest last)
  | .scanning [] last => (dir, .claiming ((last.map next).getD 1) 64)
  | .claiming _ 0 => (dir, .ended none)
  | .claiming number (tries + 1) =>
      if number ∈ dir.headers then (dir, .claiming (next number) tries)
      else
        ({ dir with headers := dir.headers.insert number ⟨i, none⟩ },
          .writing (what.revision number now))
  | .writing rev =>
      ({ dir with manifests := dir.manifests.insert rev.number ⟨i, what.rendered⟩ },
        .filling rev)
  | .filling rev => (dir.fill i rev, .pruning rev.number)
  | .pruning recorded =>
      -- `prune_old`: nothing happens to a history that is short enough.
      if dir.readNums.length ≤ keep then (dir, .ended (some recorded))
      else (dir, .removing recorded (dir.readNums.take (dir.readNums.length - keep)))
  | .removing recorded [] => (dir, .ended (some recorded))
  | .removing recorded (number :: doomed) =>
      ({ dir with headers := dir.headers.erase number },
        .removingManifest recorded number doomed)
  | .removingManifest recorded number doomed =>
      ({ dir with manifests := dir.manifests.erase number }, .removing recorded doomed)
  | .ended recorded => (dir, .ended recorded)

abbrev HistoryState := State Dir Stage

abbrev HistoryAction := Action Nat Empty

/-- All the calls on one stack, each with what it was told. -/
def applies (what : Nat → Outcome) : System Dir Stage Nat Empty where
  advance i := advance (what i) i
  stir dir _ := dir

/-- No apply has been recorded yet. -/
def untouched : HistoryState := ⟨⟨∅, ∅⟩, fun _ => .ready⟩

theorem mem_readNums {dir : Dir} {number : Nat}
    : number ∈ dir.readNums ↔ number ∈ dir.headers := by
  rw [Dir.readNums, List.mem_insertionSort, AList.mem_keys]

theorem readNums_sorted (dir : Dir) : dir.readNums.Pairwise (fun a b => a < b) := by
  have sorted : dir.readNums.Pairwise (fun a b => a ≤ b) := List.pairwise_insertionSort _ _
  have distinct : dir.readNums.Nodup :=
    (List.perm_insertionSort _ _).nodup_iff.mpr dir.headers.keys_nodup
  exact sorted.imp₂ (fun a b le ne => lt_of_le_of_ne le ne) distinct

/-- A header that parses. -/
def Dir.Filled (dir : Dir) (number : Nat) : Prop := (dir.read number).isSome

instance (dir : Dir) (number : Nat) : Decidable (dir.Filled number) :=
  inferInstanceAs (Decidable ((dir.read number).isSome = true))

theorem filled_iff {dir : Dir} {number : Nat}
    : dir.Filled number ↔ ∃ call rev, dir.headers.lookup number = some ⟨call, some rev⟩ := by
  simp only [Dir.Filled, Dir.read]
  cases dir.headers.lookup number with
  | none => simp
  | some header =>
      obtain ⟨call, body⟩ := header
      cases body <;> simp

theorem Dir.Filled.mem {dir : Dir} {number : Nat} (filled : dir.Filled number)
    : number ∈ dir.headers := by
  obtain ⟨call, rev, is⟩ := filled_iff.mp filled
  rw [← AList.lookup_isSome, is]
  rfl

/-- Filling leaves every other header as it was, and its own number's filled if it is still the
call's.
-/
theorem lookup_fill {dir : Dir} {call : Nat} {rev : Revision} (number : Nat)
    : (dir.fill call rev).headers.lookup number
      = (dir.headers.lookup number).map fun header =>
        if number = rev.number ∧ header.call = call then { header with body := some rev }
        else header := by
  have unchanged (kept : ∀ header, dir.headers.lookup number = some header →
      ¬ (number = rev.number ∧ header.call = call))
      : dir.headers.lookup number = (dir.headers.lookup number).map fun header =>
        if number = rev.number ∧ header.call = call then { header with body := some rev }
        else header := by
    cases is : dir.headers.lookup number with
    | none => rfl
    | some header => rw [Option.map_some, if_neg (kept header is)]
  unfold Dir.fill
  split
  case h_1 header holds =>
    split
    case isTrue own =>
      by_cases same : number = rev.number
      · subst same
        rw [AList.lookup_insert, holds, Option.map_some, if_pos ⟨rfl, own⟩]
      · rw [AList.lookup_insert_ne same]
        exact unchanged fun _ _ both => same both.1
    case isFalse other =>
      refine unchanged ?_
      rintro header' is ⟨rfl, own⟩
      rw [holds] at is
      cases is
      exact other own
  case h_2 none =>
    refine unchanged ?_
    rintro header' is ⟨rfl, -⟩
    rw [none] at is
    cases is

@[simp] theorem fill_manifests (dir : Dir) (call : Nat) (rev : Revision)
    : (dir.fill call rev).manifests = dir.manifests := by
  unfold Dir.fill
  split
  · split <;> rfl
  · rfl

theorem mem_fill {dir : Dir} {call number : Nat} {rev : Revision}
    : number ∈ (dir.fill call rev).headers ↔ number ∈ dir.headers := by
  rw [← AList.lookup_isSome, ← AList.lookup_isSome, lookup_fill, Option.isSome_map]

end Delonix.Revisions
