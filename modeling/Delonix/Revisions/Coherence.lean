import Delonix.Revisions.Record

/-! What stays true of a history however the calls interleave, as long as no call prunes what
another one is still writing or still has to read.
-/

namespace Delonix.Revisions

open Delonix.Library.Collections
open Delonix.Library.Interleaving
open Delonix.Library.Runs

abbrev HistoryEvents := List (Event HistoryState HistoryAction)

/-- Every call that was made has ended. -/
def Settled (state : HistoryState) : Prop :=
  ∀ i, state.ops i = .ready ∨ ∃ recorded, state.ops i = .ended recorded

/-- Each number has both of its files or none, and both from one call. -/
structure Coherent (dir : Dir) : Prop where
  one_call : ∀ number header manifest, dir.headers.lookup number = some header →
    dir.manifests.lookup number = some manifest → header.call = manifest.call
  paired : ∀ number, number ∈ dir.headers ↔ number ∈ dir.manifests

/-- A call that started after another one had ended recorded a larger number. -/
def Increasing (history : HistoryEvents) (state : HistoryState) : Prop :=
  ∀ event ∈ history, ∀ i j now earlier later, event.action = .op j now →
    event.before.ops j = .ready → event.before.ops i = .ended (some earlier) →
    state.ops j = .ended (some later) → earlier < later

/-- What may be removed without harm, and a number that is not the largest there is.
A header goes only when its call has written the manifest, when a later revision can be read,
and when every call that has it still to read has a later one to read too; a manifest goes only
when no other call has put its own under the number.
-/
def Harmless (state : HistoryState) : HistoryAction → Prop
  | .outside event => event.elim
  | .op i _ =>
      match state.ops i with
      | .scanning [] (some last) => last + 1 < 2 ^ 32
      | .claiming number (_ + 1) => number ∈ state.world.headers → number + 1 < 2 ^ 32
      | .removing _ (number :: _) =>
          ∀ header, state.world.headers.lookup number = some header →
            (∀ rev, state.ops header.call ≠ .writing rev)
            ∧ (∃ later, number < later ∧ state.world.Filled later)
            ∧ ∀ j rest last, state.ops j = .scanning rest last → number ∈ rest →
              state.world.Filled number →
              ∃ later ∈ rest, number < later ∧ state.world.Filled later
      | .removingManifest _ number _ =>
          ∀ header, state.world.headers.lookup number = some header →
            ∃ rev, state.ops header.call = .writing rev
      | _ => True

-----------------------------------------------------------------------------------------
-- What each stage relies on
-----------------------------------------------------------------------------------------

/-- Some header from this number on parses. -/
def Dir.FilledFrom (dir : Dir) (number : Nat) : Prop := ∃ later, number ≤ later ∧ dir.Filled later

/-- The number a call has claimed. -/
def Stage.claimed : Stage → Option Nat
  | .writing rev | .filling rev => some rev.number
  | .pruning recorded | .removing recorded _ | .removingManifest recorded _ _ => some recorded
  | .ended recorded => recorded
  | _ => none

/-- What the files hold for a call at this stage. -/
def Fits (dir : Dir) (call : Nat) : Stage → Prop
  | .scanning rest last =>
      rest.Pairwise (fun a b => a < b) ∧ ∀ read, last = some read → ∀ number ∈ rest, read < number
  | .writing rev => dir.headers.lookup rev.number = some ⟨call, none⟩
  | .filling rev =>
      (∃ body, dir.headers.lookup rev.number = some ⟨call, body⟩) ∨ dir.FilledFrom rev.number
  | .pruning recorded | .removing recorded _ | .removingManifest recorded _ _ =>
      dir.FilledFrom recorded
  | .ended recorded => ∀ number, recorded = some number → dir.FilledFrom number
  | .ready | .claiming _ _ => True

/-- What the files and the stages say of each other. -/
structure Sound (state : HistoryState) : Prop where
  fits : ∀ j, Fits state.world j (state.ops j)
  numbered : ∀ number call rev,
    state.world.headers.lookup number = some ⟨call, some rev⟩ → rev.number = number
  owned : ∀ number header, state.world.headers.lookup number = some header →
    (state.ops header.call).claimed = some number
  written : ∀ number header, state.world.headers.lookup number = some header →
    (∃ rev, state.ops header.call = .writing rev)
    ∨ ∃ manifest, state.world.manifests.lookup number = some manifest
      ∧ manifest.call = header.call
  orphaned : ∀ number, number ∈ state.world.manifests → number ∉ state.world.headers →
    ∃ j recorded doomed, state.ops j = .removingManifest recorded number doomed

theorem untouched_sound : Sound untouched where
  fits _ := trivial
  numbered _ _ _ is := by cases is
  owned _ _ is := by cases is
  written _ _ is := by cases is
  orphaned _ member := absurd member (AList.notMem_empty _)

/-- A step that takes no header away leaves each call its own, and every revision readable. -/
structure Spares (call : Nat) (before after : Dir) : Prop where
  stays : ∀ number header, before.headers.lookup number = some header → header.call = call →
    after.headers.lookup number = some header
  filled : ∀ number, before.Filled number → after.Filled number

theorem Spares.of_headers_eq {call : Nat} {before after : Dir}
    (same : after.headers = before.headers)
    : Spares call before after := by
  refine ⟨fun number header is _ => by rw [same, is], ?_⟩
  intro number filled
  rwa [Dir.Filled, Dir.read, same]

theorem Spares.filledFrom {call : Nat} {before after : Dir} (spares : Spares call before after)
    {number : Nat} (filled : before.FilledFrom number)
    : after.FilledFrom number := by
  obtain ⟨later, le, is⟩ := filled
  exact ⟨later, le, spares.filled later is⟩

theorem Fits.carry {call : Nat} {before after : Dir} {stage : Stage}
    (fits : Fits before call stage) (spares : Spares call before after)
    : Fits after call stage := by
  cases stage with
  | ready | scanning | claiming => exact fits
  | writing rev => exact spares.stays _ _ fits rfl
  | filling rev =>
      rcases fits with ⟨body, is⟩ | filled
      · exact .inl ⟨body, spares.stays _ _ is rfl⟩
      · exact .inr (spares.filledFrom filled)
  | pruning | removing | removingManifest => exact spares.filledFrom fits
  | ended recorded => exact fun number is => spares.filledFrom (fits number is)

theorem spares_claim {call i number : Nat} {dir : Dir} (free : number ∉ dir.headers)
    : Spares call dir { dir with headers := dir.headers.insert number ⟨i, none⟩ } := by
  have stays (other : Nat) (header : Header) (is : dir.headers.lookup other = some header)
      : (dir.headers.insert number ⟨i, none⟩).lookup other = some header := by
    have ne : other ≠ number := by
      rintro rfl
      rw [AList.lookup_eq_none.mpr free] at is
      cases is
    rw [AList.lookup_insert_ne ne, is]
  refine ⟨fun other header is _ => stays other header is, ?_⟩
  intro other filled
  obtain ⟨owner, rev, is⟩ := filled_iff.mp filled
  exact filled_iff.mpr ⟨owner, rev, stays other _ is⟩

theorem fill_filled {dir : Dir} {i number : Nat} {rev : Revision} (filled : dir.Filled number)
    : (dir.fill i rev).Filled number := by
  obtain ⟨owner, body, is⟩ := filled_iff.mp filled
  rw [filled_iff]
  simp only [lookup_fill, is, Option.map_some]
  split
  · exact ⟨owner, rev, rfl⟩
  · exact ⟨owner, body, rfl⟩

theorem spares_fill {call i : Nat} {dir : Dir} {rev : Revision} (other : call ≠ i)
    : Spares call dir (dir.fill i rev) := by
  refine ⟨?_, fun number => fill_filled⟩
  rintro number header is rfl
  rw [lookup_fill, is, Option.map_some, if_neg fun both => other both.2]

/-- The directory without one of its headers. -/
def Dir.without (dir : Dir) (number : Nat) : Dir :=
  { dir with headers := dir.headers.erase number }

theorem without_filled {dir : Dir} {number other : Nat} (filled : dir.Filled other)
    (ne : other ≠ number)
    : (dir.without number).Filled other := by
  obtain ⟨owner, rev, is⟩ := filled_iff.mp filled
  exact filled_iff.mpr ⟨owner, rev, by rw [Dir.without, lookup_erase_ite, if_neg ne, is]⟩

/-- As long as a later header parses, taking one away leaves one to read from any number on. -/
theorem without_filledFrom {dir : Dir} {number first : Nat}
    (later : number ∈ dir.headers → ∃ later, number < later ∧ dir.Filled later)
    (filled : dir.FilledFrom first)
    : (dir.without number).FilledFrom first := by
  obtain ⟨read, le, is⟩ := filled
  by_cases same : read = number
  · subst same
    obtain ⟨next, lt, is'⟩ := later is.mem
    exact ⟨next, by omega, without_filled is' (by omega)⟩
  · exact ⟨read, le, without_filled is same⟩

-----------------------------------------------------------------------------------------
-- One step
-----------------------------------------------------------------------------------------

section Steps

variable {state : HistoryState} {i : Nat}

theorem fits_update {dir : Dir} {ops : Nat → Stage} {stage : Stage} (moved : Fits dir i stage)
    (others : ∀ j, j ≠ i → Fits dir j (ops j)) (j : Nat)
    : Fits dir j (Function.update ops i stage j) := by
  by_cases same : j = i
  · subst same
    rwa [Function.update_self]
  · rw [Function.update_of_ne same]
    exact others j same

/-- Whoever is about to remove a manifest still is, unless it is the one that moved. -/
theorem removing_update {ops : Nat → Stage} {stage : Stage} {number : Nat}
    (was : ∃ j recorded doomed, ops j = .removingManifest recorded number doomed)
    (unremoved : ∀ recorded doomed, ops i ≠ .removingManifest recorded number doomed)
    : ∃ j recorded doomed,
      Function.update ops i stage j = .removingManifest recorded number doomed := by
  obtain ⟨j, recorded, doomed, removing⟩ := was
  refine ⟨j, recorded, doomed, ?_⟩
  rwa [Function.update_of_ne]
  rintro rfl
  exact unremoved recorded doomed removing

/-- Neither about to write nor about to remove a manifest. -/
def Stage.Quiet : Stage → Prop
  | .writing _ | .removingManifest _ _ _ => False
  | _ => True

/-- A step that leaves the files as they are. -/
theorem Sound.quiet (sound : Sound state) {before after : Stage} (stage : state.ops i = before)
    (quiet : before.Quiet) (claimed : before.claimed = after.claimed)
    (moved : Fits state.world i after)
    : Sound ⟨state.world, Function.update state.ops i after⟩ where
  fits := fits_update moved fun j _ => sound.fits j
  numbered := sound.numbered
  owned number header is := by
    have owned := sound.owned number header is
    by_cases same : header.call = i
    · rw [same, stage, claimed] at owned
      rw [same]
      simpa using owned
    · simpa [same] using owned
  written number header is := by
    refine (sound.written number header is).imp_left ?_
    rintro ⟨rev, writing⟩
    have other : header.call ≠ i := by
      rintro same
      rw [same, stage] at writing
      rw [writing] at quiet
      exact quiet
    exact ⟨rev, by simpa [other] using writing⟩
  orphaned number member absent := by
    refine removing_update (sound.orphaned number member absent) ?_
    intro recorded doomed removing
    rw [stage] at removing
    rw [removing] at quiet
    exact quiet

theorem Sound.claim (sound : Sound state) {number tries : Nat}
    (claiming : state.ops i = .claiming number tries) (free : number ∉ state.world.headers)
    {rev : Revision} (own : rev.number = number)
    : Sound ⟨{ state.world with headers := state.world.headers.insert number ⟨i, none⟩ },
      Function.update state.ops i (.writing rev)⟩ := by
  have unclaimed (other : Nat) (header : Header)
      (is : state.world.headers.lookup other = some header) : header.call ≠ i := by
    intro same
    have owned := sound.owned other header is
    rw [same, claiming] at owned
    cases owned
  subst own
  constructor
  case fits =>
    refine fits_update (AList.lookup_insert _) ?_
    intro j _
    exact (sound.fits j).carry (spares_claim free)
  case numbered =>
    intro other call body is
    rw [lookup_insert_ite] at is
    split at is
    · cases is
    · exact sound.numbered other call body is
  case owned =>
    intro other header is
    rw [lookup_insert_ite] at is
    split at is
    case isTrue same =>
      cases is
      simp [Stage.claimed, same]
    case isFalse =>
      simpa [unclaimed other header is] using sound.owned other header is
  case written =>
    intro other header is
    rw [lookup_insert_ite] at is
    split at is
    · cases is
      exact .inl ⟨rev, by simp⟩
    · simpa [unclaimed other header is] using sound.written other header is
  case orphaned =>
    intro other member absent
    have absent' : other ∉ state.world.headers :=
      fun present => absent ((AList.mem_insert _).mpr (.inr present))
    exact removing_update (sound.orphaned other member absent') (by simp [claiming])

theorem Sound.write (sound : Sound state) {rev : Revision} (writing : state.ops i = .writing rev)
    (rendered : String)
    : Sound ⟨{ state.world with
        manifests := state.world.manifests.insert rev.number ⟨i, rendered⟩ },
      Function.update state.ops i (.filling rev)⟩ := by
  have held : state.world.headers.lookup rev.number = some ⟨i, none⟩ := by
    have fits := sound.fits i
    rwa [writing] at fits
  constructor
  case fits =>
    refine fits_update (.inl ⟨none, held⟩) ?_
    intro j _
    exact (sound.fits j).carry (.of_headers_eq rfl)
  case numbered => exact sound.numbered
  case owned =>
    intro number header is
    have owned := sound.owned number header is
    by_cases same : header.call = i
    · rw [same, writing] at owned
      rw [same]
      simpa [Stage.claimed] using owned
    · simpa [same] using owned
  case written =>
    intro number header is
    by_cases same : header.call = i
    · have owned := sound.owned number header is
      rw [same, writing] at owned
      obtain rfl := Option.some.inj owned
      exact .inr ⟨_, AList.lookup_insert _, same.symm⟩
    · have other : number ≠ rev.number := by
        rintro rfl
        rw [held] at is
        cases is
        exact same rfl
      simpa [same, lookup_insert_ite, other] using sound.written number header is
  case orphaned =>
    intro number member absent
    rcases (AList.mem_insert _).mp member with rfl | member
    · exact absurd (AList.lookup_isSome.mp (by rw [held]; rfl)) absent
    · exact removing_update (sound.orphaned number member absent) (by simp [writing])

theorem Sound.fill (sound : Sound state) {rev : Revision} (filling : state.ops i = .filling rev)
    : Sound ⟨state.world.fill i rev, Function.update state.ops i (.pruning rev.number)⟩ := by
  -- A header the step leaves is one that was there, with the same creator.
  have before {number : Nat} {header : Header}
      (is : (state.world.fill i rev).headers.lookup number = some header)
      : ∃ older, state.world.headers.lookup number = some older ∧ older.call = header.call := by
    rw [lookup_fill] at is
    obtain ⟨older, was, rfl⟩ := Option.map_eq_some_iff.mp is
    refine ⟨older, was, ?_⟩
    split <;> rfl
  constructor
  case fits =>
    refine fits_update ?_ fun j other => (sound.fits j).carry (spares_fill other)
    have fits := sound.fits i
    rw [filling] at fits
    rcases fits with ⟨body, is⟩ | ⟨later, le, filled⟩
    · refine ⟨rev.number, le_rfl, filled_iff.mpr ⟨i, rev, ?_⟩⟩
      simp [lookup_fill, is]
    · exact ⟨later, le, fill_filled filled⟩
  case numbered =>
    intro number call body is
    rw [lookup_fill] at is
    obtain ⟨older, was, is⟩ := Option.map_eq_some_iff.mp is
    split at is
    case isTrue own =>
      cases is
      exact own.1.symm
    case isFalse =>
      subst is
      exact sound.numbered number call body was
  case owned =>
    intro number header is
    obtain ⟨older, was, call⟩ := before is
    have owned := sound.owned number older was
    rw [call] at owned
    by_cases same : header.call = i
    · rw [same, filling] at owned
      rw [same]
      simpa [Stage.claimed] using owned
    · simpa [same] using owned
  case written =>
    intro number header is
    obtain ⟨older, was, call⟩ := before is
    have written := sound.written number older was
    rw [call] at written
    by_cases same : header.call = i
    · rw [same, filling] at written
      simpa [same] using written
    · simpa [same] using written
  case orphaned =>
    intro number member absent
    rw [fill_manifests] at member
    exact removing_update (sound.orphaned number member (mem_fill.not.mp absent))
      (by simp [filling])

theorem Sound.removeHeader (sound : Sound state) {recorded number : Nat} {doomed : List Nat}
    (removing : state.ops i = .removing recorded (number :: doomed))
    (unwritten : ∀ header, state.world.headers.lookup number = some header →
      ∀ rev, state.ops header.call ≠ .writing rev)
    (later : number ∈ state.world.headers →
      ∃ later, number < later ∧ state.world.Filled later)
    : Sound ⟨state.world.without number,
      Function.update state.ops i (.removingManifest recorded number doomed)⟩ := by
  have before {other : Nat} {header : Header}
      (is : (state.world.without number).headers.lookup other = some header)
      : state.world.headers.lookup other = some header := by
    rw [Dir.without, lookup_erase_ite] at is
    split at is
    · cases is
    · exact is
  have mover := sound.fits i
  rw [removing] at mover
  constructor
  case fits =>
    refine fits_update (without_filledFrom later mover) ?_
    intro j _
    have fits := sound.fits j
    cases stage : state.ops j with
    | ready => trivial
    | scanning | claiming =>
        rw [stage] at fits
        exact fits
    | writing rev =>
        rw [stage] at fits
        have ne : rev.number ≠ number := by
          rintro rfl
          exact unwritten _ fits rev stage
        rw [Fits, Dir.without, lookup_erase_ite, if_neg ne]
        exact fits
    | filling rev =>
        rw [stage] at fits
        rcases fits with ⟨body, is⟩ | filled
        · by_cases same : rev.number = number
          · -- The call's own header goes; what it is about to fill nobody can read.
            obtain ⟨next, lt, filled⟩ := later (same ▸ AList.lookup_isSome.mp (by rw [is]; rfl))
            exact .inr ⟨next, by omega, without_filled filled (by omega)⟩
          · exact .inl ⟨body, by rw [Dir.without, lookup_erase_ite, if_neg same, is]⟩
        · exact .inr (without_filledFrom later filled)
    | pruning | removing | removingManifest =>
        rw [stage] at fits
        exact without_filledFrom later fits
    | ended =>
        rw [stage] at fits
        exact fun recorded is => without_filledFrom later (fits recorded is)
  case numbered => exact fun other call rev is => sound.numbered other call rev (before is)
  case owned =>
    intro other header is
    have owned := sound.owned other header (before is)
    by_cases same : header.call = i
    · rw [same, removing] at owned
      rw [same]
      simpa [Stage.claimed] using owned
    · simpa [same] using owned
  case written =>
    intro other header is
    have written := sound.written other header (before is)
    by_cases same : header.call = i
    · rw [same, removing] at written
      simpa [same, Dir.without] using written
    · simpa [same, Dir.without] using written
  case orphaned =>
    intro other member absent
    by_cases same : other = number
    · subst same
      exact ⟨i, recorded, doomed, by simp⟩
    · have absent' : other ∉ state.world.headers :=
        fun present => absent (AList.mem_erase.mpr ⟨same, present⟩)
      exact removing_update (sound.orphaned other member absent') (by simp [removing])

theorem Sound.removeManifest (sound : Sound state) {recorded number : Nat} {doomed : List Nat}
    (removing : state.ops i = .removingManifest recorded number doomed)
    (unwritten : ∀ header, state.world.headers.lookup number = some header →
      ∃ rev, state.ops header.call = .writing rev)
    : Sound ⟨{ state.world with manifests := state.world.manifests.erase number },
      Function.update state.ops i (.removing recorded doomed)⟩ := by
  have mover := sound.fits i
  rw [removing] at mover
  constructor
  case fits =>
    refine fits_update mover ?_
    intro j _
    exact (sound.fits j).carry (.of_headers_eq rfl)
  case numbered => exact sound.numbered
  case owned =>
    intro other header is
    have owned := sound.owned other header is
    by_cases same : header.call = i
    · rw [same, removing] at owned
      rw [same]
      simpa [Stage.claimed] using owned
    · simpa [same] using owned
  case written =>
    intro other header is
    have still {rev : Revision} (writing : state.ops header.call = .writing rev)
        : header.call ≠ i := by
      intro same
      rw [same, removing] at writing
      cases writing
    by_cases same : other = number
    · subst same
      obtain ⟨rev, writing⟩ := unwritten header is
      exact .inl ⟨rev, by simpa [still writing] using writing⟩
    · rcases sound.written other header is with ⟨rev, writing⟩ | ⟨manifest, holds, call⟩
      · exact .inl ⟨rev, by simpa [still writing] using writing⟩
      · exact .inr ⟨manifest, by rw [lookup_erase_ite, if_neg same, holds], call⟩
  case orphaned =>
    intro other member absent
    obtain ⟨ne, member⟩ := AList.mem_erase.mp member
    refine removing_update (sound.orphaned other member absent) ?_
    intro recorded' doomed' is
    rw [removing] at is
    cases is
    exact ne rfl

/-- A scan reads the headers in ascending order. -/
theorem scanned_fits (sound : Sound state) {number : Nat} {rest : List Nat} {last : Option Nat}
    (scanning : state.ops i = .scanning (number :: rest) last)
    : Fits state.world i (.scanning rest last)
      ∧ ∀ rev, state.world.read number = some rev →
        rev.number = number ∧ Fits state.world i (.scanning rest (some number)) := by
  have fits := sound.fits i
  rw [scanning] at fits
  obtain ⟨sorted, above⟩ := fits
  obtain ⟨first, sorted⟩ := List.pairwise_cons.mp sorted
  refine ⟨⟨sorted, fun read is other member => above read is other (.tail _ member)⟩, ?_⟩
  intro rev read
  obtain ⟨header, holds, body⟩ := Option.bind_eq_some_iff.mp read
  obtain ⟨call, filled⟩ := header
  cases body
  refine ⟨sound.numbered number call rev holds, sorted, ?_⟩
  intro read is other member
  obtain rfl := Option.some.inj is
  exact first other member

theorem Sound.advance (sound : Sound state) {now : Nat} {what : Outcome}
    (harmless : Harmless state (.op i now))
    : Sound ⟨(advance what i state.world (state.ops i) now).1,
      Function.update state.ops i (advance what i state.world (state.ops i) now).2⟩ := by
  have mover := sound.fits i
  cases stage : state.ops i with
  | ready =>
      exact sound.quiet stage trivial rfl ⟨readNums_sorted _, fun _ is => nomatch is⟩
  | scanning rest last =>
      cases rest with
      | nil => exact sound.quiet stage trivial rfl trivial
      | cons number rest =>
          obtain ⟨unread, read⟩ := scanned_fits sound stage
          simp only [Revisions.advance]
          split
          case h_1 rev is =>
            obtain ⟨own, fits⟩ := read rev is
            rw [own]
            exact sound.quiet stage trivial rfl fits
          case h_2 => exact sound.quiet stage trivial rfl unread
  | claiming number tries =>
      cases tries with
      | zero => exact sound.quiet stage trivial rfl fun _ is => nomatch is
      | succ tries =>
          simp only [Revisions.advance]
          split
          case isTrue => exact sound.quiet stage trivial rfl trivial
          case isFalse free => exact sound.claim stage free rfl
  | writing rev => exact sound.write stage _
  | filling rev => exact sound.fill stage
  | pruning recorded =>
      rw [stage] at mover
      simp only [Revisions.advance]
      split
      case isTrue =>
        exact sound.quiet stage trivial rfl fun number is => Option.some.inj is ▸ mover
      case isFalse => exact sound.quiet stage trivial rfl mover
  | removing recorded doomed =>
      rw [stage] at mover
      cases doomed with
      | nil =>
          exact sound.quiet stage trivial rfl fun number is => Option.some.inj is ▸ mover
      | cons number doomed =>
          simp only [Harmless, stage] at harmless
          refine sound.removeHeader stage (fun header is => (harmless header is).1) ?_
          intro present
          obtain ⟨header, is⟩ := Option.isSome_iff_exists.mp (AList.lookup_isSome.mpr present)
          exact (harmless header is).2.1
  | removingManifest recorded number doomed =>
      simp only [Harmless, stage] at harmless
      exact sound.removeManifest stage harmless
  | ended recorded =>
      rw [stage] at mover
      exact sound.quiet stage trivial rfl mover

-----------------------------------------------------------------------------------------
-- Numbers grow
-----------------------------------------------------------------------------------------

/-- The call is bound to claim a larger number than this one. -/
def Above (number : Nat) (dir : Dir) : Stage → Prop
  | .ready => False
  | .scanning rest last =>
      (∃ read, last = some read ∧ number ≤ read)
      ∨ ∃ later ∈ rest, number ≤ later ∧ dir.Filled later
  | .claiming next _ => number < next
  | .writing rev | .filling rev => number < rev.number
  | .pruning recorded | .removing recorded _ | .removingManifest recorded _ _ =>
      number < recorded
  | .ended recorded => ∀ later, recorded = some later → number < later

/-- A scan starts with the newest revision there is still to read. -/
theorem above_start {dir : Dir} {number : Nat} (filled : dir.FilledFrom number)
    : Above number dir (.scanning dir.readNums none) := by
  obtain ⟨later, le, is⟩ := filled
  exact .inr ⟨later, mem_readNums.mpr is.mem, le, is⟩

/-- Only a removal makes a header unreadable, and only its own. -/
theorem advance_filled (what : Outcome) (now : Nat) {number : Nat}
    (filled : state.world.Filled number)
    : (advance what i state.world (state.ops i) now).1.Filled number
      ∨ ∃ recorded doomed, state.ops i = .removing recorded (number :: doomed) := by
  cases stage : state.ops i with
  | ready | pruning | ended =>
      left
      simp only [advance]
      first | exact filled | (split <;> exact filled)
  | scanning rest last =>
      left
      cases rest with
      | nil => exact filled
      | cons =>
          simp only [advance]
          split <;> exact filled
  | claiming next tries =>
      left
      cases tries with
      | zero => exact filled
      | succ =>
          simp only [advance]
          split
          · exact filled
          · have spared : Spares i state.world
                { state.world with headers := state.world.headers.insert next ⟨i, none⟩ } :=
              spares_claim ‹_›
            exact spared.filled number filled
  | writing rev => exact .inl filled
  | filling rev => exact .inl (fill_filled filled)
  | removing recorded doomed =>
      cases doomed with
      | nil => exact .inl filled
      | cons first doomed =>
          by_cases same : number = first
          · exact .inr ⟨recorded, doomed, by rw [same]⟩
          · exact .inl (without_filled filled same)
  | removingManifest => exact .inl filled

theorem Above.carry {number j now : Nat} {what : Outcome}
    (above : Above number state.world (state.ops j)) (harmless : Harmless state (.op i now))
    : Above number (advance what i state.world (state.ops i) now).1 (state.ops j) := by
  cases stage : state.ops j with
  | scanning rest last =>
      rw [stage] at above
      rcases above with read | ⟨later, member, le, filled⟩
      · exact .inl read
      right
      rcases advance_filled what now filled with still | ⟨recorded, doomed, is⟩
      · exact ⟨later, member, le, still⟩
      · -- The header the call relied on goes, and leaves it a later one to read.
        simp only [Harmless, is] at harmless
        obtain ⟨header, holds⟩ :=
          Option.isSome_iff_exists.mp (AList.lookup_isSome.mpr filled.mem)
        obtain ⟨next, member', lt, filled'⟩ :=
          (harmless header holds).2.2 j rest last stage member filled
        refine ⟨next, member', by omega, ?_⟩
        rw [is]
        exact without_filled filled' (by omega)
  | _ =>
      rw [stage] at above
      exact above

theorem Above.advance (sound : Sound state) {number now : Nat} {what : Outcome}
    (above : Above number state.world (state.ops i)) (harmless : Harmless state (.op i now))
    : Above number (advance what i state.world (state.ops i) now).1
      (advance what i state.world (state.ops i) now).2 := by
  cases stage : state.ops i with
  | ready =>
      rw [stage] at above
      exact above.elim
  | scanning rest last =>
      rw [stage] at above
      simp only [Harmless, stage] at harmless
      cases rest with
      | nil =>
          rcases above with ⟨read, rfl, le⟩ | ⟨later, member, -⟩
          · simp only [Revisions.advance, Option.map_some, Option.getD_some, next, Above]
            rw [Nat.mod_eq_of_lt harmless]
            omega
          · cases member
      | cons first rest =>
          have fits := sound.fits i
          rw [stage] at fits
          simp only [Revisions.advance]
          split
          case h_1 rev is =>
            rw [((scanned_fits sound stage).2 rev is).1]
            rcases above with ⟨read, rfl, le⟩ | ⟨later, member, le, filled⟩
            · have := fits.2 read rfl first List.mem_cons_self
              exact .inl ⟨first, rfl, by omega⟩
            · rcases List.mem_cons.mp member with rfl | member
              · exact .inl ⟨later, rfl, le⟩
              · exact .inr ⟨later, member, le, filled⟩
          case h_2 unread =>
            rcases above with read | ⟨later, member, le, filled⟩
            · exact .inl read
            · rcases List.mem_cons.mp member with rfl | member
              · rw [Dir.Filled, unread] at filled
                cases filled
              · exact .inr ⟨later, member, le, filled⟩
  | claiming first tries =>
      rw [stage] at above
      simp only [Harmless, stage] at harmless
      cases tries with
      | zero =>
          intro _ is
          cases is
      | succ =>
          simp only [Revisions.advance]
          split
          case isTrue taken =>
            simp only [next, Above] at above ⊢
            rw [Nat.mod_eq_of_lt (harmless taken)]
            omega
          case isFalse => exact above
  | pruning recorded =>
      rw [stage] at above
      simp only [Revisions.advance]
      split
      · exact fun later is => Option.some.inj is ▸ above
      · exact above
  | removing recorded doomed =>
      rw [stage] at above
      cases doomed with
      | nil => exact fun later is => Option.some.inj is ▸ above
      | cons => exact above
  | writing | filling | removingManifest | ended =>
      rw [stage] at above
      exact above

end Steps

-----------------------------------------------------------------------------------------
-- Runs
-----------------------------------------------------------------------------------------

/-- Whoever started after a call had ended is bound to claim a larger number. -/
def Started (history : HistoryEvents) (state : HistoryState) : Prop :=
  ∀ event ∈ history, ∀ i j now number, event.action = .op j now →
    event.before.ops j = .ready → event.before.ops i = .ended (some number) →
    Above number state.world (state.ops j)

theorem Started.perform {what : Nat → Outcome} {history : HistoryEvents} {state : HistoryState}
    {i now : Nat} (started : Started history state) (sound : Sound state)
    (harmless : Harmless state (.op i now))
    : Started (⟨state, .op i now, (applies what).perform state (.op i now)⟩ :: history)
      ((applies what).perform state (.op i now)) := by
  intro event member earlier j instant number action ready ended
  rcases List.mem_cons.mp member with rfl | member
  · -- The call starts with this step, and finds what the earlier one left.
    obtain ⟨rfl, rfl⟩ := Action.op.inj action
    have fits := sound.fits earlier
    dsimp only at ready ended
    rw [ended] at fits
    rw [System.perform_op_self, ready]
    simp only [System.perform, ready]
    exact above_start (fits number rfl)
  · have above := started event member earlier j instant number action ready ended
    by_cases same : j = i
    · subst same
      rw [System.perform_op_self]
      exact above.advance sound harmless
    · rw [System.perform_op_other _ same]
      exact above.carry harmless

theorem sound_of_run {what : Nat → Outcome} {history : HistoryEvents} {state : HistoryState}
    (run : Run (StepOf (applies what).perform) untouched history state)
    (harmless : Meets Harmless history)
    : Sound state ∧ Started history state := by
  refine run.invariant (fun history state => Sound state ∧ Started history state)
    ⟨untouched_sound, fun _ member => absurd member List.not_mem_nil⟩ ?_ harmless
  rintro history state action _ ⟨sound, started⟩ rfl allowed
  cases action with
  | outside event => exact event.elim
  | op i now => exact ⟨sound.advance allowed, started.perform sound allowed⟩

/-- Once no call is writing or removing any more, what is left is in pairs. -/
theorem Sound.coherent {state : HistoryState} (sound : Sound state) (settled : Settled state)
    : Coherent state.world := by
  have unwritten (i : Nat) (rev : Revision) : state.ops i ≠ .writing rev := by
    rcases settled i with is | ⟨recorded, is⟩ <;> simp [is]
  have paired {number : Nat} {header : Header}
      (holds : state.world.headers.lookup number = some header)
      : ∃ manifest, state.world.manifests.lookup number = some manifest
        ∧ manifest.call = header.call :=
    (sound.written number header holds).resolve_left fun ⟨rev, is⟩ => unwritten _ rev is
  constructor
  · intro number header manifest holds written
    obtain ⟨_, is, call⟩ := paired holds
    rw [is] at written
    cases written
    exact call.symm
  · intro number
    constructor
    · intro present
      obtain ⟨header, holds⟩ := Option.isSome_iff_exists.mp (AList.lookup_isSome.mpr present)
      obtain ⟨manifest, is, -⟩ := paired holds
      rw [← AList.lookup_isSome, is]
      rfl
    · intro present
      by_contra absent
      obtain ⟨j, recorded, doomed, removing⟩ := sound.orphaned number present absent
      rcases settled j with is | ⟨recorded', is⟩ <;> simp [is] at removing

/-- As long as no call removes what another is still writing, or the newest revision another
still has to read, the history stays in pairs and its numbers grow.
-/
theorem history_coherent {what : Nat → Outcome} {history : HistoryEvents} {state : HistoryState}
    (run : Run (StepOf (applies what).perform) untouched history state)
    (harmless : Meets Harmless history)
    : (Settled state → Coherent state.world) ∧ Increasing history state := by
  obtain ⟨sound, started⟩ := sound_of_run run harmless
  refine ⟨sound.coherent, ?_⟩
  intro event member i j now earlier later action ready ended recorded
  have above := started event member i j now earlier action ready ended
  rw [recorded] at above
  exact above later rfl

def told : Outcome where
  rendered := "kind: Volume\n"
  manifestPath := "m.yaml"
  ok := true
  error := none
  summary := []
  rollbackOf := none

def steps (call count : Nat) : List HistoryAction := List.replicate count (.op call 0)

/-- Two applies at once, and a third one after both. -/
def threeApplies : List HistoryAction :=
  steps 0 2 ++ steps 1 2 ++ steps 0 1 ++ steps 1 3 ++ steps 0 3 ++ steps 1 1 ++ steps 2 8

theorem history_coherent_threeApplies
    : (threeApplies.foldl (applies fun _ => told).perform untouched).ops 2 = .ended (some 3)
      ∧ Increasing (trace (applies fun _ => told).perform untouched [] threeApplies)
        (threeApplies.foldl (applies fun _ => told).perform untouched) := by
  refine ⟨rfl, (history_coherent (Run.start.trace _) ?_).2⟩
  -- The numbers it claims are 1, 2 and 3, and there is nothing to prune.
  have one : 1 + 1 < 2 ^ 32 := by decide
  have two : 2 + 1 < 2 ^ 32 := by decide
  have three : 3 + 1 < 2 ^ 32 := by decide
  iterate 20
    refine meets_cons.mpr ⟨?_, ?_⟩
    · first | trivial | exact two | exact fun _ => one | exact fun _ => two | exact fun _ => three
  exact fun _ member => absurd member List.not_mem_nil

/-- One apply claims the first number and stalls; twenty more record themselves, and the last one
of them prunes the empty header; then the first one goes on.
-/
def stalled : List HistoryAction :=
  steps 0 3 ++ steps 1 8 ++ (List.range 19).flatMap (fun k => steps (k + 2) (k + 8)) ++ steps 20 3
    ++ steps 0 3

theorem ops_of_untouched_call {what : Nat → Outcome} {call : Nat} {actions : List HistoryAction}
    (never : ∀ now, .op call now ∉ actions) (state : HistoryState)
    : (actions.foldl (applies what).perform state).ops call = state.ops call := by
  induction actions generalizing state with
  | nil => rfl
  | cons action rest ih =>
      rw [List.foldl_cons, ih fun now member => never now (.tail _ member)]
      cases action with
      | outside event => exact event.elim
      | op i now =>
          refine System.perform_op_other _ ?_
          rintro rfl
          exact never now List.mem_cons_self

/-- A manifest that no header names, and that nothing will ever remove. -/
theorem manifest_left_behind
    : Run (StepOf (applies fun _ => told).perform) untouched
        (trace (applies fun _ => told).perform untouched [] stalled)
        (stalled.foldl (applies fun _ => told).perform untouched)
      ∧ Settled (stalled.foldl (applies fun _ => told).perform untouched)
      ∧ (stalled.foldl (applies fun _ => told).perform untouched).ops 0 = .ended (some 1)
      ∧ ¬ Coherent (stalled.foldl (applies fun _ => told).perform untouched).world := by
  refine ⟨Run.start.trace _, ?_, by decide +kernel, ?_⟩
  · intro i
    by_cases made : i < 21
    · right
      have ended : ∀ call < 21, (stalled.foldl (applies fun _ => told).perform untouched).ops call
          = .ended (some (call + 1)) := by decide +kernel
      exact ⟨_, ended i made⟩
    · left
      rw [ops_of_untouched_call]
      · rfl
      · intro now member
        simp only [stalled, steps, List.mem_append, List.mem_flatMap, List.mem_replicate,
          List.mem_range, Action.op.injEq] at member
        omega
  · intro coherent
    have present : 1 ∈ (stalled.foldl (applies fun _ => told).perform untouched).world.manifests := by
      decide +kernel
    have absent : 1 ∉ (stalled.foldl (applies fun _ => told).perform untouched).world.headers := by
      decide +kernel
    exact absent ((coherent.paired 1).mpr present)

end Delonix.Revisions
