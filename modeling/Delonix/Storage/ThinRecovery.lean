import Delonix.Storage.ThinPool

/-! A logical volume that carries no stamp of the caller is left alone, and what a failure or a
crash leaves, the same call can finish, whatever the tools did before they failed.
-/

namespace Delonix.Storage

open Delonix.Library.Faults

section

variable {host : LvmHost} {α : Type} {pre cut : Vol → Prop}

theorem leaves_see {step : LvmStep} {error : String → Error} {see : Vol → α}
    {post : α → Vol → Prop} (seen : ∀ w, pre w → post (see w) w) (stays : ∀ w, pre w → cut w)
    : Leaves pre (host.see step error see) post cut := by
  refine .bind (fun answer w => answer.elim (cut w) fun a => post a w) (.attempt ?_ nofun ?_ ?_) ?_
  · rintro w a w' holds _ done
    cases done
    exact seen w holds
  · exact fun w holds _ => stays w holds
  · exact fun w holds _ => stays w holds
  rintro (_ | a)
  · exact .refuse fun _ holds => holds
  · exact .pure fun _ holds => holds

/-- A step that fails may have been done. -/
theorem leaves_tool {step : LvmStep} {does : Vol → Option Vol} {post : Option Unit → Vol → Prop}
    (done : ∀ w w', pre w → does w = some w' → post (some ()) w' ∧ post none w')
    (stays : ∀ w, pre w → post none w ∧ cut w)
    : Leaves pre (Prog.attempt host.faults step (fun w => (does w).map fun w => ((), w))
      fun w => if host.applied step then (does w).getD w else w : LvmProg (Option Unit)) post cut := by
  refine .attempt ?_ ?_ ?_ ?_
  · intro w a w' holds _ made
    obtain ⟨w'', is, rest⟩ := Option.map_eq_some_iff.mp made
    cases rest
    exact (done w w' holds is).1
  · exact fun w holds _ _ => (stays w holds).1
  · intro w holds _
    split
    · cases made : does w with
      | none => exact (stays w holds).1
      | some w' => exact (done w w' holds made).2
    · exact (stays w holds).1
  · exact fun w holds _ => (stays w holds).2

theorem leaves_lvmMust {step : LvmStep} {error : String → Error} {does : Vol → Option Vol}
    {post : Unit → Vol → Prop}
    (done : ∀ w w', pre w → does w = some w' → post () w' ∧ cut w') (stays : ∀ w, pre w → cut w)
    : Leaves pre (host.must step error does) post cut := by
  refine .bind (fun made w => made.elim (cut w) fun _ => post () w)
    (leaves_tool done fun w holds => ⟨stays w holds, stays w holds⟩) ?_
  rintro (_ | _)
  · exact .refuse fun _ holds => holds
  · exact .pure fun _ holds => holds

theorem leaves_ofExcept {result : Except Error α} {post : α → Vol → Prop}
    (ok : ∀ a w, result = .ok a → pre w → post a w) (stays : ∀ w, pre w → cut w)
    : Leaves pre (ofExcept result) post cut := by
  cases result with
  | ok a => exact .pure fun w holds => ok a w rfl holds
  | error e => exact .refuse stays

end

-----------------------------------------------------------------------------------------
-- Whose a volume is
-----------------------------------------------------------------------------------------

/-- There is a logical volume, and it carries the owner's stamp. -/
def OursLv (pool volume : String) (owner : Owner) (w : Vol) : Prop :=
  ∃ lv, w.lv = some lv ∧ stampedFor lv.tags pool volume owner = true

theorem stampedFor_stampTags {pool volume : String} {owner : Owner} {tags : List String}
    (is : stampTags pool volume owner = .ok tags)
    : stampedFor tags pool volume owner = true := by
  rw [stampedFor, is]
  simp

section

variable {host : LvmHost} {mountRoot : String} {pool : PoolRef} {req : VolumeRequest}
variable {owner : Owner} {volume : String} {w0 : Vol}

/-- The owner's volume, with nothing planted in place of its data. -/
def Sound (pool volume : String) (owner : Owner) (w : Vol) : Prop :=
  OursLv pool volume owner w ∧ w.data ≠ some .other

theorem data_of_change {w w' : Vol} {f : Lv → Option Lv} (changed : w.change f = some w')
    (keeps : ∀ lv lv', f lv = some lv' → lv'.fs.bind (·.data) = lv.fs.bind (·.data))
    : w'.data = w.data := by
  obtain ⟨lv, is, changed⟩ := Option.bind_eq_some_iff.mp changed
  obtain ⟨lv', made, rfl⟩ := Option.map_eq_some_iff.mp changed
  simp only [Vol.data, is, Option.bind_some, keeps lv lv' made]

/-- A change of a volume that keeps its tags and plants nothing. -/
theorem Sound.change {pool : String} {w w' : Vol} {f : Lv → Option Lv}
    (sound : Sound pool volume owner w) (changed : w.change f = some w')
    (keeps : ∀ lv lv', f lv = some lv' → lv'.tags = lv.tags
      ∧ (lv'.fs.bind (·.data) = some .other → lv.fs.bind (·.data) = some .other))
    : Sound pool volume owner w' := by
  obtain ⟨⟨lv, is, stamped⟩, clean⟩ := sound
  simp only [Vol.change, is, Option.bind_some, Option.map_eq_some_iff] at changed
  obtain ⟨lv', made, rfl⟩ := changed
  obtain ⟨tags, data⟩ := keeps lv lv' made
  refine ⟨⟨lv', rfl, by rw [tags]; exact stamped⟩, ?_⟩
  intro other
  apply clean
  simp only [Vol.data, is, Option.bind_some] at other ⊢
  exact data other

theorem Sound.mkfs {pool : String} {w w' : Vol} (sound : Sound pool volume owner w)
    (made : mkfs w = some w')
    : Sound pool volume owner w' := by
  refine sound.change made ?_
  rintro lv lv' is
  cases is
  exact ⟨rfl, nofun⟩

theorem Sound.mount {pool : String} {w w' : Vol} (sound : Sound pool volume owner w)
    (made : mount w = some w')
    : Sound pool volume owner w' := by
  rw [Storage.mount] at made
  split at made
  · cases made
  · refine sound.change made ?_
    intro lv lv' is
    split at is
    · cases is
      exact ⟨rfl, id⟩
    · cases is

theorem Sound.makeLvData {pool : String} {w w' : Vol} (sound : Sound pool volume owner w)
    (made : makeLvData w = some w')
    : Sound pool volume owner w' := by
  refine sound.change made ?_
  intro lv lv' is
  obtain ⟨fs, -, is⟩ := Option.bind_eq_some_iff.mp is
  split at is
  · cases is
  · cases is
    exact ⟨rfl, nofun⟩

/-- No step of mounting a volume takes anything from it. -/
theorem sound_mountVolume {pool dev mp : String} {fresh : Bool}
    : Leaves (Sound pool volume owner) (mountVolume host dev mp fresh)
      (fun _ => Sound pool volume owner) (Sound pool volume owner) := by
  have stays (w : Vol) (sound : Sound pool volume owner w) : Sound pool volume owner w := sound
  refine .bind (fun _ => Sound pool volume owner) ?_ fun _ => ?_
  · split
    · refine leaves_lvmMust (fun w w' sound made => ?_) stays
      exact ⟨sound.mkfs made, sound.mkfs made⟩
    · exact .pure stays
  refine .bind (fun _ => Sound pool volume owner) (leaves_lvmMust ?_ stays) fun _ => ?_
  · rintro w w' sound made
    cases made
    exact ⟨sound, sound⟩
  refine .bind (fun _ => Sound pool volume owner) (leaves_see (fun _ sound => sound) stays)
    fun mounted => ?_
  refine .bind (fun _ => Sound pool volume owner) ?_ fun _ => ?_
  · split
    · exact .pure stays
    · refine leaves_lvmMust (fun w w' sound made => ?_) stays
      exact ⟨sound.mount made, sound.mount made⟩
  refine .bind (fun _ => Sound pool volume owner) (leaves_see (fun _ sound => sound) stays)
    fun data => ?_
  split
  · exact .refuse stays
  · exact .pure stays
  · refine .bind (fun _ => Sound pool volume owner) (leaves_lvmMust ?_ stays) fun _ =>
      .bind (fun _ => Sound pool volume owner) (leaves_lvmMust ?_ stays) fun _ => .pure stays
    · exact fun w w' sound made => ⟨sound.makeLvData made, sound.makeLvData made⟩
    · rintro w w' sound made
      cases made
      exact ⟨sound, sound⟩

-----------------------------------------------------------------------------------------
-- Allocating
-----------------------------------------------------------------------------------------

/-- What the same owner's allocation can take or finish. -/
def TakeableLv (host : LvmHost) (pool volume : String) (owner : Owner) (w : Vol) : Prop :=
  w.lv = none ∧ tooFull host = none ∨ Sound pool volume owner w

/-- A volume is handed out as taken back by its stamp only, and one without it is left as it is. -/
theorem leaves_allocateLvm
    : Leaves (· = w0) (allocateLvm host mountRoot pool req owner)
      (fun made _ => if made.adopted then OursLv pool.name req.name owner w0 else w0.lv = none)
      (fun w => w = w0 ∨ OursLv pool.name req.name owner w0 ∨ w0.lv = none) := by
  rw [allocateLvm]
  split
  case isTrue => exact .refuse fun _ is => .inl is
  refine .bind (fun _ w => w = w0) (leaves_ofExcept (fun _ _ _ is => is) fun _ is => .inl is)
    fun _ => ?_
  refine .bind (fun _ w => w = w0) (leaves_ofExcept (fun _ _ _ is => is) fun _ is => .inl is)
    fun vgTp => ?_
  refine .bind (fun _ w => w = w0) (leaves_ofExcept (fun _ _ _ is => is) fun _ is => .inl is)
    fun tags => ?_
  refine .bind (fun row w => w = w0 ∧ row = w0.lv) (leaves_see ?_ fun _ is => .inl is) ?_
  · rintro w rfl
    exact ⟨rfl, rfl⟩
  rintro (_ | row)
  · refine .assume (fun w holds => holds.2.symm) fun absent => ?_
    have anywhere (w : Vol) : w = w0 ∨ OursLv pool.name req.name owner w0 ∨ w0.lv = none :=
      .inr (.inr absent)
    refine .bind (fun _ _ => True) (.any anywhere) fun full => ?_
    split
    · exact .refuse fun w _ => anywhere w
    · exact .bind (fun _ _ => True) (.any anywhere) fun _ =>
        .bind (fun _ _ => True) (.any anywhere) fun _ => .pure fun _ _ => absent
  · dsimp only
    split
    case isTrue => exact .refuse fun _ holds => .inl holds.1
    case isFalse own =>
      refine .assume (fun w holds => holds.2.symm) fun is => ?_
      have ours : OursLv pool.name req.name owner w0 := ⟨row, is, by simpa using own⟩
      have anywhere (w : Vol) : w = w0 ∨ OursLv pool.name req.name owner w0 ∨ w0.lv = none :=
        .inr (.inl ours)
      exact .bind (fun _ _ => True) (.any anywhere) fun _ =>
        .bind (fun _ _ => True) (.any anywhere) fun _ => .pure fun _ _ => ours

/-- A volume that was made for nothing is taken back. -/
theorem takeableLv_of_takeBack {pool volume : String} {reason : Error} (room : tooFull host = none)
    : Leaves (Sound pool volume owner)
      (Prog.attempt host.faults .takeBack (fun w => (lvremove w).map fun w => ((), w))
        (fun w => if host.applied .takeBack then (lvremove w).getD w else w)
        >>= fun _ => (Prog.refuse reason : LvmProg String))
      (fun _ _ => False) (TakeableLv host pool volume owner) := by
  refine .bind (fun _ w => TakeableLv host pool volume owner w) (leaves_tool ?_ ?_) fun _ =>
    .refuse fun _ holds => holds
  · intro w w' _ removed
    rw [lvremove] at removed
    split at removed
    · split at removed
      · cases removed
      · cases removed
        exact ⟨.inl ⟨rfl, room⟩, .inl ⟨rfl, room⟩⟩
    · cases removed
  · exact fun w sound => ⟨.inr sound, .inr sound⟩

/-- An allocation that could be made can be made again, wherever it stopped. -/
theorem takeableLv_of_stop (before : TakeableLv host pool.name req.name owner w0)
    : Leaves (· = w0) (allocateLvm host mountRoot pool req owner) (fun _ _ => True)
      (TakeableLv host pool.name req.name owner) := by
  have still : ∀ w, w = w0 → TakeableLv host pool.name req.name owner w := by
    rintro w rfl
    exact before
  rw [allocateLvm]
  split
  case isTrue => exact .refuse still
  refine .bind (fun _ w => w = w0) (leaves_ofExcept (fun _ _ _ is => is) still) fun _ => ?_
  refine .bind (fun _ w => w = w0) (leaves_ofExcept (fun _ _ _ is => is) still) fun vgTp => ?_
  refine .bind (fun tags w => w = w0 ∧ stampTags pool.name req.name owner = .ok tags)
    (leaves_ofExcept (fun tags _ made is => ⟨is, made⟩) still) fun tags => ?_
  refine .assume (fun w holds => holds.2) fun stamp => ?_
  refine .bind (fun row w => w = w0 ∧ row = w0.lv)
    (leaves_see ?_ fun _ holds => still _ holds.1) ?_
  · rintro w ⟨rfl, -⟩
    exact ⟨rfl, rfl⟩
  rintro (_ | row)
  · refine .assume (fun w holds => holds.2.symm) fun absent => ?_
    refine .bind (fun full w => w = w0 ∧ full = tooFull host)
      (leaves_see (fun w holds => ⟨holds.1, rfl⟩) fun _ holds => still _ holds.1) fun full => ?_
    split
    · exact .refuse fun w holds => still w holds.1
    · refine .assume (fun w holds => holds.2.symm) fun room => ?_
      refine .bind (fun _ => Sound pool.name req.name owner) (leaves_lvmMust ?_ ?_) fun _ =>
        .bind (fun _ _ => True) ?_ fun _ => .pure fun _ _ => trivial
      · rintro w w' ⟨rfl, -⟩ made
        simp only [lvcreate, absent, Option.some.injEq] at made
        subst made
        have sound : Sound pool.name req.name owner { w with lv := some ⟨tags, none, false⟩ } :=
          ⟨⟨_, rfl, stampedFor_stampTags stamp⟩, nofun⟩
        exact ⟨sound, .inr sound⟩
      · exact fun w holds => still w holds.1
      · refine .onRefusal (sound_mountVolume.weaken (fun _ sound => sound) (fun _ _ _ => trivial)
          fun _ sound => sound) ?_ fun _ sound => .inr sound
        intro reason
        exact (takeableLv_of_takeBack room).weaken (fun _ sound => sound)
          (fun _ _ impossible => impossible.elim) fun _ holds => holds
  · dsimp only
    split
    case isTrue => exact .refuse fun w holds => still w holds.1
    case isFalse own =>
      refine .assume (fun w holds => holds.2.symm) fun is => ?_
      have sound : Sound pool.name req.name owner w0 :=
        before.resolve_left fun absent => nomatch is.symm.trans absent.1
      refine .bind (fun _ => Sound pool.name req.name owner)
        (leaves_see ?_ fun w holds => still w holds.1) fun signed => ?_
      · rintro w ⟨rfl, -⟩
        exact sound
      exact .bind (fun _ _ => True) (sound_mountVolume.weaken (fun _ sound => sound)
        (fun _ _ _ => trivial) fun _ sound => .inr sound) fun _ => .pure fun _ _ => trivial

/-- What an allocation is asked for can be given by this driver. -/
structure AskableLv (pool : PoolRef) (req : VolumeRequest) (owner : Owner) : Prop where
  shape : req.shape ≠ .block
  name : validLvVolume req.name = .ok ()
  backed : ∃ vgTp', vgTp pool = .ok vgTp'
  owner : ∃ tags, stampTags pool.name req.name owner = .ok tags

/-- Something planted in place of the data is never handed out. -/
theorem refused_of_planted {dev mp : String}
    : Leaves (fun w => w.data = some .other) (mountVolume host dev mp false) (fun _ _ => False)
      (fun _ => True) := by
  refine .bind (fun _ w => w.data = some .other) (.pure fun _ planted => planted) fun _ => ?_
  refine .bind (fun _ w => w.data = some .other) (leaves_lvmMust ?_ fun _ _ => trivial) fun _ => ?_
  · rintro w w' planted made
    cases made
    exact ⟨planted, trivial⟩
  refine .bind (fun _ w => w.data = some .other)
    (leaves_see (fun _ planted => planted) fun _ _ => trivial) fun mounted => ?_
  refine .bind (fun _ w => w.data = some .other) ?_ fun _ => ?_
  · split
    · exact .pure fun _ planted => planted
    · refine leaves_lvmMust ?_ fun _ _ => trivial
      intro w w' planted made
      refine ⟨?_, trivial⟩
      rw [mount] at made
      split at made
      · cases made
      · rw [data_of_change made fun lv lv' is => ?_, planted]
        split at is
        · cases is
          rfl
        · cases is
  refine .bind (fun data _ => data = some .other)
    (leaves_see (fun _ planted => planted) fun _ _ => trivial) fun data => ?_
  refine .assume (fun _ planted => planted) ?_
  rintro rfl
  exact .refuse fun _ _ => trivial

/-- Nothing else than what can be taken is handed out. -/
theorem takeableLv_of_ok
    : Leaves (· = w0) (allocateLvm host mountRoot pool req owner)
      (fun _ _ => AskableLv pool req owner ∧ TakeableLv host pool.name req.name owner w0)
      (fun _ => True) := by
  have anywhere (w : Vol) : True := trivial
  rw [allocateLvm]
  split
  case isTrue => exact .refuse fun _ _ => trivial
  case isFalse shape =>
    refine .bind (fun name w => w = w0 ∧ validLvVolume req.name = .ok name)
      (leaves_ofExcept (fun _ _ ok is => ⟨is, ok⟩) fun _ _ => trivial) fun _ => ?_
    refine .assume (fun _ holds => holds.2) fun name => ?_
    refine .bind (fun backed w => w = w0 ∧ vgTp pool = .ok backed)
      (leaves_ofExcept (fun _ _ ok holds => ⟨holds.1, ok⟩) fun _ _ => trivial) fun _ => ?_
    refine .assume (fun _ holds => holds.2) fun backed => ?_
    refine .bind (fun tags w => w = w0 ∧ stampTags pool.name req.name owner = .ok tags)
      (leaves_ofExcept (fun _ _ ok holds => ⟨holds.1, ok⟩) fun _ _ => trivial) fun _ => ?_
    refine .assume (fun _ holds => holds.2) fun tags => ?_
    have askable : AskableLv pool req owner := ⟨shape, name, ⟨_, backed⟩, _, tags⟩
    refine .bind (fun row w => w = w0 ∧ row = w0.lv) (leaves_see ?_ fun _ _ => trivial) ?_
    · rintro w ⟨rfl, -⟩
      exact ⟨rfl, rfl⟩
    rintro (_ | row)
    · refine .assume (fun w holds => holds.2.symm) fun absent => ?_
      refine .bind (fun full _ => full = tooFull host)
        (leaves_see (fun _ _ => rfl) fun _ _ => trivial) fun full => ?_
      split
      · exact .refuse fun _ _ => trivial
      · refine .assume (fun w is => is.symm) fun room => ?_
        exact .bind (fun _ _ => True) (.any anywhere) fun _ => .bind (fun _ _ => True)
          (.any anywhere) fun _ => .pure fun _ _ => ⟨askable, .inl ⟨absent, room⟩⟩
    · dsimp only
      split
      case isTrue => exact .refuse fun _ _ => trivial
      case isFalse own =>
        refine .assume (fun w holds => holds.2.symm) fun is => ?_
        have ours : OursLv pool.name req.name owner w0 := ⟨row, is, by simpa using own⟩
        by_cases planted : w0.data = some .other
        · refine .bind (fun signed w => w.data = some .other ∧ signed = true)
            (leaves_see ?_ fun _ _ => trivial) fun signed => ?_
          · rintro w ⟨rfl, -⟩
            refine ⟨planted, ?_⟩
            simp only [Vol.data, is, Option.bind_some, Option.bind_eq_some_iff] at planted
            obtain ⟨fs, made, -⟩ := planted
            simp [is, made]
          refine .assume (fun _ holds => holds.2) ?_
          rintro rfl
          exact .bind (fun _ _ => False) (refused_of_planted.weaken (fun _ holds => holds.1)
            (fun _ _ holds => holds) fun _ holds => holds) fun _ _ impossible => impossible.elim
        · exact .bind (fun _ _ => True) (.any anywhere) fun _ => .bind (fun _ _ => True)
            (.any anywhere) fun _ => .pure fun _ _ => ⟨askable, .inr ⟨ours, planted⟩⟩

theorem leaves_see_calm {α : Type} {pre cut : Vol → Prop} {step : LvmStep}
    {error : String → Error} {see : Vol → α} {post : α → Vol → Prop}
    (seen : ∀ w, pre w → post (see w) w)
    : Leaves pre (host.calm.see step error see) post cut :=
  seen

theorem leaves_must_calm {pre cut : Vol → Prop} {step : LvmStep} {error : String → Error}
    {does : Vol → Option Vol} {post : Vol → Prop}
    (done : ∀ w, pre w → ∃ w', does w = some w' ∧ post w')
    : Leaves pre (host.calm.must step error does) (fun _ => post) cut := by
  intro w holds
  obtain ⟨w', made, after⟩ := done w holds
  simp only [LvmHost.must, LvmHost.calm, Prog.bind_apply, Prog.attempt, noFaults,
    made, Option.map_some]
  exact after

/-- A volume with a filesystem on it, and nothing planted. -/
def Formatted (w : Vol) : Prop :=
  ∃ lv, w.lv = some lv ∧ lv.fs.isSome = true ∧ w.data ≠ some .other

theorem leaves_mountVolume_calm {dev mp : String} {fresh : Bool}
    : Leaves (fun w => w.lv.isSome = true ∧ (fresh = false → Formatted w))
      (mountVolume host.calm dev mp fresh) (fun _ _ => True) (fun _ => False) := by
  refine .bind (fun _ => Formatted) ?_ fun _ => ?_
  · cases fresh with
    | false => exact .pure fun _ holds => holds.2 rfl
    | true =>
        rw [if_pos rfl]
        refine leaves_must_calm fun w holds => ?_
        obtain ⟨lv, is⟩ := Option.isSome_iff_exists.mp holds.1
        simp only [mkfs, Vol.change, is, Option.bind_some, Option.map_some]
        exact ⟨_, rfl, _, rfl, rfl, nofun⟩
  refine .bind (fun _ w => Formatted w ∧ w.mountDir.isSome = true)
    (leaves_must_calm fun w formatted => ⟨_, rfl, formatted, rfl⟩) fun _ => ?_
  refine .bind (fun mounted w => Formatted w ∧ w.mountDir.isSome = true ∧ mounted = w.isMounted)
    (leaves_see_calm fun w holds => ⟨holds.1, holds.2, rfl⟩) fun mounted => ?_
  refine .bind (fun _ => Formatted) ?_ fun _ => ?_
  · split
    case isTrue => exact .pure fun _ holds => holds.1
    case isFalse apart =>
      refine leaves_must_calm fun w holds => ?_
      obtain ⟨⟨lv, is, fs, clean⟩, dir, rfl⟩ := holds
      obtain ⟨content, dir⟩ := Option.isSome_iff_exists.mp dir
      have apart : lv.mounted = false := by simpa [Vol.isMounted, is] using apart
      simp only [mount, Vol.change, dir, is, fs, apart, Option.isNone_some, Bool.false_eq_true,
        ↓reduceIte, Option.bind_some, Bool.not_false, Bool.and_self, Option.map_some]
      refine ⟨_, rfl, _, rfl, fs, ?_⟩
      simpa only [Vol.data, is, Option.bind_some] using clean
  refine .bind (fun data w => Formatted w ∧ data = w.data)
    (leaves_see_calm fun w formatted => ⟨formatted, rfl⟩) fun data => ?_
  split
  · intro w holds
    obtain ⟨⟨_, -, -, clean⟩, planted⟩ := holds
    exact clean planted.symm
  · exact .pure fun _ _ => trivial
  · refine .bind (fun _ _ => True) (leaves_must_calm fun w holds => ?_) fun _ =>
      .bind (fun _ _ => True) (leaves_must_calm fun w _ => ⟨w, rfl, trivial⟩) fun _ =>
        .pure fun _ _ => trivial
    obtain ⟨⟨lv, is, fs, -⟩, absent⟩ := holds
    obtain ⟨⟨data⟩, made⟩ := Option.isSome_iff_exists.mp fs
    simp only [Vol.data, is, made, Option.bind_some] at absent
    subst absent
    simp [makeLvData, Vol.change, is, made]

/-- When nothing goes wrong, what can be taken is handed out. -/
theorem leaves_allocateLvm_calm (askable : AskableLv pool req owner)
    (takeable : TakeableLv host pool.name req.name owner w0)
    : Leaves (· = w0) (allocateLvm host.calm mountRoot pool req owner) (fun _ _ => True)
      (fun _ => False) := by
  obtain ⟨shape, name, ⟨vg, backed⟩, tags, stamp⟩ := askable
  simp only [allocateLvm, shape, ↓reduceIte, name, backed, stamp]
  refine .bind (fun _ w => w = w0) (.pure fun _ is => is) fun _ => ?_
  refine .bind (fun _ w => w = w0) (.pure fun _ is => is) fun _ => ?_
  refine .bind (fun _ w => w = w0) (.pure fun _ is => is) fun _ => ?_
  refine .bind (fun row w => w = w0 ∧ row = w0.lv) (leaves_see_calm ?_) ?_
  · rintro w rfl
    exact ⟨rfl, rfl⟩
  rcases takeable with ⟨absent, room⟩ | ⟨⟨lv, is, stamped⟩, clean⟩
  · rintro (_ | row)
    · refine .bind (fun full w => w = w0 ∧ full = none)
        (leaves_see_calm fun w holds => ⟨holds.1, room⟩) fun full => ?_
      refine .assume (fun _ holds => holds.2) ?_
      rintro rfl
      refine .bind (fun _ w => w.lv.isSome = true) (leaves_must_calm ?_) fun _ =>
        .bind (fun _ _ => True) (.onRefusal (leaves_mountVolume_calm.weaken ?_
          (fun _ _ holds => holds) fun _ impossible => impossible) (fun _ _ impossible =>
            impossible.elim) fun _ impossible => impossible) fun _ => .pure fun _ _ => trivial
      · rintro w ⟨rfl, -⟩
        simp [lvcreate, absent]
      · exact fun w there => ⟨there, nofun⟩
    · intro w holds
      cases holds.2.trans absent
  · rintro (_ | row)
    · intro w holds
      cases holds.2.trans is
    · refine .assume (fun w holds => holds.2.trans is) fun same => ?_
      cases same
      simp only [stamped, Bool.not_true, Bool.false_eq_true, ↓reduceIte]
      refine .bind (fun signed w => w = w0 ∧ signed = lv.fs.isSome) (leaves_see_calm ?_)
        fun signed => ?_
      · rintro w ⟨rfl, -⟩
        exact ⟨rfl, by simp [is]⟩
      refine .bind (fun _ _ => True) (leaves_mountVolume_calm.weaken ?_
        (fun _ _ holds => holds) fun _ impossible => impossible) fun _ => .pure fun _ _ => trivial
      rintro w ⟨rfl, rfl⟩
      refine ⟨by rw [is]; rfl, ?_⟩
      intro made
      exact ⟨lv, is, by simpa using made, clean⟩

theorem allocateLvm_calm
    : (∃ made, (allocateLvm host.calm mountRoot pool req owner w0).1 = .ok made)
      ↔ AskableLv pool req owner ∧ TakeableLv host pool.name req.name owner w0 := by
  constructor
  · rintro ⟨made, ok⟩
    exact (@takeableLv_of_ok host.calm mountRoot pool req owner w0).of_ok rfl (Prod.ext ok rfl)
  · exact fun ⟨askable, takeable⟩ => (leaves_allocateLvm_calm askable takeable).total rfl

-----------------------------------------------------------------------------------------
-- Releasing
-----------------------------------------------------------------------------------------

theorem lv_of_lvremove {w w' : Vol} (removed : lvremove w = some w') : w'.lv = none := by
  rw [lvremove] at removed
  split at removed
  · split at removed
    · cases removed
    · cases removed
      rfl
  · cases removed

theorem lv_of_dropMountDir {w w' : Vol} (dropped : dropMountDir w = some w') : w'.lv = w.lv := by
  rw [dropMountDir] at dropped
  split at dropped
  · cases dropped
    rfl
  · split at dropped
    · cases dropped
      rfl
    · cases dropped

/-- The owner's volume, with nothing in the directory it is mounted on. -/
def Own (pool volume : String) (owner : Owner) (w : Vol) : Prop :=
  OursLv pool volume owner w ∧ ∀ content, w.mountDir = some content → content = []

theorem Own.umount {pool : String} {w w' : Vol} (own : Own pool volume owner w)
    (made : umount w = some w')
    : Own pool volume owner w' := by
  obtain ⟨⟨lv, is, stamped⟩, bare⟩ := own
  simp only [Storage.umount, Vol.change, is, Option.bind_some, Option.map_eq_some_iff] at made
  obtain ⟨lv', made, rfl⟩ := made
  split at made
  · cases made
    exact ⟨⟨_, rfl, stamped⟩, bare⟩
  · cases made

/-- A release leaves alone what is not the owner's. -/
theorem leaves_releaseLvm
    : Leaves (· = w0) (releaseLvm host mountRoot pool volume owner)
      (fun _ w => w.lv = w0.lv ∨ OursLv pool.name volume owner w0)
      (fun w => w.lv = w0.lv ∨ OursLv pool.name volume owner w0) := by
  have same (w : Vol) (is : w = w0) : w.lv = w0.lv ∨ OursLv pool.name volume owner w0 :=
    .inl (congrArg Vol.lv is)
  rw [releaseLvm]
  refine .bind (fun _ w => w = w0) (leaves_ofExcept (fun _ _ _ is => is) same) fun _ => ?_
  refine .bind (fun _ w => w = w0) (leaves_ofExcept (fun _ _ _ is => is) same) fun vgTp => ?_
  refine .bind (fun row w => w = w0 ∧ row = w0.lv) (leaves_see ?_ same) ?_
  · rintro w rfl
    exact ⟨rfl, rfl⟩
  rintro (_ | row)
  · refine .bind (fun _ w => w.lv = w0.lv) (leaves_tool ?_ ?_) fun _ => .pure fun _ is => .inl is
    · rintro w w' ⟨rfl, -⟩ dropped
      exact ⟨lv_of_dropMountDir dropped, lv_of_dropMountDir dropped⟩
    · rintro w ⟨rfl, -⟩
      exact ⟨rfl, .inl rfl⟩
  · dsimp only
    split
    case isTrue => exact .refuse fun w holds => same w holds.1
    case isFalse own =>
      refine .assume (fun w holds => holds.2.symm) fun is => ?_
      have ours : OursLv pool.name volume owner w0 := ⟨row, is, by simpa using own⟩
      exact (Leaves.fact _).weaken (fun _ _ => ours) (fun _ _ => .inr) (fun _ => .inr)

/-- What the same owner's release can finish. -/
def ReleasableLv (pool volume : String) (owner : Owner) (w : Vol) : Prop :=
  w.lv = none ∨ Own pool volume owner w

/-- A release that could be made can be finished, wherever it stopped. -/
theorem releasableLv_of_stop (before : ReleasableLv pool.name volume owner w0)
    : Leaves (· = w0) (releaseLvm host mountRoot pool volume owner) (fun _ _ => True)
      (ReleasableLv pool.name volume owner) := by
  have still (w : Vol) (is : w = w0) : ReleasableLv pool.name volume owner w := by
    rw [is]
    exact before
  rw [releaseLvm]
  refine .bind (fun _ w => w = w0) (leaves_ofExcept (fun _ _ _ is => is) still) fun _ => ?_
  refine .bind (fun _ w => w = w0) (leaves_ofExcept (fun _ _ _ is => is) still) fun vgTp => ?_
  refine .bind (fun row w => w = w0 ∧ row = w0.lv) (leaves_see ?_ still) ?_
  · rintro w rfl
    exact ⟨rfl, rfl⟩
  rintro (_ | row)
  · refine .assume (fun w holds => holds.2.symm) fun absent => ?_
    refine .bind (fun _ _ => True) (.attempt ?_ ?_ ?_ ?_) fun _ => .pure fun _ _ => trivial
    · exact fun _ _ _ _ _ _ => trivial
    · exact fun _ _ _ _ => trivial
    · exact fun _ _ _ => trivial
    · exact fun w holds _ => still w holds.1
  · dsimp only
    split
    case isTrue => exact .refuse fun w holds => still w holds.1
    case isFalse own =>
      refine .assume (fun w holds => holds.2.symm) fun is => ?_
      have own := before.resolve_left fun absent => nomatch is.symm.trans absent
      have kept (w : Vol) (own : Own pool.name volume owner w)
          : ReleasableLv pool.name volume owner w := .inr own
      refine .bind (fun _ => Own pool.name volume owner) (leaves_see ?_ ?_) fun mounted => ?_
      · rintro w ⟨rfl, -⟩
        exact own
      · rintro w ⟨rfl, -⟩
        exact before
      refine .bind (fun _ => Own pool.name volume owner) ?_ fun _ => ?_
      · split
        · refine leaves_lvmMust ?_ kept
          intro w w' own made
          exact ⟨own.umount made, kept w' (own.umount made)⟩
        · exact .pure fun _ own => own
      refine .bind (fun _ w => w.lv = none) (leaves_lvmMust ?_ kept) fun _ =>
        leaves_lvmMust ?_ fun _ gone => .inl gone
      · intro w w' _ removed
        have gone := lv_of_lvremove removed
        exact ⟨gone, .inl gone⟩
      · intro w w' gone dropped
        exact ⟨trivial, .inl ((lv_of_dropMountDir dropped).trans gone)⟩

/-- When nothing goes wrong, the owner's release is made. -/
theorem leaves_releaseLvm_calm (name : validLvVolume volume = .ok ())
    (backed : ∃ vgTp', vgTp pool = .ok vgTp')
    (releasable : ReleasableLv pool.name volume owner w0)
    : Leaves (· = w0) (releaseLvm host.calm mountRoot pool volume owner) (fun _ _ => True)
      (fun _ => False) := by
  obtain ⟨vg, backed⟩ := backed
  simp only [releaseLvm, name, backed]
  refine .bind (fun _ w => w = w0) (.pure fun _ is => is) fun _ => ?_
  refine .bind (fun _ w => w = w0) (.pure fun _ is => is) fun _ => ?_
  refine .bind (fun row w => w = w0 ∧ row = w0.lv) (leaves_see_calm ?_) ?_
  · rintro w rfl
    exact ⟨rfl, rfl⟩
  rcases releasable with absent | ⟨⟨lv, is, stamped⟩, bare⟩
  · rintro (_ | row)
    · refine .bind (fun _ _ => True) (.attempt ?_ ?_ nofun nofun) fun _ => .pure fun _ _ => trivial
      · exact fun _ _ _ _ _ _ => trivial
      · exact fun _ _ _ _ => trivial
    · intro w holds
      cases holds.2.trans absent
  · rintro (_ | row)
    · intro w holds
      cases holds.2.trans is
    refine .assume (fun w holds => holds.2.trans is) fun same => ?_
    cases same
    simp only [stamped, Bool.not_true, Bool.false_eq_true, ↓reduceIte]
    refine .bind (fun mounted w => w = w0 ∧ mounted = lv.mounted) (leaves_see_calm ?_)
      fun mounted => ?_
    · rintro w ⟨rfl, -⟩
      exact ⟨rfl, by simp [Vol.isMounted, is]⟩
    refine .bind (fun _ w => (∃ lv, w.lv = some lv ∧ lv.mounted = false)
      ∧ w.mountDir = w0.mountDir) ?_ fun _ => ?_
    · cases mounted with
      | true =>
          rw [if_pos rfl]
          refine leaves_must_calm fun w holds => ?_
          obtain ⟨rfl, mounted⟩ := holds
          simp only [umount, Vol.change, is, Option.bind_some, ← mounted, ↓reduceIte,
            Option.map_some]
          exact ⟨_, rfl, ⟨_, rfl, rfl⟩, rfl⟩
      | false =>
          refine .pure fun w holds => ?_
          obtain ⟨rfl, apart⟩ := holds
          exact ⟨⟨lv, is, apart.symm⟩, rfl⟩
    refine .bind (fun _ w => w.lv = none ∧ w.mountDir = w0.mountDir) (leaves_must_calm ?_)
      fun _ => leaves_must_calm ?_
    · rintro w ⟨⟨lv, is, apart⟩, dir⟩
      simp only [lvremove, is, apart, Bool.false_eq_true, ↓reduceIte]
      exact ⟨_, rfl, rfl, dir⟩
    · rintro w ⟨gone, dir⟩
      cases there : w.mountDir with
      | none => exact ⟨w, by rw [dropMountDir, there], trivial⟩
      | some content =>
          have empty := bare content (dir.symm.trans there)
          subst empty
          exact ⟨{ w with mountDir := none }, by simp [dropMountDir, there, Vol.isMounted, gone],
            trivial⟩

theorem mountDir_of_umount {w w' : Vol} (made : umount w = some w') : w'.mountDir = w.mountDir := by
  obtain ⟨lv, -, made⟩ := Option.bind_eq_some_iff.mp made
  obtain ⟨lv', -, rfl⟩ := Option.map_eq_some_iff.mp made
  rfl

/-- Whatever went wrong, a release that was made was of the owner's volume. -/
theorem releasableLv_of_ok
    : Leaves (· = w0) (releaseLvm host mountRoot pool volume owner)
      (fun _ _ => validLvVolume volume = .ok () ∧ (∃ vgTp', vgTp pool = .ok vgTp')
        ∧ ReleasableLv pool.name volume owner w0)
      (fun _ => True) := by
  have anywhere (w : Vol) : True := trivial
  rw [releaseLvm]
  refine .bind (fun name w => w = w0 ∧ validLvVolume volume = .ok name)
    (leaves_ofExcept (fun _ _ ok is => ⟨is, ok⟩) fun _ _ => trivial) fun _ => ?_
  refine .assume (fun _ holds => holds.2) fun name => ?_
  refine .bind (fun backed w => w = w0 ∧ vgTp pool = .ok backed)
    (leaves_ofExcept (fun _ _ ok holds => ⟨holds.1, ok⟩) fun _ _ => trivial) fun _ => ?_
  refine .assume (fun _ holds => holds.2) fun backed => ?_
  refine .bind (fun row w => w = w0 ∧ row = w0.lv) (leaves_see ?_ fun _ _ => trivial) ?_
  · rintro w ⟨rfl, -⟩
    exact ⟨rfl, rfl⟩
  rintro (_ | row)
  · refine .assume (fun w holds => holds.2.symm) fun absent => ?_
    exact .bind (fun _ _ => True) (.any anywhere) fun _ =>
      .pure fun _ _ => ⟨name, ⟨_, backed⟩, .inl absent⟩
  · dsimp only
    split
    case isTrue => exact .refuse fun _ _ => trivial
    case isFalse own =>
      refine .assume (fun w holds => holds.2.symm) fun is => ?_
      have ours : OursLv pool.name volume owner w0 := ⟨row, is, by simpa using own⟩
      refine .bind (fun _ w => w.mountDir = w0.mountDir) (leaves_see ?_ fun _ _ => trivial)
        fun mounted => ?_
      · rintro w ⟨rfl, -⟩
        rfl
      refine .bind (fun _ w => w.mountDir = w0.mountDir) ?_ fun _ => ?_
      · split
        · refine leaves_lvmMust ?_ fun _ _ => trivial
          exact fun w w' dir made => ⟨(mountDir_of_umount made).trans dir, trivial⟩
        · exact .pure fun _ dir => dir
      refine .bind (fun _ w => w.mountDir = w0.mountDir) (leaves_lvmMust ?_ fun _ _ => trivial)
        fun _ => leaves_lvmMust ?_ fun _ _ => trivial
      · intro w w' dir removed
        refine ⟨?_, trivial⟩
        rw [lvremove] at removed
        split at removed
        · split at removed
          · cases removed
          · cases removed
            exact dir
        · cases removed
      · intro w w' dir dropped
        refine ⟨⟨name, ⟨_, backed⟩, .inr ⟨ours, ?_⟩⟩, trivial⟩
        intro content there
        rw [dropMountDir, dir, there] at dropped
        simp only [Bool.and_eq_true, List.isEmpty_iff] at dropped
        split at dropped
        case isTrue empty => exact empty.1
        case isFalse => cases dropped

theorem releaseLvm_calm
    : (releaseLvm host.calm mountRoot pool volume owner w0).1 = .ok ()
      ↔ validLvVolume volume = .ok () ∧ (∃ vgTp', vgTp pool = .ok vgTp')
        ∧ ReleasableLv pool.name volume owner w0 := by
  constructor
  · exact fun ok => releasableLv_of_ok.of_ok rfl (Prod.ext ok rfl)
  · rintro ⟨name, backed, releasable⟩
    obtain ⟨_, ok⟩ := (leaves_releaseLvm_calm name backed releasable).total rfl
    exact ok

end

end Delonix.Storage
