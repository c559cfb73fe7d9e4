import Delonix.Images.Records
import Delonix.Library.Runs
import Delonix.Library.Checks

/-! Names given to images, and moved from one image to another. In every store that pulls, builds,
loads, tags and removals leave, a name is borne by one image at most; whether it resolves to that
image depends on the ids of the images listed before it.
-/

namespace Delonix.Images

open Delonix.Library.Collections Delonix.Library.KeyedFiles Delonix.Library.Runs
open Delonix.Library.Stops

/-- The names that are not there yet, behind those that are. -/
def pushMissing (tags more : List String) : List String :=
  more.foldl (fun tags t => if tags.contains t then tags else tags ++ [t]) tags

/-- The new names, and those the image with this id has already. -/
def Records.mergedTagsAll (records : Records) (id : Digest) (newTags : List String) : List String :=
  let tags := pushMissing [] (newTags.map normaliseTag)
  match records.read id with
  | some existing => pushMissing tags existing.repoTags
  | none => tags

/-- Takes the names of `img` from another image, and its record where no name is left. -/
def takeTags (img : Image) (records : Records) (other : Image) : Records :=
  if other.id = img.id then records
  else
    let kept := other.repoTags.filter (!img.repoTags.contains ·)
    if kept.length = other.repoTags.length then records
    else if kept.isEmpty then records.erase other.id
    else records.save { other with repoTags := kept }

def Records.enforceTagUniqueness (img : Image) (records : Records) : Records :=
  records.list.foldl (takeTags img) records

/-- The end of a build, a commit and a load: the image is recorded under the names it comes with.
-/
def Records.record (img : Image) (newTags : List String) (records : Records) : Records :=
  let img := { img with repoTags := records.mergedTagsAll img.id newTags }
  (records.enforceTagUniqueness img).save img

/-- Nothing is written where the record differs in its time alone. -/
def Records.saveIfChanged (img : Image) (records : Records) : Records :=
  if (records.read img.id).any fun old => { old with createdUnix := img.createdUnix } = img then
    records
  else (records.enforceTagUniqueness img).save img

/-- The end of a pull. -/
def Records.pulled (img : Image) (reference : String) (records : Records) : Records :=
  records.saveIfChanged { img with repoTags := records.mergedTagsAll img.id [reference] }

def Records.tag (source newTag : String) (records : Records) : Records :=
  match records.resolve source with
  | none => records
  | some img =>
      let img := { img with repoTags := pushMissing img.repoTags [normaliseTag newTag] }
      (records.enforceTagUniqueness img).save img

inductive StoreAction where
  | record (img : Image) (newTags : List String)
  | pulled (img : Image) (reference : String)
  | tag (source newTag : String)
  | remove (name : String)

def storeStep (records : Records) : StoreAction → Records
  | .record img newTags => records.record img newTags
  | .pulled img reference => records.pulled img reference
  | .tag source newTag => records.tag source newTag
  | .remove name => records.remove name

/-- One command on the store. The directory may list the records in any order afterwards. -/
def StoreStep (records : Records) (action : StoreAction) (next : Records) : Prop :=
  next.all.Perm (storeStep records action).all

def emptyStore : Records := ⟨[], List.nodup_nil⟩

/-- The stores that commands leave, one after the other. -/
def Records.Reachable (records : Records) : Prop :=
  ∃ history, Run StoreStep emptyStore history records

/-- What is left of an image whose names are taken. An image that loses none stays as it is. -/
def Image.without (taken : List String) (img : Image) : Option Image :=
  let kept := img.repoTags.filter (!taken.contains ·)
  if kept.length = img.repoTags.length then some img
  else if kept.isEmpty then none
  else some { img with repoTags := kept }

theorem Image.without_spec {taken : List String} {img left : Image}
    (is : img.without taken = some left)
    : left.id = img.id ∧ left.layers = img.layers
      ∧ ∀ t, t ∈ left.repoTags ↔ t ∈ img.repoTags ∧ t ∉ taken := by
  unfold Image.without at is
  dsimp only at is
  split at is
  case isTrue same =>
    obtain rfl := Option.some.inj is
    refine ⟨rfl, rfl, fun t => ⟨fun member => ⟨member, ?_⟩, And.left⟩⟩
    have all := List.filter_eq_self.mp (List.Sublist.eq_of_length List.filter_sublist same)
    simpa using all t member
  case isFalse =>
    split at is
    · cases is
    · obtain rfl := Option.some.inj is
      exact ⟨rfl, rfl, fun t => by simp⟩

/-- Of an image only the names it has can be taken. -/
theorem Image.without_congr {taken other : List String} {img : Image}
    (same : ∀ t ∈ img.repoTags, t ∈ taken ↔ t ∈ other)
    : img.without taken = img.without other := by
  have kept : img.repoTags.filter (!taken.contains ·) = img.repoTags.filter (!other.contains ·) :=
    List.filter_congr fun t member => by simp [same t member]
  simp only [Image.without, kept]

theorem read_takeTags_other {img other : Image} {id : Digest} (apart : other.id ≠ id)
    (records : Records)
    : (takeTags img records other).read id = records.read id := by
  unfold takeTags
  dsimp only
  split
  · rfl
  split
  · rfl
  split
  · rw [Keyed.read_erase, if_neg apart.symm]
  · rw [Keyed.read_save, if_neg apart.symm]

/-- What becomes of an image does not depend on what was done to it before. -/
theorem read_takeTags {img other : Image} (apart : other.id ≠ img.id)
    : (∀ records : Records, (takeTags img records other).read other.id = records.read other.id)
        ∧ other.without img.repoTags = some other
      ∨ ∀ records : Records,
          (takeTags img records other).read other.id = other.without img.repoTags := by
  unfold takeTags Image.without
  simp only [if_neg apart]
  split
  · exact .inl ⟨fun _ => rfl, rfl⟩
  · right
    intro records
    split
    · rw [Keyed.read_erase, if_pos rfl]
    · rw [Keyed.read_save, if_pos rfl]

/-- Every other image loses the names of `img`, and nothing else changes. -/
theorem Records.read_enforceTagUniqueness (img : Image) (records : Records) (id : Digest)
    : (records.enforceTagUniqueness img).read id
      = if id = img.id then records.read id
        else (records.read id).bind (Image.without img.repoTags) := by
  unfold Records.enforceTagUniqueness
  by_cases mine : id = img.id
  · rw [if_pos mine]
    refine @foldl_untouched Image Records _ (takeTags img) (·.read id) records.list ?_ records
    intro other _ left
    by_cases same : other.id = id
    · simp only [takeTags, if_pos (same.trans mine)]
    · exact read_takeTags_other same left
  · rw [if_neg mine]
    cases found : records.read id with
    | none =>
        rw [Option.bind_none, ← found]
        refine @foldl_untouched Image Records _ (takeTags img) (·.read id) records.list ?_ records
        intro other member left
        exact read_takeTags_other (Keyed.read_eq_none.mp found other (mem_list.mp member)) left
    | some old =>
        obtain ⟨member, rfl⟩ := Keyed.read_eq_some.mp found
        have others : ∀ other ∈ records.list, other.id = old.id → other = old :=
          fun other its same => Keyed.ext_key (mem_list.mp its) member same
        rcases read_takeTags mine with ⟨kept, whole⟩ | becomes
        · rw [Option.bind_some, whole, ← found]
          refine @foldl_untouched Image Records _ (takeTags img) (·.read old.id) records.list ?_
            records
          intro other its left
          by_cases same : other.id = old.id
          · rw [others other its same, kept]
          · exact read_takeTags_other same left
        · rw [Option.bind_some]
          refine @foldl_set Image Records _ (takeTags img) (·.read old.id) records.list _ ?_
            ⟨old, mem_list.mpr member, becomes⟩ records
          intro other its
          by_cases same : other.id = old.id
          · exact .inr (others other its same ▸ becomes)
          · exact .inl (read_takeTags_other same)

/-- An image that takes its names from all others, recorded. -/
theorem Records.read_given (img : Image) (records : Records) (id : Digest)
    : ((records.enforceTagUniqueness img).save img).read id
      = if id = img.id then some img else (records.read id).bind (Image.without img.repoTags) := by
  rw [Keyed.read_save]
  by_cases mine : id = img.id
  · rw [if_pos mine, if_pos mine]
  · rw [if_neg mine, if_neg mine, read_enforceTagUniqueness, if_neg mine]

def Records.NamesApart (records : Records) : Prop :=
  ∀ a ∈ records.all, ∀ b ∈ records.all, ∀ t ∈ a.repoTags, t ∈ b.repoTags → a = b

theorem Records.NamesApart.given {records : Records} (apart : records.NamesApart) (img : Image)
    : Records.NamesApart ((records.enforceTagUniqueness img).save img) := by
  have origin {a : Image} (member : a ∈ ((records.enforceTagUniqueness img).save img).all)
      : a = img ∨ ∃ old ∈ records.all, old.without img.repoTags = some a := by
    have reads := Keyed.read_eq_some.mpr ⟨member, rfl⟩
    rw [Records.read_given] at reads
    split at reads
    · exact .inl (Option.some.inj reads).symm
    · obtain ⟨old, found, left⟩ := Option.bind_eq_some_iff.mp reads
      exact .inr ⟨old, (Keyed.read_eq_some.mp found).1, left⟩
  intro a mine b its t inA inB
  rcases origin mine with rfl | ⟨oldA, memA, leftA⟩
  · rcases origin its with rfl | ⟨oldB, -, leftB⟩
    · rfl
    · exact absurd inA (((Image.without_spec leftB).2.2 t).mp inB).2
  · have tagA := ((Image.without_spec leftA).2.2 t).mp inA
    rcases origin its with rfl | ⟨oldB, memB, leftB⟩
    · exact absurd inB tagA.2
    · have tagB := ((Image.without_spec leftB).2.2 t).mp inB
      obtain rfl := apart oldA memA oldB memB t tagA.1 tagB.1
      exact Option.some.inj (leftA.symm.trans leftB)

theorem Records.NamesApart.remove {records : Records} (apart : records.NamesApart) (name : String)
    : (records.remove name).NamesApart := by
  intro a mine b its t inA inB
  obtain ⟨oldA, memA, ofA⟩ := Records.of_mem_remove mine
  obtain ⟨oldB, memB, ofB⟩ := Records.of_mem_remove its
  have same := apart oldA memA oldB memB t (ofA.2.2 inA) (ofB.2.2 inB)
  exact Keyed.ext_key mine its (ofA.1.trans ((congrArg Image.id same).trans ofB.1.symm))

theorem Records.NamesApart.step {records : Records} (apart : records.NamesApart)
    (action : StoreAction)
    : (storeStep records action).NamesApart := by
  cases action with
  | record img newTags => exact apart.given _
  | pulled img reference =>
      simp only [storeStep, Records.pulled, Records.saveIfChanged]
      split
      · exact apart
      · exact apart.given _
  | tag source newTag =>
      simp only [storeStep, Records.tag]
      cases records.resolve source with
      | none => exact apart
      | some img => exact apart.given _
  | remove name => exact apart.remove name

theorem Records.Reachable.namesApart {records : Records} (reachable : records.Reachable)
    : records.NamesApart := by
  obtain ⟨history, run⟩ := reachable
  have meets : Meets (fun _ _ => True) history := fun _ _ => trivial
  refine run.invariant (fun _ records => Records.NamesApart records) ?_ ?_ meets
  · intro a member
    cases member
  · intro _ records action next apart taken _ a mine b its
    exact apart.step action a (taken.mem_iff.mp mine) b (taken.mem_iff.mp its)

/-- The name stands for `img`: it resolves to it, its removal takes it from `img` or removes `img`
and leaves every other record as it is, and a new tag goes to `img` and leaves every other image.
-/
structure Records.StandsFor (records : Records) (name : String) (img : Image) : Prop where
  resolves : records.resolve name = some img
  spared : ∀ id, id ≠ img.id → (records.remove name).read id = records.read id
  dropped : ∀ left, (records.remove name).read img.id = some left →
    normaliseTag name ∉ left.repoTags
  tagged : ∀ newTag id, (records.tag name newTag).read id
    = if id = img.id then
        some { img with repoTags := pushMissing img.repoTags [normaliseTag newTag] }
      else (records.read id).bind (Image.without [normaliseTag newTag])

/-- The images that are listed before `img`. -/
def Records.before (records : Records) (img : Image) : List Image :=
  records.list.takeWhile (· ≠ img)

section

variable {records : Records} {name : String} {img : Image}

theorem mem_pushMissing {tags more : List String} {t : String}
    : t ∈ pushMissing tags more ↔ t ∈ tags ∨ t ∈ more := by
  unfold pushMissing
  induction more generalizing tags with
  | nil => simp
  | cons next rest ih =>
      rw [List.foldl_cons, ih]
      split
      case isTrue known =>
        have known : next ∈ tags := by simpa using known
        constructor
        · exact fun h => h.imp_right (List.mem_cons_of_mem next)
        · rintro (mine | more)
          · exact .inl mine
          · rcases List.mem_cons.mp more with rfl | later
            · exact .inl known
            · exact .inr later
      case isFalse => simp [or_assoc]

/-- A name that resolves to its bearer is removed from it, and given another name. -/
theorem Records.standsFor_of_resolve (apart : records.NamesApart)
    (resolves : records.resolve name = some img)
    : records.StandsFor name img := by
  have member := (Records.resolve_spec resolves).1
  refine ⟨resolves, ?_, ?_, ?_⟩
  · intro id other
    simp only [Records.remove, resolves]
    split
    · rw [Keyed.read_save, if_neg other]
    · rw [Keyed.read_erase, if_neg other]
  · intro left reads
    simp only [Records.remove, resolves] at reads
    split at reads
    · rw [Keyed.read_save, if_pos rfl] at reads
      obtain rfl := Option.some.inj reads
      simp
    · rw [Keyed.read_erase, if_pos rfl] at reads
      cases reads
  · intro newTag id
    simp only [Records.tag, resolves]
    rw [Records.read_given]
    by_cases mine : id = img.id
    · rw [if_pos mine, if_pos mine]
    · rw [if_neg mine, if_neg mine]
      refine Option.bind_congr fun old found => Image.without_congr fun t has => ?_
      obtain ⟨its, rfl⟩ := Keyed.read_eq_some.mp found
      have free : t ∉ img.repoTags := by
        intro held
        exact mine (congrArg Image.id (apart old its img member t has held))
      simp [mem_pushMissing, free]

/-- A name stands for the image that bears it exactly where no image listed before that one has an
id that begins with the name.
-/
theorem name_stands_for_bearer (reachable : records.Reachable) (member : img ∈ records.all)
    (carries : normaliseTag name ∈ img.repoTags)
    : records.StandsFor name img
      ↔ ∀ other ∈ records.before img, ¬ (strip name).toList <+: other.id.hex.toList := by
  have apart := reachable.namesApart
  have mine : img.answers name = true := by simp [Image.answers, carries]
  have first : records.resolve name = some img
      ↔ ∀ other ∈ records.before img, other.answers name = false :=
    @find?_eq_some_iff_takeWhile Image _ (·.answers name) _ _ (Records.mem_list.mpr member) mine
  have answers {other : Image} (ahead : other ∈ records.before img)
      : other.answers name = false ↔ ¬ (strip name).toList <+: other.id.hex.toList := by
    have its := List.takeWhile_sublist _ |>.subset ahead
    have different : other ≠ img := by simpa using List.mem_takeWhile_imp ahead
    have free : normaliseTag name ∉ other.repoTags := by
      intro held
      exact different (apart other (Records.mem_list.mp its) img member _ held carries)
    simp [Image.answers, free, strip_text]
  constructor
  · intro stands other ahead
    exact (answers ahead).mp (first.mp stands.resolves other ahead)
  · intro clear
    exact Records.standsFor_of_resolve apart
      (first.mpr fun other ahead => (answers ahead).mpr (clear other ahead))

end

/-- An image whose name is made of hex digits, and a later one whose id begins with them. -/
def cafe : Image := ⟨⟨"01", by decide⟩, ["cafe:latest"], [], "", 1⟩

def cafeNamed : Image := ⟨⟨"cafe", by decide⟩, ["app:v1"], [], "", 2⟩

def cafeStore : Records := ⟨[cafe, cafeNamed], by decide⟩

theorem cafeStore_reachable : cafeStore.Reachable := by
  have built : StoreStep emptyStore (.record cafe ["cafe"]) ⟨[cafe], by decide⟩ :=
    .of_eq (by decide +kernel)
  have pulled : StoreStep ⟨[cafe], by decide⟩ (.pulled cafeNamed "app:v1") cafeStore :=
    .of_eq (by decide +kernel)
  exact ⟨_, (Run.start.step built).step pulled⟩

/-- The later image has nothing listed before it, so that its name is its own. -/
theorem app_stands_for_cafeNamed : cafeStore.StandsFor "app:v1" cafeNamed :=
  (name_stands_for_bearer cafeStore_reachable (by decide) (by decide +kernel)).mpr
    (by decide +kernel)

/-- The name `cafe` resolves to the later image, which does not bear it. -/
theorem cafe_resolves_to_other
    : ¬ ∀ (records : Records) (name : String) (img : Image), records.Reachable →
        img ∈ records.all → normaliseTag name ∈ img.repoTags →
        records.resolve name = some img := by
  intro bears
  have own := bears cafeStore "cafe" cafe cafeStore_reachable (by decide) (by decide +kernel)
  have other : cafeStore.resolve "cafe" = some cafeNamed := by decide +kernel
  rw [other] at own
  exact absurd (Option.some.inj own) (by decide)

end Delonix.Images
