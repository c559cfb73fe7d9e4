import Delonix.Prune.Sweeps

/-! What a sweep of images leaves to the registered containers. A container needs the image its
record resolves to and the layers it was mounted from; what the sweep takes is told by spelling
and by what the images left name.
-/

namespace Delonix.Prune.Sweeps

open Delonix.Images Delonix.Library.KeyedFiles Delonix.Library.Text

def Listing.holds (listing : Listing) (name : String) : Prop := ∃ e ∈ listing.entries, e.name = name

def Listing.holdsDir (listing : Listing) (name : String) : Prop :=
  ∃ e ∈ listing.entries, e.name = name ∧ e.isDir = true

/-- The image has its record, and of its blobs and extracted layers all that it had. -/
structure Intact (before after : World) (img : Image) : Prop where
  record : ∃ left ∈ after.images.all, left.id = img.id ∧ left.layers = img.layers
  blobs : ∀ digest ∈ img.id :: img.layers,
    before.blobs.holds digest.hex → after.blobs.holds digest.hex
  layers : ∀ digest ∈ img.layers, before.layers.holdsDir digest.hex
    → after.layers.holdsDir digest.hex

/-- Every registered container has its image and its layers. -/
structure Provided (before after : World) : Prop where
  images : ∀ c ∈ before.registry.all, ∀ img, before.images.resolve c.image = some img
    → Intact before after img
  lowers : ∀ c ∈ before.registry.all, ∀ digest ∈ c.lowers, before.layers.holdsDir digest.hex
    → after.layers.holdsDir digest.hex

/-- The image answers to no name that the sweep removes. -/
def Unnamed (all : Bool) (world : World) (img : Image) : Prop :=
  ∀ name ∈ sweptNames (inUse world.registry.all) all world.images, img.answers name = false

/-- Nothing that a container needs hangs on an image the sweep removes a name of. -/
structure Apart (all : Bool) (world : World) : Prop where
  images : ∀ c ∈ world.registry.all, ∀ img, world.images.resolve c.image = some img
    → Unnamed all world img
  lowers : ∀ c ∈ world.registry.all, ∀ digest ∈ c.lowers, world.layers.holdsDir digest.hex
    → digest.hex ∈ layersInUseNow world.layersDir world.mounts
      ∨ ∃ img ∈ world.images.all, digest ∈ img.id :: img.layers ∧ Unnamed all world img

/-- The names of the doomed images are written out, and no other image answers to them. -/
structure Settled (used : List String) (all : Bool) (images : Records) : Prop where
  normal : ∀ img ∈ doomedImages used all images, ∀ tag ∈ img.repoTags, normaliseTag tag = tag
  nodup : ∀ img ∈ doomedImages used all images, img.repoTags.Nodup
  own : ∀ img ∈ doomedImages used all images, ∀ name ∈ removalNames img,
    ∀ other ∈ images.all, other.answers name = true → other = img

theorem Listing.mem_without {doomed : Entry → Bool} {listing : Listing} {e : Entry}
    : e ∈ (listing.without doomed).entries ↔ e ∈ listing.entries ∧ doomed e = false := by
  simp [Listing.without]

theorem Listing.holds_without {doomed : Entry → Bool} {listing : Listing} {name : String}
    (held : listing.holds name) (spared : ∀ e ∈ listing.entries, e.name = name → doomed e = false)
    : (listing.without doomed).holds name := by
  obtain ⟨e, member, named⟩ := held
  exact ⟨e, Listing.mem_without.mpr ⟨member, spared e member named⟩, named⟩

theorem Listing.holdsDir_without {doomed : Entry → Bool} {listing : Listing} {name : String}
    (held : listing.holdsDir name)
    (spared : ∀ e ∈ listing.entries, e.name = name → doomed e = false)
    : (listing.without doomed).holdsDir name := by
  obtain ⟨e, member, named, dir⟩ := held
  exact ⟨e, Listing.mem_without.mpr ⟨member, spared e member named⟩, named, dir⟩

theorem mem_referenced {images : List Image} {hex : String}
    : hex ∈ referenced images
      ↔ ∃ img ∈ images, ∃ digest ∈ img.id :: img.layers, digest.hex = hex := by
  simp only [referenced, List.mem_flatMap, List.mem_cons, List.mem_map, strip_text]
  constructor
  · rintro ⟨img, member, rfl | ⟨digest, layer, rfl⟩⟩
    · exact ⟨img, member, img.id, .inl rfl, rfl⟩
    · exact ⟨img, member, digest, .inr layer, rfl⟩
  · rintro ⟨img, member, digest, rfl | layer, rfl⟩
    · exact ⟨img, member, .inl rfl⟩
    · exact ⟨img, member, .inr ⟨digest, layer, rfl⟩⟩

theorem Digest.not_mem {digest : Digest} {c : Char} (other : isHexDigit c = false)
    : c ∉ digest.hex.toList := by
  intro member
  have digit := List.all_eq_true.mp digest.digits c member
  rw [other] at digit
  exact Bool.noConfusion digit

/-- A directory named by a digest is nobody's scratch and nobody's side file. -/
theorem layerOf_digest (digest : Digest)
    : isScratch digest.hex = false ∧ layerOf digest.hex = digest.hex := by
  have plain : '.' ∉ digest.hex.toList := Digest.not_mem (by decide)
  have no_start : ['.'].isPrefixOf digest.hex.toList = false := by
    rw [← Bool.not_eq_true, List.isPrefixOf_iff_prefix]
    exact fun starts => plain (starts.subset (by simp))
  have no_suffix (suffix : List Char) (dot : '.' ∈ suffix)
      : stripSuffix suffix digest.hex.toList = none := by
    cases cut : stripSuffix suffix digest.hex.toList with
    | none => rfl
    | some front =>
        have whole := stripSuffix_eq_some.mp cut
        exact absurd (whole ▸ List.mem_append_right front dot) plain
  have no_tmp : ".tmp".toList.isSuffixOf digest.hex.toList = false := by
    rw [← Bool.not_eq_true, List.isSuffixOf_iff_suffix]
    exact fun ends => plain (ends.subset (by simp))
  constructor
  · rw [isScratch, no_start, no_tmp]
    rfl
  · simp only [layerOf, no_suffix ".owners".toList (by simp), no_suffix ".modes".toList (by simp)]

/-- The layer of a digest goes where neither an image nor a mount keeps it. -/
theorem orphanLayer_digest {keep : List String} {e : Entry} {digest : Digest}
    (named : e.name = digest.hex)
    : orphanLayer keep e = true ↔ digest.hex ∉ keep := by
  obtain ⟨scratch, layer⟩ := layerOf_digest digest
  simp [orphanLayer, named, scratch, layer]

theorem Unnamed.left {all : Bool} {world : World} {img : Image} (unnamed : Unnamed all world img)
    (member : img ∈ world.images.all)
    : img ∈ (sweepImages all world).images.all :=
  Records.mem_removeAll member unnamed

theorem referenced_of_left {all : Bool} {world : World} {img : Image}
    (left : img ∈ (sweepImages all world).images.all) {digest : Digest}
    (its : digest ∈ img.id :: img.layers)
    : digest.hex ∈ referenced (sweepImages all world).images.list :=
  mem_referenced.mpr ⟨img, Records.mem_list.mpr left, digest, its, rfl⟩

theorem holdsDir_of_kept {all : Bool} {world : World} {digest : Digest}
    (held : world.layers.holdsDir digest.hex)
    (kept : digest.hex ∈ layersToKeep world.layersDir world.mounts
      (referenced (sweepImages all world).images.list))
    : (sweepImages all world).layers.holdsDir digest.hex := by
  refine Listing.holdsDir_without held fun e _ named => ?_
  rw [← Bool.not_eq_true, orphanLayer_digest named, not_not]
  exact kept

theorem Unnamed.intact {all : Bool} {world : World} {img : Image}
    (unnamed : Unnamed all world img) (member : img ∈ world.images.all)
    : Intact world (sweepImages all world) img where
  record := ⟨img, unnamed.left member, rfl, rfl⟩
  blobs := by
    intro digest its held
    refine Listing.holds_without held fun e _ named => ?_
    have kept := referenced_of_left (unnamed.left member) its
    simp only [orphanBlob, named, Bool.and_eq_false_iff, Bool.not_eq_false',
      List.contains_eq_mem, decide_eq_true_eq]
    exact .inr kept
  layers := by
    intro digest its held
    have kept := referenced_of_left (unnamed.left member) (List.mem_cons_of_mem _ its)
    exact holdsDir_of_kept held (List.mem_append_left _ kept)

theorem Apart.provided {all : Bool} {world : World} (apart : Apart all world)
    : Provided world (sweepImages all world) where
  images := by
    intro c member img resolved
    exact (apart.images c member img resolved).intact (Records.resolve_spec resolved).1
  lowers := by
    intro c member digest lower held
    obtain mounted | ⟨img, known, its, unnamed⟩ := apart.lowers c member digest lower held
    · exact holdsDir_of_kept held (List.mem_append_right _ mounted)
    · have kept := referenced_of_left (unnamed.left known) its
      exact holdsDir_of_kept held (List.mem_append_left _ kept)

/-- Every tag of an image but the last takes a name off it, and the last takes the record. -/
theorem gone_of_tags {tags : List String} {records : Records} {img : Image}
    (mine : img.repoTags = tags) (some_tag : tags ≠ []) (member : img ∈ records.all)
    (nodup : tags.Nodup) (normal : ∀ tag ∈ tags, normaliseTag tag = tag)
    (own : ∀ tag ∈ tags, ∀ other ∈ records.all, other.answers tag = true → other = img)
    : ∀ left ∈ (records.removeAll tags).all, left.id ≠ img.id := by
  induction tags generalizing records img with
  | nil => exact absurd rfl some_tag
  | cons tag rest ih =>
      have tagged : normaliseTag tag = tag := normal tag (by simp)
      have answers : img.answers tag = true := by simp [Image.answers, tagged, mine]
      have resolved : records.resolve tag = some img :=
        Records.resolve_eq_some member answers (own tag (by simp))
      have first : records.removeAll (tag :: rest) = (records.remove tag).removeAll rest := rfl
      rw [first]
      cases rest with
      | nil =>
          have erased : records.remove tag = records.erase img.id := by
            simp [Records.remove, resolved, mine]
          intro left after
          rw [erased] at after
          exact (Keyed.mem_erase.mp after).2
      | cons second more =>
          have fresh : tag ∉ second :: more := (List.nodup_cons.mp nodup).1
          have others : (tag :: second :: more).filter (· ≠ tag) = second :: more := by
            rw [List.filter_cons_of_neg (by simp), List.filter_eq_self]
            intro other mem
            simpa using fun same : other = tag => fresh (same ▸ mem)
          have saved : records.remove tag
              = records.save { img with repoTags := second :: more } := by
            simp only [Records.remove, resolved, mine, tagged, others]
            simp
          rw [saved]
          have there : { img with repoTags := second :: more }
              ∈ (records.save { img with repoTags := second :: more }).all :=
            Keyed.mem_save.mpr (.inl rfl)
          refine @ih _ { img with repoTags := second :: more } rfl (by simp) there
            (List.nodup_cons.mp nodup).2
            (fun other mem => normal other (by simp [mem])) ?_
          intro name mem other there answers
          obtain rfl | ⟨old, different⟩ := Keyed.mem_save.mp there
          · rfl
          · have same := own name (by simp [mem]) other old answers
            exact absurd (congrArg Image.id same) different

theorem gone_of_names {records : Records} {img : Image} (member : img ∈ records.all)
    (nodup : img.repoTags.Nodup) (normal : ∀ tag ∈ img.repoTags, normaliseTag tag = tag)
    (own : ∀ name ∈ removalNames img, ∀ other ∈ records.all,
      other.answers name = true → other = img)
    : ∀ left ∈ (records.removeAll (removalNames img)).all, left.id ≠ img.id := by
  by_cases untagged : img.repoTags = []
  · have names : removalNames img = [img.id.text] := by simp [removalNames, untagged]
    have answers : img.answers img.id.text = true := by simp [Image.answers]
    have resolved : records.resolve img.id.text = some img :=
      Records.resolve_eq_some member answers (own _ (by simp [names]))
    have erased : records.removeAll (removalNames img) = records.erase img.id := by
      simp [names, Records.removeAll, Records.remove, resolved, untagged]
    intro left after
    rw [erased] at after
    exact (Keyed.mem_erase.mp after).2
  · have names : removalNames img = img.repoTags := by simp [removalNames, untagged]
    rw [names] at own ⊢
    exact gone_of_tags rfl untagged member nodup normal own

theorem mem_of_doomed {used : List String} {all : Bool} {images : Records} {img : Image}
    (listed : img ∈ doomedImages used all images)
    : img ∈ images.all :=
  Records.mem_list.mp (List.mem_filter.mp listed).1

theorem nodup_list (records : Records) : records.list.Nodup :=
  (Delonix.Library.Sorting.perm_sortByKey _).nodup_iff.mpr records.unique.of_map

/-- A sweep takes the records of the doomed images. -/
theorem Settled.gone {images : Records} {used : List String} {all : Bool}
    (settled : Settled used all images) {img : Image} (listed : img ∈ doomedImages used all images)
    : ∀ left ∈ (images.removeAll (sweptNames used all images)).all, left.id ≠ img.id := by
  obtain ⟨before, after, cut⟩ := List.append_of_mem listed
  have once : (before ++ img :: after).Nodup := cut ▸ (nodup_list images).filter _
  have member : img ∈ images.all := mem_of_doomed listed
  -- the names of the images before it are not its own
  have there : img ∈ (images.removeAll (before.flatMap removalNames)).all := by
    refine Records.mem_removeAll member fun name mem => ?_
    obtain ⟨other, earlier, its⟩ := List.mem_flatMap.mp mem
    have known : other ∈ doomedImages used all images := cut ▸ List.mem_append_left _ earlier
    rw [← Bool.not_eq_true]
    intro answers
    have same : img = other := settled.own other known name its img member answers
    exact (List.nodup_append.mp once).2.2 other earlier img (by simp) same.symm
  have own : ∀ name ∈ removalNames img,
      ∀ other ∈ (images.removeAll (before.flatMap removalNames)).all,
      other.answers name = true → other = img := by
    intro name mine other left answers
    obtain ⟨old, known, of⟩ := Records.of_mem_removeAll left
    have same : old = img := settled.own img listed name mine old known (of.answers answers)
    exact Keyed.ext_key left there (of.1.trans (congrArg Image.id same))
  have taken := gone_of_names there (settled.nodup img listed) (settled.normal img listed) own
  intro left final
  rw [sweptNames, cut, List.flatMap_append, List.flatMap_cons, Records.removeAll_append,
    Records.removeAll_append] at final
  obtain ⟨old, middle, of⟩ := Records.of_mem_removeAll final
  rw [of.1]
  exact taken old middle

/-- An image whose record is left answers to no name that was removed. -/
theorem Settled.unnamed {images : Records} {used : List String} {all : Bool}
    (settled : Settled used all images) {img : Image} (member : img ∈ images.all)
    (left : ∃ left ∈ (images.removeAll (sweptNames used all images)).all, left.id = img.id)
    : ∀ name ∈ sweptNames used all images, img.answers name = false := by
  intro name swept
  obtain ⟨other, going, its⟩ := List.mem_flatMap.mp swept
  rw [← Bool.not_eq_true]
  intro answers
  obtain ⟨rest, after, same⟩ := left
  have mine : img = other := settled.own other going name its img member answers
  exact settled.gone going rest after (by rw [same, mine])

/-- An image that is not doomed keeps its record. -/
theorem Settled.left {images : Records} {used : List String} {all : Bool}
    (settled : Settled used all images) {img : Image} (member : img ∈ images.all)
    (spared : doomed used all img = false)
    : img ∈ (images.removeAll (sweptNames used all images)).all := by
  refine Records.mem_removeAll member fun name swept => ?_
  obtain ⟨other, going, its⟩ := List.mem_flatMap.mp swept
  rw [← Bool.not_eq_true]
  intro answers
  have mine : img = other := settled.own other going name its img member answers
  rw [mine, (List.mem_filter.mp going).2] at spared
  exact Bool.noConfusion spared

theorem Settled.apart {all : Bool} {world : World}
    (settled : Settled (inUse world.registry.all) all world.images)
    (provided : Provided world (sweepImages all world))
    : Apart all world where
  images := by
    intro c member img resolved
    obtain ⟨left, after, same, -⟩ := (provided.images c member img resolved).record
    exact settled.unnamed (Records.resolve_spec resolved).1 ⟨left, after, same⟩
  lowers := by
    intro c member digest lower held
    obtain ⟨e, left, named, -⟩ := provided.lowers c member digest lower held
    have spared := (Listing.mem_without.mp left).2
    rw [← Bool.not_eq_true, orphanLayer_digest named, not_not] at spared
    obtain kept | mounted := List.mem_append.mp spared
    · obtain ⟨img, listed, its, mem, same⟩ := mem_referenced.mp kept
      have after := Records.mem_list.mp listed
      obtain ⟨old, known, of⟩ := Records.of_mem_removeAll after
      have digest_eq : its = digest := by
        cases its
        cases digest
        simpa using same
      rw [of.1, of.2.1, digest_eq] at mem
      exact .inr ⟨old, known, mem, settled.unnamed known ⟨img, after, of.1⟩⟩
    · exact .inl mounted

/-- A sweep leaves the containers what they need where none of it hangs on a name that it
removes; only there, where the names of the doomed images are their own.
-/
theorem sweepImages_provides (all : Bool) (world : World)
    : (Apart all world → Provided world (sweepImages all world))
      ∧ (Settled (inUse world.registry.all) all world.images
        → Provided world (sweepImages all world) → Apart all world) :=
  ⟨Apart.provided, Settled.apart⟩

theorem hex_01 : "01".toList.all Images.isHexDigit = true := by decide

def alpineImage : Image where
  id := ⟨"01", hex_01⟩
  repoTags := ["alpine:latest"]
  layers := [⟨"aa", by decide⟩]
  config := ""
  createdUnix := 100

def busyboxImage : Image where
  id := ⟨"02", by decide⟩
  repoTags := ["busybox:1"]
  layers := [⟨"bb", by decide⟩]
  config := ""
  createdUnix := 90

/-- A live container and a stopped one of the same image and network, an image that nobody runs, a
network of a container that is gone, and a directory, a blob and a layer left over.
-/
def sharedRun : World where
  registry :=
    ⟨[⟨"c1", "web", "alpine:latest", true, some "dlx-app", [⟨"aa", by decide⟩]⟩,
      ⟨"c2", "job", "alpine:latest", false, some "dlx-app", []⟩], by decide⟩
  containers := ⟨[⟨"c1", true, none⟩, ⟨"c0", true, none⟩], by decide⟩
  images := ⟨[alpineImage, busyboxImage], by decide⟩
  blobs := ⟨[⟨"01", false, none⟩, ⟨"aa", false, none⟩, ⟨"02", false, none⟩, ⟨"bb", false, none⟩],
    by decide⟩
  layersDir := "/l"
  layers := ⟨[⟨"aa", true, none⟩, ⟨"bb", true, none⟩, ⟨"aa.modes", false, none⟩], by decide⟩
  mounts := [⟨"overlay /c1/merged", some "c1"⟩, ⟨"overlay /c2/merged", some "c2"⟩]
  networks := ["dlx-app", "dlx-old", "lan"]
  buildCache := ⟨[⟨".part", true, none⟩, ⟨"e1", true, some 60⟩], by decide⟩

/-- The sweep takes the image that nobody runs, and the one of the containers stays. -/
theorem sweepImages_provides_sharedRun
    : Settled (inUse sharedRun.registry.all) true sharedRun.images ∧ Apart true sharedRun
      ∧ Provided sharedRun (sweepImages true sharedRun) := by
  have settled : Settled (inUse sharedRun.registry.all) true sharedRun.images :=
    ⟨by decide +kernel, by decide +kernel, by decide +kernel⟩
  have unnamed : Unnamed true sharedRun alpineImage := by
    have none : ∀ name ∈ sweptNames (inUse sharedRun.registry.all) true sharedRun.images,
        alpineImage.answers name = false := by decide +kernel
    exact none
  have apart : Apart true sharedRun := by
    refine ⟨fun c member img found => ?_, fun c member digest lower _ => .inr ?_⟩
    · have run : ∀ c ∈ sharedRun.registry.all,
          sharedRun.images.resolve c.image = some alpineImage := by decide +kernel
      rw [run c member] at found
      exact Option.some.inj found ▸ unnamed
    · have layers : ∀ c ∈ sharedRun.registry.all, ∀ digest ∈ c.lowers,
          digest ∈ alpineImage.id :: alpineImage.layers := by decide +kernel
      exact ⟨alpineImage, List.mem_cons_self, layers c member digest lower, unnamed⟩
  have provides := sweepImages_provides true sharedRun
  exact ⟨settled, provides.2 settled (provides.1 apart), provides.1 apart⟩

/-- A stopped container was run as `alpine`, and nothing else is on the machine. -/
def alpineRun : World where
  registry := ⟨[⟨"c1", "web", "alpine", false, none, [⟨"aa", by decide⟩]⟩], by decide⟩
  containers := ⟨[⟨"c1", true, none⟩], by decide⟩
  images := ⟨[alpineImage], by decide⟩
  blobs := ⟨[⟨"01", false, none⟩, ⟨"aa", false, none⟩], by decide⟩
  layersDir := "/l"
  layers := ⟨[⟨"aa", true, none⟩], by decide⟩
  mounts := []
  networks := []
  buildCache := ⟨[], by decide⟩

/-- The record spells `alpine:latest`, the container `alpine`. -/
theorem alpine_swept : ¬ ∀ all world, Provided world (sweepImages all world) := by
  intro provided
  have resolved : alpineRun.images.resolve "alpine" = some alpineImage := by decide +kernel
  have swept : (sweepImages true alpineRun).images.all = [] := by decide +kernel
  obtain ⟨left, after, -⟩ :=
    ((provided true alpineRun).images _ (List.mem_singleton.mpr rfl) _ resolved).record
  rw [swept] at after
  cases after

end Delonix.Prune.Sweeps
