import Delonix.Library.KeyedFiles
import Delonix.Library.Sorting
import Delonix.Library.Text
import Mathlib.Data.String.Basic
import Mathlib.Order.OrderDual

/-! The local image store: one record file for each image, the names an image answers to, and
what resolving, saving and removing do to the records.
-/

namespace Delonix.Images

open Delonix.Library.KeyedFiles Delonix.Library.Sorting Delonix.Library.Text

def isHexDigit (c : Char) : Bool := c.isDigit || ('a' ≤ c && c ≤ 'f') || ('A' ≤ c && c ≤ 'F')

/-- A `sha256:` digest, without the `sha256:`. -/
structure Digest where
  hex : String
  digits : hex.toList.all isHexDigit = true
deriving DecidableEq

def Digest.text (digest : Digest) : String := "sha256:" ++ digest.hex

def strip (digest : String) : String :=
  match stripStart "sha256:".toList digest.toList with
  | some hex => String.ofList hex
  | none => digest

/-- A name without a tag or a digest has the tag `latest`. -/
def normaliseTag (name : String) : String :=
  if name.toList.contains ':' || name.toList.contains '@' then name else name ++ ":latest"

theorem strip_text (digest : Digest) : strip digest.text = digest.hex := by
  have cut : stripStart "sha256:".toList digest.text.toList = some digest.hex.toList :=
    stripStart_eq_some.mpr (by simp [Digest.text])
  rw [strip, cut]
  exact String.ofList_toList

structure Image where
  id : Digest
  repoTags : List String
  layers : List Digest
  /-- The resolved config, as its record writes it. -/
  config : String
  createdUnix : Nat
deriving DecidableEq

/-- The record files that can be read, in the order of the directory: one for each id. -/
abbrev Records := Keyed Image.id

/-- Newest first. -/
def Records.list (records : Records) : List Image :=
  sortByKey (fun img => OrderDual.toDual img.createdUnix) records.all

def Image.answers (img : Image) (name : String) : Bool :=
  img.repoTags.contains (normaliseTag name)
    || (strip name).toList <+: (strip img.id.text).toList

def Records.resolve (records : Records) (name : String) : Option Image :=
  records.list.find? (·.answers name)

/-- Drops the name where the image has another, and the record where it has not. -/
def Records.remove (name : String) (records : Records) : Records :=
  match records.resolve name with
  | none => records
  | some img =>
      if 1 < img.repoTags.length && img.repoTags.contains (normaliseTag name) then
        records.save { img with repoTags := img.repoTags.filter (· ≠ normaliseTag name) }
      else records.erase img.id

@[simp] theorem Records.mem_list {records : Records} {img : Image}
    : img ∈ records.list ↔ img ∈ records.all :=
  (perm_sortByKey _).mem_iff

theorem Records.resolve_spec {records : Records} {name : String} {img : Image}
    (found : records.resolve name = some img)
    : img ∈ records.all ∧ img.answers name = true := by
  have mine := List.find?_some found
  exact ⟨Records.mem_list.mp (List.mem_of_find?_eq_some found), mine⟩

/-- A name that one image alone answers to resolves to that image. -/
theorem Records.resolve_eq_some {records : Records} {name : String} {img : Image}
    (member : img ∈ records.all) (mine : img.answers name = true)
    (alone : ∀ other ∈ records.all, other.answers name = true → other = img)
    : records.resolve name = some img := by
  obtain ⟨other, found⟩ : ∃ other, records.resolve name = some other :=
    Option.isSome_iff_exists.mp
      (List.find?_isSome.mpr ⟨img, Records.mem_list.mpr member, mine⟩)
  have spec := Records.resolve_spec found
  rw [found, alone other spec.1 spec.2]

/-- What a name is removed from, and how. -/
theorem Records.remove_cases (name : String) (records : Records)
    : (records.resolve name = none ∧ records.remove name = records)
      ∨ ∃ img, records.resolve name = some img
        ∧ (records.remove name = records.erase img.id
          ∨ ∃ tags, tags ⊆ img.repoTags
            ∧ records.remove name = records.save { img with repoTags := tags }) := by
  cases found : records.resolve name with
  | none => exact .inl ⟨rfl, by simp [Records.remove, found]⟩
  | some img =>
      refine .inr ⟨img, rfl, ?_⟩
      by_cases another : (1 < img.repoTags.length
          && img.repoTags.contains (normaliseTag name)) = true
      · refine .inr ⟨img.repoTags.filter (· ≠ normaliseTag name),
          fun _ mem => (List.mem_filter.mp mem).1, ?_⟩
        simp only [Records.remove, found, another, if_true]
      · exact .inl (by simp only [Records.remove, found, another]; rfl)

/-- An image that does not answer to a name is not touched by its removal. -/
theorem Records.mem_remove {records : Records} {name : String} {img : Image}
    (member : img ∈ records.all) (other : img.answers name = false)
    : img ∈ (records.remove name).all := by
  obtain ⟨-, same⟩ | ⟨taken, found, erased | ⟨tags, -, saved⟩⟩ := records.remove_cases name
  · rw [same]
    exact member
  all_goals
    have spec := Records.resolve_spec found
    have apart : img.id ≠ taken.id := by
      intro same
      have := Keyed.ext_key member spec.1 same
      rw [this, spec.2] at other
      exact Bool.noConfusion other
  · rw [erased]
    exact Keyed.mem_erase.mpr ⟨member, apart⟩
  · rw [saved]
    exact Keyed.mem_save.mpr (.inr ⟨member, apart⟩)

/-- One record is another with some of its names dropped. -/
def Image.Of (img old : Image) : Prop :=
  img.id = old.id ∧ img.layers = old.layers ∧ img.repoTags ⊆ old.repoTags

theorem Image.Of.refl (img : Image) : img.Of img := ⟨rfl, rfl, List.Subset.refl _⟩

theorem Image.Of.trans {a b c : Image} (first : a.Of b) (second : b.Of c) : a.Of c :=
  ⟨first.1.trans second.1, first.2.1.trans second.2.1, fun _ mem => second.2.2 (first.2.2 mem)⟩

theorem Image.Of.answers {img old : Image} (of : img.Of old) {name : String}
    (mine : img.answers name = true)
    : old.answers name = true := by
  simp only [Image.answers, Bool.or_eq_true, List.contains_eq_mem, decide_eq_true_eq] at mine ⊢
  rw [← of.1]
  exact mine.imp_left fun mem => of.2.2 mem

/-- Every record left was there before, with the names it has and perhaps more. -/
theorem Records.of_mem_remove {records : Records} {name : String} {img : Image}
    (left : img ∈ (records.remove name).all)
    : ∃ old ∈ records.all, img.Of old := by
  obtain ⟨-, same⟩ | ⟨taken, found, erased | ⟨tags, fewer, saved⟩⟩ := records.remove_cases name
  · rw [same] at left
    exact ⟨img, left, .refl img⟩
  · rw [erased, Keyed.mem_erase] at left
    exact ⟨img, left.1, .refl img⟩
  · rw [saved, Keyed.mem_save] at left
    obtain rfl | ⟨kept, -⟩ := left
    · exact ⟨taken, (Records.resolve_spec found).1, rfl, rfl, fewer⟩
    · exact ⟨img, kept, .refl img⟩

def Records.removeAll (names : List String) (records : Records) : Records :=
  names.foldl (fun left name => left.remove name) records

theorem Records.removeAll_append (first second : List String) (records : Records)
    : records.removeAll (first ++ second) = (records.removeAll first).removeAll second :=
  List.foldl_append

theorem Records.mem_removeAll {names : List String} {records : Records} {img : Image}
    (member : img ∈ records.all) (others : ∀ name ∈ names, img.answers name = false)
    : img ∈ (records.removeAll names).all := by
  induction names generalizing records with
  | nil => exact member
  | cons name rest ih =>
      exact ih (Records.mem_remove member (others name (by simp)))
        fun other mem => others other (by simp [mem])

theorem Records.of_mem_removeAll {names : List String} {records : Records} {img : Image}
    (left : img ∈ (records.removeAll names).all)
    : ∃ old ∈ records.all, img.Of old := by
  induction names generalizing records with
  | nil => exact ⟨img, left, .refl img⟩
  | cons name rest ih =>
      obtain ⟨middle, mem, of⟩ := ih left
      obtain ⟨old, first, before⟩ := Records.of_mem_remove mem
      exact ⟨old, first, of.trans before⟩

end Delonix.Images
