import Delonix.Library.Json
import Delonix.Stack.Reconcile
import Mathlib.Data.Finset.Basic
import Mathlib.Logic.Function.Basic

/-! What moving a field means for a resource: a list field as the items to remove and to add, the
labels of a document as the keys to set and to remove on the record. Both reach what is declared.
-/

namespace Delonix.Stack

open Delonix.Library.Collections
open Delonix.Library.Text
open Delonix.Library

/-- The items of a comma list, in order and each once. -/
def listItems (list : Option String) : List String :=
  sortedSet (((((list.getD "").toList.splitOn ',').map trim).filter (!·.isEmpty)).map String.ofList)

/-- What to take away and what to add, to get from one comma list to another. -/
def listDelta (source target : Option String) : List String × List String :=
  let a := listItems source
  let b := listItems target
  (a.filter (· ∉ b), b.filter (· ∉ a))

/-- The two halves of a list delta have nothing in common, and lead from the items of the one list
to those of the other.
-/
theorem listDelta_reaches (source target : Option String)
    : ((listItems source).toFinset \ (listDelta source target).1.toFinset)
          ∪ (listDelta source target).2.toFinset
        = (listItems target).toFinset
      ∧ Disjoint (listDelta source target).1.toFinset (listDelta source target).2.toFinset := by
  constructor
  · ext item
    simp only [listDelta, Finset.mem_union, Finset.mem_sdiff, List.mem_toFinset, List.mem_filter,
      decide_eq_true_eq]
    by_cases held : item ∈ listItems source <;> by_cases wanted : item ∈ listItems target <;>
      simp [held, wanted]
  · rw [Finset.disjoint_left]
    intro item removed added
    simp only [listDelta, List.mem_toFinset, List.mem_filter, decide_eq_true_eq] at removed added
    exact added.2 removed.1

abbrev Labels := Fields

def reservedLabelPrefix : List Char := "delonix.io/".toList

def isReserved (key : String) : Bool := reservedLabelPrefix.isPrefixOf key.toList

/-- The JSON text of a label map, and the map that a text is read as. -/
structure LabelCodec where
  toText : Labels → Option String
  ofText : String → Option Labels

/-- Every map is written, and read back as it was. -/
def LabelCodec.Faithful (codec : LabelCodec) : Prop :=
  ∀ labels, (codec.toText labels).bind codec.ofText = some labels

/-- The labels that a document may own. -/
def userLabels (labels : Labels) : Labels := labels.filter fun key _ => !isReserved key

def reservedLabels (labels : Labels) : Labels := labels.filter fun key _ => isReserved key

/-- The labels of a document, or of a record, as a field of the plan. -/
def userLabelsField (codec : LabelCodec) (labels : Labels) : Option String :=
  if (userLabels labels).isEmpty then none else codec.toText (userLabels labels)

def parseLabels (codec : LabelCodec) (raw : Option String) : Labels :=
  (raw.bind codec.ofText).getD ∅

/-- What moving the labels from one field to another means for the record. -/
def labelsDelta (codec : LabelCodec) (source target : Option String)
    : List (String × Option String) :=
  let old := parseLabels codec source
  let new := parseLabels codec target
  let gone := (old.keys.filter (fun key => !new.contains key)).map fun key => (key, none)
  let out := gone ++ new.toList.map fun entry => (entry.1, some entry.2)
  out.filter fun entry => !isReserved entry.1

/-- One entry of the metadata of a record: a value sets the key, none removes it. -/
def setLabel (record : Labels) (entry : String × Option String) : Labels :=
  match entry.2 with
  | some value => record.insert entry.1 value
  | none => record.erase entry.1

/-- Labels merged into those of a record. -/
def setLabels (record : Labels) (entries : List (String × Option String)) : Labels :=
  entries.foldl setLabel record

theorem getElem?_setLabel (record : Labels) (entry : String × Option String) (key : String)
    : (setLabel record entry)[key]? = if entry.1 = key then entry.2 else record[key]? := by
  obtain ⟨name, value⟩ := entry
  cases value with
  | some value =>
      simp [setLabel, Std.ExtTreeMap.getElem?_insert]
  | none =>
      simp [setLabel, Std.ExtTreeMap.getElem?_erase]

/-- A key that no entry names keeps its value. -/
theorem getElem?_setLabels_of_not_mem {entries : List (String × Option String)} {key : String}
    (absent : ∀ entry ∈ entries, entry.1 ≠ key) (record : Labels)
    : (setLabels record entries)[key]? = record[key]? := by
  induction entries generalizing record with
  | nil => rfl
  | cons entry rest ih =>
      obtain ⟨here, later⟩ := List.forall_mem_cons.mp absent
      rw [setLabels, List.foldl_cons, ← setLabels, ih later, getElem?_setLabel, if_neg here]

/-- A key that is set in one way only gets that value. -/
theorem getElem?_setLabels_of_mem {entries : List (String × Option String)} {key : String}
    {value : Option String} (member : (key, value) ∈ entries)
    (only : ∀ entry ∈ entries, entry.1 = key → entry.2 = value) (record : Labels)
    : (setLabels record entries)[key]? = value := by
  induction entries generalizing record with
  | nil => cases member
  | cons entry rest ih =>
      obtain ⟨here, later⟩ := List.forall_mem_cons.mp only
      rw [setLabels, List.foldl_cons, ← setLabels]
      by_cases again : (key, value) ∈ rest
      · exact ih again later _
      · have first : entry = (key, value) := ((List.mem_cons.mp member).resolve_right again).symm
        have fresh : ∀ entry ∈ rest, entry.1 ≠ key := by
          intro other inside same
          apply again
          rwa [← same, ← later other inside same]
        rw [getElem?_setLabels_of_not_mem fresh, getElem?_setLabel, first, if_pos rfl]

/-- A label that is not the engine's is named by the delta where one side has it, and then with
what it is to become.
-/
theorem mem_labelsDelta {codec : LabelCodec} {source target : Option String}
    {entry : String × Option String}
    : entry ∈ labelsDelta codec source target
      ↔ isReserved entry.1 = false ∧ entry.2 = (parseLabels codec target)[entry.1]?
        ∧ (entry.1 ∈ parseLabels codec source ∨ entry.1 ∈ parseLabels codec target) := by
  obtain ⟨key, value⟩ := entry
  generalize olds : parseLabels codec source = old
  generalize news : parseLabels codec target = new
  simp only [labelsDelta, olds, news, List.mem_filter, List.mem_append, List.mem_map,
    Bool.not_eq_true', Prod.mk.injEq, Std.ExtTreeMap.mem_keys]
  rw [and_comm]
  refine and_congr_right fun _ => ?_
  constructor
  · rintro (⟨key, ⟨held, gone⟩, rfl, rfl⟩ | ⟨⟨key, value⟩, wanted, rfl, rfl⟩)
    · have absent : new[key]? = none :=
        Std.ExtTreeMap.getElem?_eq_none_of_contains_eq_false gone
      exact ⟨absent.symm, .inl held⟩
    · have is := Std.ExtTreeMap.mem_toList_iff_getElem?_eq_some.mp wanted
      refine ⟨is.symm, .inr ?_⟩
      rw [Std.ExtTreeMap.mem_iff_isSome_getElem?, is]
      rfl
  · rintro ⟨rfl, either⟩
    cases is : new[key]? with
    | some value =>
        exact .inr ⟨(key, value), Std.ExtTreeMap.mem_toList_iff_getElem?_eq_some.mpr is, rfl, rfl⟩
    | none =>
        have absent : key ∉ new := by
          rw [Std.ExtTreeMap.mem_iff_isSome_getElem?, is]
          exact Bool.false_ne_true
        refine .inl ⟨key, ⟨either.resolve_right absent, ?_⟩, rfl, rfl⟩
        by_contra held
        rw [Bool.not_eq_false, Std.ExtTreeMap.contains_iff_mem] at held
        exact absent held

/-- What a delta makes of one label of a record. -/
theorem getElem?_setLabels_labelsDelta (codec : LabelCodec) (source target : Option String)
    (record : Labels) (key : String)
    : (setLabels record (labelsDelta codec source target))[key]?
      = if isReserved key = false
            ∧ (key ∈ parseLabels codec source ∨ key ∈ parseLabels codec target) then
          (parseLabels codec target)[key]?
        else record[key]? := by
  split
  case isTrue named =>
    apply getElem?_setLabels_of_mem
    · exact mem_labelsDelta.mpr ⟨named.1, rfl, named.2⟩
    · rintro ⟨_, _⟩ member rfl
      exact (mem_labelsDelta.mp member).2.1
  case isFalse unnamed =>
    apply getElem?_setLabels_of_not_mem
    rintro ⟨_, _⟩ member rfl
    obtain ⟨own, -, either⟩ := mem_labelsDelta.mp member
    exact unnamed ⟨own, either⟩

theorem getElem?_userLabels (labels : Labels) (key : String)
    : (userLabels labels)[key]? = if isReserved key then none else labels[key]? := by
  rw [userLabels, Std.ExtTreeMap.getElem?_filter']
  cases isReserved key <;> cases labels[key]? <;> rfl

theorem getElem?_reservedLabels (labels : Labels) (key : String)
    : (reservedLabels labels)[key]? = if isReserved key then labels[key]? else none := by
  rw [reservedLabels, Std.ExtTreeMap.getElem?_filter']
  cases isReserved key <;> cases labels[key]? <;> rfl

/-- The field of a label map is read back as the labels a document may own. -/
theorem parseLabels_userLabelsField {codec : LabelCodec} (faithful : codec.Faithful)
    (labels : Labels)
    : parseLabels codec (userLabelsField codec labels) = userLabels labels := by
  rw [userLabelsField]
  split
  case isTrue empty => exact (Std.ExtTreeMap.isEmpty_iff.mp empty).symm
  case isFalse => rw [parseLabels, faithful]; rfl

/-- After the change the record has the labels of the document that the document may own, and the
engine's own labels as they were.
-/
theorem setLabels_labelsDelta {codec : LabelCodec} (faithful : codec.Faithful)
    (record declared : Labels)
    : userLabels (setLabels record (labelsDelta codec (userLabelsField codec record)
          (userLabelsField codec declared)))
        = userLabels declared
      ∧ reservedLabels (setLabels record (labelsDelta codec (userLabelsField codec record)
          (userLabelsField codec declared)))
        = reservedLabels record := by
  constructor
  · ext key : 1
    rw [getElem?_userLabels, getElem?_setLabels_labelsDelta, parseLabels_userLabelsField faithful,
      parseLabels_userLabelsField faithful]
    simp only [Std.ExtTreeMap.mem_iff_isSome_getElem?, getElem?_userLabels]
    cases isReserved key with
    | true => rfl
    | false => cases record[key]? <;> cases declared[key]? <;> rfl
  · ext key : 1
    rw [getElem?_reservedLabels, getElem?_reservedLabels, getElem?_setLabels_labelsDelta]
    cases isReserved key <;> rfl

/-- Applying a delta reaches what is declared and touches nothing else: for the labels of a
record, whose reserved ones stay, and for comma lists, whose halves do not overlap.
-/
theorem deltas_reach {codec : LabelCodec} (faithful : codec.Faithful)
    : (∀ record declared : Labels,
        let applied := setLabels record (labelsDelta codec (userLabelsField codec record)
          (userLabelsField codec declared))
        userLabelsField codec applied = userLabelsField codec declared
        ∧ reservedLabels applied = reservedLabels record)
      ∧ ∀ source target : Option String,
        ((listItems source).toFinset \ (listDelta source target).1.toFinset)
            ∪ (listDelta source target).2.toFinset
          = (listItems target).toFinset
        ∧ Disjoint (listDelta source target).1.toFinset (listDelta source target).2.toFinset := by
  refine ⟨fun record declared => ?_, listDelta_reaches⟩
  obtain ⟨own, reserved⟩ := setLabels_labelsDelta faithful record declared
  refine ⟨?_, reserved⟩
  rw [userLabelsField, own]
  rfl

/-- The labels as a JSON object, and a text as the labels it is the object of. -/
noncomputable def jsonLabels : LabelCodec where
  toText labels := some (String.ofList (Json.write
    (.object (labels.toList.map fun entry => (entry.1, .text entry.2)))))
  ofText := Function.partialInv fun labels : Labels => String.ofList (Json.write
    (.object (labels.toList.map fun entry => (entry.1, .text entry.2))))

theorem jsonLabels_faithful : jsonLabels.Faithful := by
  intro labels
  refine Function.partialInv_left (fun left right same => ?_) labels
  have values := Json.write_injective (String.ofList_injective same)
  have field : Function.Injective fun entry : String × String =>
      (entry.1, Json.Value.text entry.2) := by
    intro a b same
    obtain ⟨keys, texts⟩ := Prod.mk.inj same
    exact Prod.ext keys (Json.Value.text.inj texts)
  have entries := List.map_injective_iff.mpr field (Json.Value.object.inj values)
  ext key value
  rw [← Std.ExtTreeMap.mem_toList_iff_getElem?_eq_some, entries,
    Std.ExtTreeMap.mem_toList_iff_getElem?_eq_some]

/-- A label that changes, one that goes and one of the engine's. -/
theorem deltas_reach_json
    : let record : Labels := .ofList
        [("app", "web"), ("tier", "front"), ("delonix.io/stack", "shop")]
      let declared : Labels := .ofList [("app", "api")]
      let applied := setLabels record (labelsDelta jsonLabels (userLabelsField jsonLabels record)
        (userLabelsField jsonLabels declared))
      userLabelsField jsonLabels applied = userLabelsField jsonLabels declared
        ∧ reservedLabels applied = reservedLabels record :=
  (deltas_reach jsonLabels_faithful).1 _ _

end Delonix.Stack
