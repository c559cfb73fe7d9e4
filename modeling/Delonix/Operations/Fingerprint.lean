import Delonix.Library.Fields
import Delonix.Library.Sorting
import Mathlib.Data.List.AList
import Mathlib.Data.List.Lex
import Mathlib.Data.Prod.Lex
import Mathlib.Data.String.Basic

/-! What is hashed of a request, to tell it from another under the same request id: its non-empty
parts, each behind a unit separator. A map is one part, whose entries are joined by the same character.
-/

namespace Delonix.Operations

open Delonix.Library.Fields Delonix.Library.Sorting

abbrev Text := List Char

abbrev LabelMap := AList fun _ : Text => Text

def unitSeparator : Char := '\x1f'

/-- Sorted as pairs of texts are. -/
def sortPairs (pairs : List Field) : List Field := sortByKey (fun pair => toLex pair) pairs

def entriesOf (map : LabelMap) : List Field := map.entries.map fun entry => (entry.1, entry.2)

def canonicalMap (map : LabelMap) : Text :=
  List.intercalate [unitSeparator]
    ((sortPairs (entriesOf map)).map fun pair => pair.1 ++ '=' :: pair.2)

/-- A value as it was sent, or the map that it is made from. -/
inductive PartValue where
  | text (value : Text)
  | map (value : LabelMap)

def PartValue.render : PartValue → Text
  | .text value => value
  | .map value => canonicalMap value

abbrev Part := Text × PartValue

/-- The parts that are not empty. -/
def sent (parts : List Part) : List Field :=
  (parts.map fun part => (part.1, part.2.render)).filter fun field => !field.2.isEmpty

/-- The text that is hashed. -/
def fingerprintBody (parts : List Part) : Text :=
  "fp1".toList ++ write unitSeparator '=' (sortPairs (sent parts))

/-- The two requests send the same parts, and what is a map in both is the same map. -/
structure Same (left right : List Part) : Prop where
  parts : (sent left).Perm (sent right)
  maps : ∀ name m m', (name, .map m) ∈ left → (name, .map m') ∈ right →
    ∀ key, m.lookup key = m'.lookup key

/-- Neither the parts nor the entries of two maps under one name read as other ones. -/
structure LegibleParts (left right : List Part) : Prop where
  parts : Legible unitSeparator '=' (sent left) (sent right)
  maps : ∀ name m m', (name, .map m) ∈ left → (name, .map m') ∈ right →
    Legible unitSeparator '=' (entriesOf m) (entriesOf m')

theorem perm_sortPairs (pairs : List Field) : (sortPairs pairs).Perm pairs := perm_sortByKey pairs

theorem separators_differ : unitSeparator ≠ '=' := by decide

/-- Legible fields that are written alike once sorted are the same. -/
theorem perm_of_write_sortPairs {left right : List Field}
    (legible : Legible unitSeparator '=' left right)
    (same : write unitSeparator '=' (sortPairs left) = write unitSeparator '=' (sortPairs right))
    : left.Perm right := by
  have sorted := write_inj separators_differ
    (legible.mono (perm_sortPairs left).subset (perm_sortPairs right).subset) same
  exact ((perm_sortPairs left).symm.trans (.of_eq sorted)).trans (perm_sortPairs right)

/-- Joined texts are written with the separator in front, but for the first. -/
theorem write_eq_intercalate (field : Field) (rest : List Field)
    : write unitSeparator '=' (field :: rest)
      = unitSeparator :: List.intercalate [unitSeparator]
          ((field :: rest).map fun pair => pair.1 ++ '=' :: pair.2) := by
  induction rest generalizing field with
  | nil => simp [write]
  | cons next rest ih =>
    rw [write_cons, ih]
    simp only [List.map_cons]
    rw [List.intercalate_cons_cons]
    simp

/-- A map is told by the text it is written as. -/
theorem write_eq_of_canonicalMap {m m' : LabelMap} (same : canonicalMap m = canonicalMap m')
    : write unitSeparator '=' (sortPairs (entriesOf m))
      = write unitSeparator '=' (sortPairs (entriesOf m')) := by
  unfold canonicalMap at same
  have filled (field : Field) (rest : List Field)
      : List.intercalate [unitSeparator]
          ((field :: rest).map fun pair => pair.1 ++ '=' :: pair.2) ≠ [] := by
    cases rest with
    | nil => simp
    | cons next rest => simp [List.intercalate_cons_cons]
  cases left : sortPairs (entriesOf m) with
  | nil =>
    cases right : sortPairs (entriesOf m') with
    | nil => rfl
    | cons field rest =>
      rw [left, right] at same
      exact absurd same.symm (filled field rest)
  | cons field rest =>
    cases right : sortPairs (entriesOf m') with
    | nil =>
      rw [left, right] at same
      exact absurd same (filled field rest)
    | cons field' rest' =>
      rw [left, right] at same
      rw [write_eq_intercalate, write_eq_intercalate, same]

theorem lookup_eq_of_perm {m m' : LabelMap} (perm : (entriesOf m).Perm (entriesOf m')) (key : Text)
    : m.lookup key = m'.lookup key := by
  refine AList.perm_lookup ?_
  have back (map : LabelMap) : (entriesOf map).map (fun pair => (⟨pair.1, pair.2⟩ : Σ _ : Text, Text))
      = map.entries := by
    rw [entriesOf, List.map_map]
    exact List.map_id _
  have entries := perm.map fun pair => (⟨pair.1, pair.2⟩ : Σ _ : Text, Text)
  rwa [back, back] at entries

theorem mem_sent {parts : List Part} {name value : Text}
    : (name, value) ∈ sent parts
      ↔ value ≠ [] ∧ ∃ v, (name, v) ∈ parts ∧ v.render = value := by
  simp only [sent, List.mem_filter, List.mem_map, Bool.not_eq_true', List.isEmpty_eq_false_iff]
  constructor
  · rintro ⟨⟨⟨n, v⟩, mem, same⟩, filled⟩
    cases same
    exact ⟨filled, v, mem, rfl⟩
  · rintro ⟨filled, v, mem, rfl⟩
    exact ⟨⟨(name, v), mem, rfl⟩, filled⟩

/-- A part that is a map in both requests is written alike in both. -/
theorem render_eq_of_perm {left right : List Part} (names : (left.map (·.1)).Nodup)
    (names' : (right.map (·.1)).Nodup) (perm : (sent left).Perm (sent right)) {name : Text}
    {v v' : PartValue} (mem : (name, v) ∈ left) (mem' : (name, v') ∈ right)
    : v.render = v'.render := by
  have onesided {left right : List Part} (names' : (right.map (·.1)).Nodup)
      (perm : (sent left).Perm (sent right)) {v v' : PartValue} (mem : (name, v) ∈ left)
      (mem' : (name, v') ∈ right) (filled : v.render ≠ [])
      : v.render = v'.render := by
    obtain ⟨-, w, mem'', same⟩ := mem_sent.mp (perm.subset (mem_sent.mpr ⟨filled, v, mem, rfl⟩))
    have found := List.inj_on_of_nodup_map names' mem' mem'' rfl
    rw [← same, (Prod.mk.inj found).2]
  by_cases filled : v.render = []
  · by_cases filled' : v'.render = []
    · rw [filled, filled']
    · exact (onesided names perm.symm mem' mem filled').symm
  · exact onesided names' perm mem mem' filled

/-- Legible requests with one text are the same. -/
theorem same_of_fingerprintBody {left right : List Part} (names : (left.map (·.1)).Nodup)
    (names' : (right.map (·.1)).Nodup) (legible : LegibleParts left right)
    (body : fingerprintBody left = fingerprintBody right)
    : Same left right := by
  have perm := perm_of_write_sortPairs legible.parts (List.append_cancel_left body)
  refine ⟨perm, fun name m m' mem mem' key => ?_⟩
  have rendered : canonicalMap m = canonicalMap m' := render_eq_of_perm names names' perm mem mem'
  exact lookup_eq_of_perm (perm_of_write_sortPairs (legible.maps name m m' mem mem')
    (write_eq_of_canonicalMap rendered)) key

/-- At most one part is sent, and nothing in it reads as a name and a value otherwise. -/
def Alone (fields : List Field) : Prop :=
  fields = [] ∨ ∃ name value, fields = [(name, value)] ∧ '=' ∉ name ∧ '=' ∉ value.dropLast

theorem filled_of_mem_sent {parts : List Part} {field : Field} (mem : field ∈ sent parts)
    : field.2 ≠ [] :=
  (mem_sent.mp mem).1

theorem not_mem_dropLast {value front back : Text} (one : '=' ∉ value.dropLast) (filled : back ≠ [])
    : value ≠ front ++ '=' :: back := by
  rintro rfl
  refine one ?_
  rw [List.dropLast_append_of_ne_nil (List.cons_ne_nil _ _), List.dropLast_cons_of_ne_nil filled]
  exact List.mem_append_right _ List.mem_cons_self

/-- The text of one such part is read in one way. -/
theorem eq_of_write_singleton {name value : Text} {fields : List Field} (plain : '=' ∉ name)
    (one : '=' ∉ value.dropLast) (filled : ∀ field ∈ fields, field.2 ≠ [])
    (same : write unitSeparator '=' fields = write unitSeparator '=' [(name, value)])
    : fields = [(name, value)] := by
  cases fields with
  | nil => cases same
  | cons field rest =>
    obtain ⟨n, v⟩ := field
    rw [write_cons, write_cons, write_nil, List.append_nil] at same
    have text : n ++ '=' :: (v ++ write unitSeparator '=' rest) = name ++ '=' :: value :=
      (List.cons.inj same).2
    have some_ : v ≠ [] := filled _ List.mem_cons_self
    obtain ⟨rfl, values⟩ : n = name ∧ v ++ write unitSeparator '=' rest = value := by
      obtain ⟨c, longer, tail⟩ | ⟨c, longer, tail⟩ := List.append_eq_append_iff.mp text
      · cases c with
        | nil => exact ⟨by rw [longer, List.append_nil], (List.cons.inj tail).2⟩
        | cons d c =>
          obtain ⟨rfl, -⟩ := List.cons.inj tail
          refine absurd ?_ plain
          rw [longer]
          exact List.mem_append_right _ List.mem_cons_self
      · cases c with
        | nil => exact ⟨by rw [longer, List.append_nil], (List.cons.inj tail).2.symm⟩
        | cons d c =>
          obtain ⟨rfl, value_eq⟩ := List.cons.inj tail
          refine absurd value_eq (not_mem_dropLast one ?_)
          exact fun empty => some_ (List.append_eq_nil_iff.mp empty).1
    cases rest with
    | nil => rw [← values, write_nil, List.append_nil]
    | cons next rest =>
      rw [write_cons] at values
      have later : next.2 ++ write unitSeparator '=' rest ≠ [] := fun empty =>
        filled next (List.mem_cons_of_mem _ List.mem_cons_self) (List.append_eq_nil_iff.mp empty).1
      have other : value ≠ (v ++ unitSeparator :: next.1)
          ++ '=' :: (next.2 ++ write unitSeparator '=' rest) :=
        not_mem_dropLast one later
      refine absurd ?_ other
      rw [← values]
      simp

/-- The parts as texts. -/
def textParts (fields : List Field) : List Part := fields.map fun field => (field.1, .text field.2)

theorem sent_textParts {fields : List Field} (filled : ∀ field ∈ fields, field.2 ≠ [])
    : sent (textParts fields) = fields := by
  rw [sent, textParts, List.map_map]
  refine (congrArg _ (List.map_id fields)).trans (List.filter_eq_self.mpr fun field mem => ?_)
  simpa using filled field mem

theorem names_strict {f : Field} {rest : List Field} (names : ((f :: rest).map (·.1)).Nodup)
    (sorted : (f :: rest).Pairwise fun a b => toLex a ≤ toLex b) {g : Field} (mem : g ∈ rest)
    : f.1 < g.1 := by
  have below : toLex f ≤ toLex g := (List.pairwise_cons.mp sorted).1 g mem
  obtain lower | ⟨same, -⟩ := Prod.Lex.le_iff.mp below
  · exact lower
  · have fresh := (List.nodup_cons.mp names).1
    exact absurd (List.mem_map.mpr ⟨g, mem, same.symm⟩) fresh

/-- The first two parts, merged. -/
def merged (f g : Field) (rest : List Field) : List Field :=
  (f.1, f.2 ++ unitSeparator :: (g.1 ++ '=' :: g.2)) :: rest

theorem sortPairs_merged {f g : Field} {rest : List Field}
    (names : ((f :: g :: rest).map (·.1)).Nodup)
    (sorted : (f :: g :: rest).Pairwise fun a b => toLex a ≤ toLex b)
    : sortPairs (merged f g rest) = merged f g rest := by
  refine sortByKey_eq_self (List.pairwise_cons.mpr ⟨fun h mem => ?_, ?_⟩)
  · exact Prod.Lex.le_iff.mpr (.inl (names_strict names sorted (List.mem_cons_of_mem _ mem)))
  · exact (List.pairwise_cons.mp (List.pairwise_cons.mp sorted).2).2

/-- Merging the first two of several parts, or cutting one at another place, leaves the text. -/
theorem exists_other_of_not_alone {fields : List Field} (names : (fields.map (·.1)).Nodup)
    (filled : ∀ field ∈ fields, field.2 ≠ []) (several : ¬ Alone fields)
    : ∃ others : List Field, (others.map (·.1)).Nodup ∧ (∀ field ∈ others, field.2 ≠ [])
        ∧ write unitSeparator '=' (sortPairs others) = write unitSeparator '=' (sortPairs fields)
        ∧ ¬ fields.Perm others := by
  have perm := perm_sortPairs fields
  have sorted : (sortPairs fields).Pairwise fun a b => toLex a ≤ toLex b :=
    pairwise_sortByKey fields
  have single (f : Field) : sortPairs [f] = [f] := rfl
  cases shape : sortPairs fields with
  | nil =>
    rw [shape] at perm
    exact absurd (.inl perm.nil_eq.symm) several
  | cons f tail =>
    rw [shape] at perm sorted
    cases tail with
    | nil =>
      obtain rfl : fields = [f] := List.perm_singleton.mp perm.symm
      have value_filled : f.2 ≠ [] := filled f List.mem_cons_self
      by_cases plain : '=' ∈ f.1
      · obtain ⟨a, b, name_eq⟩ := List.append_of_mem plain
        refine ⟨[(a, b ++ '=' :: f.2)], List.nodup_singleton _, ?_, ?_, ?_⟩
        · intro field mem
          rw [List.mem_singleton.mp mem]
          simp
        · simp [single, write, name_eq]
        · intro same
          have names_eq := congrArg Prod.fst (List.singleton_inj.mp (List.perm_singleton.mp same.symm))
          have lengths := congrArg List.length (names_eq.trans name_eq)
          simp at lengths
      · have cut : '=' ∈ f.2.dropLast := by
          by_contra one
          exact several (.inr ⟨f.1, f.2, rfl, plain, one⟩)
        obtain ⟨a, b, front⟩ := List.append_of_mem cut
        have value_eq : f.2 = a ++ '=' :: (b ++ [f.2.getLast value_filled]) := by
          rw [← List.cons_append, ← List.append_assoc, ← front, List.dropLast_append_getLast]
        refine ⟨[(f.1 ++ '=' :: a, b ++ [f.2.getLast value_filled])], List.nodup_singleton _,
          ?_, ?_, ?_⟩
        · intro field mem
          rw [List.mem_singleton.mp mem]
          simp
        · rw [single, write_cons, write_cons]
          conv_rhs => rw [value_eq]
          simp
        · intro same
          have names_eq := congrArg Prod.fst (List.singleton_inj.mp (List.perm_singleton.mp same.symm))
          have lengths := congrArg List.length names_eq
          simp at lengths
    | cons g rest =>
      have names' : ((f :: g :: rest).map (·.1)).Nodup := (perm.map _).nodup_iff.mpr names
      refine ⟨merged f g rest, ?_, ?_, ?_, ?_⟩
      · have sub : ((f :: rest).map (·.1)).Sublist ((f :: g :: rest).map (·.1)) :=
          ((List.sublist_cons_self g rest).cons_cons f).map _
        exact List.Nodup.sublist sub names'
      · intro field mem
        obtain rfl | later := List.mem_cons.mp mem
        · simp
        · exact filled field (perm.subset (List.mem_cons_of_mem _ (List.mem_cons_of_mem _ later)))
      · rw [sortPairs_merged names' sorted, merged, write_cons, write_cons, write_cons]
        simp
      · intro same
        have lengths := (perm.trans same).length_eq
        simp [merged] at lengths

/-- A request that no other one has the text of. -/
theorem alone_iff {parts : List Part} (names : (parts.map (·.1)).Nodup)
    : (∀ other : List Part, (other.map (·.1)).Nodup →
        fingerprintBody parts = fingerprintBody other → (sent parts).Perm (sent other))
      ↔ Alone (sent parts) := by
  have sent_names : ((sent parts).map (·.1)).Nodup := by
    refine List.Nodup.sublist ?_ names
    have kept := (List.filter_sublist (p := fun field : Field => !field.2.isEmpty)
      (l := parts.map fun part => (part.1, part.2.render))).map (·.1)
    rw [List.map_map] at kept
    exact kept
  constructor
  · intro separate
    by_contra several
    obtain ⟨others, names', filled, text, different⟩ :=
      exists_other_of_not_alone sent_names (fun _ mem => filled_of_mem_sent mem) several
    have back := sent_textParts filled
    refine different (back ▸ separate (textParts others) ?_ ?_)
    · rwa [textParts, List.map_map]
    · rw [fingerprintBody, fingerprintBody, back, text]
  · intro alone other _ body
    have text := List.append_cancel_left body
    obtain none | ⟨name, value, one, plain, whole⟩ := alone
    · rw [none] at text ⊢
      have empty : sortPairs (sent other) = [] := by
        cases shape : sortPairs (sent other) with
        | nil => rfl
        | cons field rest =>
          rw [shape] at text
          cases text
      have perm := perm_sortPairs (sent other)
      rwa [empty] at perm
    · rw [one] at text ⊢
      have filled : ∀ field ∈ sortPairs (sent other), field.2 ≠ [] := fun field mem =>
        filled_of_mem_sent ((perm_sortPairs (sent other)).subset mem)
      have read := eq_of_write_singleton plain whole filled text.symm
      have perm := perm_sortPairs (sent other)
      rwa [read] at perm

/-- Legible requests are told apart, and a request is told from every other one exactly where it has
at most one part, without a second reading.
-/
theorem fingerprints_apart {left : List Part} (names : (left.map (·.1)).Nodup)
    : (∀ right : List Part, (right.map (·.1)).Nodup → LegibleParts left right →
        fingerprintBody left = fingerprintBody right → Same left right)
      ∧ ((∀ right : List Part, (right.map (·.1)).Nodup →
          fingerprintBody left = fingerprintBody right → (sent left).Perm (sent right))
        ↔ Alone (sent left)) :=
  ⟨fun _ names' legible body => same_of_fingerprintBody names names' legible body, alone_iff names⟩

/-- The annotations of a network, with the team that owns it. -/
def teamLabels (team : Text) : LabelMap :=
  AList.insert "site".toList "porto".toList (AList.insert "team".toList team ∅)

def networkParts (team : Text) : List Part :=
  [("ipv4_cidr".toList, .text "10.9.0.0/16".toList), ("annotations".toList, .map (teamLabels team))]

theorem fingerprints_apart_networks
    : LegibleParts (networkParts "red".toList) (networkParts "blue".toList).reverse
      ∧ fingerprintBody (networkParts "red".toList)
        ≠ fingerprintBody (networkParts "blue".toList).reverse := by
  have legible : LegibleParts (networkParts "red".toList) (networkParts "blue".toList).reverse := by
    refine ⟨by decide +kernel, fun name m m' mem mem' => ?_⟩
    simp only [networkParts, List.reverse_cons, List.reverse_nil, List.nil_append,
      List.cons_append, List.mem_cons, Prod.mk.injEq, PartValue.map.injEq, reduceCtorEq, and_false,
      List.not_mem_nil, or_false, false_or] at mem mem'
    obtain ⟨rfl, rfl⟩ := mem
    obtain ⟨-, rfl⟩ := mem'
    decide +kernel
  refine ⟨legible, fun body => ?_⟩
  have same := (fingerprints_apart (by decide)).1 _ (by decide) legible body
  have team := same.maps "annotations".toList (teamLabels "red".toList) (teamLabels "blue".toList)
    (by simp [networkParts]) (by simp [networkParts]) "team".toList
  exact absurd team (by decide)

/-- Annotations whose second key is the name of a field read as that field. -/
theorem annotation_read_as_field
    : fingerprintBody
        [ ("ipv4_cidr".toList, .text []),
          ("annotations".toList, .map (AList.insert "a".toList "x".toList
            (AList.insert "ipv4_cidr".toList "10.9.0.0/16".toList ∅))) ]
      = fingerprintBody
        [ ("ipv4_cidr".toList, .text "10.9.0.0/16".toList),
          ("annotations".toList, .map (AList.insert "a".toList "x".toList ∅)) ]
      ∧ (AList.insert "a".toList "x".toList
          (AList.insert "ipv4_cidr".toList "10.9.0.0/16".toList ∅) : LabelMap).lookup
            "ipv4_cidr".toList
        ≠ (AList.insert "a".toList "x".toList ∅ : LabelMap).lookup "ipv4_cidr".toList := by
  decide +kernel

end Delonix.Operations
