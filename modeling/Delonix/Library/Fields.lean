import Mathlib.Data.List.Basic

/-! Named values written one after the other, each behind a separator and split from its name by one
character, with nothing escaped: when such a text says which values it was written from.
-/

namespace Delonix.Library.Fields

abbrev Field := List Char × List Char

variable {sep eq : Char}

/-- A separator, the name, the second character and the value, field after field. -/
def write (sep eq : Char) (fields : List Field) : List Char :=
  fields.flatMap fun field => sep :: field.1 ++ eq :: field.2

@[simp] theorem write_nil : write sep eq [] = [] := rfl

theorem write_cons (field : Field) (rest : List Field)
    : write sep eq (field :: rest) = sep :: (field.1 ++ eq :: (field.2 ++ write sep eq rest)) := by
  simp [write]

/-- The name can be told from what follows it. -/
def PlainName (sep eq : Char) (name : List Char) : Prop := sep ∉ name ∧ eq ∉ name

/-- No value holds what reads as the start of a field of this name. -/
def Spares (sep eq : Char) (name : List Char) (fields : List Field) : Prop :=
  ∀ field ∈ fields, ¬ sep :: name ++ [eq] <:+: field.2

instance {name : List Char} : Decidable (PlainName sep eq name) :=
  inferInstanceAs (Decidable (_ ∧ _))

instance {name : List Char} {fields : List Field} : Decidable (Spares sep eq name fields) :=
  inferInstanceAs (Decidable (∀ field ∈ fields, _))

/-- Each list of fields can be read next to the other. -/
structure Legible (sep eq : Char) (left right : List Field) : Prop where
  left_names : ∀ field ∈ left, PlainName sep eq field.1
  right_names : ∀ field ∈ right, PlainName sep eq field.1
  left_spares : ∀ field ∈ right, Spares sep eq field.1 left
  right_spares : ∀ field ∈ left, Spares sep eq field.1 right

instance {left right : List Field} : Decidable (Legible sep eq left right) :=
  decidable_of_iff
    (((∀ field ∈ left, PlainName sep eq field.1) ∧ ∀ field ∈ right, PlainName sep eq field.1)
      ∧ (∀ field ∈ right, Spares sep eq field.1 left)
      ∧ ∀ field ∈ left, Spares sep eq field.1 right)
    ⟨fun all => ⟨all.1.1, all.1.2, all.2.1, all.2.2⟩,
      fun legible => ⟨⟨legible.1, legible.2⟩, legible.3, legible.4⟩⟩

theorem Legible.mono {left right left' right' : List Field} (legible : Legible sep eq left right)
    (sub : left' ⊆ left) (sub' : right' ⊆ right)
    : Legible sep eq left' right' where
  left_names field mem := legible.left_names field (sub mem)
  right_names field mem := legible.right_names field (sub' mem)
  left_spares field mem other mem' := legible.left_spares field (sub' mem) other (sub mem')
  right_spares field mem other mem' := legible.right_spares field (sub mem) other (sub' mem')

theorem Legible.tail {f g : Field} {left right : List Field}
    (legible : Legible sep eq (f :: left) (g :: right))
    : Legible sep eq left right :=
  legible.mono (List.subset_cons_self f left) (List.subset_cons_self g right)

/-- Texts that are free of a character are told by what comes before it. -/
theorem eq_of_append_cons {c : Char} {a b x y : List Char} (ha : c ∉ a) (hb : c ∉ b)
    (same : a ++ c :: x = b ++ c :: y)
    : a = b ∧ x = y := by
  induction a generalizing b with
  | nil =>
    cases b with
    | nil => exact ⟨rfl, (List.cons.inj same).2⟩
    | cons d b => exact absurd ((List.cons.inj same).1 ▸ List.mem_cons_self) hb
  | cons d a ih =>
    cases b with
    | nil => exact absurd ((List.cons.inj same).1.symm ▸ List.mem_cons_self) ha
    | cons e b =>
      obtain ⟨rfl, rest⟩ := List.cons.inj same
      obtain ⟨rfl, rfl⟩ := ih (fun mem => ha (List.mem_cons_of_mem _ mem))
        (fun mem => hb (List.mem_cons_of_mem _ mem)) rest
      exact ⟨rfl, rfl⟩

/-- What a value reaches over beyond another holds the start of the next field. -/
theorem start_of_overlap (differ : sep ≠ eq) {c : List Char} {name value : List Char}
    {rest after : List Field} (plain : PlainName sep eq name) (some_ : c ≠ [])
    (same : write sep eq ((name, value) :: rest) = c ++ write sep eq after)
    : sep :: name ++ [eq] <+: c := by
  have shape : (sep :: name ++ [eq]) ++ (value ++ write sep eq rest) = c ++ write sep eq after := by
    rw [← same, write_cons]
    simp
  obtain ⟨d, start, tail⟩ | ⟨d, start, tail⟩ := List.append_eq_append_iff.mp shape
  · exact ⟨d, start.symm⟩
  · cases d with
    | nil => exact ⟨[], by rw [start, List.append_nil, List.append_nil]⟩
    | cons x d =>
      cases after with
      | nil => cases tail
      | cons field after =>
        rw [write_cons] at tail
        obtain ⟨rfl, -⟩ := List.cons.inj tail
        cases c with
        | nil => exact absurd rfl some_
        | cons y c =>
          have inner : name ++ [eq] = c ++ sep :: d := (List.cons.inj start).2
          have inside : sep ∈ name ++ [eq] := by
            rw [inner]
            exact List.mem_append_right _ List.mem_cons_self
          obtain inside | inside := List.mem_append.mp inside
          · exact absurd inside plain.1
          · exact absurd (List.mem_singleton.mp inside) differ

/-- Values in front of legible fields are told apart. -/
theorem values_eq (differ : sep ≠ eq) {v w : List Char} {left right : List Field}
    (legible : Legible sep eq left right)
    (spares : ∀ field ∈ right, ¬ sep :: field.1 ++ [eq] <:+: v)
    (spares' : ∀ field ∈ left, ¬ sep :: field.1 ++ [eq] <:+: w)
    (same : v ++ write sep eq left = w ++ write sep eq right)
    : v = w ∧ write sep eq left = write sep eq right := by
  have onesided {v w : List Char} {left right : List Field} {c : List Char}
      (plain : ∀ field ∈ left, PlainName sep eq field.1)
      (spares : ∀ field ∈ left, ¬ sep :: field.1 ++ [eq] <:+: w)
      (longer : w = v ++ c) (overlap : write sep eq left = c ++ write sep eq right)
      : v = w ∧ write sep eq left = write sep eq right := by
    by_cases empty : c = []
    · subst empty
      exact ⟨by rw [longer, List.append_nil], overlap⟩
    · cases left with
      | nil => exact absurd (List.append_eq_nil_iff.mp overlap.symm).1 empty
      | cons field rest =>
        have start := start_of_overlap differ (plain field List.mem_cons_self) empty overlap
        refine absurd ?_ (spares field List.mem_cons_self)
        rw [longer]
        exact start.isInfix.trans (List.suffix_append v c).isInfix
  obtain ⟨c, longer, overlap⟩ | ⟨c, longer, overlap⟩ := List.append_eq_append_iff.mp same
  · exact onesided legible.left_names spares' longer overlap
  · obtain ⟨values, rests⟩ := onesided legible.right_names spares longer overlap
    exact ⟨values.symm, rests.symm⟩

/-- Legible fields are read back from their text, one after the other. -/
theorem write_inj (differ : sep ≠ eq) {left right : List Field}
    (legible : Legible sep eq left right) (same : write sep eq left = write sep eq right)
    : left = right := by
  induction left generalizing right with
  | nil =>
    cases right with
    | nil => rfl
    | cons g right =>
      rw [write_cons] at same
      cases same
  | cons f left ih =>
    cases right with
    | nil =>
      rw [write_cons] at same
      cases same
    | cons g right =>
      rw [write_cons, write_cons] at same
      obtain ⟨names, same⟩ := eq_of_append_cons (legible.left_names f List.mem_cons_self).2
        (legible.right_names g List.mem_cons_self).2 (List.cons.inj same).2
      obtain ⟨values, rests⟩ := values_eq differ legible.tail
        (fun field mem => legible.left_spares field (List.mem_cons_of_mem _ mem) f List.mem_cons_self)
        (fun field mem => legible.right_spares field (List.mem_cons_of_mem _ mem) g
          List.mem_cons_self) same
      rw [Prod.ext names values, ih legible.tail rests]

end Delonix.Library.Fields
