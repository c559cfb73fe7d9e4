import Mathlib.Tactic.Common

/-! Blocks in a list, each from an item that opens one to the first item after it that closes it.
An item that opens leaves a block that was open behind, unfinished. Items can be taken out of the
list, or put into it, between the blocks and the blocks stay as they are.
-/

namespace Delonix.Library.MarkedBlocks

/-- Which items open and close a block. -/
structure Marks (α : Type) where
  opens : α → Bool
  closes : α → Bool

variable {α : Type} (m : Marks α)

namespace Marks

/-- The next mark is one that closes. -/
def closing : List α → Bool
  | [] => false
  | item :: rest => if m.opens item then false else m.closes item || closing rest

/-- Whether a block is open after the item. -/
def after (opened : Bool) (item : α) : Bool :=
  if m.opens item then true else opened && !m.closes item

def openAfter (opened : Bool) (items : List α) : Bool := items.foldl m.after opened

/-- The item belongs to a block. -/
def label (opened : Bool) (item : α) (rest : List α) : Bool :=
  if m.opens item then m.closing rest else opened && m.closing (item :: rest)

/-- The items of the blocks. -/
def within : Bool → List α → List α
  | _, [] => []
  | opened, item :: rest =>
      if m.label opened item rest then item :: within (m.after opened item) rest
      else within (m.after opened item) rest

/-- The items of no block. -/
def outside : Bool → List α → List α
  | _, [] => []
  | opened, item :: rest =>
      if m.label opened item rest then outside (m.after opened item) rest
      else item :: outside (m.after opened item) rest

/-- No block is opened while another one is open. -/
def unnested : Bool → List α → Bool
  | _, [] => true
  | opened, item :: rest => !(m.opens item && opened) && unnested (m.after opened item) rest

/-- What is left when all is dropped from an item that opens to one that closes. -/
def left : Bool → List α → List α
  | _, [] => []
  | opened, item :: rest =>
      if m.opens item || opened then left (m.after opened item) rest
      else item :: left (m.after opened item) rest

/-- Every block is closed before the next one is opened. -/
structure WellMarked (opened : Bool) (items : List α) : Prop where
  unnested : m.unnested opened items = true
  closed : m.openAfter opened items = false

/-- The item is no mark. -/
def Unmarked (item : α) : Prop := m.opens item = false ∧ m.closes item = false

variable {m}

theorem openAfter_append (opened : Bool) (front back : List α)
    : m.openAfter opened (front ++ back) = m.openAfter (m.openAfter opened front) back := by
  rw [openAfter, openAfter, openAfter, List.foldl_append]

theorem left_append (opened : Bool) (front back : List α)
    : m.left opened (front ++ back)
      = m.left opened front ++ m.left (m.openAfter opened front) back := by
  induction front generalizing opened with
  | nil => rfl
  | cons item front ih =>
      simp only [List.cons_append, left, openAfter, List.foldl_cons] at ih ⊢
      split
      · exact ih (m.after opened item)
      · rw [ih (m.after opened item), List.cons_append]

theorem left_sublist (opened : Bool) (items : List α) : (m.left opened items).Sublist items := by
  induction items generalizing opened with
  | nil => exact .slnil
  | cons item rest ih =>
      rw [left]
      split
      · exact (ih _).cons item
      · exact (ih _).cons_cons item

theorem outside_sublist (opened : Bool) (items : List α)
    : (m.outside opened items).Sublist items := by
  induction items generalizing opened with
  | nil => exact .slnil
  | cons item rest ih =>
      rw [outside]
      split
      · exact (ih _).cons item
      · exact (ih _).cons_cons item

theorem not_opens_left {opened : Bool} {items : List α}
    : ∀ item ∈ m.left opened items, m.opens item = false := by
  induction items generalizing opened with
  | nil => simp [left]
  | cons item rest ih =>
      rw [left]
      split
      · exact ih
      case isFalse plain =>
        simp only [Bool.or_eq_true, not_or, Bool.not_eq_true] at plain
        exact List.forall_mem_cons.mpr ⟨plain.1, ih⟩

-----------------------------------------------------------------------------------------
-- Items without marks
-----------------------------------------------------------------------------------------

theorem closing_append {front : List α} (plain : ∀ item ∈ front, m.Unmarked item)
    (back : List α)
    : m.closing (front ++ back) = m.closing back := by
  induction front with
  | nil => rfl
  | cons item front ih =>
      obtain ⟨⟨opens, closes⟩, later⟩ := List.forall_mem_cons.mp plain
      rw [List.cons_append, closing, opens, closes, ih later]
      simp

theorem after_unmarked {item : α} (plain : m.Unmarked item) (opened : Bool)
    : m.after opened item = opened := by
  simp [after, plain.1, plain.2]

theorem openAfter_unmarked {items : List α} (plain : ∀ item ∈ items, m.Unmarked item)
    (opened : Bool)
    : m.openAfter opened items = opened := by
  induction items with
  | nil => rfl
  | cons item rest ih =>
      obtain ⟨here, later⟩ := List.forall_mem_cons.mp plain
      rw [openAfter, List.foldl_cons, after_unmarked here]
      exact ih later

theorem left_of_not_opens {items : List α} (none : ∀ item ∈ items, m.opens item = false)
    : m.left false items = items := by
  induction items with
  | nil => rfl
  | cons item rest ih =>
      obtain ⟨here, later⟩ := List.forall_mem_cons.mp none
      simp [left, after, here, ih later]

-----------------------------------------------------------------------------------------
-- Well-marked lists
-----------------------------------------------------------------------------------------

theorem WellMarked.closing {items : List α} (well : m.WellMarked true items)
    : m.closing items = true := by
  induction items with
  | nil => exact absurd well.closed (by simp [openAfter])
  | cons item rest ih =>
      obtain ⟨unnested, closed⟩ := well
      simp only [Marks.unnested, Bool.and_true, Bool.and_eq_true, Bool.not_eq_true'] at unnested
      obtain ⟨here, later⟩ := unnested
      rw [Marks.closing, here]
      cases closes : m.closes item with
      | true => simp
      | false =>
          have stays : m.after true item = true := after_unmarked ⟨here, closes⟩ true
          rw [openAfter, List.foldl_cons, stays] at closed
          rw [stays] at later
          simpa using ih ⟨later, closed⟩

theorem WellMarked.tail {opened : Bool} {item : α} {rest : List α}
    (well : m.WellMarked opened (item :: rest))
    : m.WellMarked (m.after opened item) rest := by
  obtain ⟨unnested, closed⟩ := well
  rw [Marks.unnested, Bool.and_eq_true] at unnested
  exact ⟨unnested.2, closed⟩

/-- In a well-marked list an item is in a block when it opens one or one is open. -/
theorem WellMarked.label {opened : Bool} {item : α} {rest : List α}
    (well : m.WellMarked opened (item :: rest))
    : m.label opened item rest = (m.opens item || opened) := by
  rw [Marks.label]
  cases opens : m.opens item with
  | true =>
      have opened : m.after opened item = true := by simp [after, opens]
      have closing := (opened ▸ well.tail).closing
      simp [closing]
  | false =>
      cases opened with
      | true =>
          have closing := well.closing
          simp [closing]
      | false => simp

theorem WellMarked.outside {opened : Bool} {items : List α} (well : m.WellMarked opened items)
    : m.outside opened items = m.left opened items := by
  induction items generalizing opened with
  | nil => rfl
  | cons item rest ih => rw [Marks.outside, left, well.label, ih well.tail]

/-- A block that is left unfinished is in the list outside of all blocks. -/
theorem opens_outside {opened : Bool} {items : List α} (nested : m.unnested opened items = false)
    : (opened = true ∧ m.closing items = false) ∨ ∃ item ∈ m.outside opened items,
        m.opens item = true := by
  induction items generalizing opened with
  | nil => simp [Marks.unnested] at nested
  | cons item rest ih =>
      rw [Marks.unnested] at nested
      cases opens : m.opens item with
      | true =>
          cases opened with
          | true => exact .inl ⟨rfl, by simp [closing, opens]⟩
          | false =>
              have opened : m.after false item = true := by simp [after, opens]
              simp only [opens, Bool.and_false, Bool.not_false, Bool.true_and, opened] at nested
              refine .inr ?_
              rw [Marks.outside, opened]
              obtain ⟨-, unfinished⟩ | ⟨other, mem, its⟩ := ih nested
              · exact ⟨item, by simp [Marks.label, opens, unfinished], opens⟩
              · refine ⟨other, ?_, its⟩
                split <;> simp [mem]
      | false =>
          simp only [opens, Bool.false_and, Bool.not_false, Bool.true_and] at nested
          obtain ⟨still, unfinished⟩ | ⟨other, mem, its⟩ := ih nested
          · simp only [after, opens, Bool.false_eq_true, if_false, Bool.and_eq_true,
              Bool.not_eq_true'] at still
            exact .inl ⟨still.1, by simp [closing, opens, still.2, unfinished]⟩
          · refine .inr ⟨other, ?_, its⟩
            rw [Marks.outside]
            split <;> simp [mem]

-----------------------------------------------------------------------------------------
-- Taking items out
-----------------------------------------------------------------------------------------

/-- The items that are not marked as taken out. -/
def stay : List (α × Bool) → List α
  | [] => []
  | (item, taken) :: rest => if taken then stay rest else item :: stay rest

theorem stay_append (front back : List (α × Bool))
    : stay (front ++ back) = stay front ++ stay back := by
  induction front with
  | nil => rfl
  | cons head front ih =>
      obtain ⟨item, taken⟩ := head
      cases taken <;> simp [stay, ih]

theorem stay_map_false (items : List α) : stay (items.map (·, false)) = items := by
  induction items with
  | nil => rfl
  | cons item rest ih => simp [stay, ih]

theorem stay_map_true (items : List α) : stay (items.map (·, true)) = [] := by
  induction items with
  | nil => rfl
  | cons item rest ih => simp [stay, ih]

variable (m) in
/-- None of the items taken out belongs to a block. -/
def Spares : Bool → List (α × Bool) → Prop
  | _, [] => True
  | opened, (item, taken) :: rest =>
      (taken = true → m.label opened item (rest.map Prod.fst) = false)
        ∧ Spares (m.after opened item) rest

/-- How the states of the two lists are related: where only the first one is in a block, that block
is never closed.
-/
structure Follows (m : Marks α) (opened opened' : Bool) (items : List (α × Bool)) : Prop where
  earlier : opened' = true → opened = true
  unfinished : opened = true → opened' = false → m.closing (items.map Prod.fst) = false

theorem closing_stay {items : List (α × Bool)} (spares : m.Spares true items)
    (closing : m.closing (items.map Prod.fst) = true)
    : m.closing (stay items) = true := by
  induction items with
  | nil => exact closing
  | cons head rest ih =>
      obtain ⟨item, taken⟩ := head
      obtain ⟨here, later⟩ := spares
      rw [List.map_cons, Marks.closing] at closing
      cases opens : m.opens item with
      | true => simp [opens] at closing
      | false =>
          have label : m.label true item (rest.map Prod.fst) = true := by
            rw [Marks.label, opens]
            simpa [Marks.closing, opens] using closing
          cases taken with
          | true => simp [label] at here
          | false =>
              rw [stay, if_neg (by decide), Marks.closing, opens]
              cases closes : m.closes item with
              | true => simp
              | false =>
                  have stays : m.after true item = true := after_unmarked ⟨opens, closes⟩ true
                  rw [stays] at later
                  simp only [opens, closes, Bool.false_or] at closing
                  simpa using ih later closing

theorem not_closing_stay {opened : Bool} {items : List (α × Bool)} (spares : m.Spares opened items)
    (unfinished : m.closing (items.map Prod.fst) = false)
    : opened = true → m.closing (stay items) = false := by
  induction items generalizing opened with
  | nil => exact fun _ => unfinished
  | cons head rest ih =>
      intro still
      obtain ⟨item, taken⟩ := head
      obtain ⟨here, later⟩ := spares
      rw [List.map_cons, Marks.closing] at unfinished
      cases opens : m.opens item with
      | true =>
          have next : m.after opened item = true := by simp [after, opens]
          cases taken with
          | false => simp [stay, Marks.closing, opens]
          | true =>
              -- the block of an item that is taken out is left unfinished
              have label := here rfl
              rw [Marks.label, opens, if_pos rfl] at label
              exact ih later label next
      | false =>
          simp only [opens, Bool.false_eq_true, if_false, Bool.or_eq_false_iff] at unfinished
          have next : m.after opened item = true := by simp [after, opens, still, unfinished.1]
          have rest_unfinished := ih later unfinished.2 next
          cases taken with
          | true => exact rest_unfinished
          | false => simp [stay, Marks.closing, opens, unfinished.1, rest_unfinished]

theorem Follows.next {opened opened' : Bool} {item : α} {taken : Bool} {rest : List (α × Bool)}
    (follows : Follows m opened opened' ((item, taken) :: rest))
    (spares : m.Spares opened ((item, taken) :: rest))
    : Follows m (m.after opened item) (if taken then opened' else m.after opened' item) rest := by
  obtain ⟨here, -⟩ := spares
  obtain ⟨earlier, unfinished⟩ := follows
  cases opens : m.opens item with
  | true =>
      have next : ∀ state, m.after state item = true := fun _ => by simp [after, opens]
      simp only [next]
      refine ⟨fun _ => rfl, fun _ other => ?_⟩
      cases taken with
      | false => simp at other
      | true =>
          have label := here rfl
          rwa [Marks.label, opens, if_pos rfl] at label
  | false =>
      cases closes : m.closes item with
      | false =>
          simp only [after_unmarked ⟨opens, closes⟩]
          refine ⟨by cases taken <;> exact earlier, fun still other => ?_⟩
          have other : opened' = false := by cases taken <;> exact other
          simpa [Marks.closing, opens, closes] using unfinished still other
      | true =>
          have next : ∀ state, m.after state item = false := fun _ => by
            simp [after, opens, closes]
          simp only [next]
          refine ⟨fun still => ?_, by simp⟩
          cases taken with
          | false => simp at still
          | true =>
              -- the block would have been closed by an item that is taken out
              have label := here rfl
              simp only [Marks.label, opens, Marks.closing, closes, earlier still] at label
              simp at label

theorem Follows.label {opened opened' : Bool} {item : α} {rest : List (α × Bool)}
    (follows : Follows m opened opened' ((item, false) :: rest))
    (spares : m.Spares opened ((item, false) :: rest))
    : m.label opened' item (stay rest) = m.label opened item (rest.map Prod.fst) := by
  obtain ⟨-, later⟩ := spares
  have same : m.after opened item = true
      → m.closing (stay rest) = m.closing (rest.map Prod.fst) := by
    intro next
    rw [next] at later
    cases closing : m.closing (rest.map Prod.fst) with
    | true => exact closing_stay later closing
    | false => exact not_closing_stay later closing rfl
  cases opens : m.opens item with
  | true =>
      rw [Marks.label, Marks.label, opens]
      simpa using same (by simp [after, opens])
  | false =>
      simp only [Marks.label, Marks.closing, opens, Bool.false_eq_true, if_false]
      cases opened' with
      | true =>
          have still := follows.earlier rfl
          cases closes : m.closes item with
          | true => simp [still]
          | false => simp [still, same (by simp [after, opens, closes, still])]
      | false =>
          cases still : opened with
          | false => simp
          | true =>
              have unfinished := follows.unfinished still rfl
              simp only [List.map_cons, Marks.closing, opens, Bool.false_eq_true, if_false]
                at unfinished
              simp [unfinished]

/-- Taking out items of no block leaves the blocks. -/
theorem Follows.within {opened opened' : Bool} {items : List (α × Bool)}
    (follows : Follows m opened opened' items) (spares : m.Spares opened items)
    : m.within opened' (stay items) = m.within opened (items.map Prod.fst) := by
  induction items generalizing opened opened' with
  | nil => rfl
  | cons head rest ih =>
      obtain ⟨item, taken⟩ := head
      have next := follows.next spares
      have rest_same := ih next spares.2
      cases taken with
      | true =>
          rw [stay, if_pos rfl, List.map_cons, Marks.within, spares.1 rfl]
          exact rest_same
      | false =>
          rw [stay, if_neg (by decide), List.map_cons, Marks.within, Marks.within,
            follows.label spares]
          simp only [Bool.false_eq_true, if_false] at rest_same
          rw [rest_same]

theorem follows_self (opened : Bool) (items : List (α × Bool)) : Follows m opened opened items :=
  ⟨fun still => still, fun still other => by simp [still] at other⟩

theorem within_stay {items : List (α × Bool)} (spares : m.Spares false items)
    : m.within false (stay items) = m.within false (items.map Prod.fst) :=
  (follows_self false items).within spares

/-- The states of the two lists further on. -/
theorem Follows.later {opened opened' : Bool} {front back : List (α × Bool)}
    (follows : Follows m opened opened' (front ++ back))
    (spares : m.Spares opened (front ++ back))
    : Follows m (m.openAfter opened (front.map Prod.fst)) (m.openAfter opened' (stay front)) back
      ∧ m.Spares (m.openAfter opened (front.map Prod.fst)) back := by
  induction front generalizing opened opened' with
  | nil => exact ⟨follows, spares⟩
  | cons head front ih =>
      obtain ⟨item, taken⟩ := head
      have next := ih (follows.next spares) spares.2
      cases taken with
      | true => exact next
      | false => exact next

/-- Where items of no block were taken out, the items left on both sides are not one block. -/
theorem not_joined {front back : List (α × Bool)} {item : α}
    (spares : m.Spares false (front ++ (item, true) :: back)) (plain : m.opens item = false)
    : ¬ (m.openAfter false (stay front) = true ∧ m.closing (stay back) = true) := by
  rintro ⟨still, closing⟩
  obtain ⟨follows, later⟩ := (follows_self false _).later spares
  have opened := follows.earlier still
  have label := later.1 rfl
  rw [opened] at later
  have closing : m.closing (((item, true) :: back).map Prod.fst) = true := by
    by_contra unfinished
    rw [Bool.not_eq_true] at unfinished
    have none := not_closing_stay later unfinished rfl
    rw [stay, if_pos rfl, closing] at none
    cases none
  rw [Marks.label, plain, opened] at label
  simp only [List.map_cons] at closing
  simp [closing] at label

theorem spares_stay (opened : Bool) (items : List α) : m.Spares opened (items.map (·, false)) := by
  induction items generalizing opened with
  | nil => trivial
  | cons item rest ih => exact ⟨by simp, ih _⟩

theorem spares_block {opened : Bool} {block back : List α}
    (plain : ∀ item ∈ block, m.Unmarked item) (apart : ¬ (opened = true ∧ m.closing back = true))
    : m.Spares opened (block.map (·, true) ++ back.map (·, false)) := by
  induction block with
  | nil => exact spares_stay opened back
  | cons item block ih =>
      obtain ⟨here, later⟩ := List.forall_mem_cons.mp plain
      refine ⟨fun _ => ?_, ?_⟩
      · have tail : (block.map (·, true) ++ back.map (·, false)).map Prod.fst = block ++ back := by
          simp [Function.comp_def]
        show m.label opened item ((block.map (·, true) ++ back.map (·, false)).map Prod.fst) = false
        rw [tail, Marks.label, here.1, if_neg (by decide), ← List.cons_append,
          closing_append plain]
        by_contra inside
        rw [Bool.not_eq_false, Bool.and_eq_true] at inside
        exact apart inside
      · rw [after_unmarked here]
        exact ih later

/-- Items without marks can be put where no block is open that will be closed. -/
theorem spares_insert {opened : Bool} {front block back : List α}
    (plain : ∀ item ∈ block, m.Unmarked item)
    (apart : ¬ (m.openAfter opened front = true ∧ m.closing back = true))
    : m.Spares opened
        (front.map (·, false) ++ (block.map (·, true) ++ back.map (·, false))) := by
  induction front generalizing opened with
  | nil => exact spares_block plain apart
  | cons item front ih => exact ⟨by simp, ih apart⟩

theorem within_insert {front block back : List α} (plain : ∀ item ∈ block, m.Unmarked item)
    (apart : ¬ (m.openAfter false front = true ∧ m.closing back = true))
    : m.within false (front ++ block ++ back) = m.within false (front ++ back) := by
  have same := within_stay (spares_insert plain apart)
  simp only [stay_append, stay_map_false, stay_map_true, List.map_append, List.map_map,
    Function.comp_def, List.map_id', List.nil_append] at same
  rw [same, List.append_assoc]

-----------------------------------------------------------------------------------------
-- Two kinds of blocks
-----------------------------------------------------------------------------------------

/-- No item belongs to blocks of both kinds. -/
def Apart (m n : Marks α) : Bool → Bool → List α → Prop
  | _, _, [] => True
  | opened, other, item :: rest =>
      ¬ (m.label opened item rest = true ∧ n.label other item rest = true)
        ∧ Apart m n (m.after opened item) (n.after other item) rest

instance decidableApart (m n : Marks α)
    : (opened other : Bool) → (items : List α) → Decidable (Apart m n opened other items)
  | _, _, [] => isTrue trivial
  | opened, other, item :: rest =>
      have := decidableApart m n (m.after opened item) (n.after other item) rest
      inferInstanceAs (Decidable (¬ _ ∧ _))

variable {n : Marks α}

theorem Apart.symm {opened other : Bool} {items : List α} (apart : Apart m n opened other items)
    : Apart n m other opened items := by
  induction items generalizing opened other with
  | nil => trivial
  | cons item rest ih => exact ⟨fun both => apart.1 both.symm, ih apart.2⟩

variable (m) in
/-- The items with what is dropped of a well-marked list. -/
def dropped : Bool → List α → List (α × Bool)
  | _, [] => []
  | opened, item :: rest => (item, m.opens item || opened) :: dropped (m.after opened item) rest

theorem dropped_append (opened : Bool) (front back : List α)
    : m.dropped opened (front ++ back)
      = m.dropped opened front ++ m.dropped (m.openAfter opened front) back := by
  induction front generalizing opened with
  | nil => rfl
  | cons item front ih => exact congrArg _ (ih (m.after opened item))

theorem map_dropped (opened : Bool) (items : List α)
    : (m.dropped opened items).map Prod.fst = items := by
  induction items generalizing opened with
  | nil => rfl
  | cons item rest ih => rw [dropped, List.map_cons, ih]

theorem stay_dropped (opened : Bool) (items : List α)
    : stay (m.dropped opened items) = m.left opened items := by
  induction items generalizing opened with
  | nil => rfl
  | cons item rest ih => rw [dropped, stay, left, ih]

theorem Apart.spares {opened other : Bool} {items : List α} (well : m.WellMarked opened items)
    (apart : Apart m n opened other items)
    : n.Spares other (m.dropped opened items) := by
  induction items generalizing opened other with
  | nil => trivial
  | cons item rest ih =>
      refine ⟨fun taken => ?_, ih well.tail apart.2⟩
      rw [map_dropped]
      by_contra inside
      rw [Bool.not_eq_false] at inside
      exact apart.1 ⟨well.label.trans taken, inside⟩

/-- The blocks of the other kind stay when the blocks of one kind are dropped. -/
theorem Apart.within {items : List α} (well : m.WellMarked false items)
    (apart : Apart m n false false items)
    : n.within false (m.left false items) = n.within false items := by
  have same := within_stay (apart.spares well)
  rwa [stay_dropped, map_dropped] at same

/-- An item dropped with one kind of blocks does not change the state of the other kind. -/
theorem Apart.after_dropped {opened other : Bool} {item : α} {rest : List α}
    (well : m.WellMarked opened (item :: rest)) (well' : n.WellMarked other (item :: rest))
    (apart : Apart m n opened other (item :: rest)) (taken : (m.opens item || opened) = true)
    : n.opens item = false ∧ other = false ∧ n.after other item = other := by
  have both := apart.1
  rw [well.label, well'.label] at both
  have none : (n.opens item || other) = false := by
    by_contra inside
    rw [Bool.not_eq_false] at inside
    exact both ⟨taken, inside⟩
  obtain ⟨opens, rfl⟩ := Bool.or_eq_false_iff.mp none
  exact ⟨opens, rfl, by simp [after, opens]⟩

/-- The blocks of two kinds can be dropped in either order. -/
theorem Apart.left_left {opened other : Bool} {items : List α} (well : m.WellMarked opened items)
    (well' : n.WellMarked other items) (apart : Apart m n opened other items)
    : n.left other (m.left opened items) = m.left opened (n.left other items) := by
  induction items generalizing opened other with
  | nil => rfl
  | cons item rest ih =>
      have rest_same := ih well.tail well'.tail apart.2
      cases taken : (m.opens item || opened) with
      | true =>
          obtain ⟨opens, rfl, same⟩ := apart.after_dropped well well' taken
          rw [same] at rest_same
          simp [left, taken, opens, same, rest_same]
      | false =>
          obtain ⟨opens, rfl⟩ := Bool.or_eq_false_iff.mp taken
          have same : m.after false item = false := by simp [after, opens]
          rw [same] at rest_same
          cases its : (n.opens item || other) with
          | true => simp [left, opens, its, same, rest_same]
          | false => simp [left, opens, its, same, rest_same]

theorem Apart.wellMarked {opened other : Bool} {items : List α} (well : m.WellMarked opened items)
    (well' : n.WellMarked other items) (apart : Apart m n opened other items)
    : n.WellMarked other (m.left opened items) := by
  induction items generalizing opened other with
  | nil => exact well'
  | cons item rest ih =>
      have rest_well := ih well.tail well'.tail apart.2
      rw [left]
      split
      case isTrue taken =>
        obtain ⟨-, -, same⟩ := apart.after_dropped well well' taken
        rwa [same] at rest_well
      case isFalse =>
        have here := well'.unnested
        rw [Marks.unnested, Bool.and_eq_true] at here
        refine ⟨?_, rest_well.closed⟩
        rw [Marks.unnested, here.1, rest_well.unnested]
        rfl

/-- Items without marks neither finish nor begin a block. -/
theorem WellMarked.insert {opened : Bool} {front block back : List α}
    (well : m.WellMarked opened (front ++ back)) (plain : ∀ item ∈ block, m.Unmarked item)
    : m.WellMarked opened (front ++ block ++ back) := by
  induction front generalizing opened with
  | nil =>
      induction block with
      | nil => exact well
      | cons item block ih =>
          obtain ⟨here, later⟩ := List.forall_mem_cons.mp plain
          obtain ⟨unnested, closed⟩ := ih later
          refine ⟨?_, ?_⟩
          · simp [Marks.unnested, here.1, after_unmarked here]
            simpa using unnested
          · simp [openAfter, after_unmarked here]
            simpa [openAfter] using closed
  | cons item front ih =>
      obtain ⟨unnested, closed⟩ := ih well.tail
      have here := well.unnested
      rw [List.cons_append, Marks.unnested, Bool.and_eq_true] at here
      refine ⟨?_, closed⟩
      rw [List.cons_append, List.cons_append, Marks.unnested, here.1, unnested]
      rfl

-----------------------------------------------------------------------------------------
-- The place of the last block
-----------------------------------------------------------------------------------------

variable (m) in
/-- What is left of the items before and after the last item that opens a block. -/
inductive Placed : List α → List α → List α → Prop
  | last {items : List α} (none : ∀ item ∈ items, m.opens item = false) : Placed items items []
  | there {front back : List α} {item : α} (opens : m.opens item = true)
      (none : ∀ item ∈ back, m.opens item = false)
      : Placed (front ++ item :: back) (m.left false front) (m.left true back)

theorem exists_placed (items : List α) : ∃ front back, m.Placed items front back := by
  induction items with
  | nil => exact ⟨[], [], .last (by simp)⟩
  | cons item rest ih =>
      obtain ⟨front, back, placed⟩ := ih
      cases placed with
      | last none =>
          cases opens : m.opens item with
          | true => exact ⟨_, _, @Placed.there _ m [] rest item opens none⟩
          | false => exact ⟨_, _, .last (List.forall_mem_cons.mpr ⟨opens, none⟩)⟩
      | @there front back item' opens none =>
          exact ⟨_, _, @Placed.there _ m (item :: front) back item' opens none⟩

theorem Placed.left {items front back : List α} (placed : m.Placed items front back)
    : m.left false items = front ++ back := by
  cases placed with
  | last none => rw [left_of_not_opens none, List.append_nil]
  | there opens none => simp [left_append, Marks.left, opens, after]

theorem Placed.back_eq_nil {items front back : List α} (placed : m.Placed items front back)
    (none : ∀ item ∈ items, m.opens item = false)
    : back = [] := by
  cases placed with
  | last _ => rfl
  | @there before after item opens _ =>
      rw [none item (by simp)] at opens
      cases opens

/-- No block of another kind goes from before the place to after it. -/
theorem Placed.apart {items front back : List α} (placed : m.Placed items front back)
    (well : m.WellMarked false items) (apart : Apart m n false false items)
    (other : ∀ item, m.opens item = true → n.opens item = false)
    : ¬ (n.openAfter false front = true ∧ n.closing back = true) := by
  cases placed with
  | last none => simp [closing]
  | @there front back item opens none =>
      have spares := apart.spares well
      rw [dropped_append, dropped, opens, Bool.true_or] at spares
      have next : m.after (m.openAfter false front) item = true := by simp [after, opens]
      rw [next] at spares
      have joined := not_joined spares (other item opens)
      rwa [stay_dropped, stay_dropped] at joined

-----------------------------------------------------------------------------------------
-- A block put in its place
-----------------------------------------------------------------------------------------

variable (m) in
/-- One block, or none. -/
inductive OneBlock : List α → Prop
  | none : OneBlock []
  | block {first last : α} {middle : List α} (opens : m.opens first = true)
      (plain : ∀ item ∈ middle, m.Unmarked item) (stays : m.opens last = false)
      (closes : m.closes last = true)
      : OneBlock (first :: middle ++ [last])

theorem openAfter_of_not_opens {items : List α} (none : ∀ item ∈ items, m.opens item = false)
    : m.openAfter false items = false := by
  induction items with
  | nil => rfl
  | cons item rest ih =>
      obtain ⟨here, later⟩ := List.forall_mem_cons.mp none
      have same : m.after false item = false := by simp [after, here]
      rw [openAfter, List.foldl_cons, same]
      exact ih later

theorem left_unmarked {items : List α} (plain : ∀ item ∈ items, m.Unmarked item)
    : m.left true items = [] := by
  induction items with
  | nil => rfl
  | cons item rest ih =>
      obtain ⟨here, later⟩ := List.forall_mem_cons.mp plain
      rw [Marks.left, Bool.or_true, if_pos rfl, after_unmarked here, ih later]

theorem OneBlock.openAfter {block : List α} (one : m.OneBlock block)
    : m.openAfter false block = false := by
  cases one with
  | none => rfl
  | @block first last middle opens plain stays closes =>
      have next : m.after false first = true := by simp [after, opens]
      rw [List.cons_append, Marks.openAfter, List.foldl_cons, next, ← Marks.openAfter,
        openAfter_append, openAfter_unmarked plain]
      simp [Marks.openAfter, after, stays, closes]

theorem OneBlock.left {block : List α} (one : m.OneBlock block) : m.left false block = [] := by
  cases one with
  | none => rfl
  | @block first last middle opens plain stays closes =>
      have next : m.after false first = true := by simp [after, opens]
      rw [List.cons_append, Marks.left, opens, Bool.true_or, if_pos rfl, next, left_append,
        left_unmarked plain, openAfter_unmarked plain]
      simp [Marks.left]

/-- With its block put in anew, what is left outside of it is what was left before. -/
theorem left_insert {front block back : List α} (one : m.OneBlock block)
    (before : ∀ item ∈ front, m.opens item = false)
    (after : ∀ item ∈ back, m.opens item = false)
    : m.left false (front ++ block ++ back) = front ++ back := by
  rw [left_append, left_append, openAfter_append, left_of_not_opens before,
    openAfter_of_not_opens before, one.left, one.openAfter, left_of_not_opens after,
    List.append_nil]

/-- The block is found where it was put. -/
theorem OneBlock.placed {front block back : List α} (one : m.OneBlock block) (some : block ≠ [])
    (before : ∀ item ∈ front, m.opens item = false)
    (after : ∀ item ∈ back, m.opens item = false)
    : m.Placed (front ++ block ++ back) front back := by
  cases one with
  | none => contradiction
  | @block first last middle opens plain stays closes =>
      have rest : ∀ item ∈ middle ++ [last] ++ back, m.opens item = false := by
        intro item member
        simp only [List.mem_append, List.mem_singleton] at member
        obtain (inside | rfl) | behind := member
        · exact (plain item inside).1
        · exact stays
        · exact after item behind
      have kept : m.left true (middle ++ [last] ++ back) = back := by
        rw [left_append, left_append, openAfter_append, left_unmarked plain,
          openAfter_unmarked plain]
        have ended : m.openAfter true [last] = false := by
          simp [Marks.openAfter, Marks.after, stays, closes]
        rw [ended, left_of_not_opens after]
        simp [Marks.left]
      have placed := @Placed.there _ m front (middle ++ [last] ++ back) first opens rest
      rw [left_of_not_opens before, kept] at placed
      simpa using placed

theorem unnested_of_not_opens {items : List α} (none : ∀ item ∈ items, m.opens item = false)
    (opened : Bool)
    : m.unnested opened items = true := by
  induction items generalizing opened with
  | nil => rfl
  | cons item rest ih =>
      obtain ⟨here, later⟩ := List.forall_mem_cons.mp none
      simp [Marks.unnested, here, ih later]

theorem unnested_append (opened : Bool) (front back : List α)
    : m.unnested opened (front ++ back)
      = (m.unnested opened front && m.unnested (m.openAfter opened front) back) := by
  induction front generalizing opened with
  | nil => simp [Marks.unnested, Marks.openAfter]
  | cons item front ih =>
      simp only [List.cons_append, Marks.unnested, ih, Bool.and_assoc]
      rfl

theorem OneBlock.unnested {block : List α} (one : m.OneBlock block)
    : m.unnested false block = true := by
  cases one with
  | none => rfl
  | @block first last middle opens plain stays closes =>
      have next : m.after false first = true := by simp [after, opens]
      rw [List.cons_append, Marks.unnested, next, Bool.and_false, Bool.not_false,
        Bool.true_and]
      refine unnested_of_not_opens ?_ true
      intro item member
      obtain inside | is := List.mem_append.mp member
      · exact (plain item inside).1
      · rwa [List.mem_singleton.mp is]

theorem wellMarked_insert {front block back : List α} (one : m.OneBlock block)
    (before : ∀ item ∈ front, m.opens item = false)
    (after : ∀ item ∈ back, m.opens item = false)
    : m.WellMarked false (front ++ block ++ back) where
  unnested := by
    rw [unnested_append, unnested_append, openAfter_append, openAfter_of_not_opens before,
      one.openAfter, unnested_of_not_opens before, one.unnested, unnested_of_not_opens after]
    rfl
  closed := by
    rw [openAfter_append, openAfter_append, openAfter_of_not_opens before, one.openAfter,
      openAfter_of_not_opens after]

/-- The items of a well-marked list that are dropped. -/
theorem WellMarked.within {opened : Bool} {items : List α} (well : m.WellMarked opened items)
    : m.within opened items
      = ((m.dropped opened items).filter Prod.snd).map Prod.fst := by
  induction items generalizing opened with
  | nil => rfl
  | cons item rest ih =>
      rw [Marks.within, well.label, dropped, ih well.tail, List.filter_cons]
      cases m.opens item || opened <;> simp

theorem dropped_of_not_opens {items : List α} (none : ∀ item ∈ items, m.opens item = false)
    : m.dropped false items = items.map (·, false) := by
  induction items with
  | nil => rfl
  | cons item rest ih =>
      obtain ⟨here, later⟩ := List.forall_mem_cons.mp none
      have same : m.after false item = false := by simp [after, here]
      rw [dropped, same, ih later, here]
      rfl

theorem dropped_unmarked {items : List α} (plain : ∀ item ∈ items, m.Unmarked item)
    : m.dropped true items = items.map (·, true) := by
  induction items with
  | nil => rfl
  | cons item rest ih =>
      obtain ⟨here, later⟩ := List.forall_mem_cons.mp plain
      rw [dropped, after_unmarked here, ih later, Bool.or_true]
      rfl

theorem OneBlock.dropped {block : List α} (one : m.OneBlock block)
    : m.dropped false block = block.map (·, true) := by
  cases one with
  | none => rfl
  | @block first last middle opens plain stays closes =>
      have next : m.after false first = true := by simp [after, opens]
      rw [List.cons_append, Marks.dropped, opens, Bool.true_or, next, dropped_append,
        dropped_unmarked plain, openAfter_unmarked plain]
      simp [Marks.dropped]

theorem dropped_insert {front block back : List α} (one : m.OneBlock block)
    (before : ∀ item ∈ front, m.opens item = false)
    (after : ∀ item ∈ back, m.opens item = false)
    : m.dropped false (front ++ block ++ back)
      = front.map (·, false) ++ (block.map (·, true) ++ back.map (·, false)) := by
  rw [dropped_append, dropped_append, openAfter_append, openAfter_of_not_opens before,
    one.openAfter, one.dropped, dropped_of_not_opens before, dropped_of_not_opens after,
    List.append_assoc]

/-- The block put in is the only one. -/
theorem within_insert_block {front block back : List α} (one : m.OneBlock block)
    (before : ∀ item ∈ front, m.opens item = false)
    (after : ∀ item ∈ back, m.opens item = false)
    : m.within false (front ++ block ++ back) = block := by
  rw [(wellMarked_insert one before after).within, dropped_insert one before after]
  have none : ∀ items : List α, items.filter (fun _ => false) = [] := fun items =>
    List.filter_eq_nil_iff.mpr (by simp)
  have all : ∀ items : List α, items.filter (fun _ => true) = items := fun items =>
    List.filter_eq_self.mpr (by simp)
  simp [List.filter_map, Function.comp_def, none, all]

theorem apart_of_spares {opened other : Bool} {items : List α} (well : m.WellMarked opened items)
    (spares : n.Spares other (m.dropped opened items))
    : Apart m n opened other items := by
  induction items generalizing opened other with
  | nil => trivial
  | cons item rest ih =>
      obtain ⟨here, later⟩ := spares
      rw [map_dropped] at here
      refine ⟨?_, ih well.tail later⟩
      rintro ⟨mine, its⟩
      rw [here (well.label.symm.trans mine)] at its
      cases its

/-- A block with no marks of the other kind is apart from the blocks of that kind. -/
theorem apart_insert {front block back : List α} (one : m.OneBlock block)
    (before : ∀ item ∈ front, m.opens item = false)
    (after : ∀ item ∈ back, m.opens item = false) (plain : ∀ item ∈ block, n.Unmarked item)
    (joined : ¬ (n.openAfter false front = true ∧ n.closing back = true))
    : Apart m n false false (front ++ block ++ back) := by
  refine apart_of_spares (wellMarked_insert one before after) ?_
  rw [dropped_insert one before after]
  exact spares_insert plain joined

/-- Where no item that is left opens a block of the other kind, none does. -/
theorem Apart.not_opens {opened other : Bool} {items : List α} (well : m.WellMarked opened items)
    (well' : n.WellMarked other items) (apart : Apart m n opened other items)
    (none : ∀ item ∈ m.left opened items, n.opens item = false)
    : ∀ item ∈ items, n.opens item = false := by
  induction items generalizing opened other with
  | nil => simp
  | cons item rest ih =>
      rw [Marks.left] at none
      split at none
      case isTrue taken =>
        obtain ⟨here, -, -⟩ := apart.after_dropped well well' taken
        exact List.forall_mem_cons.mpr ⟨here, ih well.tail well'.tail apart.2 none⟩
      case isFalse =>
        obtain ⟨here, later⟩ := List.forall_mem_cons.mp none
        exact List.forall_mem_cons.mpr ⟨here, ih well.tail well'.tail apart.2 later⟩

theorem mem_left_insert {opened : Bool} {front block back : List α}
    (plain : ∀ item ∈ block, m.Unmarked item) {item : α}
    (member : item ∈ m.left opened (front ++ block ++ back))
    : item ∈ block ∨ item ∈ m.left opened (front ++ back) := by
  rw [left_append, left_append, openAfter_append, openAfter_unmarked plain] at member
  rw [left_append]
  simp only [List.mem_append] at member ⊢
  obtain (inFront | inBlock) | inBack := member
  · exact .inr (.inl inFront)
  · exact .inl ((left_sublist _ _).subset inBlock)
  · exact .inr (.inr inBack)

-----------------------------------------------------------------------------------------
-- Items changed in their place
-----------------------------------------------------------------------------------------

variable (m) in
/-- The change keeps what is a mark. -/
structure Respects (f : α → α) : Prop where
  opens : ∀ item, m.opens (f item) = m.opens item
  closes : ∀ item, m.closes (f item) = m.closes item

variable {f : α → α}

theorem Respects.after (respects : m.Respects f) (opened : Bool) (item : α)
    : m.after opened (f item) = m.after opened item := by
  rw [Marks.after, Marks.after, respects.opens, respects.closes]

theorem Respects.closing (respects : m.Respects f) (items : List α)
    : m.closing (items.map f) = m.closing items := by
  induction items with
  | nil => rfl
  | cons item rest ih =>
      rw [List.map_cons, Marks.closing, Marks.closing, respects.opens, respects.closes, ih]

theorem Respects.label (respects : m.Respects f) (opened : Bool) (item : α) (rest : List α)
    : m.label opened (f item) (rest.map f) = m.label opened item rest := by
  rw [Marks.label, Marks.label, respects.opens, respects.closing, ← List.map_cons,
    respects.closing]

theorem Respects.left (respects : m.Respects f) (opened : Bool) (items : List α)
    : m.left opened (items.map f) = (m.left opened items).map f := by
  induction items generalizing opened with
  | nil => rfl
  | cons item rest ih =>
      rw [List.map_cons, Marks.left, Marks.left, respects.opens, respects.after, ih]
      split <;> rfl

theorem Respects.within (respects : m.Respects f) (opened : Bool) (items : List α)
    : m.within opened (items.map f) = (m.within opened items).map f := by
  induction items generalizing opened with
  | nil => rfl
  | cons item rest ih =>
      rw [List.map_cons, Marks.within, Marks.within, respects.label, respects.after, ih]
      split <;> rfl

theorem Respects.wellMarked (respects : m.Respects f) {opened : Bool} {items : List α}
    (well : m.WellMarked opened items)
    : m.WellMarked opened (items.map f) := by
  induction items generalizing opened with
  | nil => exact well
  | cons item rest ih =>
      obtain ⟨unnested, closed⟩ := ih well.tail
      have here := well.unnested
      rw [Marks.unnested, Bool.and_eq_true] at here
      constructor
      · rw [List.map_cons, Marks.unnested, respects.opens, here.1, respects.after, unnested]
        rfl
      · rw [List.map_cons, openAfter, List.foldl_cons, respects.after]
        exact closed

theorem Apart.map (respects : m.Respects f) (respects' : n.Respects f) {opened other : Bool}
    {items : List α} (apart : Apart m n opened other items)
    : Apart m n opened other (items.map f) := by
  induction items generalizing opened other with
  | nil => trivial
  | cons item rest ih =>
      refine ⟨?_, ?_⟩
      · rw [respects.label, respects'.label]
        exact apart.1
      · rw [respects.after, respects'.after]
        exact ih apart.2

end Marks

end Delonix.Library.MarkedBlocks
