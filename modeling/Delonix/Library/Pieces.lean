import Delonix.Library.Text
import Mathlib.Data.List.Basic
import Mathlib.Data.List.Infix

/-! Texts inside others: a text that lacks a separator is inside a separated text exactly when
it is inside one of the pieces.
-/

namespace Delonix.Library.Pieces

variable {α : Type}

/-- What lacks the element between two lists is inside both only by being inside one. -/
theorem infix_append_cons_iff {t front back : List α} {c : α} (absent : c ∉ t)
    : t <:+: front ++ c :: back ↔ t <:+: front ∨ t <:+: back := by
  constructor
  · rintro ⟨before, after, same⟩
    rcases List.append_eq_append_iff.mp same with ⟨rest, rfl, _⟩ | ⟨rest, whole, tail⟩
    · exact .inl ⟨before, rest, rfl⟩
    · cases rest with
      | nil =>
          rw [List.append_nil] at whole
          exact .inl ⟨before, [], by simpa using whole⟩
      | cons d inner =>
          obtain ⟨rfl, later⟩ := List.cons.inj tail
          rcases List.append_eq_append_iff.mp whole with ⟨gap, _, crossing⟩ | ⟨gap, _, inside⟩
          · exact absurd (crossing ▸ List.mem_append_right gap List.mem_cons_self) absent
          · cases gap with
            | nil =>
                rw [List.nil_append] at inside
                exact absurd (inside ▸ List.mem_cons_self) absent
            | cons e gap =>
                obtain ⟨_, rfl⟩ := List.cons.inj inside
                exact .inr ⟨gap, after, later.symm⟩
  · rintro (⟨before, after, rfl⟩ | ⟨before, after, rfl⟩)
    · exact ⟨before, after ++ c :: back, by simp⟩
    · exact ⟨front ++ c :: before, after, by simp⟩

/-- Joined pieces, by induction over them. -/
theorem infix_intercalate_iff {t : List α} {sep : α} (absent : sep ∉ t) (nonempty : t ≠ [])
    (pieces : List (List α))
    : t <:+: [sep].intercalate pieces ↔ ∃ piece ∈ pieces, t <:+: piece := by
  induction pieces with
  | nil => simpa using nonempty
  | cons first rest ih =>
      cases rest with
      | nil => simp
      | cons second others =>
          have joined : [sep].intercalate (first :: second :: others)
              = first ++ sep :: [sep].intercalate (second :: others) := by
            rw [List.intercalate_cons_cons]
            simp
          rw [joined, infix_append_cons_iff absent, ih]
          simp only [List.mem_cons, exists_eq_or_imp]

/-- The pieces around the elements that the text has none of. -/
theorem infix_iff_splitOnP {p : α → Bool} {t : List α} (plain : ∀ c ∈ t, p c = false)
    (s : List α)
    : t <:+: s ↔ ∃ piece ∈ s.splitOnP p, t <:+: piece := by
  have cut (front : List α) (clear : ∀ c ∈ front, p c = false) {c : α} (mark : p c = true)
      (back : List α)
      : (front ++ c :: back).splitOnP p = front :: back.splitOnP p := by
    rw [List.splitOnP_append_cons _ _ mark, List.splitOnP_eq_singleton clear]
    rfl
  suffices every : ∀ front, (∀ c ∈ front, p c = false)
      → (t <:+: front ++ s ↔ ∃ piece ∈ (front ++ s).splitOnP p, t <:+: piece) by
    exact every [] (by simp)
  induction s with
  | nil =>
      intro front clear
      rw [List.append_nil, List.splitOnP_eq_singleton clear]
      simp
  | cons c back ih =>
      intro front clear
      cases mark : p c with
      | false =>
          have longer := ih (front ++ [c]) (by
            simp only [List.mem_append, List.mem_singleton]
            rintro d (inFront | rfl)
            · exact clear d inFront
            · exact mark)
          rwa [List.append_assoc, List.singleton_append] at longer
      | true =>
          have absent : c ∉ t := fun member => by simp [plain c member] at mark
          have later : t <:+: back ↔ ∃ piece ∈ back.splitOnP p, t <:+: piece := ih [] (by simp)
          rw [infix_append_cons_iff absent, cut front clear mark, later]
          simp only [List.mem_cons, exists_eq_or_imp]

/-- The pieces of a cut text lack what it was cut at. -/
theorem not_mem_of_mem_splitOn [BEq α] [LawfulBEq α] {sep : α} {s piece : List α}
    (member : piece ∈ s.splitOn sep)
    : sep ∉ piece := by
  suffices every : ∀ front, sep ∉ front → ∀ piece ∈ (front ++ s).splitOn sep, sep ∉ piece by
    exact every [] (by simp) piece member
  clear member piece
  induction s with
  | nil =>
      intro front absent piece member
      rw [List.append_nil, List.splitOn_eq_singleton absent, List.mem_singleton] at member
      rwa [member]
  | cons c back ih =>
      intro front absent piece member
      by_cases same : c = sep
      · subst same
        rw [List.splitOn_append_cons_self_of_not_mem absent] at member
        rcases List.mem_cons.mp member with rfl | later
        · exact absent
        · exact ih [] (by simp) piece later
      · have longer : sep ∉ front ++ [c] := by
          rw [List.mem_append, List.mem_singleton, not_or]
          exact ⟨absent, Ne.symm same⟩
        apply ih (front ++ [c]) longer
        rwa [List.append_assoc, List.singleton_append]

/-- What a joined list holds is of the separator or of a piece. -/
theorem mem_intercalate {sep : List α} {pieces : List (List α)} {x : α}
    (member : x ∈ sep.intercalate pieces)
    : x ∈ sep ∨ ∃ piece ∈ pieces, x ∈ piece := by
  induction pieces with
  | nil => simp at member
  | cons piece rest ih =>
      cases rest with
      | nil => exact .inr ⟨piece, by simp, by simpa using member⟩
      | cons second others =>
          rw [List.intercalate_cons_cons, List.append_assoc, List.mem_append,
            List.mem_append] at member
          rcases member with here | between | later
          · exact .inr ⟨piece, List.mem_cons_self, here⟩
          · exact .inl between
          · refine (ih later).imp_right ?_
            intro found
            obtain ⟨other, held, inside⟩ := found
            exact ⟨other, List.mem_cons_of_mem _ held, inside⟩

theorem subset_intercalate (sep : List α) {pieces : List (List α)} {piece : List α}
    (member : piece ∈ pieces)
    : piece ⊆ sep.intercalate pieces := by
  induction pieces with
  | nil => simp at member
  | cons first rest ih =>
      cases rest with
      | nil => simp [List.mem_singleton.mp member]
      | cons second others =>
          rw [List.intercalate_cons_cons]
          rcases List.mem_cons.mp member with rfl | later
          · exact List.Subset.trans (List.subset_append_left _ _) (List.subset_append_left _ _)
          · exact List.Subset.trans (ih later) (List.subset_append_right _ _)

/-- The pieces of a cut text are of its elements. -/
theorem subset_of_mem_splitOn [BEq α] [LawfulBEq α] {sep : α} {s piece : List α}
    (member : piece ∈ s.splitOn sep)
    : piece ⊆ s := by
  have inside := subset_intercalate [sep] member
  rwa [List.intercalate_splitOn] at inside

end Delonix.Library.Pieces

/-! Lists of texts joined by one separator character. -/

namespace Delonix.Library.Text

/-- The texts with the separator between them. -/
def joinWith (sep : Char) (items : List String) : String :=
  String.ofList (List.intercalate [sep] (items.map String.toList))

/-- A text that can stand in a joined list without changing its cuts. -/
def Plain (sep : Char) (item : String) : Prop := sep ∉ item.toList ∧ item ≠ ""

theorem joinWith_nil (sep : Char) : joinWith sep [] = "" := by simp [joinWith]

theorem joinWith_singleton (sep : Char) (item : String) : joinWith sep [item] = item := by
  simp [joinWith]

theorem joinWith_cons_cons (sep : Char) (first second : String) (rest : List String)
    : joinWith sep (first :: second :: rest)
      = first ++ String.singleton sep ++ joinWith sep (second :: rest) := by
  rw [← String.toList_inj]
  simp [joinWith, List.intercalate_cons_cons]

theorem mem_joinWith {sep c : Char} {items : List String}
    (member : c ∈ (joinWith sep items).toList)
    : c = sep ∨ ∃ item ∈ items, c ∈ item.toList := by
  induction items with
  | nil => simp [joinWith_nil] at member
  | cons item rest ih =>
      cases rest with
      | nil => exact .inr ⟨item, by simp, by simpa [joinWith_singleton] using member⟩
      | cons second others =>
          rw [joinWith_cons_cons] at member
          simp only [String.toList_append, List.mem_append, String.toList_singleton,
            List.mem_singleton] at member
          obtain (inItem | isSep) | inRest := member
          · exact .inr ⟨item, by simp, inItem⟩
          · exact .inl isSep
          · obtain isSep | ⟨other, held, inOther⟩ := ih inRest
            · exact .inl isSep
            · exact .inr ⟨other, List.mem_cons_of_mem _ held, inOther⟩

/-- Cutting a joined list of plain texts at the separators gives the list back. -/
theorem splitOn_joinWith {sep : Char} {items : List String}
    (plain : ∀ item ∈ items, Plain sep item) (nonempty : items ≠ [])
    : (joinWith sep items).toList.splitOn sep = items.map String.toList := by
  rw [joinWith, String.toList_ofList]
  apply List.splitOn_intercalate
  · intro part member
    obtain ⟨item, held, rfl⟩ := List.mem_map.mp member
    exact (plain item held).1
  · simpa using nonempty

theorem joinWith_eq_empty {sep : Char} {items : List String}
    (plain : ∀ item ∈ items, Plain sep item) (empty : joinWith sep items = "")
    : items = [] := by
  cases items with
  | nil => rfl
  | cons item rest =>
      have cut := splitOn_joinWith plain (by simp)
      rw [empty] at cut
      simp only [String.toList_empty, List.splitOn_nil, List.map_cons, List.cons.injEq] at cut
      exact ((plain item (by simp)).2 (by simpa using cut.1.symm)).elim

/-- Two lists of plain texts with one joined form are equal. -/
theorem joinWith_injective {sep : Char} {left right : List String}
    (hl : ∀ item ∈ left, Plain sep item) (hr : ∀ item ∈ right, Plain sep item)
    (same : joinWith sep left = joinWith sep right)
    : left = right := by
  cases left with
  | nil => exact (joinWith_eq_empty hr (same.symm.trans (joinWith_nil sep))).symm
  | cons headLeft restLeft =>
      cases right with
      | nil => exact joinWith_eq_empty hl (same.trans (joinWith_nil sep))
      | cons headRight restRight =>
          have cuts := congrArg (fun text => List.splitOn sep text.toList) same
          simp only [splitOn_joinWith hl (by simp), splitOn_joinWith hr (by simp)] at cuts
          exact List.map_injective_iff.mpr (fun _ _ => String.toList_inj.mp) cuts

/-- The decimal spelling determines the number. -/
theorem toString_nat_injective {m n : Nat} (same : toString m = toString n) : m = n := by
  have digits : decimal m = decimal n := by
    simpa [Nat.toString_eq_repr, Nat.toList_repr] using congrArg String.toList same
  have read : parseUnsigned 10 (max m n) (decimal m) = some m :=
    parseUnsigned_decimal (by omega)
  rw [digits, parseUnsigned_decimal (by omega)] at read
  exact (Option.some.inj read).symm

theorem toString_bool_injective {a b : Bool} (same : toString a = toString b) : a = b := by
  cases a <;> cases b <;> first | rfl | exact absurd same (by decide)

end Delonix.Library.Text

/-! The components of a path, as the host language takes a text of any alphabet apart: empty parts
and dots between the slashes are skipped, and a dot counts only where it leads a relative path.
-/

namespace Delonix.Library.UnixPath

variable {α : Type} [DecidableEq α]

inductive Component (α : Type) where
  | rootDir
  | curDir
  | parentDir
  | normal (name : List α)
deriving DecidableEq

def pieceComponent (dot : α) (piece : List α) : Option (Component α) :=
  if piece = [] ∨ piece = [dot] then none
  else if piece = [dot, dot] then some .parentDir
  else some (.normal piece)

def components (slash dot : α) (path : List α) : List (Component α) :=
  let pieces := path.splitOn slash
  let lead :=
    if path.head? = some slash then [.rootDir]
    else if pieces.head? = some [dot] then [.curDir] else []
  lead ++ pieces.filterMap (pieceComponent dot)

end Delonix.Library.UnixPath
