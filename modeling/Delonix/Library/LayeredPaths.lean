import Mathlib.Data.List.Induction
import Mathlib.Data.List.Infix

/-! Paths that layers provide and hide, executed mark by mark. A mark puts a directory or a file at
a path, with the directories above it, or takes away what is at or below a path. The paths that are
there in the end are compared with those that some layer puts and no later layer takes.
-/

namespace Delonix.Library.LayeredPaths

variable {ν : Type} [DecidableEq ν]

inductive Mark (ν : Type) where
  | put (path : List ν) (dir : Bool)
  /-- The path, and what is below it. -/
  | drop (path : List ν)
  /-- What is below the path. -/
  | clear (path : List ν)
  deriving DecidableEq

/-- Strictly above a path. -/
def Above (q p : List ν) : Prop := q <+: p ∧ q ≠ p

instance (q p : List ν) : Decidable (Above q p) := inferInstanceAs (Decidable (_ ∧ _))

omit [DecidableEq ν] in
theorem Above.trans_prefix {q p r : List ν} (above : Above q p) (start : p <+: r) : Above q r := by
  refine ⟨above.1.trans start, ?_⟩
  rintro rfl
  exact above.2 (above.1.eq_of_length_le start.length_le)

omit [DecidableEq ν] in
def Mark.Gives (p : List ν) : Mark ν → Prop
  | .put path _ => p <+: path
  | _ => False

def Mark.Takes (p : List ν) : Mark ν → Prop
  | .put _ _ => False
  | .drop path => path <+: p
  | .clear path => Above path p

instance (p : List ν) (m : Mark ν) : Decidable (m.Gives p) := by
  cases m <;> unfold Mark.Gives <;> infer_instance

instance (p : List ν) (m : Mark ν) : Decidable (m.Takes p) := by
  cases m <;> unfold Mark.Takes <;> infer_instance

omit [DecidableEq ν] in
theorem Mark.Gives.not_takes {p : List ν} {m : Mark ν} (gives : m.Gives p) : ¬ m.Takes p := by
  cases m with
  | put => exact id
  | drop => exact gives.elim
  | clear => exact gives.elim

/-- Which paths are there, and whether they are directories. -/
abbrev Shape (ν : Type) := List ν → Option Bool

/-- A file stands above the path. -/
def Shape.Blocks (s : Shape ν) (p : List ν) : Prop := ∃ q, Above q p ∧ s q = some false

instance (s : Shape ν) (p : List ν) : Decidable (s.Blocks p) :=
  decidable_of_iff (∃ q ∈ p.inits, q ≠ p ∧ s q = some false)
    (by simp only [List.mem_inits, Shape.Blocks, Above, and_assoc])

/-- A path that is there keeps what it is. Nothing is put below a file. -/
def Shape.apply (s : Shape ν) : Mark ν → Shape ν
  | .put path dir =>
      if s.Blocks path then s
      else fun p =>
        (s p).or (if p = path then some dir else if p <+: path then some true else none)
  | .drop path => fun p => if path <+: p then none else s p
  | .clear path => fun p => if Above path p then none else s p

/-- Above each path there are directories. -/
def Shape.Closed (s : Shape ν) : Prop := ∀ q p, Above q p → (s p).isSome → s q = some true

omit [DecidableEq ν] in
theorem Shape.Closed.absent {s : Shape ν} (closed : s.Closed) {p : List ν} (blocks : s.Blocks p)
    : s p = none := by
  obtain ⟨q, above, file⟩ := blocks
  rw [← Option.not_isSome_iff_eq_none]
  intro there
  rw [closed q p above there] at file
  cases file

theorem Shape.Closed.apply {s : Shape ν} (closed : s.Closed) (m : Mark ν)
    : (s.apply m).Closed := by
  intro q p above there
  cases m with
  | put path dir =>
      simp only [Shape.apply] at there ⊢
      split
      case isTrue blocked =>
        rw [if_pos blocked] at there
        exact closed q p above there
      case isFalse free =>
        rw [if_neg free] at there
        cases old : s p with
        | some kind =>
            have dir := closed q p above (by rw [old]; rfl)
            simp [dir]
        | none =>
            have start : p <+: path := by
              rw [old, Option.none_or] at there
              split at there
              case isTrue is => exact is ▸ List.prefix_rfl
              case isFalse =>
                split at there
                case isTrue start => exact start
                case isFalse => cases there
            have up := above.trans_prefix start
            cases kind : s q with
            | none => simp [kind, up.1, up.2]
            | some dir =>
                cases dir with
                | true => simp [kind]
                | false => exact absurd ⟨q, up, kind⟩ free
  | drop path =>
      simp only [Shape.apply] at there ⊢
      split at there
      case isTrue => cases there
      case isFalse apart =>
        rw [if_neg fun start => apart (start.trans above.1)]
        exact closed q p above there
  | clear path =>
      simp only [Shape.apply] at there ⊢
      split at there
      case isTrue => cases there
      case isFalse apart =>
        rw [if_neg fun up => apart (up.trans_prefix above.1)]
        exact closed q p above there

/-- What a mark leaves: what it does not take of what was there, and what it gives where no file is
in the way.
-/
theorem Shape.apply_isSome {s : Shape ν} (closed : s.Closed) (m : Mark ν) (p : List ν)
    : (s.apply m p).isSome
      ↔ ¬ m.Takes p ∧ ((s p).isSome ∨ m.Gives p ∧ ¬ s.Blocks p) := by
  cases m with
  | drop path => by_cases start : path <+: p <;> simp [Shape.apply, Mark.Takes, Mark.Gives, start]
  | clear path => by_cases up : Above path p <;> simp [Shape.apply, Mark.Takes, Mark.Gives, up]
  | put path dir =>
      simp only [Shape.apply, Mark.Takes, Mark.Gives, not_false_eq_true, true_and]
      split
      case isTrue blocked =>
        -- The file in the way stands above `p`, or `p` is at or above the file.
        refine ⟨.inl, ?_⟩
        rintro (there | ⟨start, free⟩)
        · exact there
        · obtain ⟨q, up, file⟩ := blocked
          rcases List.prefix_or_prefix_of_prefix start up.1 with below | below
          · by_cases same : p = q
            · rw [same, file]
              rfl
            · rw [closed p q ⟨below, same⟩ (by rw [file]; rfl)]
              rfl
          · by_cases same : q = p
            · rw [← same, file]
              rfl
            · exact absurd ⟨q, ⟨below, same⟩, file⟩ free
      case isFalse free =>
        have unblocked (start : p <+: path) : ¬ s.Blocks p := by
          rintro ⟨q, up, file⟩
          exact free ⟨q, up.trans_prefix start, file⟩
        cases old : s p with
        | some kind => simp [old]
        | none =>
            by_cases same : p = path
            · subst same
              simp [old, free]
            · by_cases start : p <+: path
              · simp [old, same, start, unblocked start]
              · simp [old, same, start]

/-- What is there already, nothing has to be put for. -/
theorem Shape.Closed.apply_put {s : Shape ν} (closed : s.Closed) {path : List ν}
    (there : (s path).isSome) (dir : Bool)
    : s.apply (.put path dir) = s := by
  funext p
  have free : ¬ s.Blocks path := by
    intro blocks
    rw [closed.absent blocks] at there
    cases there
  simp only [Shape.apply, if_neg free]
  by_cases same : p = path
  · obtain ⟨kind, is⟩ := Option.isSome_iff_exists.mp there
    simp [same, is]
  · by_cases start : p <+: path
    · simp [closed p path ⟨start, same⟩ there]
    · simp [same, start]

/-- A directory on the way to a path may be put first. -/
theorem Shape.apply_put_put {s : Shape ν} {q path : List ν} (free : ¬ s.Blocks path)
    (start : q <+: path)
    : (s.apply (.put q true)).apply (.put path true) = s.apply (.put path true) := by
  have first : ¬ s.Blocks q := by
    rintro ⟨r, above, file⟩
    exact free ⟨r, above.trans_prefix start, file⟩
  have second : ¬ (s.apply (.put q true)).Blocks path := by
    rintro ⟨r, above, file⟩
    simp only [Shape.apply, if_neg first] at file
    cases old : s r with
    | some kind => exact free ⟨r, above, by simpa [old] using file⟩
    | none =>
        rw [old, Option.none_or] at file
        split at file
        · cases file
        · split at file <;> cases file
  funext p
  rw [Shape.apply, if_neg second, Shape.apply, if_neg first, Shape.apply, if_neg free]
  cases s p with
  | some kind => rfl
  | none =>
      by_cases up : p <+: q
      · simp [up, up.trans start]
      · have other : p ≠ q := fun same => up (same ▸ List.prefix_rfl)
        simp [up, other]

/-- No file is on the way through a directory to something that is not there. -/
theorem Shape.Closed.free {s : Shape ν} (closed : s.Closed) {done rest : List ν} {name : ν}
    (dir : s done = some true) (absent : s (done ++ [name]) = none)
    : ¬ s.Blocks (done ++ name :: rest) := by
  rintro ⟨q, above, file⟩
  have next : done ++ [name] <+: done ++ name :: rest := ⟨rest, by simp⟩
  rcases List.prefix_or_prefix_of_prefix above.1 next with up | down
  · rcases List.prefix_concat_iff.mp up with rfl | up
    · rw [absent] at file
      cases file
    · by_cases same : q = done
      · rw [same, dir] at file
        cases file
      · rw [closed q done ⟨up, same⟩ (by rw [dir]; rfl)] at file
        cases file
  · by_cases same : done ++ [name] = q
    · rw [← same, absent] at file
      cases file
    · rw [closed _ q ⟨down, same⟩ (by rw [file]; rfl)] at absent
      cases absent

/-- Something is put by making the directory it belongs in, and by adding it where that is one. -/
theorem Shape.Closed.apply_put_concat {s : Shape ν} (closed : s.Closed) (parent : List ν) (name : ν)
    (dir : Bool)
    : s.apply (.put (parent ++ [name]) dir)
      = if s.apply (.put parent true) parent = some true then
          fun p =>
            if p = parent ++ [name] then (s.apply (.put parent true) p).or (some dir)
            else s.apply (.put parent true) p
        else s.apply (.put parent true) := by
  have next : Above parent (parent ++ [name]) := ⟨List.prefix_append _ _, by simp⟩
  by_cases blocks : s.Blocks (parent ++ [name])
  · -- The file in the way is the parent, or in its way too.
    have unmade : s.apply (.put parent true) = s ∧ s parent ≠ some true := by
      obtain ⟨q, above, file⟩ := id blocks
      have start := (List.prefix_concat_iff.mp above.1).resolve_left above.2
      by_cases same : q = parent
      · subst same
        exact ⟨closed.apply_put (by rw [file]; rfl) true, by simp [file]⟩
      · have up : s.Blocks parent := ⟨q, ⟨start, same⟩, file⟩
        exact ⟨by rw [Shape.apply, if_pos up], by simp [closed.absent up]⟩
    rw [unmade.1, if_neg unmade.2, Shape.apply, if_pos blocks]
  · have free : ¬ s.Blocks parent := by
      rintro ⟨q, above, file⟩
      exact blocks ⟨q, above.trans_prefix next.1, file⟩
    have made (p : List ν) : s.apply (.put parent true) p
        = (s p).or (if p <+: parent then some true else none) := by
      rw [Shape.apply, if_neg free]
      by_cases same : p = parent <;> simp [same]
    have isDir : s.apply (.put parent true) parent = some true := by
      rw [made]
      cases kind : s parent with
      | none => simp
      | some dir =>
          cases dir with
          | true => rfl
          | false => exact absurd ⟨parent, next, kind⟩ blocks
    rw [if_pos isDir]
    funext p
    rw [Shape.apply, if_neg blocks, made]
    by_cases same : p = parent ++ [name]
    · have notStart : ¬ parent ++ [name] <+: parent := by
        intro start
        have short := start.length_le
        simp only [List.length_append, List.length_singleton] at short
        omega
      simp [same, notStart]
    · simp [same, List.prefix_concat_iff]

def Shape.applyAll (s : Shape ν) (marks : List (Mark ν)) : Shape ν := marks.foldl Shape.apply s

theorem Shape.applyAll_append (s : Shape ν) (front back : List (Mark ν))
    : s.applyAll (front ++ back) = (s.applyAll front).applyAll back :=
  List.foldl_append

theorem Shape.Closed.applyAll {s : Shape ν} (closed : s.Closed) (marks : List (Mark ν))
    : (s.applyAll marks).Closed := by
  induction marks generalizing s with
  | nil => exact closed
  | cons m rest ih => exact ih (closed.apply m)

/-- A path is there in the end when some mark gave it, no file being in the way, and none took it
afterwards.
-/
theorem Shape.applyAll_isSome {s : Shape ν} (closed : s.Closed) {p : List ν} (absent : s p = none)
    (marks : List (Mark ν))
    : (s.applyAll marks p).isSome
      ↔ ∃ front m back, marks = front ++ m :: back ∧ m.Gives p ∧ ¬ (s.applyAll front).Blocks p
        ∧ ∀ later ∈ back, ¬ later.Takes p := by
  induction marks using List.reverseRecOn with
  | nil => simp [Shape.applyAll, absent]
  | append_singleton marks last ih =>
      have step : s.applyAll (marks ++ [last]) = (s.applyAll marks).apply last := by
        rw [Shape.applyAll_append]
        rfl
      rw [step, Shape.apply_isSome (closed.applyAll marks), ih]
      constructor
      · rintro ⟨kept, ⟨front, m, back, rfl, gives, free, untaken⟩ | ⟨gives, free⟩⟩
        · refine ⟨front, m, back ++ [last], by simp, gives, free, ?_⟩
          intro later member
          rcases List.mem_append.mp member with early | is
          · exact untaken later early
          · exact List.mem_singleton.mp is ▸ kept
        · exact ⟨marks, last, [], rfl, gives, free, by simp⟩
      · rintro ⟨front, m, back, is, gives, free, untaken⟩
        rcases List.eq_nil_or_concat back with rfl | ⟨earlier, newest, rfl⟩
        · obtain ⟨rfl, same⟩ := List.append_inj' is rfl
          obtain rfl := List.head_eq_of_cons_eq same
          exact ⟨gives.not_takes, .inr ⟨gives, free⟩⟩
        · have split : marks ++ [last] = (front ++ m :: earlier) ++ [newest] := by simpa using is
          obtain ⟨rfl, same⟩ := List.append_inj' split rfl
          obtain rfl := List.head_eq_of_cons_eq same
          refine ⟨untaken last (by simp), .inl ⟨front, m, earlier, rfl, gives, free, ?_⟩⟩
          exact fun later member => untaken later (by simp [member])

/-- What marks that do not give a path leave of it was there, and none of them took it. -/
theorem Shape.isSome_of_applyAll {s : Shape ν} (closed : s.Closed) {p : List ν}
    {marks : List (Mark ν)} (none : ∀ m ∈ marks, ¬ m.Gives p)
    (there : (s.applyAll marks p).isSome)
    : (s p).isSome ∧ ∀ m ∈ marks, ¬ m.Takes p := by
  induction marks generalizing s with
  | nil => exact ⟨there, by simp⟩
  | cons m rest ih =>
      obtain ⟨after, untaken⟩ :=
        ih (closed.apply m) (fun later member => none later (by simp [member])) there
      obtain ⟨kept, before | ⟨gives, -⟩⟩ := (Shape.apply_isSome closed m p).mp after
      · exact ⟨before, List.forall_mem_cons.mpr ⟨kept, untaken⟩⟩
      · exact absurd gives (none m (by simp))

/-- Some layer gives the path, and no later layer takes it. -/
def Provided (layers : List (List (Mark ν))) (p : List ν) : Prop :=
  ∃ before layer after, layers = before ++ layer :: after ∧ (∃ m ∈ layer, m.Gives p)
    ∧ ∀ later ∈ after, ∀ m ∈ later, ¬ m.Takes p

/-- The last mark to give a path, where no later layer takes it, has no file in its way, and no
later mark of its own layer takes the path.
-/
def Undisturbed (s : Shape ν) (layers : List (List (Mark ν))) : Prop :=
  ∀ before front m back after, layers = before ++ (front ++ m :: back) :: after →
    ∀ p, s p = none → m.Gives p → (∀ later ∈ back ++ after.flatten, ¬ later.Gives p) →
      (∀ later ∈ after.flatten, ¬ later.Takes p) →
      (∀ later ∈ back, ¬ later.Takes p) ∧ ¬ (s.applyAll (before.flatten ++ front)).Blocks p

omit [DecidableEq ν] in
/-- An element of one of the lists, at its place in both. -/
theorem flatten_split {α : Type} {lists : List (List α)} {front back : List α} {item : α}
    (is : lists.flatten = front ++ item :: back)
    : ∃ before first rest after, lists = before ++ (first ++ item :: rest) :: after
      ∧ front = before.flatten ++ first ∧ back = rest ++ after.flatten := by
  induction lists generalizing front with
  | nil => simp at is
  | cons list lists ih =>
      rw [List.flatten_cons] at is
      rcases List.append_eq_append_iff.mp is with ⟨more, rfl, later⟩ | ⟨more, rfl, here⟩
      · obtain ⟨before, first, rest, after, rfl, rfl, rfl⟩ := ih later
        exact ⟨list :: before, first, rest, after, by simp, by simp, rfl⟩
      · cases more with
        | nil =>
            obtain ⟨before, first, rest, after, rfl, none, rfl⟩ := @ih [] here.symm
            exact ⟨_ :: before, first, rest, after, rfl, by simp [← none], rfl⟩
        | cons head more =>
            obtain ⟨rfl, rfl⟩ := List.cons.inj here
            exact ⟨[], front, more, lists, by simp, by simp, rfl⟩

omit [DecidableEq ν] in
/-- The last of those that satisfy a condition. -/
theorem exists_last {α : Type} {condition : α → Prop} {items : List α}
    (holding : ∃ item ∈ items, condition item)
    : ∃ front item back, items = front ++ item :: back ∧ condition item
      ∧ ∀ later ∈ back, ¬ condition later := by
  induction items with
  | nil =>
      obtain ⟨item, member, -⟩ := holding
      cases member
  | cons first rest ih =>
      by_cases later : ∃ item ∈ rest, condition item
      · obtain ⟨front, item, back, rfl, holds, none⟩ := ih later
        exact ⟨first :: front, item, back, rfl, holds, none⟩
      · obtain ⟨item, member, holds⟩ := holding
        rcases List.mem_cons.mp member with rfl | among
        · exact ⟨[], item, rest, rfl, holds, fun other mem is => later ⟨other, mem, is⟩⟩
        · exact absurd ⟨item, among, holds⟩ later

/-- What is there in the end, some layer gave and no later one took. -/
theorem provided_of_isSome {s : Shape ν} (closed : s.Closed) {layers : List (List (Mark ν))}
    {p : List ν} (absent : s p = none) (there : (s.applyAll layers.flatten p).isSome)
    : Provided layers p := by
  obtain ⟨front, m, back, is, gives, -, untaken⟩ := (Shape.applyAll_isSome closed absent _).mp there
  obtain ⟨before, first, rest, after, rfl, rfl, rfl⟩ := flatten_split is
  refine ⟨before, first ++ m :: rest, after, rfl, ⟨m, by simp, gives⟩, ?_⟩
  intro later among mark member
  exact untaken mark (List.mem_append_right _ (List.mem_flatten.mpr ⟨later, among, member⟩))

omit [DecidableEq ν] in
/-- A provided path has a last mark that gives it, and no layer behind that one takes it. -/
theorem Provided.last {layers : List (List (Mark ν))} {p : List ν} (provided : Provided layers p)
    : ∃ before front m back after, layers = before ++ (front ++ m :: back) :: after ∧ m.Gives p
      ∧ (∀ later ∈ back ++ after.flatten, ¬ later.Gives p)
      ∧ ∀ later ∈ after.flatten, ¬ later.Takes p := by
  obtain ⟨early, layer, late, rfl, gives, untaken⟩ := provided
  obtain ⟨before, chosen, after, is, ⟨giver, among, gave⟩, none⟩ :=
    @exists_last _ (fun layer : List (Mark ν) => ∃ m ∈ layer, m.Gives p) (layer :: late)
      ⟨layer, by simp, gives⟩
  obtain ⟨front, m, back, rfl, gives, later⟩ := exists_last ⟨giver, among, gave⟩
  refine ⟨early ++ before, front, m, back, after, by rw [is]; simp, gives, ?_, ?_⟩
  · intro mark member
    rcases List.mem_append.mp member with here | behind
    · exact later mark here
    · obtain ⟨other, mem, its⟩ := List.mem_flatten.mp behind
      exact fun gave => none other mem ⟨mark, its, gave⟩
  · intro mark member
    obtain ⟨other, mem, its⟩ := List.mem_flatten.mp member
    refine untaken other ?_ mark its
    -- The layers behind the last giver are behind the layer that was named.
    cases before with
    | nil =>
        obtain ⟨-, rfl⟩ := List.cons.inj is
        exact mem
    | cons _ before =>
        obtain ⟨-, rfl⟩ := List.cons.inj is
        simp [mem]

/-- Executing the layers mark by mark leaves exactly what they provide where they are undisturbed,
and only there.
-/
theorem isSome_iff_provided_iff {s : Shape ν} (closed : s.Closed) (layers : List (List (Mark ν)))
    : (∀ p, s p = none → ((s.applyAll layers.flatten p).isSome ↔ Provided layers p))
      ↔ Undisturbed s layers := by
  constructor
  · intro agrees before front m back after is p absent gives none untaken
    subst is
    have provided : Provided (before ++ (front ++ m :: back) :: after) p :=
      ⟨before, _, after, rfl, ⟨m, by simp, gives⟩, fun later among mark member =>
        untaken mark (List.mem_flatten.mpr ⟨later, among, member⟩)⟩
    have there := (agrees p absent).mpr provided
    have is : (before ++ (front ++ m :: back) :: after).flatten
        = (before.flatten ++ front) ++ m :: (back ++ after.flatten) := by simp
    rw [is, Shape.applyAll_append] at there
    have reached := closed.applyAll (before.flatten ++ front)
    obtain ⟨given, kept⟩ := Shape.isSome_of_applyAll (reached.apply m) none there
    refine ⟨fun later member => kept later (List.mem_append_left _ member), fun blocked => ?_⟩
    obtain ⟨-, old | ⟨-, free⟩⟩ := (Shape.apply_isSome reached m p).mp given
    · rw [reached.absent blocked] at old
      cases old
    · exact free blocked
  · intro undisturbed p absent
    refine ⟨provided_of_isSome closed absent, fun provided => ?_⟩
    obtain ⟨before, front, m, back, after, rfl, gives, none, untaken⟩ := provided.last
    obtain ⟨kept, free⟩ := undisturbed before front m back after rfl p absent gives none untaken
    refine (Shape.applyAll_isSome closed absent _).mpr
      ⟨before.flatten ++ front, m, back ++ after.flatten, by simp, gives, free, ?_⟩
    intro later member
    rcases List.mem_append.mp member with here | behind
    · exact kept later here
    · exact untaken later behind

omit [DecidableEq ν] in
theorem provided_cons {layer : List (Mark ν)} {rest : List (List (Mark ν))} {p : List ν}
    : Provided (layer :: rest) p
      ↔ ((∃ m ∈ layer, m.Gives p) ∧ ∀ later ∈ rest, ∀ m ∈ later, ¬ m.Takes p)
        ∨ Provided rest p := by
  constructor
  · rintro ⟨before, chosen, after, is, gives, untaken⟩
    cases before with
    | nil =>
        obtain ⟨rfl, rfl⟩ := List.cons.inj is
        exact .inl ⟨gives, untaken⟩
    | cons _ before =>
        obtain ⟨rfl, rfl⟩ := List.cons.inj is
        exact .inr ⟨before, chosen, after, rfl, gives, untaken⟩
  · rintro (⟨gives, untaken⟩ | ⟨before, chosen, after, rfl, gives, untaken⟩)
    · exact ⟨[], layer, rest, rfl, gives, untaken⟩
    · exact ⟨layer :: before, chosen, after, rfl, gives, untaken⟩

omit [DecidableEq ν] in
/-- What layers provide does not depend on the order inside each of them. -/
theorem provided_reordered {layers others : List (List (Mark ν))}
    (same : List.Forall₂ List.Perm layers others) {p : List ν}
    : Provided layers p ↔ Provided others p := by
  have untaken {layers others : List (List (Mark ν))} (same : List.Forall₂ List.Perm layers others)
      : (∀ later ∈ layers, ∀ m ∈ later, ¬ m.Takes p)
        ↔ ∀ later ∈ others, ∀ m ∈ later, ¬ m.Takes p := by
    induction same with
    | nil => rfl
    | cons perm _ ih => simp only [List.forall_mem_cons, ih, perm.mem_iff]
  induction same with
  | nil => rfl
  | cons perm rest ih => simp only [provided_cons, ih, perm.mem_iff, untaken rest]

end Delonix.Library.LayeredPaths
