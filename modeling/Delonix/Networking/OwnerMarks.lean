import Delonix.Library.Text

/-! The engine's claim on an object of a remote provider: a tag with the token of the declaring
record, at the end of the object's text field. A text may already hold tags, well formed or not,
and the last one is the one that is read.
-/

namespace Delonix.Networking

open Delonix.Library.Text

abbrev Text := List Char

def markStart : Text := "[delonix-owner:".toList

def isTokenByte (c : Char) : Bool :=
  (97 ≤ c.toNat && c.toNat ≤ 122) || (48 ≤ c.toNat && c.toNat ≤ 57) || c == '-'

/-- 8 to 64 characters of `[a-z0-9-]`. -/
def validToken (token : Text) : Bool :=
  8 ≤ token.length && token.length ≤ 64 && token.all isTokenByte

/-- A validated owner token. -/
structure OwnerMark where
  token : Text
  valid : validToken token = true
  deriving DecidableEq, Repr

def OwnerMark.new (token : Text) : Except String OwnerMark :=
  if valid : validToken token = true then .ok ⟨token, valid⟩
  else
    .error ("invalid owner token '" ++ String.ofList token
      ++ "': 8 to 64 characters of [a-z0-9-]")

/-- What stands before and after the last occurrence of a text in another. -/
def cutAtLast (part : Text) : Text → Option (Text × Text)
  | [] => none
  | c :: rest =>
      match cutAtLast part rest with
      | some (before, after) => some (c :: before, after)
      | none => (stripStart part (c :: rest)).map fun after => ([], after)

/-- The token of the tag a text begins with, after its start, and what follows the tag. -/
def readTag (rest : Text) : Option (Text × Text) :=
  (splitOnce ']' rest).filter fun found => validToken found.1

/-- A text without its owner tag, and the tag's token if there was a well-formed one. -/
def splitMark (text : Text) : Text × Option Text :=
  match cutAtLast markStart text with
  | some (before, rest) =>
      match readTag rest with
      | some (token, after) =>
          let before := trimEnd before
          let after := trimStart after
          let base :=
            if after = [] then before
            else if before = [] then after
            else before ++ ' ' :: after
          (trim base, some token)
      | none => (trim text, none)
  | none => (trim text, none)

def OwnerMark.tag (mark : OwnerMark) : Text := markStart ++ mark.token ++ [']']

/-- A text with this mark appended, and without the one that was read from it. -/
def OwnerMark.stamp (mark : OwnerMark) (text : Text) : Text :=
  let base := (splitMark text).1
  if base = [] then mark.tag else base ++ ' ' :: mark.tag

/-- Who an object belongs to, read from its text field. -/
inductive Owner where
  | ours
  | other (token : Text)
  | unmarked
  deriving DecidableEq, Repr

def OwnerMark.ownerOf (mark : OwnerMark) (text : Text) : Owner :=
  match (splitMark text).2 with
  | some token => if token = mark.token then .ours else .other token
  | none => .unmarked

/-- The token of the well-formed tag a text begins with. -/
def tagHere (text : Text) : Option Text :=
  ((stripStart markStart text).bind readTag).map Prod.fst

/-- The tokens of all the well-formed tags of a text. -/
def tags : Text → List Text
  | [] => []
  | c :: rest => (tagHere (c :: rest)).toList ++ tags rest

/-- What a mark promises of the texts it is put on. -/
structure Stamped (mark : OwnerMark) (text : Text) : Prop where
  ours : mark.ownerOf (mark.stamp text) = .ours
  others : ∀ other : OwnerMark, other.token ≠ mark.token →
    other.ownerOf (mark.stamp text) = .other mark.token
  replaced : ∀ other : OwnerMark, other.stamp (mark.stamp text) = other.stamp text
  base : (splitMark (mark.stamp text)).1 = (splitMark text).1
  single : ∃ token, tags (mark.stamp text) = [token]

/-- No well-formed tag of the text has another start of a tag behind it. -/
def OneTag (text : Text) : Prop :=
  ∀ front back, text = front ++ back → (tagHere back).isSome →
    ∀ more rest, back = more ++ markStart ++ rest → more = []

theorem cutAtLast_eq_some {part text before after : Text}
    (cut : cutAtLast part text = some (before, after))
    : text = before ++ part ++ after := by
  induction text generalizing before after with
  | nil => cases cut
  | cons c rest ih =>
      rw [cutAtLast] at cut
      split at cut
      case h_1 before' after' found =>
        cases cut
        rw [ih found, List.cons_append, List.cons_append]
      case h_2 =>
        obtain ⟨after', starts, is⟩ := Option.map_eq_some_iff.mp cut
        cases is
        exact stripStart_eq_some.mp starts

/-- A part that is there is found. -/
theorem cutAtLast_isSome {part : Text} (nonempty : part ≠ []) (front back : Text)
    : (cutAtLast part (front ++ part ++ back)).isSome := by
  induction front with
  | nil =>
      cases part with
      | nil => exact absurd rfl nonempty
      | cons c part =>
          rw [List.nil_append, List.cons_append, cutAtLast]
          split
          · rfl
          · have starts : stripStart (c :: part) (c :: (part ++ back)) = some back :=
              stripStart_eq_some.mpr rfl
            rw [starts]
            rfl
  | cons d front ih =>
      obtain ⟨found, is⟩ := Option.isSome_iff_exists.mp ih
      rw [List.cons_append, List.cons_append, cutAtLast, is]
      rfl

/-- The part is not found again further on. -/
theorem cutAtLast_last {part text before after : Text} (nonempty : part ≠ [])
    (cut : cutAtLast part text = some (before, after)) {front back : Text}
    (is : text = front ++ part ++ back)
    : front.length ≤ before.length := by
  induction text generalizing before front with
  | nil => cases cut
  | cons c rest ih =>
      cases front with
      | nil => exact Nat.zero_le _
      | cons d front =>
          have rest_is : rest = front ++ part ++ back := (List.cons.inj is).2
          rw [cutAtLast] at cut
          split at cut
          case h_1 before' after' found =>
            cases cut
            exact Nat.succ_le_succ (ih found rest_is)
          case h_2 nowhere =>
            have found := cutAtLast_isSome nonempty front back
            rw [← rest_is, nowhere] at found
            cases found

theorem markStart_eq : markStart = '[' :: "delonix-owner:".toList := rfl

theorem markStart_ne_nil : markStart ≠ [] := by simp [markStart_eq]

theorem cutAtLast_markStart_of_not_mem {text : Text} (absent : '[' ∉ text)
    : cutAtLast markStart text = none := by
  induction text with
  | nil => rfl
  | cons c rest ih =>
      have notHere : stripStart markStart (c :: rest) = none := by
        rw [Option.eq_none_iff_forall_ne_some]
        intro after starts
        have is := stripStart_eq_some.mp starts
        rw [markStart_eq, List.cons_append] at is
        exact absent ((List.cons.inj is).1 ▸ List.mem_cons_self)
      rw [cutAtLast, ih fun later => absent (List.mem_cons_of_mem _ later), notHere]
      rfl

/-- Where no bracket opens behind it, a tag is found as the last one. -/
theorem cutAtLast_append_markStart (front : Text) {back : Text} (absent : '[' ∉ back)
    : cutAtLast markStart (front ++ markStart ++ back) = some (front, back) := by
  induction front with
  | nil =>
      have nowhere : cutAtLast markStart ("delonix-owner:".toList ++ back) = none := by
        apply cutAtLast_markStart_of_not_mem
        simpa using absent
      rw [List.nil_append, markStart_eq, List.cons_append, cutAtLast, ← markStart_eq, nowhere]
      rw [← List.cons_append, ← markStart_eq, stripStart_eq_some.mpr rfl]
      rfl
  | cons c front ih => rw [List.cons_append, List.cons_append, cutAtLast, ih]

theorem isTokenByte_of_valid {token : Text} (valid : validToken token = true) {c : Char}
    (member : c ∈ token)
    : isTokenByte c = true := by
  simp only [validToken, Bool.and_eq_true] at valid
  exact List.all_eq_true.mp valid.2 c member

theorem readTag_eq_some {rest token after : Text}
    : readTag rest = some (token, after)
      ↔ rest = token ++ ']' :: after ∧ validToken token = true := by
  rw [readTag, Option.filter_eq_some_iff]
  constructor
  · rintro ⟨cut, valid⟩
    exact ⟨(splitOnce_eq_some cut).1, valid⟩
  · rintro ⟨rfl, valid⟩
    refine ⟨splitOnce_append _ ?_, valid⟩
    intro member
    exact absurd (isTokenByte_of_valid valid member) (by decide)

theorem tagHere_eq_some {text token : Text}
    : tagHere text = some token
      ↔ ∃ after, text = markStart ++ token ++ ']' :: after ∧ validToken token = true := by
  simp only [tagHere, Option.map_eq_some_iff, Option.bind_eq_some_iff, Prod.exists,
    stripStart_eq_some, readTag_eq_some]
  constructor
  · rintro ⟨_, after, ⟨_, rfl, rfl, valid⟩, rfl⟩
    exact ⟨after, by simp, valid⟩
  · rintro ⟨after, rfl, valid⟩
    exact ⟨token, after, ⟨_, List.append_assoc _ _ _, rfl, valid⟩, rfl⟩

/-- A character no tag has behind its first one. -/
structure Breaks (c : Char) : Prop where
  start : c ∉ "delonix-owner:".toList
  token : isTokenByte c = false
  close : c ≠ ']'

theorem breaks_bracket : Breaks '[' := by
  constructor <;> decide

theorem breaks_of_isWhitespace {c : Char} (blank : isWhitespace c = true) : Breaks c := by
  have visible (d : Char) (low : 33 ≤ d.toNat) (high : d.toNat < 127) : c ≠ d := by
    rintro rfl
    rw [isWhitespace_eq_false_of_range low high] at blank
    cases blank
  constructor
  · intro member
    have range : "delonix-owner:".toList.all (fun d => 33 ≤ d.toNat ∧ d.toNat < 127) := by
      decide
    obtain ⟨low, high⟩ := of_decide_eq_true (List.all_eq_true.mp range c member)
    exact visible c low high rfl
  · cases is : isTokenByte c with
    | false => rfl
    | true =>
        simp only [isTokenByte, Bool.or_eq_true, Bool.and_eq_true, decide_eq_true_eq,
          beq_iff_eq] at is
        rcases is with (⟨low, high⟩ | ⟨low, high⟩) | rfl
        · exact absurd rfl (visible c (by omega) (by omega))
        · exact absurd rfl (visible c (by omega) (by omega))
        · exact absurd blank (by decide)
  · exact visible ']' (by decide) (by decide)

/-- A tag that has begun ends before such a character. -/
theorem tagHere_append {c : Char} (breaks : Breaks c) {text : Text} (begun : text ≠ [])
    (rest : Text)
    : tagHere (text ++ c :: rest) = tagHere text := by
  ext token
  rw [tagHere_eq_some, tagHere_eq_some]
  constructor
  · rintro ⟨after, is, valid⟩
    have whole : text ++ c :: rest = (markStart ++ token ++ [']']) ++ after := by simp [is]
    rcases List.append_eq_append_iff.mp whole with ⟨gap, tag, later⟩ | ⟨gap, here, -⟩
    · cases gap with
      | nil => exact ⟨[], by simpa using tag.symm, valid⟩
      | cons d gap =>
          -- The character would be inside the tag.
          obtain ⟨rfl, -⟩ := List.cons.inj later
          obtain ⟨first, text, rfl⟩ := List.exists_cons_of_ne_nil begun
          rw [markStart_eq, List.cons_append, List.cons_append, List.cons_append] at tag
          have member : c ∈ "delonix-owner:".toList ++ token ++ [']'] := by
            rw [(List.cons.inj tag).2]
            simp
          simp only [List.mem_append, List.mem_singleton] at member
          rcases member with (start | inside) | close
          · exact absurd start breaks.start
          · exact absurd (isTokenByte_of_valid valid inside) (by simp [breaks.token])
          · exact absurd close breaks.close
    · exact ⟨gap, by simp [here], valid⟩
  · rintro ⟨after, rfl, valid⟩
    exact ⟨after ++ c :: rest, by simp, valid⟩

theorem tagHere_append_of_eq_some {text token : Text} (here : tagHere text = some token)
    (rest : Text)
    : tagHere (text ++ rest) = some token := by
  obtain ⟨after, rfl, valid⟩ := tagHere_eq_some.mp here
  exact tagHere_eq_some.mpr ⟨after ++ rest, by simp, valid⟩

/-- The tags of a text are those before such a character and those from it on. -/
theorem tags_append {c : Char} (breaks : Breaks c) (text rest : Text)
    : tags (text ++ c :: rest) = tags text ++ tags (c :: rest) := by
  induction text with
  | nil => rfl
  | cons d text ih =>
      have here := tagHere_append breaks (List.cons_ne_nil d text) rest
      rw [List.cons_append] at here
      rw [List.cons_append, tags, tags, here, ih, List.append_assoc]

theorem tags_eq_nil {text : Text}
    : tags text = [] ↔ ∀ front back, text = front ++ back → tagHere back = none := by
  induction text with
  | nil =>
      refine iff_of_true rfl ?_
      intro front back is
      rw [(List.append_eq_nil_iff.mp is.symm).2]
      rfl
  | cons c text ih =>
      rw [tags, List.append_eq_nil_iff, Option.toList_eq_nil_iff, ih]
      constructor
      · rintro ⟨here, later⟩ front back is
        cases front with
        | nil =>
            rw [List.nil_append] at is
            exact is ▸ here
        | cons d front => exact later front back (List.cons.inj is).2
      · intro nowhere
        exact ⟨nowhere [] _ rfl, fun front back is => nowhere (c :: front) back (by rw [is]; rfl)⟩

/-- A tag is there only where its start is. -/
theorem tags_eq_nil_of_cut {text : Text} (cut : cutAtLast markStart text = none)
    : tags text = [] := by
  rw [tags_eq_nil]
  rintro front back rfl
  rw [Option.eq_none_iff_forall_ne_some]
  intro token here
  obtain ⟨after, rfl, -⟩ := tagHere_eq_some.mp here
  have found := cutAtLast_isSome markStart_ne_nil front (token ++ ']' :: after)
  simp only [List.append_assoc] at cut found
  rw [cut] at found
  cases found

theorem tags_blank_append {blank : Text} (blanks : ∀ c ∈ blank, isWhitespace c = true)
    (text : Text)
    : tags (blank ++ text) = tags text := by
  induction blank with
  | nil => rfl
  | cons c blank ih =>
      have nowhere : tagHere (c :: (blank ++ text)) = none := by
        rw [Option.eq_none_iff_forall_ne_some]
        intro token here
        obtain ⟨after, is, -⟩ := tagHere_eq_some.mp here
        rw [markStart_eq, List.cons_append, List.cons_append] at is
        have blank := blanks c List.mem_cons_self
        rw [(List.cons.inj is).1] at blank
        exact absurd blank (by decide)
      rw [List.cons_append, tags, nowhere,
        ih fun d member => blanks d (List.mem_cons_of_mem _ member)]
      rfl

theorem tags_append_blank {blank : Text} (blanks : ∀ c ∈ blank, isWhitespace c = true)
    (text : Text)
    : tags (text ++ blank) = tags text := by
  cases blank with
  | nil => rw [List.append_nil]
  | cons c blank =>
      have none := tags_blank_append blanks []
      rw [List.append_nil] at none
      rw [tags_append (breaks_of_isWhitespace (blanks c List.mem_cons_self)), none]
      exact List.append_nil _

theorem tags_trimStart (text : Text) : tags (trimStart text) = tags text := by
  obtain ⟨blank, is, blanks⟩ := trimStart_spec text
  conv => rhs; rw [is, tags_blank_append blanks]

theorem tags_trimEnd (text : Text) : tags (trimEnd text) = tags text := by
  obtain ⟨blank, is, blanks⟩ := trimEnd_spec text
  conv => rhs; rw [is, tags_append_blank blanks]

theorem tags_trim (text : Text) : tags (trim text) = tags text := by
  rw [trim, tags_trimEnd, tags_trimStart]

theorem tags_cons_space (text : Text) : tags (' ' :: text) = tags text := by
  have blanks : ∀ c ∈ [' '], isWhitespace c = true := by
    intro c member
    rw [List.mem_singleton.mp member]
    rfl
  exact tags_blank_append blanks text

/-- Behind the last start of a tag there is no other one. -/
theorem tags_behind_last {text before rest : Text}
    (cut : cutAtLast markStart text = some (before, rest))
    : tags ("delonix-owner:".toList ++ rest) = [] := by
  apply tags_eq_nil_of_cut
  rw [Option.eq_none_iff_forall_ne_some]
  rintro ⟨front, back⟩ later
  have whole : text = (before ++ '[' :: front) ++ markStart ++ back := by
    rw [cutAtLast_eq_some cut, markStart_eq]
    simp only [List.append_assoc, List.cons_append]
    rw [cutAtLast_eq_some later, markStart_eq, List.append_assoc, List.cons_append]
  have last := cutAtLast_last markStart_ne_nil cut whole
  simp at last

/-- The last start of a tag separates the tag it may begin from all the others. -/
theorem tags_of_cut {text before rest : Text}
    (cut : cutAtLast markStart text = some (before, rest))
    : tags text = tags before ++ ((readTag rest).map Prod.fst).toList := by
  have here : tagHere (markStart ++ rest) = (readTag rest).map Prod.fst := by
    rw [tagHere, stripStart_eq_some.mpr rfl]
    rfl
  have behind := tags_behind_last cut
  rw [markStart_eq, List.cons_append] at here
  rw [cutAtLast_eq_some cut, markStart_eq, List.append_assoc, List.cons_append,
    tags_append breaks_bracket, tags, here, behind, List.append_nil]

/-- The texts with one tag at most are those with none before the last start of one. -/
theorem oneTag_iff_of_cut {text before rest : Text}
    (cut : cutAtLast markStart text = some (before, rest))
    : OneTag text ↔ tags before = [] := by
  have whole := cutAtLast_eq_some cut
  rw [tags_eq_nil]
  constructor
  · rintro one front back rfl
    rw [Option.eq_none_iff_forall_ne_some]
    intro token here
    have begun : back ≠ [] := by
      rintro rfl
      cases here
    have still : tagHere (back ++ markStart ++ rest) = some token := by
      rw [markStart_eq, List.append_assoc, List.cons_append,
        tagHere_append breaks_bracket begun, here]
    refine begun (one front (back ++ markStart ++ rest) ?_ ?_ back rest rfl)
    · rw [whole, List.append_assoc, List.append_assoc, List.append_assoc]
    · rw [still]
      rfl
  · rintro nowhere front back is here more rest' rfl
    by_contra begun
    -- The tag has another start behind it, so all of it stands before the last one.
    have again : text = (front ++ more) ++ markStart ++ rest' := by
      rw [is, List.append_assoc, List.append_assoc, List.append_assoc]
    have early := cutAtLast_last markStart_ne_nil cut again
    rw [markStart_eq, List.append_assoc, List.cons_append,
      tagHere_append breaks_bracket begun] at here
    have left : front ++ more <+: text := ⟨markStart ++ rest', by simp [again]⟩
    have right : before <+: text := ⟨markStart ++ rest, by simp [whole]⟩
    have both : front ++ more <+: before := List.prefix_of_prefix_length_le left right early
    obtain ⟨gap, rfl⟩ := both
    obtain ⟨token, here⟩ := Option.isSome_iff_exists.mp here
    have still := tagHere_append_of_eq_some here gap
    rw [nowhere front (more ++ gap) (List.append_assoc _ _ _)] at still
    cases still

/-- The text that is left holds no tag exactly where there was one at most. -/
theorem tags_base_eq_nil {text : Text} : tags (splitMark text).1 = [] ↔ OneTag text := by
  rw [splitMark]
  split
  case h_1 before rest cut =>
    rw [oneTag_iff_of_cut cut]
    have all := tags_of_cut cut
    split
    case h_1 token after read =>
      have after_none : tags after = [] := by
        obtain ⟨rfl, -⟩ := readTag_eq_some.mp read
        have behind := tags_eq_nil.mp (tags_behind_last cut)
        rw [tags_eq_nil]
        rintro front back rfl
        exact behind ("delonix-owner:".toList ++ token ++ ']' :: front) back (by simp)
      have joined : tags (if trimStart after = [] then trimEnd before
          else if trimEnd before = [] then trimStart after
          else trimEnd before ++ ' ' :: trimStart after) = tags before := by
        split
        · exact tags_trimEnd before
        · split
          case isTrue empty =>
            rw [tags_trimStart, after_none, ← tags_trimEnd before, empty]
            rfl
          · rw [tags_append (breaks_of_isWhitespace (by decide)), tags_cons_space,
              tags_trimStart, after_none, tags_trimEnd, List.append_nil]
      rw [tags_trim, joined]
    case h_2 malformed =>
      rw [malformed] at all
      rw [tags_trim, all]
      exact iff_of_eq (congrArg (· = []) (List.append_nil _))
  case h_2 nowhere =>
    have none := tags_eq_nil_of_cut nowhere
    rw [tags_trim]
    refine iff_of_true none ?_
    intro front back is here
    rw [tags_eq_nil.mp none front back is] at here
    cases here

section
variable (mark : OwnerMark) (text : Text)

theorem trim_base : trim (splitMark text).1 = (splitMark text).1 := by
  rw [splitMark]
  split
  · split
    · exact trim_trim _
    · exact trim_trim _
  · exact trim_trim _

theorem not_mem_token {c : Char} (other : isTokenByte c = false) : c ∉ mark.token := by
  intro member
  rw [isTokenByte_of_valid mark.valid member] at other
  cases other

/-- A mark behind blanks is read back, with the text before it. -/
theorem splitMark_append_tag (before : Text)
    : splitMark (before ++ mark.tag) = (trim (trimEnd before), some mark.token) := by
  have absent : '[' ∉ mark.token ++ [']'] := by
    simp [not_mem_token mark (c := '[') (by decide)]
  have read : readTag (mark.token ++ [']']) = some (mark.token, []) :=
    readTag_eq_some.mpr ⟨rfl, mark.valid⟩
  rw [splitMark, OwnerMark.tag, List.append_assoc, ← List.append_assoc,
    cutAtLast_append_markStart before absent]
  simp only [read]
  rfl

theorem splitMark_stamp
    : splitMark (mark.stamp text) = ((splitMark text).1, some mark.token) := by
  rw [OwnerMark.stamp]
  split
  case isTrue empty =>
    have read := splitMark_append_tag mark []
    rw [empty]
    exact read
  case isFalse =>
    have read := splitMark_append_tag mark ((splitMark text).1 ++ [' '])
    have space : trimEnd ((splitMark text).1 ++ [' ']) = trimEnd (splitMark text).1 :=
      List.rdropWhile_concat_pos _ _ _ (by decide)
    rw [space, ← trim_base, trimEnd_trim, trim_trim, trim_base] at read
    rw [← read, List.append_assoc]
    rfl

/-- All that is kept of a text is what is left without its tag. -/
theorem stamp_eq_of_base {text text' : Text}
    (same : (splitMark text).1 = (splitMark text').1)
    : mark.stamp text = mark.stamp text' := by
  rw [OwnerMark.stamp, same]
  rfl

theorem tags_stamp : tags (mark.stamp text) = tags (splitMark text).1 ++ [mark.token] := by
  have alone : tags mark.tag = [mark.token] := by
    have absent : '[' ∉ mark.token ++ [']'] := by
      simp [not_mem_token mark (c := '[') (by decide)]
    have all := tags_of_cut (cutAtLast_append_markStart [] absent)
    rw [readTag_eq_some.mpr ⟨rfl, mark.valid⟩] at all
    rw [OwnerMark.tag, List.append_assoc]
    exact all
  rw [OwnerMark.stamp]
  split
  case isTrue empty =>
    rw [alone, empty]
    rfl
  case isFalse =>
    rw [tags_append (breaks_of_isWhitespace (by decide)), tags_cons_space, alone]

end

/-- A mark keeps all its promises exactly on the texts with one tag at most: whatever the text
holds, the mark is read back, tells its owner from the others and is the one that the next mark
replaces, but of several tags only the last one is dropped for it.
-/
theorem stamped_iff_oneTag (mark : OwnerMark) (text : Text)
    : Stamped mark text ↔ OneTag text := by
  have split := splitMark_stamp mark text
  rw [← tags_base_eq_nil]
  constructor
  · intro stamped
    obtain ⟨token, single⟩ := stamped.single
    have count := congrArg List.length single
    rw [tags_stamp, List.length_append, List.length_singleton, List.length_singleton] at count
    exact List.eq_nil_of_length_eq_zero (by omega)
  · intro none
    constructor
    case ours => simp [OwnerMark.ownerOf, split]
    case others =>
      intro other different
      simp [OwnerMark.ownerOf, split, different.symm]
    case replaced =>
      intro other
      exact stamp_eq_of_base other (by rw [split])
    case base => rw [split]
    case single => exact ⟨mark.token, by rw [tags_stamp, none, List.nil_append]⟩

/-- A description with two marks still holds one of them, before the new one. -/
theorem second_tag_stays
    : ¬ ∀ (mark : OwnerMark) (text : Text), Stamped mark text := by
  intro always
  let mark : OwnerMark := ⟨"dlx-0123456789abcdef".toList, by decide⟩
  let text := "x [delonix-owner:dlx-ffffffff] [delonix-owner:dlx-eeeeeeee]".toList
  have two : (tags (mark.stamp text)).length = 2 := by decide +kernel
  obtain ⟨token, single⟩ := (always mark text).single
  rw [single] at two
  cases two

end Delonix.Networking
