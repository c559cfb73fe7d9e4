import Delonix.Build.Substitute
import Mathlib.Data.List.Induction

/-! What substitution means: a line falls into occurrences of known names and characters that are
kept. The scan agrees with it but behind a name in braces that has more bytes than characters.
-/

namespace Delonix.Build

open Delonix.Library.Text
open Delonix.Security (utf8Len)

-----------------------------------------------------------------------------------------
-- Pieces of a line
-----------------------------------------------------------------------------------------

/-- A character that is kept, or a name with the value that replaces it. -/
inductive Piece where
  | kept (c : Char)
  | braced (name val : String)
  | bare (name val : String)

def Piece.text : Piece → List Char
  | .kept c => [c]
  | .braced _ val => val.toList
  | .bare _ val => val.toList

def Piece.isValue : Piece → Bool
  | .kept _ => false
  | .braced _ _ => true
  | .bare _ _ => true

def textOf (pieces : List Piece) : List Char := pieces.flatMap Piece.text

/-- A known name stands at the front of a text, in braces or as its longest name. -/
inductive Occurs (known : Vars) : List Char → Prop where
  | braced {name val : String} {rest : List Char} (closed : '\x7d' ∉ name.toList)
    (held : known[name]? = some val)
    : Occurs known ('$' :: '\x7b' :: (name.toList ++ '\x7d' :: rest))
  | bare {name val : String} {rest : List Char} (isName : IsName name.toList)
    (longest : ∀ c ∈ rest.head?, isNameChar c = false) (held : known[name]? = some val)
    : Occurs known ('$' :: (name.toList ++ rest))

/-- The pieces of a text from left to right. -/
inductive Expands (known : Vars) : List Char → List Piece → Prop where
  | nil : Expands known [] []
  | braced {name val : String} {rest : List Char} {pieces : List Piece}
    (closed : '\x7d' ∉ name.toList) (held : known[name]? = some val)
    (later : Expands known rest pieces)
    : Expands known ('$' :: '\x7b' :: (name.toList ++ '\x7d' :: rest))
      (.braced name val :: pieces)
  | bare {name val : String} {rest : List Char} {pieces : List Piece}
    (isName : IsName name.toList) (longest : ∀ c ∈ rest.head?, isNameChar c = false)
    (held : known[name]? = some val) (later : Expands known rest pieces)
    : Expands known ('$' :: (name.toList ++ rest)) (.bare name val :: pieces)
  | kept {c : Char} {rest : List Char} {pieces : List Piece} (free : ¬ Occurs known (c :: rest))
    (later : Expands known rest pieces)
    : Expands known (c :: rest) (.kept c :: pieces)

/-- Behind some output, a value makes it too long. -/
def PassesFrom (out : List Char) (pieces : List Piece) : Prop :=
  ∃ front piece back, pieces = front ++ piece :: back ∧ piece.isValue = true
    ∧ maxSubstitutedLen < utf8Len (out ++ textOf (front ++ [piece]))

def PassesLimit (pieces : List Piece) : Prop := PassesFrom [] pieces

variable {known : Vars} {line out : List Char} {pieces : List Piece}

theorem passesFrom_cons {piece : Piece}
    : PassesFrom out (piece :: pieces)
      ↔ (piece.isValue = true ∧ maxSubstitutedLen < utf8Len (out ++ piece.text))
        ∨ PassesFrom (out ++ piece.text) pieces := by
  constructor
  · rintro ⟨front, value, back, is, isValue, large⟩
    cases front with
    | nil =>
        obtain ⟨rfl, rfl⟩ := List.cons.inj is
        exact .inl ⟨isValue, by simpa [textOf] using large⟩
    | cons first front =>
        obtain ⟨rfl, rfl⟩ := List.cons.inj is
        exact .inr ⟨front, value, back, rfl, isValue, by simpa [textOf] using large⟩
  · rintro (⟨isValue, large⟩ | ⟨front, value, back, rfl, isValue, large⟩)
    · exact ⟨[], piece, pieces, rfl, isValue, by simpa [textOf] using large⟩
    · exact ⟨piece :: front, value, back, rfl, isValue, by simpa [textOf] using large⟩

theorem not_passesFrom_nil : ¬ PassesFrom out [] := by
  rintro ⟨front, _, _, is, -⟩
  cases front <;> cases is

/-- Every text has pieces, by induction over its length. -/
theorem exists_expands (known : Vars) (text : List Char) : ∃ pieces, Expands known text pieces := by
  induction small : text.length using Nat.strong_induction_on generalizing text with
  | _ n ih =>
    cases text with
    | nil => exact ⟨[], .nil⟩
    | cons c rest =>
        have next (rest : List Char) (shorter : rest.length < n)
            : ∃ pieces, Expands known rest pieces :=
          ih rest.length shorter rest rfl
        rw [List.length_cons] at small
        by_cases occurs : Occurs known (c :: rest)
        · cases occurs with
          | @braced name val rest closed held =>
              simp only [List.length_cons, List.length_append] at small
              obtain ⟨pieces, later⟩ := next rest (by omega)
              exact ⟨_, .braced closed held later⟩
          | @bare name val rest isName longest held =>
              rw [List.length_append] at small
              obtain ⟨pieces, later⟩ := next rest (by omega)
              exact ⟨_, .bare isName longest held later⟩
        · obtain ⟨pieces, later⟩ := next rest (by omega)
          exact ⟨_, .kept occurs later⟩

/-- A name in braces ends at the first closing one. -/
theorem braced_inj {name name' : String} {rest rest' : List Char} (closed : '\x7d' ∉ name.toList)
    (closed' : '\x7d' ∉ name'.toList)
    (same : name.toList ++ '\x7d' :: rest = name'.toList ++ '\x7d' :: rest')
    : name = name' ∧ rest = rest' := by
  have cuts := congrArg (splitOnce '\x7d') same
  rw [splitOnce_append rest closed, splitOnce_append rest' closed'] at cuts
  obtain ⟨names, rests⟩ := Prod.mk.inj (Option.some.inj cuts)
  exact ⟨String.toList_inj.mp names, rests⟩

theorem bare_inj {name name' : String} {rest rest' : List Char} (isName : IsName name.toList)
    (isName' : IsName name'.toList) (longest : ∀ c ∈ rest.head?, isNameChar c = false)
    (longest' : ∀ c ∈ rest'.head?, isNameChar c = false)
    (same : name.toList ++ rest = name'.toList ++ rest')
    : name = name' ∧ rest = rest' := by
  have cuts := congrArg bareName same
  rw [bareName_append isName longest, bareName_append isName' longest'] at cuts
  obtain rfl := String.toList_inj.mp cuts
  exact ⟨rfl, List.append_cancel_left same⟩

/-- No name starts with a brace. -/
theorem IsName.append_ne_brace {name : List Char} (isName : IsName name) (rest back : List Char)
    : name ++ rest ≠ '\x7b' :: back := by
  obtain ⟨c, tail, rfl, starts, -⟩ := isName.starts
  intro same
  obtain ⟨rfl, -⟩ := List.cons.inj same
  exact absurd starts (by decide)

/-- The pieces of a text are determined, by induction over them. -/
theorem Expands.unique {text : List Char} {left right : List Piece}
    (hl : Expands known text left) (hr : Expands known text right)
    : left = right := by
  generalize again : text = text' at hr
  induction hl generalizing text' right with
  | nil =>
      subst again
      cases hr
      rfl
  | @braced name val rest pieces closed held later ih =>
      cases hr with
      | nil => cases again
      | braced closed' held' later' =>
          obtain ⟨rfl, rfl⟩ := braced_inj closed closed' (List.cons.inj (List.cons.inj again).2).2
          rw [ih _ rfl later', Option.some.inj (held.symm.trans held')]
      | bare isName' longest' held' later' =>
          exact absurd (List.cons.inj again).2.symm (isName'.append_ne_brace _ _)
      | kept free' later' => exact absurd (again ▸ .braced closed held) free'
  | @bare name val rest pieces isName longest held later ih =>
      cases hr with
      | nil => cases again
      | braced closed' held' later' =>
          exact absurd (List.cons.inj again).2 (isName.append_ne_brace _ _)
      | bare isName' longest' held' later' =>
          obtain ⟨rfl, rfl⟩ := bare_inj isName isName' longest longest' (List.cons.inj again).2
          rw [ih _ rfl later', Option.some.inj (held.symm.trans held')]
      | kept free' later' => exact absurd (again ▸ .bare isName longest held) free'
  | kept free later ih =>
      cases hr with
      | nil => cases again
      | braced closed' held' later' => exact absurd (again ▸ .braced closed' held') free
      | bare isName' longest' held' later' =>
          exact absurd (again ▸ .bare isName' longest' held') free
      | kept free' later' =>
          obtain ⟨rfl, rfl⟩ := List.cons.inj again
          rw [ih _ rfl later']

-----------------------------------------------------------------------------------------
-- The scan and the pieces
-----------------------------------------------------------------------------------------

/-- A character at which no known name occurs is kept by the scan. -/
theorem substituteFrom_kept {c : Char} {rest : List Char} (free : ¬ Occurs known (c :: rest))
    (out : List Char)
    : substituteFrom line known 0 out (c :: rest)
      = substituteFrom line known 0 (out ++ [c]) rest := by
  rw [substituteFrom]
  by_cases dollar : c = '$'
  · subst dollar
    simp only [ne_eq, not_true_eq_false, if_false]
    split
    case isTrue brace =>
      obtain ⟨after, rfl⟩ := List.head?_eq_some_iff.mp brace
      cases cut : splitOnce '\x7d' after with
      | none => simp only [List.tail_cons, cut]
      | some parts =>
          obtain ⟨name, back⟩ := parts
          obtain ⟨whole, closed⟩ := splitOnce_eq_some cut
          cases held : known[String.ofList name]? with
          | none => simp only [List.tail_cons, cut, held]
          | some val =>
              refine absurd ?_ free
              rw [whole, ← String.toList_ofList (l := name)]
              exact .braced (by rwa [String.toList_ofList]) held
    case isFalse =>
      by_cases empty : bareName rest = []
      · simp only [empty, List.isEmpty_nil, if_true]
      · obtain ⟨isName, back, whole, longest⟩ := bareName_spec empty
        rw [List.isEmpty_eq_false_iff.mpr empty, if_neg Bool.false_ne_true]
        cases held : known[String.ofList (bareName rest)]? with
        | none => rfl
        | some val =>
            refine absurd ?_ free
            rw [whole, ← String.toList_ofList (l := bareName rest)]
            exact .bare (by rwa [String.toList_ofList]) longest held
  · rw [if_pos dollar]

/-- What the scan is to give for the pieces of a text. -/
structure Agrees (line out : List Char) (pieces : List Piece)
    (result : Except Error (List Char)) : Prop where
  expanded : ¬ PassesFrom out pieces → result = .ok (out ++ textOf pieces)
  refused : PassesFrom out pieces → result = .error (substitutedTooLarge line)

/-- No name in braces has more bytes than characters, but one behind which nothing follows, or that
is not reached within the limit.
-/
def SkipsNothing (out : List Char) (pieces : List Piece) : Prop :=
  ∀ front name val back, pieces = front ++ .braced name val :: back →
    isAscii name.toList = true ∨ back = [] ∨ PassesFrom out (front ++ [.braced name val])

theorem SkipsNothing.tail {piece : Piece} (skips : SkipsNothing out (piece :: pieces))
    (small : ¬ (piece.isValue = true ∧ maxSubstitutedLen < utf8Len (out ++ piece.text)))
    : SkipsNothing (out ++ piece.text) pieces := by
  rintro front name val back rfl
  refine (skips (piece :: front) name val back rfl).imp_right (Or.imp_right fun passes => ?_)
  rw [List.cons_append, passesFrom_cons] at passes
  exact passes.resolve_left small

/-- One value in front of pieces that the scan agrees with. -/
theorem agrees_value {piece : Piece} (isValue : piece.isValue = true)
    {later : Except Error (List Char)}
    (agrees : utf8Len (out ++ piece.text) ≤ maxSubstitutedLen
      → Agrees line (out ++ piece.text) pieces later)
    : Agrees line out (piece :: pieces)
      (if maxSubstitutedLen < utf8Len (out ++ piece.text) then .error (substitutedTooLarge line)
        else later) := by
  split
  case isTrue large =>
    have passes : PassesFrom out (piece :: pieces) := passesFrom_cons.mpr (.inl ⟨isValue, large⟩)
    exact ⟨fun small => absurd passes small, fun _ => rfl⟩
  case isFalse small =>
    have rest := agrees (Nat.le_of_not_lt small)
    constructor
    · intro none
      rw [passesFrom_cons, not_or] at none
      rw [rest.expanded none.2]
      simp [textOf]
    · intro passes
      exact rest.refused ((passesFrom_cons.mp passes).resolve_left fun large => small large.2)

/-- The scan agrees with the pieces of a text behind any output, by induction over them. -/
theorem agrees_of_expands {text : List Char} (expands : Expands known text pieces)
    (skips : SkipsNothing out pieces)
    : Agrees line out pieces (substituteFrom line known 0 out text) := by
  induction expands generalizing out with
  | nil =>
      refine ⟨fun _ => ?_, fun passes => absurd passes not_passesFrom_nil⟩
      simp [substituteFrom, textOf]
  | @braced name val rest pieces closed held later ih =>
      rw [substituteFrom_braced closed held]
      refine agrees_value rfl fun small => ?_
      have next := ih (skips.tail fun large => absurd large.2 (Nat.not_lt.mpr small))
      rcases skips [] name val pieces rfl with ascii | rfl | passes
      · rwa [(utf8Len_eq_length_iff _).mpr ascii, Nat.sub_self, List.drop_zero]
      · cases later
        rw [List.drop_nil]
        exact next
      · rw [List.nil_append, passesFrom_cons] at passes
        rcases passes with ⟨-, large⟩ | none
        · exact absurd large (Nat.not_lt.mpr small)
        · exact absurd none not_passesFrom_nil
  | @bare name val rest pieces isName longest held later ih =>
      rw [substituteFrom_bare isName longest held]
      exact agrees_value rfl fun small =>
        ih (skips.tail fun large => absurd large.2 (Nat.not_lt.mpr small))
  | @kept c rest pieces free later ih =>
      rw [substituteFrom_kept free]
      have tail : SkipsNothing (out ++ (Piece.kept c).text) pieces :=
        skips.tail fun large => absurd large.1 Bool.false_ne_true
      have next := ih tail
      have passes : PassesFrom out (.kept c :: pieces) ↔ PassesFrom (out ++ [c]) pieces := by
        rw [passesFrom_cons, or_iff_right fun large => absurd large.1 Bool.false_ne_true]
        rfl
      refine ⟨fun none => ?_, fun large => next.refused (passes.mp large)⟩
      refine (next.expanded fun large => none (passes.mpr large)).trans ?_
      simp [textOf, Piece.text]

-----------------------------------------------------------------------------------------
-- Lines and maps
-----------------------------------------------------------------------------------------

/-- The result is the line with its values, or the refusal where one of them makes it too long. -/
structure IsExact (line : String) (pieces : List Piece) (result : Except Error String) : Prop where
  expanded : ¬ PassesLimit pieces → result = .ok (String.ofList (textOf pieces))
  refused : PassesLimit pieces → result = .error (substitutedTooLarge line.toList)

def Exact (known : Vars) (line : String) : Prop :=
  ∀ pieces, Expands known line.toList pieces → IsExact line pieces (substituteVars line known)

/-- A name that braces can hold is ASCII. -/
def PlainName (name : String) : Prop := '\x7d' ∈ name.toList ∨ isAscii name.toList = true

/-- Every name is plain, or its value passes the limit by itself. -/
def NamesFit (known : Vars) : Prop :=
  ∀ name val, known[name]? = some val → PlainName name ∨ maxSubstitutedLen < utf8Len val.toList

theorem isExact_of_skipsNothing {line : String} (expands : Expands known line.toList pieces)
    (skips : SkipsNothing [] pieces)
    : IsExact line pieces (substituteVars line known) := by
  have agrees : Agrees line.toList [] pieces _ := agrees_of_expands expands skips
  constructor
  · intro small
    rw [substituteVars, agrees.expanded small]
    rfl
  · intro large
    rw [substituteVars, agrees.refused large]
    rfl

theorem Expands.of_mem_braced {text : List Char} (expands : Expands known text pieces)
    {name val : String} (member : .braced name val ∈ pieces)
    : '\x7d' ∉ name.toList ∧ known[name]? = some val := by
  induction expands with
  | nil => cases member
  | braced closed held later ih =>
      rcases List.mem_cons.mp member with is | member
      · cases is
        exact ⟨closed, held⟩
      · exact ih member
  | bare isName longest held later ih =>
      exact ih ((List.mem_cons.mp member).resolve_left nofun)
  | kept free later ih => exact ih ((List.mem_cons.mp member).resolve_left nofun)

theorem skipsNothing_of_namesFit (fit : NamesFit known) {text : List Char}
    (expands : Expands known text pieces)
    : SkipsNothing [] pieces := by
  rintro front name val back rfl
  obtain ⟨closed, held⟩ := expands.of_mem_braced (List.mem_append_right _ List.mem_cons_self)
  rcases fit name val held with (brace | ascii) | large
  · exact absurd brace closed
  · exact .inl ascii
  · refine .inr (.inr ⟨front, .braced name val, [], rfl, rfl, ?_⟩)
    simp only [textOf, List.flatMap_append, List.flatMap_singleton, Piece.text, List.nil_append,
      utf8Len_append]
    omega

/-- With a name that does not fit, a line is shown without its end. -/
theorem not_exact_of_name {name val : String} (held : known[name]? = some val)
    (closed : '\x7d' ∉ name.toList) (other : isAscii name.toList = false)
    (small : utf8Len val.toList ≤ maxSubstitutedLen)
    : ¬ Exact known (String.ofList ('$' :: '\x7b' :: (name.toList ++ ['\x7d', 'x']))) := by
  intro exact_
  have free : ¬ Occurs known ['x'] := nofun
  have expands : Expands known ('$' :: '\x7b' :: (name.toList ++ '\x7d' :: ['x']))
      [.braced name val, .kept 'x'] := .braced closed held (.kept free .nil)
  have within : ¬ PassesLimit [.braced name val, .kept 'x'] := by
    rw [PassesLimit, passesFrom_cons, passesFrom_cons]
    rintro (⟨-, large⟩ | ⟨isValue, -⟩ | none)
    · exact absurd large (Nat.not_lt.mpr small)
    · cases isValue
    · exact not_passesFrom_nil none
  have shown := (exact_ _ (by rwa [String.toList_ofList])).expanded within
  have more : 1 ≤ utf8Len name.toList - name.toList.length := by
    have least := length_le_utf8Len name.toList
    have differ : utf8Len name.toList ≠ name.toList.length := by
      intro same
      rw [(utf8Len_eq_length_iff _).mp same] at other
      cases other
    omega
  rw [substituteVars, String.toList_ofList, substituteFrom_braced closed held, List.nil_append,
    if_neg (Nat.not_lt.mpr small), List.drop_eq_nil_of_le (by simpa using more)] at shown
  have texts := String.ofList_injective (Except.ok.inj shown)
  have lengths := congrArg List.length texts
  simp [textOf, Piece.text] at lengths

/-- Substitution is exact on every line exactly for maps whose names fit. -/
theorem exact_iff_namesFit (known : Vars) : (∀ line, Exact known line) ↔ NamesFit known := by
  constructor
  · intro exact_ name val held
    by_contra bad
    rw [not_or, PlainName, not_or, Bool.not_eq_true, Nat.not_lt] at bad
    exact not_exact_of_name held bad.1.1 bad.1.2 bad.2 (exact_ _)
  · intro fit line pieces expands
    exact isExact_of_skipsNothing expands (skipsNothing_of_namesFit fit expands)

-----------------------------------------------------------------------------------------
-- Environments
-----------------------------------------------------------------------------------------

/-- Assignments folded in order: each value is expanded with what is set so far. -/
inductive FoldsTo : Vars → List String → Except Error Vars → Prop where
  | done {vars : Vars} : FoldsTo vars [] (.ok vars)
  | other {vars : Vars} {kv : String} {rest : List String} {result : Except Error Vars}
    (noAssignment : entry kv = none) (later : FoldsTo vars rest result)
    : FoldsTo vars (kv :: rest) result
  | assign {vars : Vars} {kv key val : String} {rest : List String} {pieces : List Piece}
    {result : Except Error Vars} (cut : entry kv = some (key, val))
    (expands : Expands vars val.toList pieces) (small : ¬ PassesLimit pieces)
    (later : FoldsTo (vars.insert key (String.ofList (textOf pieces))) rest result)
    : FoldsTo vars (kv :: rest) result
  | refused {vars : Vars} {kv key val : String} {rest : List String} {pieces : List Piece}
    (cut : entry kv = some (key, val)) (expands : Expands vars val.toList pieces)
    (large : PassesLimit pieces)
    : FoldsTo vars (kv :: rest) (.error (substitutedTooLarge val.toList))

theorem entry_eq_some_iff {e key val : String}
    : entry e = some (key, val) ↔ e.toList = key.toList ++ '=' :: val.toList ∧ '=' ∉ key.toList := by
  rw [entry, Option.map_eq_some_iff]
  constructor
  · rintro ⟨⟨front, back⟩, cut, is⟩
    obtain ⟨rfl, rfl⟩ := Prod.mk.inj is
    rw [String.toList_ofList, String.toList_ofList]
    exact splitOnce_eq_some cut
  · rintro ⟨whole, closed⟩
    refine ⟨(key.toList, val.toList), ?_, by simp⟩
    rw [whole, splitOnce_append _ closed]

/-- An entry starts with a name and the sign exactly when it sets the name. -/
theorem isPrefixOf_iff_entry {key : String} (closed : '=' ∉ key.toList) (e : String)
    : (key ++ "=").toList.isPrefixOf e.toList = true ↔ ∃ val, entry e = some (key, val) := by
  have mark : (key ++ "=").toList = key.toList ++ ['='] := by simp
  rw [List.isPrefixOf_iff_prefix, mark]
  constructor
  · rintro ⟨back, whole⟩
    refine ⟨String.ofList back, entry_eq_some_iff.mpr ⟨?_, closed⟩⟩
    rw [← whole, String.toList_ofList, List.append_assoc, List.singleton_append]
  · rintro ⟨val, cut⟩
    refine ⟨val.toList, ?_⟩
    rw [(entry_eq_some_iff.mp cut).1, List.append_assoc, List.singleton_append]

theorem erase_insert_self (vars : Vars) (key val : String)
    : (vars.insert key val).erase key = vars.erase key := by
  ext k : 1
  simp only [Std.ExtTreeMap.getElem?_erase, Std.ExtTreeMap.getElem?_insert]
  split <;> simp_all

/-- Without the entries that set a name, a reading differs in nothing but that name. By induction
over the entries, with the two maps that they are read into.
-/
theorem erase_readingFrom_filter {key : String} (closed : '=' ∉ key.toList) (env : List String)
    {vars vars' : Vars} (same : vars.erase key = vars'.erase key)
    : (readingFrom vars (env.filter fun e => !(key ++ "=").toList.isPrefixOf e.toList)).erase key
      = (readingFrom vars' env).erase key := by
  induction env generalizing vars vars' with
  | nil => exact same
  | cons e rest ih =>
      cases sets : (key ++ "=").toList.isPrefixOf e.toList with
      | true =>
          obtain ⟨val, cut⟩ := (isPrefixOf_iff_entry closed e).mp sets
          rw [List.filter_cons_of_neg (by rw [sets]; decide)]
          have next : readingFrom vars' (e :: rest) = readingFrom (vars'.insert key val) rest := by
            simp [readingFrom, cut]
          rw [next]
          exact ih (same.trans (erase_insert_self vars' key val).symm)
      | false =>
          rw [List.filter_cons_of_pos (by rw [sets]; rfl)]
          cases cut : entry e with
          | none =>
              have next (vars : Vars) (rest : List String)
                  : readingFrom vars (e :: rest) = readingFrom vars rest := by
                simp [readingFrom, cut]
              rw [next, next]
              exact ih same
          | some parts =>
              obtain ⟨k, v⟩ := parts
              have next (vars : Vars) (rest : List String)
                  : readingFrom vars (e :: rest) = readingFrom (vars.insert k v) rest := by
                simp [readingFrom, cut]
              rw [next, next]
              apply ih
              ext j : 1
              have held := congrArg (fun m : Vars => m[j]?) same
              simp only [Std.ExtTreeMap.getElem?_erase, Std.ExtTreeMap.getElem?_insert] at held ⊢
              split
              · rfl
              · rename_i apart
                rw [if_neg apart, if_neg apart] at held
                rw [held]

theorem reading_addEntry {env : List String} {key : String} (closed : '=' ∉ key.toList)
    (val : String)
    : reading ((env.filter fun e => !(key ++ "=").toList.isPrefixOf e.toList)
        ++ [key ++ "=" ++ val])
      = (reading env).insert key val := by
  have cut : entry (key ++ "=" ++ val) = some (key, val) :=
    entry_eq_some_iff.mpr ⟨by simp, closed⟩
  have last : reading ((env.filter fun e => !(key ++ "=").toList.isPrefixOf e.toList)
        ++ [key ++ "=" ++ val])
      = (readingFrom ∅ (env.filter fun e => !(key ++ "=").toList.isPrefixOf e.toList)).insert
          key val := by
    rw [reading, readingFrom, List.foldl_append, List.foldl_cons, List.foldl_nil, cut]
    rfl
  have erased := @erase_readingFrom_filter key closed env ∅ ∅ rfl
  rw [last]
  ext j : 1
  have held := congrArg (fun m : Vars => m[j]?) erased
  simp only [Std.ExtTreeMap.getElem?_erase, Std.ExtTreeMap.getElem?_insert] at held ⊢
  split
  · rfl
  · rename_i apart
    rw [if_neg apart, if_neg apart] at held
    exact held

/-- No value of the assignments has a name behind which anything is skipped, each being expanded
with what is set so far.
-/
inductive SkipsNowhere : Vars → List String → Prop where
  | done {vars : Vars} : SkipsNowhere vars []
  | other {vars : Vars} {kv : String} {rest : List String} (noAssignment : entry kv = none)
    (later : SkipsNowhere vars rest)
    : SkipsNowhere vars (kv :: rest)
  | assign {vars : Vars} {kv key val : String} {rest : List String} {pieces : List Piece}
    (cut : entry kv = some (key, val)) (expands : Expands vars val.toList pieces)
    (skips : SkipsNothing [] pieces)
    (later : ¬ PassesLimit pieces →
      SkipsNowhere (vars.insert key (String.ofList (textOf pieces))) rest)
    : SkipsNowhere vars (kv :: rest)

/-- Where every name is plain nothing is skipped. -/
theorem skipsNowhere_of_plain {additions : List String} {vars : Vars}
    (named : ∀ name val, vars[name]? = some val → PlainName name)
    (plain : ∀ kv ∈ additions, ∀ key val, entry kv = some (key, val) → PlainName key)
    : SkipsNowhere vars additions := by
  induction additions generalizing vars with
  | nil => exact .done
  | cons kv rest ih =>
      obtain ⟨own, others⟩ := List.forall_mem_cons.mp plain
      cases cut : entry kv with
      | none => exact .other cut (ih named others)
      | some parts =>
          obtain ⟨key, val⟩ := parts
          obtain ⟨pieces, expands⟩ := exists_expands vars val.toList
          have skips := skipsNothing_of_namesFit (fun name val held => .inl (named name val held))
            expands
          refine .assign cut expands skips fun _ => ih ?_ others
          intro name value held
          rw [Std.ExtTreeMap.getElem?_insert] at held
          split at held
          case isTrue same =>
            rw [← Std.LawfulEqCmp.compare_eq_iff_eq.mp same]
            exact own key val cut
          case isFalse => exact named name value held

/-- An environment that is put together entry by entry reads as the assignments folded in order. By
induction over the assignments, with the environment that they are added to.
-/
theorem foldsTo_mergeEnv {base additions : List String}
    (skips : SkipsNowhere (reading base) additions)
    : FoldsTo (reading base) additions ((mergeEnv base additions).map reading) := by
  generalize is : reading base = vars at skips
  induction skips generalizing base with
  | done => exact is ▸ .done
  | @other vars kv rest noAssignment later ih =>
      have unfold_ : mergeEnv base (kv :: rest)
          = addEntry base kv >>= fun env => mergeEnv env rest := List.foldlM_cons
      have same : reading (base ++ [kv]) = vars := by
        rw [reading, readingFrom, List.foldl_append, List.foldl_cons, List.foldl_nil, noAssignment]
        exact is
      rw [unfold_, addEntry, noAssignment]
      exact .other noAssignment (ih same)
  | @assign vars kv key val rest pieces cut expands skips later ih =>
      have unfold_ : mergeEnv base (kv :: rest)
          = addEntry base kv >>= fun env => mergeEnv env rest := List.foldlM_cons
      rw [unfold_, addEntry, cut]
      subst is
      have closed := (entry_eq_some_iff.mp cut).2
      have result := isExact_of_skipsNothing expands skips
      by_cases large : PassesLimit pieces
      · have refused : FoldsTo (reading base) (kv :: rest) _ := .refused cut expands large
        simpa [result.refused large, bind, Except.bind, Except.map] using refused
      · have next := ih large (reading_addEntry closed (String.ofList (textOf pieces)))
        have assigned : FoldsTo (reading base) (kv :: rest) _ :=
          .assign cut expands large next
        simpa only [result.expanded large, bind, Except.bind] using assigned

-----------------------------------------------------------------------------------------
-- Both
-----------------------------------------------------------------------------------------

/-- Every line has its pieces. Substitution gives them with their values on every line exactly for
maps whose names fit, and on a single line where no name has bytes that are skipped behind it; and
additions whose values have no such name are folded into an environment in order.
-/
theorem substitution_exact_iff (known : Vars)
    : (∀ line : List Char, ∃! pieces, Expands known line pieces)
      ∧ ((∀ line, Exact known line) ↔ NamesFit known)
      ∧ (∀ line pieces, Expands known line.toList pieces → SkipsNothing [] pieces →
        IsExact line pieces (substituteVars line known))
      ∧ ∀ base additions, SkipsNowhere (reading base) additions →
        FoldsTo (reading base) additions ((mergeEnv base additions).map reading) := by
  refine ⟨fun line => ?_, exact_iff_namesFit known, fun _ _ => isExact_of_skipsNothing,
    fun _ _ => foldsTo_mergeEnv⟩
  obtain ⟨pieces, expands⟩ := exists_expands known line
  exact ⟨pieces, expands, fun _ other => other.unique expands⟩

/-- A variable with a name beyond ASCII. -/
def accented : Vars := (∅ : Vars).insert "é" "v"

/-- The character behind its name is lost. -/
theorem accented_loses
    : substituteVars "$\x7bé\x7dx" accented = .ok "v" ∧ ¬ Exact accented "$\x7bé\x7dx" := by
  have held : accented["é"]? = some "v" := Std.ExtTreeMap.getElem?_insert_self
  have line : String.ofList ('$' :: '\x7b' :: ("é".toList ++ ['\x7d', 'x'])) = "$\x7bé\x7dx" := by
    decide +kernel
  refine ⟨by decide +kernel, ?_⟩
  rw [← line]
  exact not_exact_of_name held (by decide) (by decide) (by decide)

/-- A plain name is replaced where it stands. Assignments are folded in order, also beside a name
beyond ASCII that their values do not speak of.
-/
theorem substitution_exact_plain
    : substituteVars "a$V.b" ((∅ : Vars).insert "V" "1") = .ok "a1.b"
      ∧ Exact ((∅ : Vars).insert "V" "1") "a$V.b"
      ∧ FoldsTo (reading ["é=v"]) ["A=b"] ((mergeEnv ["é=v"] ["A=b"]).map reading)
      ∧ FoldsTo (reading ["V=1"]) ["W=$V.b", "X=$W"]
        ((mergeEnv ["V=1"] ["W=$V.b", "X=$W"]).map reading)
      ∧ mergeEnv ["V=1"] ["W=$V.b", "X=$W"] = .ok ["V=1", "W=1.b", "X=1.b"] := by
  have plain {name : String} (ascii : PlainName name) (val : String)
      : ∀ other value, ((∅ : Vars).insert name val)[other]? = some value → PlainName other := by
    intro other value held
    rw [Std.ExtTreeMap.getElem?_insert, Std.ExtTreeMap.getElem?_empty] at held
    split at held
    case isTrue same => exact Std.LawfulEqCmp.compare_eq_iff_eq.mp same ▸ ascii
    case isFalse => cases held
  have exact_ := substitution_exact_iff ((∅ : Vars).insert "V" "1")
  have fit : NamesFit ((∅ : Vars).insert "V" "1") := fun name val held =>
    .inl (plain (.inr (by decide)) "1" name val held)
  refine ⟨by decide +kernel, exact_.2.1.mpr fit _, exact_.2.2.2 _ _ ?_, exact_.2.2.2 _ _ ?_,
    by decide +kernel⟩
  · have cut : entry "A=b" = some ("A", "b") := by decide +kernel
    have expands : Expands (reading ["é=v"]) "b".toList [.kept 'b'] := .kept nofun .nil
    refine .assign cut expands ?_ fun _ => .done
    intro front name val back is
    cases front with
    | nil => cases is
    | cons _ front => cases front <;> cases is
  · have base : reading ["V=1"] = (∅ : Vars).insert "V" "1" := by
      have cut : entry "V=1" = some ("V", "1") := by decide +kernel
      simp [reading, readingFrom, cut]
    rw [base]
    refine skipsNowhere_of_plain (plain (.inr (by decide)) "1") ?_
    intro kv member key val cut
    have keys : ∀ kv ∈ ["W=$V.b", "X=$W"], ∀ parts ∈ entry kv, isAscii parts.1.toList = true := by
      decide +kernel
    exact .inr (keys kv member (key, val) cut)

end Delonix.Build
