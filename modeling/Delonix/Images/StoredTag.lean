import Delonix.Images.Records
import Delonix.Images.Reference

/-! The name an image is stored under, and the name it is pulled by. Two spellings that the puller
takes for one image are stored alike exactly when they agree on what the store does not read: how
the hub is spelled, whether there is a digest and a tag before it, and a colon before the last
slash.
-/

namespace Delonix.Images

open Delonix.Library.Text

-----------------------------------------------------------------------------------------
-- Parts of a spelling
-----------------------------------------------------------------------------------------

/-- A name with its tag and its digest. -/
structure Parts where
  name : List Char
  tag : Option (List Char)
  digest : Option (List Char)

def partsOf (s : List Char) : Parts :=
  match splitOnce '@' s with
  | some (before, digest) =>
      { name := (cutTag before).1, tag := (cutTag before).2, digest := some digest }
  | none => { name := (cutTag s).1, tag := (cutTag s).2, digest := none }

def Parts.tail (parts : Parts) : List Char :=
  (parts.tag.elim [] (':' :: ·)) ++ (parts.digest.elim [] ('@' :: ·))

def Parts.text (parts : Parts) : List Char := parts.name ++ parts.tail

def Parts.reference (parts : Parts) : List Char :=
  parts.digest.getD (parts.tag.getD "latest".toList)

/-- Nothing in the name or in the tag would be read as another part. -/
structure Parts.Clean (parts : Parts) : Prop where
  name : '@' ∉ parts.name
  segment : ':' ∉ (lastSegment parts.name).2
  tag : ∀ tag ∈ parts.tag, '/' ∉ tag ∧ '@' ∉ tag

theorem lastSegment_spec (s : List Char)
    : (lastSegment s).1 ++ (lastSegment s).2 = s ∧ '/' ∉ (lastSegment s).2
      ∧ ((lastSegment s).1 = [] ∨ ∃ front, (lastSegment s).1 = front ++ ['/']) := by
  rw [lastSegment]
  cases cut : rsplitOnce '/' s with
  | none =>
      refine ⟨rfl, ?_, .inl rfl⟩
      have turned := not_mem_of_splitOnce_eq_none (Option.map_eq_none_iff.mp cut)
      simpa using turned
  | some parts =>
      obtain ⟨whole, absent⟩ := rsplitOnce_eq_some cut
      exact ⟨by simp [whole], absent, .inr ⟨parts.1, rfl⟩⟩

/-- The last segment is the part behind a slash, or all of a text without one. -/
theorem lastSegment_eq {front base : List Char} (absent : '/' ∉ base)
    (ends : front = [] ∨ ∃ before, front = before ++ ['/'])
    : lastSegment (front ++ base) = (front, base) := by
  rcases ends with rfl | ⟨before, rfl⟩
  · rw [List.nil_append, lastSegment, rsplitOnce_eq_none absent]
  · rw [List.append_assoc, List.singleton_append, lastSegment, rsplitOnce_append before absent]

theorem cutTag_spec (s : List Char)
    : s = (cutTag s).1 ++ (cutTag s).2.elim [] (':' :: ·)
      ∧ ':' ∉ (lastSegment (cutTag s).1).2 ∧ ∀ tag ∈ (cutTag s).2, '/' ∉ tag := by
  obtain ⟨whole, absent, ends⟩ := lastSegment_spec s
  cases cut : splitOnce ':' (lastSegment s).2 with
  | none =>
      have shape : cutTag s = (s, none) := by simp only [cutTag, cut]
      rw [shape]
      exact ⟨(List.append_nil s).symm, not_mem_of_splitOnce_eq_none cut, by simp⟩
  | some parts =>
      obtain ⟨name, tag⟩ := parts
      have shape : cutTag s = ((lastSegment s).1 ++ name, some tag) := by simp only [cutTag, cut]
      obtain ⟨base, plain⟩ := splitOnce_eq_some cut
      rw [base] at whole absent
      have noSlash : '/' ∉ name := fun member => absent (List.mem_append_left _ member)
      rw [shape]
      refine ⟨?_, ?_, ?_⟩
      · rw [Option.elim_some, List.append_assoc, whole]
      · rw [lastSegment_eq noSlash ends]
        exact plain
      · rintro _ ⟨⟩
        exact fun member => absent (List.mem_append_right _ (List.mem_cons_of_mem _ member))

theorem cutTag_compose {name : List Char} {tag : Option (List Char)}
    (segment : ':' ∉ (lastSegment name).2) (plain : ∀ t ∈ tag, '/' ∉ t)
    : cutTag (name ++ tag.elim [] (':' :: ·)) = (name, tag) := by
  obtain ⟨whole, absent, ends⟩ := lastSegment_spec name
  cases tag with
  | none =>
      simp only [Option.elim_none, List.append_nil, cutTag, splitOnce_eq_none segment]
  | some tag =>
      have noSlash : '/' ∉ (lastSegment name).2 ++ ':' :: tag := by
        simp only [List.mem_append, List.mem_cons, not_or]
        exact ⟨absent, by decide, plain tag rfl⟩
      have cut : lastSegment (name ++ ':' :: tag)
          = ((lastSegment name).1, (lastSegment name).2 ++ ':' :: tag) := by
        rw [← lastSegment_eq noSlash ends, ← List.append_assoc, whole]
      simp only [Option.elim_some, cutTag, cut, splitOnce_append tag segment, whole]

theorem partsOf_spec (s : List Char) : s = (partsOf s).text ∧ (partsOf s).Clean := by
  have clean {before : List Char} (plain : '@' ∉ before) (digest : Option (List Char))
      : Parts.Clean ⟨(cutTag before).1, (cutTag before).2, digest⟩ := by
    obtain ⟨whole, segment, noSlash⟩ := cutTag_spec before
    rw [whole] at plain
    refine ⟨fun member => plain (List.mem_append_left _ member), segment, fun tag held => ?_⟩
    have is : (cutTag before).2 = some tag := held
    refine ⟨noSlash tag held, fun member => plain (List.mem_append_right _ ?_)⟩
    rw [is]
    exact List.mem_cons_of_mem _ member
  rw [partsOf]
  cases cut : splitOnce '@' s with
  | none =>
      have plain := not_mem_of_splitOnce_eq_none cut
      refine ⟨?_, clean plain none⟩
      simpa [Parts.text, Parts.tail] using (cutTag_spec s).1
  | some parts =>
      obtain ⟨before, digest⟩ := parts
      obtain ⟨whole, plain⟩ := splitOnce_eq_some cut
      refine ⟨?_, clean plain (some digest)⟩
      have front := (cutTag_spec before).1
      rw [whole]
      simp only [Parts.text, Parts.tail, Option.elim_some, ← List.append_assoc, ← front]

theorem partsOf_text {parts : Parts} (clean : parts.Clean) : partsOf parts.text = parts := by
  obtain ⟨name, tag, digest⟩ := parts
  have plain : '@' ∉ name ++ tag.elim [] (':' :: ·) := by
    rw [List.mem_append, not_or]
    refine ⟨clean.name, ?_⟩
    cases tag with
    | none => simp
    | some tag => simpa using (clean.tag tag rfl).2
  have cut := cutTag_compose clean.segment fun t held => (clean.tag t held).1
  cases digest with
  | none =>
      simp only [Parts.text, Parts.tail, Option.elim_none, List.append_nil, partsOf,
        splitOnce_eq_none plain]
      rw [cut]
  | some digest =>
      simp only [Parts.text, Parts.tail, Option.elim_some, ← List.append_assoc, partsOf,
        splitOnce_append digest plain]
      rw [cut]

theorem nameAndReference_eq (s : List Char)
    : nameAndReference s = ((partsOf s).name, (partsOf s).reference) := by
  rw [nameAndReference, partsOf]
  cases splitOnce '@' s <;> rfl

-----------------------------------------------------------------------------------------
-- Implicit prefixes
-----------------------------------------------------------------------------------------

def withoutStart (start s : List Char) : List Char := (stripStart start s).getD s

/-- A text without the registry and the namespace that the hub's official images have. -/
def withoutImplicit (s : List Char) : List Char :=
  withoutStart "library/".toList (withoutStart "docker.io/".toList s)

/-- A start without the characters that begin a tail is one of the name. -/
theorem withoutStart_append {start name tail : List Char} (colon : ':' ∉ start) (at_ : '@' ∉ start)
    (begins : tail = [] ∨ ∃ rest, tail = ':' :: rest ∨ tail = '@' :: rest)
    : withoutStart start (name ++ tail) = withoutStart start name ++ tail := by
  rw [withoutStart, withoutStart]
  cases cut : stripStart start name with
  | some rest =>
      have whole := stripStart_eq_some.mp cut
      have longer : stripStart start (name ++ tail) = some (rest ++ tail) :=
        stripStart_eq_some.mpr (by rw [whole, List.append_assoc])
      rw [longer]
      rfl
  | none =>
      have none : stripStart start (name ++ tail) = none := by
        cases longer : stripStart start (name ++ tail) with
        | none => rfl
        | some rest =>
            have elsewhere (behind : List Char) : name ≠ start ++ behind := by
              intro is
              rw [stripStart_eq_some.mpr is] at cut
              cases cut
            rcases List.append_eq_append_iff.mp (stripStart_eq_some.mp longer) with
              ⟨gap, is, behind⟩ | ⟨gap, is, -⟩
            · -- The name ends inside the start, so the tail goes on with a character of it.
              cases gap with
              | nil => exact absurd (by rw [is, List.append_nil, List.append_nil]) (elsewhere [])
              | cons c gap =>
                  rcases begins with rfl | ⟨back, rfl | rfl⟩
                  · cases behind
                  · obtain ⟨rfl, -⟩ := List.cons.inj behind
                    exact absurd (by simp [is]) colon
                  · obtain ⟨rfl, -⟩ := List.cons.inj behind
                    exact absurd (by simp [is]) at_
            · exact absurd is (elsewhere gap)
      rw [none]
      rfl

theorem withoutStart_cases (start s : List Char)
    : s = start ++ withoutStart start s ∨ withoutStart start s = s := by
  rw [withoutStart]
  cases cut : stripStart start s with
  | some rest => exact .inl (stripStart_eq_some.mp cut)
  | none => exact .inr rfl

theorem withoutStart_eq_self {start s : List Char} (other : ¬ start <+: s)
    : withoutStart start s = s := by
  rcases withoutStart_cases start s with is | is
  · exact absurd ⟨_, is.symm⟩ other
  · exact is

theorem length_withoutStart_le (start s : List Char) : (withoutStart start s).length ≤ s.length := by
  rcases withoutStart_cases start s with is | is
  · have lengths := congrArg List.length is
    rw [List.length_append] at lengths
    omega
  · rw [is]

theorem mem_withoutStart_iff {c : Char} {start : List Char} (absent : c ∉ start) (s : List Char)
    : c ∈ withoutStart start s ↔ c ∈ s := by
  rcases withoutStart_cases start s with is | is
  · conv_rhs => rw [is]
    rw [List.mem_append, or_iff_right absent]
  · rw [is]

theorem mem_withoutImplicit_iff {c : Char} (other : c = ':' ∨ c = '@') (s : List Char)
    : c ∈ withoutImplicit s ↔ c ∈ s := by
  rw [withoutImplicit, mem_withoutStart_iff (by rcases other with rfl | rfl <;> decide),
    mem_withoutStart_iff (by rcases other with rfl | rfl <;> decide)]

theorem lastSegment_append (front rest : List Char)
    : (lastSegment (front ++ '/' :: rest)).2 = (lastSegment rest).2 := by
  obtain ⟨whole, absent, ends⟩ := lastSegment_spec rest
  have split : front ++ '/' :: rest
      = (front ++ '/' :: (lastSegment rest).1) ++ (lastSegment rest).2 := by
    conv_lhs => rw [← whole]
    simp
  rw [split, lastSegment_eq absent]
  right
  rcases ends with none | ⟨before, is⟩
  · exact ⟨front, by rw [none]⟩
  · exact ⟨front ++ '/' :: before, by rw [is]; simp⟩

theorem lastSegment_withoutStart {start front : List Char} (slash : start = front ++ ['/'])
    (s : List Char)
    : (lastSegment (withoutStart start s)).2 = (lastSegment s).2 := by
  rcases withoutStart_cases start s with is | is
  · have cut : front ++ '/' :: withoutStart start s = s := by
      conv_rhs => rw [is]
      rw [slash, List.append_assoc, List.singleton_append]
    rw [← lastSegment_append front, cut]
  · rw [is]

def Parts.withoutImplicit (parts : Parts) : Parts :=
  { parts with name := Images.withoutImplicit parts.name }

theorem Parts.Clean.withoutImplicit {parts : Parts} (clean : parts.Clean)
    : parts.withoutImplicit.Clean where
  name := by
    rw [Parts.withoutImplicit, mem_withoutImplicit_iff (.inr rfl)]
    exact clean.name
  segment := by
    rw [Parts.withoutImplicit, Images.withoutImplicit,
      @lastSegment_withoutStart _ "library".toList (by decide),
      @lastSegment_withoutStart _ "docker.io".toList (by decide)]
    exact clean.segment
  tag := clean.tag

/-- The implicit prefixes are part of the name. -/
theorem withoutImplicit_text (parts : Parts)
    : withoutImplicit parts.text = parts.withoutImplicit.text := by
  have begins : parts.tail = [] ∨ ∃ rest, parts.tail = ':' :: rest ∨ parts.tail = '@' :: rest := by
    obtain ⟨name, tag, digest⟩ := parts
    cases tag with
    | some tag => exact .inr ⟨_, .inl rfl⟩
    | none =>
        cases digest with
        | some digest => exact .inr ⟨_, .inr rfl⟩
        | none => exact .inl rfl
  rw [withoutImplicit, Parts.text, withoutStart_append (by decide) (by decide) begins,
    withoutStart_append (by decide) (by decide) begins]
  rfl

-----------------------------------------------------------------------------------------
-- What is stored
-----------------------------------------------------------------------------------------

/-- The parts of the stored name: a name without any colon or digest gets the tag `latest`. -/
def Parts.stored (parts : Parts) : Parts :=
  if parts.digest = none ∧ parts.tag = none ∧ ':' ∉ parts.name then
    { parts with tag := some "latest".toList }
  else parts

theorem Parts.Clean.stored {parts : Parts} (clean : parts.Clean) : parts.stored.Clean := by
  rw [Parts.stored]
  split
  · refine ⟨clean.name, clean.segment, ?_⟩
    rintro _ ⟨⟩
    decide
  · exact clean

@[simp] theorem Parts.name_stored (parts : Parts) : parts.stored.name = parts.name := by
  rw [Parts.stored]
  split <;> rfl

@[simp] theorem Parts.digest_stored (parts : Parts) : parts.stored.digest = parts.digest := by
  rw [Parts.stored]
  split <;> rfl

theorem normaliseTag_eq (s : String)
    : (normaliseTag s).toList = (partsOf s.toList).stored.text := by
  obtain ⟨whole, clean⟩ := partsOf_spec s.toList
  generalize partsOf s.toList = parts at whole clean
  obtain ⟨name, tag, digest⟩ := parts
  have marked : (s.toList.contains ':' || s.toList.contains '@') = true
      ↔ ¬ (digest = none ∧ tag = none ∧ ':' ∉ name) := by
    rw [Bool.or_eq_true, List.contains_iff_mem, List.contains_iff_mem, whole]
    have plain : '@' ∉ name := clean.name
    cases tag <;> cases digest <;> simp [Parts.text, Parts.tail, plain]
  rw [normaliseTag, Parts.stored]
  by_cases bare : digest = none ∧ tag = none ∧ ':' ∉ name
  · rw [if_neg (fun contains => marked.mp contains bare), if_pos bare, String.toList_append, whole]
    obtain ⟨rfl, rfl, -⟩ := bare
    simp [Parts.text, Parts.tail]
  · rw [if_pos (marked.mpr bare), if_neg bare]
    exact whole

-----------------------------------------------------------------------------------------
-- Where the puller looks
-----------------------------------------------------------------------------------------

/-- The host and the repository of a name. -/
def place (name : List Char) : List Char × List Char :=
  let (host, repo) := hostAndRepo name
  let host :=
    if host = "docker.io".toList ∨ host = "index.docker.io".toList then hubHost else host
  (host, if host = hubHost ∧ '/' ∉ repo then "library/".toList ++ repo else repo)

theorem parseReference_eq (s : String)
    : parseReference s = { host := (place (partsOf s.toList).name).1
                           repo := (place (partsOf s.toList).name).2
                           reference := (partsOf s.toList).reference } := by
  simp only [parseReference, nameAndReference_eq, place]

/-- A repository of the hub, with the namespace of the official images where it has none. -/
def official (repo : List Char) : List Char :=
  if '/' ∉ repo then "library/".toList ++ repo else repo

/-- The hub by a name that is not the implicit one. -/
def IsAlias (name : List Char) : Prop :=
  "index.docker.io".toList ++ ['/'] <+: name ∨ hubHost ++ ['/'] <+: name

/-- A host with its slash in front of a name is the name's first segment. -/
theorem first_of_start {host name first rest : List Char} (plain : '/' ∉ host)
    (found : splitOnce '/' name = some (first, rest)) (starts : host ++ ['/'] <+: name)
    : first = host := by
  obtain ⟨tail, rfl⟩ := starts
  rw [List.append_assoc, List.singleton_append, splitOnce_append tail plain] at found
  exact (Prod.mk.inj (Option.some.inj found)).1.symm

/-- The hub's own names lead to the hub. -/
theorem place_of_hub {name host repo : List Char} (cut : hostAndRepo name = (host, repo))
    (known : host = hubHost ∨ host = "docker.io".toList ∨ host = "index.docker.io".toList)
    : place name = (hubHost, official repo) := by
  have host_ : (if host = "docker.io".toList ∨ host = "index.docker.io".toList then hubHost
      else host) = hubHost := by
    split
    case isTrue => rfl
    case isFalse other => exact known.resolve_right other
  rw [place, cut]
  dsimp only
  rw [host_, official]
  simp only [true_and]

theorem place_of_other {name host repo : List Char} (cut : hostAndRepo name = (host, repo))
    (other : ¬ (host = hubHost ∨ host = "docker.io".toList ∨ host = "index.docker.io".toList))
    : place name = (host, repo) := by
  rw [not_or] at other
  rw [place, cut]
  dsimp only
  rw [if_neg other.2, if_neg fun both => other.1 both.1]

/-- The four ways to spell a name: with a registry of its own, with the implicit one of the hub,
with an alias of it, and without any.
-/
theorem place_cases (name : List Char)
    : (∃ first rest, name = first ++ '/' :: rest ∧ ¬ IsAlias name
        ∧ place name = (first, rest) ∧ first ≠ hubHost)
      ∨ (∃ rest, name = "docker.io/".toList ++ rest ∧ ¬ IsAlias name
        ∧ place name = (hubHost, official rest))
      ∨ (∃ first rest, name = first ++ '/' :: rest ∧ 15 ≤ first.length ∧ IsAlias name
        ∧ place name = (hubHost, official rest))
      ∨ (¬ "docker.io/".toList <+: name ∧ ¬ IsAlias name
        ∧ place name = (hubHost, official name)) := by
  cases found : splitOnce '/' name with
  | none =>
      have absent := not_mem_of_splitOnce_eq_none found
      have no {start : List Char} (starts : start <+: name) : '/' ∉ start :=
        fun slash => absent (starts.mem slash)
      refine .inr (.inr (.inr ⟨?_, ?_, ?_⟩))
      · intro starts
        exact no starts (by decide)
      · rintro (starts | starts)
        · exact no starts (by decide)
        · exact no starts (by decide)
      · exact place_of_hub (by rw [hostAndRepo, found]) (.inl rfl)
  | some parts =>
      obtain ⟨first, rest⟩ := parts
      obtain ⟨whole, absent⟩ := splitOnce_eq_some found
      have alias_ (isAlias : IsAlias name) : first = "index.docker.io".toList ∨ first = hubHost :=
        isAlias.imp (first_of_start (by decide) found) (first_of_start (by decide) found)
      cases named : looksLikeHost first with
      | false =>
          have unnamed : hostAndRepo name = (hubHost, name) := by
            rw [hostAndRepo, found]
            exact if_neg (by simp [named])
          refine .inr (.inr (.inr ⟨?_, ?_, ?_⟩))
          · intro starts
            have mark : "docker.io/".toList = "docker.io".toList ++ ['/'] := by decide
            rw [mark] at starts
            rw [first_of_start (by decide) found starts] at named
            exact absurd named (by decide)
          · intro isAlias
            rcases alias_ isAlias with rfl | rfl
            · exact absurd named (by decide)
            · exact absurd named (by decide)
          · exact place_of_hub unnamed (.inl rfl)
      | true =>
          have contacted : hostAndRepo name = (first, rest) := by
            rw [hostAndRepo, found]
            exact if_pos named
          by_cases implicit : first = "docker.io".toList
          · subst implicit
            refine .inr (.inl ⟨rest, whole, fun isAlias => ?_, ?_⟩)
            · have apart : ¬ ("docker.io".toList = "index.docker.io".toList
                  ∨ "docker.io".toList = hubHost) := by decide
              exact apart (alias_ isAlias)
            · exact place_of_hub contacted (.inr (.inl rfl))
          · by_cases other : first = "index.docker.io".toList ∨ first = hubHost
            · refine .inr (.inr (.inl ⟨first, rest, whole, ?_, ?_, ?_⟩))
              · rcases other with rfl | rfl <;> decide
              · have starts : first ++ ['/'] <+: name :=
                  ⟨rest, by rw [whole, List.append_assoc, List.singleton_append]⟩
                rcases other with rfl | rfl
                · exact .inl starts
                · exact .inr starts
              · exact place_of_hub contacted (other.elim (.inr ∘ .inr) .inl)
            · have apart := not_or.mp other
              refine .inl ⟨first, rest, whole, fun isAlias => other (alias_ isAlias),
                place_of_other contacted ?_, apart.2⟩
              rintro (hub | is | index)
              · exact apart.2 hub
              · exact implicit is
              · exact apart.1 index

theorem withoutImplicit_official {rest : List Char}
    : withoutStart "library/".toList (official rest) = withoutStart "library/".toList rest := by
  rw [official]
  split
  case isTrue single =>
    have none : ¬ "library/".toList <+: rest := fun starts => single (starts.mem (by decide))
    rw [withoutStart_eq_self none, withoutStart, stripStart_eq_some.mpr rfl]
    rfl
  case isFalse => rfl

theorem length_official_le (rest : List Char) : (official rest).length ≤ rest.length + 8 := by
  rw [official]
  split
  · simp
  · omega

/-- Without its implicit prefixes, a name of the hub is one of its repositories. -/
theorem withoutImplicit_eq {name repo : List Char} (plain : ¬ IsAlias name)
    (hub : place name = (hubHost, repo))
    : withoutImplicit name = withoutStart "library/".toList repo := by
  rw [withoutImplicit]
  rcases place_cases name with ⟨first, rest, -, -, is, other⟩ | ⟨rest, rfl, -, is⟩
    | ⟨-, -, -, -, isAlias, -⟩ | ⟨none, -, is⟩
  · rw [is] at hub
    exact absurd (Prod.mk.inj hub).1 other
  · obtain ⟨-, rfl⟩ := Prod.mk.inj (is.symm.trans hub)
    rw [withoutImplicit_official, withoutStart, withoutStart, stripStart_eq_some.mpr rfl]
    rfl
  · exact absurd isAlias plain
  · obtain ⟨-, rfl⟩ := Prod.mk.inj (is.symm.trans hub)
    rw [withoutImplicit_official, withoutStart_eq_self none]

/-- An alias has neither of the implicit prefixes. -/
theorem withoutImplicit_of_isAlias {name : List Char} (isAlias : IsAlias name)
    : withoutImplicit name = name := by
  have first : name.head? = some 'i' ∨ name.head? = some 'r' := by
    rcases isAlias with ⟨tail, rfl⟩ | ⟨tail, rfl⟩
    · exact .inl rfl
    · exact .inr rfl
  have other {start : List Char} (differ : start.head? = some 'd' ∨ start.head? = some 'l')
      : ¬ start <+: name := by
    rintro ⟨tail, rfl⟩
    cases start with
    | nil => simp at differ
    | cons c start =>
        rw [List.cons_append, List.head?_cons] at first
        rcases differ with is | is <;> rcases first with is' | is' <;>
          exact absurd (is.symm.trans is') (by decide)
  rw [withoutImplicit, @withoutStart_eq_self "docker.io/".toList _ (other (.inl rfl)),
    @withoutStart_eq_self "library/".toList _ (other (.inr rfl))]

/-- Two names for one place are the same without their implicit prefixes exactly when they are the
same, or neither is an alias.
-/
theorem withoutImplicit_eq_iff {left right : List Char} (same : place left = place right)
    : withoutImplicit left = withoutImplicit right
      ↔ left = right ∨ ¬ IsAlias left ∧ ¬ IsAlias right := by
  have shorter {alias_ plain : List Char} (same : place alias_ = place plain)
      (isAlias : IsAlias alias_) (other : ¬ IsAlias plain)
      : withoutImplicit alias_ ≠ withoutImplicit plain := by
    rcases place_cases alias_ with ⟨-, -, -, no, -⟩ | ⟨-, -, no, -⟩
      | ⟨first, rest, whole, long, -, hub⟩ | ⟨-, no, -⟩
    · exact absurd isAlias no
    · exact absurd isAlias no
    · intro texts
      rw [withoutImplicit_of_isAlias isAlias, withoutImplicit_eq other (same.symm.trans hub)]
        at texts
      have lengths := congrArg List.length texts
      rw [whole, List.length_append, List.length_cons] at lengths
      have repo := length_official_le rest
      have cut := length_withoutStart_le "library/".toList (official rest)
      omega
    · exact absurd isAlias no
  by_cases hl : IsAlias left <;> by_cases hr : IsAlias right
  · rw [withoutImplicit_of_isAlias hl, withoutImplicit_of_isAlias hr]
    simp [hl]
  · refine iff_of_false (shorter same hl hr) ?_
    rintro (rfl | none)
    · exact hr hl
    · exact none.1 hl
  · refine iff_of_false (fun texts => shorter same.symm hr hl texts.symm) ?_
    rintro (rfl | none)
    · exact hl hr
    · exact none.2 hr
  · refine iff_of_true ?_ (.inr ⟨hl, hr⟩)
    rcases place_cases left with ⟨first, rest, rfl, -, is, other⟩ | ⟨rest, -, -, is⟩
      | ⟨-, -, -, -, no, -⟩ | ⟨-, -, is⟩
    · -- A registry of its own is spelled in one way.
      rcases place_cases right with ⟨first', rest', rfl, -, is', -⟩ | ⟨_, -, -, is'⟩
        | ⟨-, -, -, -, no, -⟩ | ⟨-, -, is'⟩
      · obtain ⟨rfl, rfl⟩ := Prod.mk.inj (is.symm.trans (same.trans is'))
        rfl
      · exact absurd (Prod.mk.inj (is.symm.trans (same.trans is'))).1 other
      · exact absurd no hr
      · exact absurd (Prod.mk.inj (is.symm.trans (same.trans is'))).1 other
    · rw [withoutImplicit_eq hl is, withoutImplicit_eq hr (same.symm.trans is)]
    · exact absurd no hl
    · rw [withoutImplicit_eq hl is, withoutImplicit_eq hr (same.symm.trans is)]

-----------------------------------------------------------------------------------------
-- Spellings of one image
-----------------------------------------------------------------------------------------

/-- The same digest or none, and the same tag, but for a tag `latest` that the store adds. -/
structure TailsAlike (p q : Parts) : Prop where
  digests : p.digest.isSome = q.digest.isSome
  tags : p.tag = q.tag ∨ p.digest = none ∧ ':' ∉ p.name

structure SpelledAlike (s t : String) : Prop where
  names : (partsOf s.toList).name = (partsOf t.toList).name
    ∨ ¬ IsAlias (partsOf s.toList).name ∧ ¬ IsAlias (partsOf t.toList).name
  tails : TailsAlike (partsOf s.toList) (partsOf t.toList)

theorem Parts.reference_stored (parts : Parts) : parts.stored.reference = parts.reference := by
  rw [Parts.stored]
  split
  case isTrue bare =>
    obtain ⟨name, tag, digest⟩ := parts
    obtain ⟨rfl, rfl, -⟩ := bare
    rfl
  case isFalse => rfl

/-- Parts that ask the puller for the same, of names that agree on having a colon, are stored with
the same tag and digest exactly when their tails are alike.
-/
theorem stored_tail_iff {p q : Parts} (same : p.reference = q.reference)
    (colon : ':' ∈ p.name ↔ ':' ∈ q.name)
    : p.stored.tag = q.stored.tag ∧ p.digest = q.digest ↔ TailsAlike p q := by
  obtain ⟨n, tag, digest⟩ := p
  obtain ⟨m, tag', digest'⟩ := q
  simp only [Parts.reference] at same
  constructor
  · rintro ⟨tags, rfl⟩
    refine ⟨rfl, ?_⟩
    simp only [Parts.stored] at tags
    by_cases bare : digest = none ∧ ':' ∉ n
    · exact .inr bare
    · rw [if_neg fun all => bare ⟨all.1, all.2.2⟩,
        if_neg fun all => bare ⟨all.1, fun inside => all.2.2 (colon.mp inside)⟩] at tags
      exact .inl tags
  · rintro ⟨digests, tags⟩
    have digestSame : digest = digest' := by
      cases digest <;> cases digest' <;> simp_all
    subst digestSame
    refine ⟨?_, rfl⟩
    simp only [Parts.stored]
    rcases tags with rfl | ⟨rfl, plain⟩
    · by_cases bare : digest = none ∧ tag = none ∧ ':' ∉ n
      · rw [if_pos bare, if_pos ⟨bare.1, bare.2.1, fun inside => bare.2.2 (colon.mpr inside)⟩]
      · rw [if_neg bare,
          if_neg fun all => bare ⟨all.1, all.2.1, fun inside => all.2.2 (colon.mp inside)⟩]
    · have plain' : ':' ∉ m := fun inside => plain (colon.mpr inside)
      simp only [Option.getD_none] at same
      cases tag <;> cases tag' <;> simp_all

/-- Two texts of clean parts are the same exactly when their parts are. -/
theorem text_eq_iff {p q : Parts} (hp : p.Clean) (hq : q.Clean) : p.text = q.text ↔ p = q := by
  constructor
  · intro texts
    rw [← partsOf_text hp, texts, partsOf_text hq]
  · rintro rfl
    rfl

theorem Parts.eq_iff (p q : Parts)
    : p = q ↔ p.name = q.name ∧ p.tag = q.tag ∧ p.digest = q.digest := by
  obtain ⟨_, _, _⟩ := p
  obtain ⟨_, _, _⟩ := q
  exact Parts.mk.injEq .. |>.to_iff

/-- Spellings that the puller takes for one image are stored alike, up to the implicit prefixes,
exactly when they are spelled alike, and under one name exactly when their names are the same too;
and what is stored under one name is one image to the puller.
-/
theorem normaliseTag_alike_iff (s t : String)
    : (parseReference s = parseReference t →
        (withoutImplicit (normaliseTag s).toList = withoutImplicit (normaliseTag t).toList
          ↔ SpelledAlike s t)
        ∧ (normaliseTag s = normaliseTag t
          ↔ (partsOf s.toList).name = (partsOf t.toList).name
            ∧ TailsAlike (partsOf s.toList) (partsOf t.toList)))
      ∧ (normaliseTag s = normaliseTag t → parseReference s = parseReference t) := by
  have cleanS := (partsOf_spec s.toList).2
  have cleanT := (partsOf_spec t.toList).2
  have stored : normaliseTag s = normaliseTag t
      ↔ (partsOf s.toList).stored = (partsOf t.toList).stored := by
    rw [← String.toList_inj, normaliseTag_eq, normaliseTag_eq,
      text_eq_iff cleanS.stored cleanT.stored]
  have placeOf (u : String) := parseReference_eq u
  refine ⟨fun same => ?_, fun same => ?_⟩
  · rw [placeOf, placeOf] at same
    obtain ⟨host, repo, reference⟩ := Reference.mk.inj same
    have places : place (partsOf s.toList).name = place (partsOf t.toList).name :=
      Prod.ext host repo
    have tails (colon : ':' ∈ (partsOf s.toList).name ↔ ':' ∈ (partsOf t.toList).name) :=
      stored_tail_iff reference colon
    constructor
    · rw [normaliseTag_eq, normaliseTag_eq, withoutImplicit_text, withoutImplicit_text,
        text_eq_iff cleanS.stored.withoutImplicit cleanT.stored.withoutImplicit, Parts.eq_iff]
      simp only [Parts.withoutImplicit, Parts.name_stored, Parts.digest_stored]
      have colon (names : withoutImplicit (partsOf s.toList).name
            = withoutImplicit (partsOf t.toList).name)
          : ':' ∈ (partsOf s.toList).name ↔ ':' ∈ (partsOf t.toList).name := by
        rw [← mem_withoutImplicit_iff (.inl rfl), names, mem_withoutImplicit_iff (.inl rfl)]
      constructor
      · rintro ⟨names, rest⟩
        exact ⟨(withoutImplicit_eq_iff places).mp names, (tails (colon names)).mp rest⟩
      · rintro ⟨names, rest⟩
        have names := (withoutImplicit_eq_iff places).mpr names
        exact ⟨names, (tails (colon names)).mpr rest⟩
    · rw [stored, Parts.eq_iff]
      simp only [Parts.name_stored, Parts.digest_stored]
      exact and_congr_right fun names => tails (by rw [names])
  · have parts := stored.mp same
    have names := congrArg Parts.name parts
    have references := congrArg Parts.reference parts
    rw [Parts.name_stored, Parts.name_stored] at names
    rw [Parts.reference_stored, Parts.reference_stored] at references
    rw [placeOf, placeOf, names, references]

/-- Official images are found by their short name and by the full one. -/
theorem normaliseTag_alike_alpine
    : parseReference "alpine" = parseReference "docker.io/library/alpine:latest"
      ∧ withoutImplicit (normaliseTag "alpine").toList
        = withoutImplicit (normaliseTag "docker.io/library/alpine:latest").toList := by
  have same : parseReference "alpine" = parseReference "docker.io/library/alpine:latest" := by
    decide +kernel
  refine ⟨same, ((normaliseTag_alike_iff _ _).1 same).1.mpr ⟨.inr ⟨?_, ?_⟩, ?_, .inr ⟨?_, ?_⟩⟩⟩
  · unfold IsAlias
    decide +kernel
  · unfold IsAlias
    decide +kernel
  · decide +kernel
  · decide +kernel
  · decide +kernel

/-- The port of a registry is taken for a tag. -/
theorem portedName_untagged
    : parseReference "localhost:5000/app" = parseReference "localhost:5000/app:latest"
      ∧ withoutImplicit (normaliseTag "localhost:5000/app").toList
        ≠ withoutImplicit (normaliseTag "localhost:5000/app:latest").toList := by
  decide +kernel

end Delonix.Images
