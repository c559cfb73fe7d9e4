import Delonix.Library.Text

/-! Image references as three readers see them: the puller splits one into host, repository
and tag or digest; the admission gate reads its registry and asks whether it is `latest`.
-/

namespace Delonix.Images

open Delonix.Library.Text

/-- The registry the official images come from. -/
def hubHost : List Char := "registry-1.docker.io".toList

/-- Docker's rule for a first segment that names a registry. -/
def looksLikeHost (first : List Char) : Bool :=
  first.contains '.' || first.contains ':' || first == "localhost".toList

/-- The text up to the last slash, with it, and the rest. -/
def lastSegment (s : List Char) : List Char × List Char :=
  match rsplitOnce '/' s with
  | some (before, after) => (before ++ ['/'], after)
  | none => ([], s)

/-- The name and the tag. A colon separates them only after the last slash. -/
def cutTag (s : List Char) : List Char × Option (List Char) :=
  let (front, base) := lastSegment s
  match splitOnce ':' base with
  | some (name, tag) => (front ++ name, some tag)
  | none => (s, none)

/-- The name without its digest and tag, and what the puller asks for: the digest when there
is one, else the tag.
-/
def nameAndReference (input : List Char) : List Char × List Char :=
  match splitOnce '@' input with
  | some (before, digest) => ((cutTag before).1, digest)
  | none =>
      let (name, tag) := cutTag input
      (name, tag.getD "latest".toList)

/-- The host a name starts with, and the repository after it. -/
def hostAndRepo (name : List Char) : List Char × List Char :=
  match splitOnce '/' name with
  | some (first, rest) => if looksLikeHost first then (first, rest) else (hubHost, name)
  | none => (hubHost, name)

structure Reference where
  host : List Char
  repo : List Char
  reference : List Char
  deriving DecidableEq, Repr

/-- Splits a reference into the host to contact, the repository and the tag or digest. -/
def parseReference (input : String) : Reference :=
  let (name, reference) := nameAndReference input.toList
  let (host, repo) := hostAndRepo name
  let host :=
    if host = "docker.io".toList ∨ host = "index.docker.io".toList then hubHost else host
  let repo := if host = hubHost ∧ '/' ∉ repo then "library/".toList ++ repo else repo
  { host := host, repo := repo, reference := reference }

/-- The registry the gate judges. -/
def registryOf (image : String) : List Char :=
  match splitOnce '/' image.toList with
  | some (first, _) => if looksLikeHost first then first else "docker.io".toList
  | none => "docker.io".toList

/-- Whether the gate takes a reference for `latest`: it has no digest, and no tag or that
one.
-/
def isLatest (image : String) : Bool :=
  if image.toList.contains '@' then false
  else
    match rsplitOnce ':' (lastSegment image.toList).2 with
    | some (_, tag) => tag == "latest".toList
    | none => true

/-- Where the last slash is, the first segment and its slash stand before it. -/
theorem lastSegment_of_slash {first : List Char} (rest : List Char) (absent : '/' ∉ first)
    : ∃ middle, (lastSegment (first ++ '/' :: rest)).1 = first ++ '/' :: middle := by
  rw [lastSegment]
  split
  case h_2 none =>
    have slash : '/' ∈ (first ++ '/' :: rest).reverse := by simp
    exact absurd slash (not_mem_of_splitOnce_eq_none (Option.map_eq_none_iff.mp none))
  case h_1 before after found =>
    rcases List.append_eq_append_iff.mp (rsplitOnce_eq_some found).1 with
      ⟨gap, rfl, rest⟩ | ⟨gap, rfl, rest⟩
    · cases gap with
      | nil => exact ⟨[], by simp⟩
      | cons c gap =>
          obtain ⟨rfl, _⟩ := List.cons.inj rest
          exact ⟨gap ++ ['/'], by simp⟩
    · cases gap with
      | nil => exact ⟨[], by simp⟩
      | cons c gap =>
          obtain ⟨rfl, _⟩ := List.cons.inj rest
          exact absurd (by simp) absent

/-- Cutting the tag leaves a first segment that a slash ends. -/
theorem cutTag_of_slash {first : List Char} (rest : List Char) (absent : '/' ∉ first)
    : ∃ middle, (cutTag (first ++ '/' :: rest)).1 = first ++ '/' :: middle := by
  obtain ⟨middle, front⟩ := lastSegment_of_slash rest absent
  simp only [cutTag]
  split
  case h_1 name tag _ => exact ⟨middle ++ name, by simp [front]⟩
  case h_2 => exact ⟨rest, rfl⟩

theorem cutTag_start (s : List Char) : (cutTag s).1 <+: s := by
  simp only [cutTag]
  split
  case h_1 name tag found =>
    have whole : (lastSegment s).1 ++ (lastSegment s).2 = s := by
      rw [lastSegment]
      split
      case h_1 before after cut => simp [(rsplitOnce_eq_some cut).1]
      case h_2 => rfl
    refine ⟨':' :: tag, ?_⟩
    rw [List.append_assoc, ← (splitOnce_eq_some found).1, whole]
  case h_2 => exact List.prefix_refl s

/-- The name is the start of the input. -/
theorem nameAndReference_start (input : List Char) : (nameAndReference input).1 <+: input := by
  rw [nameAndReference]
  split
  case h_1 before digest found =>
    refine (cutTag_start before).trans ?_
    rw [(splitOnce_eq_some found).1]
    exact List.prefix_append _ _
  case h_2 => exact cutTag_start input

/-- A first segment without `@` that a slash ends is the name's first segment too. -/
theorem nameAndReference_of_slash {first : List Char} (rest : List Char)
    (absent : '/' ∉ first) (plain : '@' ∉ first)
    : ∃ middle, (nameAndReference (first ++ '/' :: rest)).1 = first ++ '/' :: middle := by
  rw [nameAndReference]
  split
  case h_1 before digest found =>
    -- The digest starts behind the slash, so the slash is before the `@`.
    obtain ⟨same, _⟩ := splitOnce_eq_some found
    rcases List.append_eq_append_iff.mp same with ⟨gap, rfl, tail⟩ | ⟨gap, rfl, tail⟩
    · cases gap with
      | nil => exact absurd (List.cons.inj tail).1 (by decide)
      | cons c gap =>
          obtain ⟨rfl, _⟩ := List.cons.inj tail
          exact cutTag_of_slash gap absent
    · cases gap with
      | nil => exact absurd (List.cons.inj tail).1 (by decide)
      | cons c gap =>
          obtain ⟨rfl, _⟩ := List.cons.inj tail
          exact absurd (by simp) plain
  case h_2 => exact cutTag_of_slash rest absent

/-- A name whose first segment is no host belongs to the hub. -/
theorem hostAndRepo_of_start {name input : List Char} (start : name <+: input)
    (judged : ∀ first rest, splitOnce '/' input = some (first, rest)
      → looksLikeHost first = false)
    : (hostAndRepo name).1 = hubHost := by
  rw [hostAndRepo]
  split
  case h_1 first rest found =>
    obtain ⟨rfl, absent⟩ := splitOnce_eq_some found
    obtain ⟨tail, rfl⟩ := start
    have other := judged first (rest ++ tail) (by
      rw [List.append_assoc]
      exact splitOnce_append _ absent)
    rw [if_neg (by simp [other])]
  case h_2 => rfl

/-- The registry the gate judged is the one the puller contacts, the hub's own names aside. -/
theorem host_parseReference {s : String} {a : List Char} (judged : registryOf s = a)
    (plain : '@' ∉ a)
    : (parseReference s).host = a
      ∨ (a = "docker.io".toList ∨ a = "index.docker.io".toList)
        ∧ (parseReference s).host = hubHost := by
  have host : (parseReference s).host
      = if (hostAndRepo (nameAndReference s.toList).1).1 = "docker.io".toList
          ∨ (hostAndRepo (nameAndReference s.toList).1).1 = "index.docker.io".toList
        then hubHost else (hostAndRepo (nameAndReference s.toList).1).1 := rfl
  have hub (other : ∀ first rest, splitOnce '/' s.toList = some (first, rest)
        → looksLikeHost first = false)
      : (parseReference s).host = hubHost := by
    rw [host, hostAndRepo_of_start (nameAndReference_start _) other, ite_self]
  rw [registryOf] at judged
  split at judged
  case h_1 first rest found =>
    split at judged
    case isTrue named =>
      subst a
      obtain ⟨whole, absent⟩ := splitOnce_eq_some found
      obtain ⟨middle, name⟩ := nameAndReference_of_slash rest absent plain
      have contacted : (hostAndRepo (nameAndReference s.toList).1).1 = first := by
        rw [whole, name, hostAndRepo, splitOnce_append middle absent]
        exact congrArg Prod.fst (if_pos named)
      rw [host, contacted]
      by_cases known : first = "docker.io".toList ∨ first = "index.docker.io".toList
      · exact .inr ⟨known, if_pos known⟩
      · exact .inl (if_neg known)
    case isFalse unnamed =>
      refine .inr ⟨.inl judged.symm, hub ?_⟩
      intro first' rest' again
      obtain ⟨rfl, rfl⟩ := Prod.mk.inj (Option.some.inj (found.symm.trans again))
      simpa using unnamed
  case h_2 none =>
    refine .inr ⟨.inl judged.symm, hub ?_⟩
    intro first rest found
    rw [none] at found
    contradiction

theorem host_parseReference_ghcr
    : registryOf "ghcr.io/org/app:1.0@sha256:aa" = "ghcr.io".toList
      ∧ (parseReference "ghcr.io/org/app:1.0@sha256:aa").host = "ghcr.io".toList := by
  have judged : registryOf "ghcr.io/org/app:1.0@sha256:aa" = "ghcr.io".toList := by
    decide +kernel
  refine ⟨judged, ?_⟩
  rcases host_parseReference judged (by decide +kernel) with same | ⟨known, _⟩
  · exact same
  · exact absurd known (by decide +kernel)

end Delonix.Images
