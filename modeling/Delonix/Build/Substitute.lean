import Delonix.Library.Text
import Delonix.Security.Redact
import Std.Data.ExtTreeMap

/-! Variables in the lines of a Dockerfile: a scan from left to right that replaces the names it
knows, and the environment of an image, to which assignments are added one by one.
-/

namespace Delonix.Build

open Delonix.Library.Text
open Delonix.Security (utf8Len)

/-- Known names with their values. -/
abbrev Vars := Std.ExtTreeMap String String

inductive Error where
  | dockerfile (message : String)
  deriving DecidableEq

def maxSubstitutedLen : Nat := 1024 * 1024

def substitutedTooLarge (line : List Char) : Error :=
  .dockerfile ("value too large after $\x7b...\x7d/$VAR substitution (over "
    ++ toString maxSubstitutedLen ++ " bytes) — refusing to keep expanding: "
    ++ String.ofList (line.take 80) ++ "...")

def isNameStart (c : Char) : Bool := c.isAlpha || c == '_'

def isNameChar (c : Char) : Bool := c.isAlphanum || c == '_'

/-- The longest name at the front of a text. -/
def bareName : List Char → List Char
  | [] => []
  | c :: rest => if isNameStart c then c :: rest.takeWhile isNameChar else []

/-- The scan of what is left of a line, with the output so far. `skip` counts the characters that
the iterator is still to be advanced by.
-/
def substituteFrom (line : List Char) (known : Vars)
    : Nat → List Char → List Char → Except Error (List Char)
  | _, out, [] => .ok out
  | skip + 1, out, _ :: rest => substituteFrom line known skip out rest
  | 0, out, ch :: rest =>
      if ch ≠ '$' then substituteFrom line known 0 (out ++ [ch]) rest
      else if rest.head? = some '\x7b' then
        match splitOnce '\x7d' rest.tail with
        | none => substituteFrom line known 0 (out ++ [ch]) rest
        | some (name, _) =>
            match known[String.ofList name]? with
            | none => substituteFrom line known 0 (out ++ [ch]) rest
            | some val =>
                if maxSubstitutedLen < utf8Len (out ++ val.toList) then
                  .error (substitutedTooLarge line)
                else
                  -- The length of the name is counted in bytes.
                  substituteFrom line known (1 + utf8Len name + 1) (out ++ val.toList) rest
      else
        let name := bareName rest
        match if name.isEmpty then none else known[String.ofList name]? with
        | none => substituteFrom line known 0 (out ++ [ch]) rest
        | some val =>
            if maxSubstitutedLen < utf8Len (out ++ val.toList) then
              .error (substitutedTooLarge line)
            else substituteFrom line known name.length (out ++ val.toList) rest

def substituteVars (line : String) (known : Vars) : Except Error String :=
  (substituteFrom line.toList known 0 [] line.toList).map String.ofList

/-- An entry of an environment as a name and its value. -/
def entry (e : String) : Option (String × String) :=
  (splitOnce '=' e.toList).map fun (key, val) => (String.ofList key, String.ofList val)

/-- The names that entries set, where a later one overrides an earlier one. -/
def readingFrom (vars : Vars) (env : List String) : Vars :=
  env.foldl (fun vars e =>
    match entry e with
    | none => vars
    | some (key, val) => vars.insert key val) vars

def reading (env : List String) : Vars := readingFrom ∅ env

/-- One addition to an environment. -/
def addEntry (env : List String) (kv : String) : Except Error (List String) :=
  match entry kv with
  | none => .ok (env ++ [kv])
  | some (key, val) => do
      let val ← substituteVars val (reading env)
      let kept := env.filter fun e => !(key ++ "=").toList.isPrefixOf e.toList
      .ok (kept ++ [key ++ "=" ++ val])

/-- The environment of an image: `base`, then each of `additions` in order. -/
def mergeEnv (base additions : List String) : Except Error (List String) :=
  additions.foldlM addEntry base

variable {line : List Char} {known : Vars}

/-- Skipped characters are not looked at. -/
theorem substituteFrom_skip (skip : Nat) (out text : List Char)
    : substituteFrom line known skip out text = substituteFrom line known 0 out (text.drop skip) := by
  induction skip generalizing text with
  | zero => rfl
  | succ skip ih =>
      cases text with
      | nil => rfl
      | cons c rest =>
          rw [substituteFrom, List.drop_succ_cons]
          exact ih rest

/-- A text has as many bytes as characters, and more unless all of them are ASCII. -/
theorem length_le_utf8Len (s : List Char) : s.length ≤ utf8Len s := by
  induction s with
  | nil => exact Nat.zero_le _
  | cons c s ih =>
      have := c.utf8Size_pos
      simp only [utf8Len, List.map_cons, List.sum_cons, List.length_cons] at ih ⊢
      omega

theorem utf8Len_append (s t : List Char) : utf8Len (s ++ t) = utf8Len s + utf8Len t := by
  simp [utf8Len]

def isAscii (s : List Char) : Bool := s.all fun c => c.toNat < 128

theorem utf8Size_eq_one_iff (c : Char) : c.utf8Size = 1 ↔ c.toNat < 128 := by
  rw [Char.utf8Size_eq_one_iff, UInt32.le_iff_toNat_le]
  exact Nat.lt_succ_iff.symm

theorem utf8Len_eq_length_iff (s : List Char) : utf8Len s = s.length ↔ isAscii s = true := by
  induction s with
  | nil => simp [utf8Len, isAscii]
  | cons c s ih =>
      have positive := c.utf8Size_pos
      have least := length_le_utf8Len s
      have one := utf8Size_eq_one_iff c
      have head : utf8Len (c :: s) = c.utf8Size + utf8Len s := by simp [utf8Len]
      rw [head, List.length_cons, isAscii, List.all_cons, ← isAscii, Bool.and_eq_true,
        decide_eq_true_eq, ← one, ← ih]
      omega

/-- A name in braces that is known, whose value replaces it. What a name has more bytes than
characters is skipped behind it.
-/
theorem substituteFrom_braced {name val : String} (closed : '\x7d' ∉ name.toList)
    (held : known[name]? = some val) (out rest : List Char)
    : substituteFrom line known 0 out ('$' :: '\x7b' :: (name.toList ++ '\x7d' :: rest))
      = if maxSubstitutedLen < utf8Len (out ++ val.toList) then .error (substitutedTooLarge line)
        else substituteFrom line known 0 (out ++ val.toList)
          (rest.drop (utf8Len name.toList - name.toList.length)) := by
  have least := length_le_utf8Len name.toList
  have whole : '\x7b' :: (name.toList ++ '\x7d' :: rest)
      = ('\x7b' :: (name.toList ++ ['\x7d'])) ++ rest := by simp
  have behind : ('\x7b' :: (name.toList ++ '\x7d' :: rest)).drop (1 + utf8Len name.toList + 1)
      = rest.drop (utf8Len name.toList - name.toList.length) := by
    have front : ('\x7b' :: (name.toList ++ ['\x7d'])).length = 1 + name.toList.length + 1 := by
      simp
      omega
    rw [whole, List.drop_append, front, List.drop_eq_nil_of_le (by omega), List.nil_append]
    congr 1
    omega
  rw [substituteFrom]
  simp only [ne_eq, not_true_eq_false, if_false, List.head?_cons, if_true, List.tail_cons,
    splitOnce_append rest closed, String.ofList_toList, held]
  rw [substituteFrom_skip, behind]

/-- A name as it may stand without braces. -/
structure IsName (name : List Char) : Prop where
  starts : ∃ c rest, name = c :: rest ∧ isNameStart c = true ∧ ∀ d ∈ rest, isNameChar d = true

theorem bareName_append {name rest : List Char} (isName : IsName name)
    (longest : ∀ c ∈ rest.head?, isNameChar c = false)
    : bareName (name ++ rest) = name := by
  obtain ⟨c, tail, rfl, starts, chars⟩ := isName.starts
  have stops : rest.takeWhile isNameChar = [] := by
    cases rest with
    | nil => rfl
    | cons d rest => simp [longest d rfl]
  rw [List.cons_append, bareName, if_pos starts, List.takeWhile_append_of_pos chars, stops,
    List.append_nil]

/-- The name at the front of a text is cut off at its longest. -/
theorem bareName_spec {text : List Char} (nonempty : bareName text ≠ [])
    : IsName (bareName text) ∧ ∃ rest, text = bareName text ++ rest
      ∧ ∀ c ∈ rest.head?, isNameChar c = false := by
  cases text with
  | nil => contradiction
  | cons c rest =>
      rw [bareName] at nonempty ⊢
      split at nonempty
      case isFalse => contradiction
      case isTrue starts =>
        rw [if_pos starts]
        refine ⟨⟨c, _, rfl, starts, fun d => List.mem_takeWhile_imp⟩,
          rest.dropWhile isNameChar, ?_, ?_⟩
        · rw [List.cons_append, List.takeWhile_append_dropWhile]
        · intro d first
          have stopped := List.head?_dropWhile_not isNameChar rest
          rw [Option.mem_def.mp first] at stopped
          simpa using stopped

theorem IsName.ne_nil {name : List Char} (isName : IsName name) : name ≠ [] := by
  obtain ⟨c, tail, rfl, -⟩ := isName.starts
  exact List.cons_ne_nil _ _

/-- A name without braces that is known, whose value replaces it. -/
theorem substituteFrom_bare {name val : String} {rest : List Char} (isName : IsName name.toList)
    (longest : ∀ c ∈ rest.head?, isNameChar c = false) (held : known[name]? = some val)
    (out : List Char)
    : substituteFrom line known 0 out ('$' :: (name.toList ++ rest))
      = if maxSubstitutedLen < utf8Len (out ++ val.toList) then .error (substitutedTooLarge line)
        else substituteFrom line known 0 (out ++ val.toList) rest := by
  have noBrace : (name.toList ++ rest).head? ≠ some '\x7b' := by
    obtain ⟨c, tail, is, starts, -⟩ := isName.starts
    rw [is, List.cons_append, List.head?_cons]
    intro same
    rw [Option.some.inj same] at starts
    exact absurd starts (by decide)
  rw [substituteFrom]
  simp only [ne_eq, not_true_eq_false, if_false, noBrace, bareName_append isName longest,
    List.isEmpty_eq_false_iff.mpr isName.ne_nil, Bool.false_eq_true, String.ofList_toList, held]
  rw [substituteFrom_skip, List.drop_left]

end Delonix.Build
