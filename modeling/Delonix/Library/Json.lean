import Delonix.Library.Sorting
import Delonix.Library.Text
import Mathlib.Data.String.Basic

/-! JSON values and their compact text, which no two values share.
An object keeps its fields in the order of their keys.
-/

namespace Delonix.Library.Json

open Delonix.Library.Sorting
open Delonix.Library.Text

/-- The characters of numbers. -/
def isNumberChar (c : Char) : Bool :=
  (48 ≤ c.toNat && c.toNat ≤ 57) || ['-', '+', '.', 'e', 'E'].contains c

/-- A negative number or one with a fraction or an exponent, by its text. -/
structure OtherNumber where
  text : List Char
  chars : ∀ c ∈ text, isNumberChar c = true
  opens : ∃ c rest, text = c :: rest ∧ (c = '-' ∨ 48 ≤ c.toNat ∧ c.toNat ≤ 57)
  other : ∀ n, text ≠ decimal n

inductive Value where
  | null
  | bool (value : Bool)
  | number (value : Nat)
  | otherNumber (value : OtherNumber)
  | text (value : String)
  | array (items : List Value)
  | object (fields : List (String × Value))

/-- An object literal, whose keys are distinct. -/
def Value.objectOf (fields : List (String × Value)) : Value :=
  .object (sortByKey Prod.fst fields)

/-- An optional value, absent as `null`. -/
def Value.option {α : Type} (some : α → Value) (value : Option α) : Value :=
  value.elim .null some

/-- A field of an object; `null` where there is none. -/
def Value.get (key : String) : Value → Value
  | .object fields => (fields.lookup key).getD .null
  | _ => .null

/-- The value of a field, where there is one. -/
def Value.get? (key : String) : Value → Option Value
  | .object fields => fields.lookup key
  | _ => none

def Value.asArray : Value → Option (List Value)
  | .array items => some items
  | _ => none

def Value.asU64 : Value → Option Nat
  | .number value => if value < 2 ^ 64 then some value else none
  | _ => none

def Value.asStr : Value → Option String
  | .text value => some value
  | _ => none

mutual

/-- A value with the fields of every object in order, at every depth. -/
def canonical : Value → Value
  | .array items => .array (canonicalItems items)
  | .object fields => .object (sortByKey Prod.fst (canonicalFields fields))
  | .null => .null
  | .bool value => .bool value
  | .number value => .number value
  | .otherNumber value => .otherNumber value
  | .text value => .text value

def canonicalItems : List Value → List Value
  | [] => []
  | item :: rest => canonical item :: canonicalItems rest

def canonicalFields : List (String × Value) → List (String × Value)
  | [] => []
  | (key, value) :: rest => (key, canonical value) :: canonicalFields rest

end

-----------------------------------------------------------------------------------------
-- Text
-----------------------------------------------------------------------------------------

/-- The characters with an escape of their own, and its letter. -/
def letterEscapes : List (Char × Char) :=
  [ ('"', '"'), ('\\', '\\'), ('\x08', 'b'), ('\t', 't'), ('\n', 'n'), ('\x0c', 'f'),
    ('\r', 'r') ]

/-- One character between the quotes. -/
def escapeChar (c : Char) : List Char :=
  match letterEscapes.lookup c with
  | some letter => ['\\', letter]
  | none =>
      if c.toNat < 32 then
        ['\\', 'u', '0', '0', Nat.digitChar (c.toNat / 16), Nat.digitChar (c.toNat % 16)]
      else [c]

def quoted (value : String) : List Char := '"' :: (value.toList.flatMap escapeChar ++ ['"'])

mutual

/-- The compact text of a value. -/
def write : Value → List Char
  | .null => ['n', 'u', 'l', 'l']
  | .bool true => ['t', 'r', 'u', 'e']
  | .bool false => ['f', 'a', 'l', 's', 'e']
  | .number value => decimal value
  | .otherNumber value => value.text
  | .text value => quoted value
  | .array [] => ['[', ']']
  | .array (item :: rest) => '[' :: (write item ++ writeItems rest)
  | .object [] => ['\x7b', '\x7d']
  | .object ((key, value) :: rest) =>
      '\x7b' :: (quoted key ++ ':' :: (write value ++ writeFields rest))

/-- The items behind the first one, to the end of the array. -/
def writeItems : List Value → List Char
  | [] => [']']
  | item :: rest => ',' :: (write item ++ writeItems rest)

/-- The fields behind the first one, to the end of the object. -/
def writeFields : List (String × Value) → List Char
  | [] => ['\x7d']
  | (key, value) :: rest => ',' :: (quoted key ++ ':' :: (write value ++ writeFields rest))

end

-----------------------------------------------------------------------------------------
-- Values in order
-----------------------------------------------------------------------------------------

theorem canonicalItems_eq (items : List Value) : canonicalItems items = items.map canonical := by
  induction items with
  | nil => rfl
  | cons item rest ih => rw [canonicalItems, ih, List.map_cons]

theorem canonicalFields_eq (fields : List (String × Value))
    : canonicalFields fields = fields.map (fun field => (field.1, canonical field.2)) := by
  induction fields with
  | nil => rfl
  | cons field rest ih => rw [canonicalFields, ih, List.map_cons]

theorem canonical_objectOf (fields : List (String × Value))
    : canonical (.objectOf fields)
      = .objectOf (fields.map (fun field => (field.1, canonical field.2))) := by
  rw [Value.objectOf, canonical, canonicalFields_eq, Value.objectOf]
  congr 1
  have keyed : (sortByKey Prod.fst fields).map (fun field => (field.1, canonical field.2))
      = sortByKey Prod.fst (fields.map (fun field => (field.1, canonical field.2))) :=
    List.map_insertionSort _ _ _ _ (fun _ _ _ _ => Iff.rfl)
  rw [keyed]
  exact sortByKey_eq_self (pairwise_sortByKey _)

@[simp] theorem canonical_bool (value : Bool) : canonical (.bool value) = .bool value := by
  rw [canonical]

@[simp] theorem canonical_number (value : Nat) : canonical (.number value) = .number value := by
  rw [canonical]

@[simp] theorem canonical_text (value : String) : canonical (.text value) = .text value := by
  rw [canonical]

/-- An array of values in order is in order. -/
theorem canonical_array {items : List Value} (ordered : ∀ item ∈ items, canonical item = item)
    : canonical (.array items) = .array items := by
  rw [canonical, canonicalItems_eq, List.map_congr_left ordered, List.map_id']

theorem canonical_option {α : Type} {some : α → Value}
    (ordered : ∀ a, canonical (some a) = some a) (value : Option α)
    : canonical (.option some value) = .option some value := by
  cases value with
  | none => rfl
  | some a => exact ordered a

/-- A permutation that keeps distinct keys in their places moves nothing. -/
theorem eq_of_perm_of_keys {α : Type} {fields fields' : List (String × α)}
    (distinct : (fields.map Prod.fst).Nodup)
    (keys : fields'.map Prod.fst = fields.map Prod.fst) (perm : fields.Perm fields')
    : fields = fields' := by
  induction fields generalizing fields' with
  | nil => exact (List.nil_perm.mp perm).symm
  | cons field rest ih =>
      cases fields' with
      | nil => cases keys
      | cons field' rest' =>
          rw [List.map_cons, List.map_cons] at keys
          rw [List.map_cons, List.nodup_cons] at distinct
          have here : field = field' := by
            rcases List.mem_cons.mp (perm.mem_iff.mp List.mem_cons_self) with same | later
            · exact same
            · have again := List.mem_map_of_mem (f := Prod.fst) later
              rw [(List.cons.inj keys).2] at again
              exact absurd again distinct.1
          subst here
          rw [ih distinct.2 (List.cons.inj keys).2 (List.Perm.cons_inv perm)]

/-- With the same distinct keys, objects are equal exactly when all their fields are. -/
theorem objectOf_inj {fields fields' : List (String × Value)}
    (distinct : (fields.map Prod.fst).Nodup)
    (keys : fields'.map Prod.fst = fields.map Prod.fst)
    : Value.objectOf fields = .objectOf fields' ↔ fields = fields' := by
  constructor
  · intro same
    have sorted : sortByKey Prod.fst fields = sortByKey Prod.fst fields' :=
      Value.object.inj same
    exact eq_of_perm_of_keys distinct keys
      ((perm_sortByKey fields).symm.trans (sorted ▸ perm_sortByKey fields'))
  · rintro rfl
    rfl

theorem lookup_eq_some_iff_mem {α : Type} {fields : List (String × α)}
    (distinct : (fields.map Prod.fst).Nodup) {key : String} {value : α}
    : fields.lookup key = some value ↔ (key, value) ∈ fields := by
  induction fields with
  | nil => simp
  | cons field rest ih =>
      obtain ⟨first, held⟩ := field
      rw [List.map_cons, List.nodup_cons] at distinct
      rw [List.lookup_cons]
      by_cases here : key = first
      · subst here
        simp only [beq_self_eq_true, List.mem_cons, Prod.mk.injEq, true_and, Option.some.injEq]
        constructor
        · rintro rfl
          exact .inl rfl
        · rintro (rfl | later)
          · rfl
          · exact absurd (List.mem_map_of_mem (f := Prod.fst) later) distinct.1
      · simp [beq_eq_false_iff_ne.mpr here, here, ih distinct.2]

theorem get_objectOf {fields : List (String × Value)}
    (distinct : (fields.map Prod.fst).Nodup) (key : String)
    : (Value.objectOf fields).get key = (fields.lookup key).getD .null := by
  have perm : (sortByKey Prod.fst fields).Perm fields := perm_sortByKey fields
  have distinct' := (perm.map Prod.fst).nodup_iff.mpr distinct
  have same : (sortByKey Prod.fst fields).lookup key = fields.lookup key := by
    ext value
    rw [lookup_eq_some_iff_mem distinct, lookup_eq_some_iff_mem distinct', perm.mem_iff]
  rw [Value.objectOf, Value.get, same]

-----------------------------------------------------------------------------------------
-- No two values share a text
-----------------------------------------------------------------------------------------

/-- What a character is written as: the escape with its letter, its code, or itself. -/
theorem escapeChar_cases (c : Char)
    : (∃ letter, (c, letter) ∈ letterEscapes ∧ escapeChar c = ['\\', letter])
      ∨ c.toNat < 32 ∧ escapeChar c
        = ['\\', 'u', '0', '0', Nat.digitChar (c.toNat / 16), Nat.digitChar (c.toNat % 16)]
      ∨ escapeChar c = [c] ∧ c ≠ '\\' ∧ c ≠ '"' := by
  unfold escapeChar
  split
  case h_1 letter found =>
    obtain ⟨_, _, is, -⟩ := List.lookup_eq_some_iff.mp found
    exact .inl ⟨letter, by rw [is]; simp, rfl⟩
  case h_2 absent =>
    refine .inr ?_
    split
    case isTrue control => exact .inl ⟨control, rfl⟩
    case isFalse =>
      have plain : ∀ entry ∈ letterEscapes, c ≠ entry.1 := by
        intro entry member
        simpa using List.lookup_eq_none_iff.mp absent entry member
      exact .inr ⟨rfl, plain ('\\', '\\') (by simp [letterEscapes]),
        plain ('"', '"') (by simp [letterEscapes])⟩

/-- The escape of a character can be cut off the text it starts. -/
theorem escapeChar_append_inj {c d : Char} {x y : List Char}
    (same : escapeChar c ++ x = escapeChar d ++ y)
    : c = d ∧ x = y := by
  have letters : ∀ p ∈ letterEscapes, p.2 ≠ 'u' ∧ ∀ q ∈ letterEscapes, p.2 = q.2 → p.1 = q.1 := by
    decide
  have digits : ∀ m < 16, ∀ n < 16, Nat.digitChar m = Nat.digitChar n → m = n := by decide
  obtain ⟨l, hl, ec⟩ | ⟨control, ec⟩ | ⟨ec, nc, _⟩ := escapeChar_cases c
  · obtain ⟨m, hm, ed⟩ | ⟨_, ed⟩ | ⟨ed, nd, _⟩ := escapeChar_cases d
    · simp only [ec, ed, List.cons_append, List.nil_append, List.cons.injEq, true_and] at same
      exact ⟨(letters _ hl).2 _ hm same.1, same.2⟩
    · simp only [ec, ed, List.cons_append, List.nil_append, List.cons.injEq, true_and] at same
      exact ((letters _ hl).1 same.1).elim
    · simp only [ec, ed, List.cons_append, List.nil_append, List.cons.injEq] at same
      exact (nd same.1.symm).elim
  · obtain ⟨m, hm, ed⟩ | ⟨control', ed⟩ | ⟨ed, nd, _⟩ := escapeChar_cases d
    · simp only [ec, ed, List.cons_append, List.nil_append, List.cons.injEq, true_and] at same
      exact ((letters _ hm).1 same.1.symm).elim
    · simp only [ec, ed, List.cons_append, List.nil_append, List.cons.injEq, true_and] at same
      obtain ⟨high, low, rest⟩ := same
      have high := digits _ (by omega) _ (by omega) high
      have low := digits _ (by omega) _ (by omega) low
      exact ⟨Char.toNat_inj.mp (by omega), rest⟩
    · simp only [ec, ed, List.cons_append, List.nil_append, List.cons.injEq] at same
      exact (nd same.1.symm).elim
  · obtain ⟨m, hm, ed⟩ | ⟨_, ed⟩ | ⟨ed, nd, _⟩ := escapeChar_cases d
    · simp only [ec, ed, List.cons_append, List.nil_append, List.cons.injEq] at same
      exact (nc same.1).elim
    · simp only [ec, ed, List.cons_append, List.nil_append, List.cons.injEq] at same
      exact (nc same.1).elim
    · simpa [ec, ed] using same

/-- No escape starts with the quote that closes a string. -/
theorem quote_ne_escapeChar (c : Char) (x y : List Char) : '"' :: x ≠ escapeChar c ++ y := by
  obtain ⟨l, _, ec⟩ | ⟨_, ec⟩ | ⟨ec, _, quote⟩ := escapeChar_cases c
  · simp [ec]
  · simp [ec]
  · simp [ec, Ne.symm quote]

theorem quoted_append_inj {s t : String} {x y : List Char}
    (same : quoted s ++ x = quoted t ++ y)
    : s = t ∧ x = y := by
  simp only [quoted, List.cons_append, List.append_assoc, List.nil_append, List.cons.injEq,
    true_and] at same
  obtain ⟨texts, rest⟩ := flatMap_append_inj escapeChar_append_inj quote_ne_escapeChar same
  exact ⟨String.toList_inj.mp texts, rest⟩

/-- A text no number goes on with. -/
def Stops (rest : List Char) : Prop := ∀ c more, rest = c :: more → isNumberChar c = false

theorem stops_nil : Stops [] := by
  intro c more is
  cases is

theorem stops_cons {c : Char} (other : isNumberChar c = false) (more : List Char)
    : Stops (c :: more) := by
  intro d rest is
  exact (List.cons.inj is).1 ▸ other

theorem stops_writeItems (items : List Value) (x : List Char) : Stops (writeItems items ++ x) := by
  cases items with
  | nil => exact stops_cons (by decide) _
  | cons item rest => exact stops_cons (by decide) _

theorem stops_writeFields (fields : List (String × Value)) (x : List Char)
    : Stops (writeFields fields ++ x) := by
  cases fields with
  | nil => exact stops_cons (by decide) _
  | cons field rest => exact stops_cons (by decide) _

/-- A number can be cut off a text that stops it. -/
theorem append_inj_of_stops {a b x y : List Char} (ha : ∀ c ∈ a, isNumberChar c = true)
    (hb : ∀ c ∈ b, isNumberChar c = true) (hx : Stops x) (hy : Stops y) (same : a ++ x = b ++ y)
    : a = b ∧ x = y := by
  have read {front back : List Char} (all : ∀ c ∈ front, isNumberChar c = true)
      (stops : Stops back)
      : (front ++ back).takeWhile isNumberChar = front := by
    rw [List.takeWhile_append_of_pos all]
    cases back with
    | nil => simp
    | cons c more => simp [stops c more rfl]
  have front : a = b := by rw [← read ha hx, same, read hb hy]
  exact ⟨front, List.append_cancel_left (front ▸ same)⟩

theorem isNumberChar_decimal (n : Nat) : ∀ c ∈ decimal n, isNumberChar c = true := by
  intro c member
  have digit := isDigit_toDigits member
  simp [isNumberChar, digit]

inductive Kind where
  | null
  | bool
  | number
  | text
  | array
  | object
  deriving DecidableEq

def Value.kind : Value → Kind
  | .null => .null
  | .bool _ => .bool
  | .number _ => .number
  | .otherNumber _ => .number
  | .text _ => .text
  | .array _ => .array
  | .object _ => .object

/-- The kind of value that a text with this first character stands for. -/
def kindAt (c : Char) : Option Kind :=
  if c = 'n' then some .null
  else if c = 't' ∨ c = 'f' then some .bool
  else if c = '"' then some .text
  else if c = '[' then some .array
  else if c = '\x7b' then some .object
  else if c = '-' ∨ 48 ≤ c.toNat ∧ c.toNat ≤ 57 then some .number
  else none

theorem kindAt_digit {c : Char} (digit : 48 ≤ c.toNat ∧ c.toNat ≤ 57) : kindAt c = some .number := by
  have other (d : Char) (outside : d.toNat < 48 ∨ 57 < d.toNat) : c ≠ d := by
    rintro rfl
    omega
  simp [kindAt, other 'n' (by decide), other 't' (by decide), other 'f' (by decide),
    other '"' (by decide), other '[' (by decide), other '\x7b' (by decide), digit]

theorem write_opening (value : Value)
    : ∃ c rest, write value = c :: rest ∧ kindAt c = some value.kind := by
  cases value with
  | null => exact ⟨_, _, rfl, rfl⟩
  | bool value => cases value <;> exact ⟨_, _, rfl, rfl⟩
  | number n =>
      obtain ⟨c, rest, is⟩ := List.exists_cons_of_ne_nil (decimal_ne_nil n)
      exact ⟨c, rest, is, kindAt_digit (isDigit_toDigits (is ▸ List.mem_cons_self))⟩
  | otherNumber value =>
      obtain ⟨c, rest, is, rfl | digit⟩ := value.opens
      · exact ⟨'-', rest, is, rfl⟩
      · exact ⟨c, rest, is, kindAt_digit digit⟩
  | text value => exact ⟨_, _, rfl, rfl⟩
  | array items => cases items <;> exact ⟨_, _, rfl, rfl⟩
  | object fields => cases fields <;> exact ⟨_, _, rfl, rfl⟩

/-- No value begins with the bracket that closes an array. -/
theorem close_ne_write (value : Value) (x y : List Char) : ']' :: x ≠ write value ++ y := by
  intro same
  obtain ⟨c, rest, is, opens⟩ := write_opening value
  rw [is, List.cons_append] at same
  rw [← (List.cons.inj same).1] at opens
  cases opens

/-- The kind of a value shows at the first character of its text. -/
theorem kind_eq {v w : Value} {x y : List Char} (same : write v ++ x = write w ++ y)
    : v.kind = w.kind := by
  obtain ⟨c, rest, is, opens⟩ := write_opening v
  obtain ⟨c', rest', is', opens'⟩ := write_opening w
  rw [is, is', List.cons_append, List.cons_append] at same
  rw [(List.cons.inj same).1, opens'] at opens
  exact (Option.some.inj opens).symm

mutual

/-- The text of a value can be cut off what it starts, if no number goes on there. -/
theorem write_append_inj (v w : Value) {x y : List Char} (hx : Stops x) (hy : Stops y)
    (same : write v ++ x = write w ++ y)
    : v = w ∧ x = y := by
  have kinds := kind_eq same
  match v with
  | .null =>
      cases w <;> cases kinds
      exact ⟨rfl, List.append_cancel_left same⟩
  | .bool value =>
      cases w <;> cases kinds
      case bool value' =>
        cases value <;> cases value' <;> simp [write] at same ⊢ <;> exact same
  | .number m =>
      cases w <;> cases kinds
      case number n =>
        rw [write, write] at same
        obtain ⟨digits, rest⟩ := append_inj_of_stops (isNumberChar_decimal m)
          (isNumberChar_decimal n) hx hy same
        exact ⟨by rw [decimal_inj digits], rest⟩
      case otherNumber n =>
        rw [write, write] at same
        have cut := append_inj_of_stops (isNumberChar_decimal m) n.chars hx hy same
        exact absurd cut.1.symm (n.other m)
  | .otherNumber m =>
      cases w <;> cases kinds
      case number n =>
        rw [write, write] at same
        have cut := append_inj_of_stops m.chars (isNumberChar_decimal n) hx hy same
        exact absurd cut.1 (m.other n)
      case otherNumber n =>
        rw [write, write] at same
        obtain ⟨texts, rest⟩ := append_inj_of_stops m.chars n.chars hx hy same
        cases m
        cases n
        cases texts
        exact ⟨rfl, rest⟩
  | .text value =>
      cases w <;> cases kinds
      case text value' =>
        rw [write, write] at same
        obtain ⟨rfl, rest⟩ := quoted_append_inj same
        exact ⟨rfl, rest⟩
  | .array items =>
      cases w <;> cases kinds
      case array items' =>
        match items, items' with
        | [], [] => exact ⟨rfl, List.append_cancel_left same⟩
        | [], item :: rest =>
            simp only [write, List.cons_append, List.append_assoc, List.cons.injEq, true_and]
              at same
            exact absurd same (close_ne_write item _ _)
        | item :: rest, [] =>
            simp only [write, List.cons_append, List.append_assoc, List.cons.injEq, true_and]
              at same
            exact absurd same.symm (close_ne_write item _ _)
        | item :: rest, item' :: rest' =>
            simp only [write, List.cons_append, List.append_assoc, List.cons.injEq, true_and]
              at same
            obtain ⟨rfl, more⟩ := write_append_inj item item' (stops_writeItems rest x)
              (stops_writeItems rest' y) same
            obtain ⟨rfl, after⟩ := writeItems_append_inj rest rest' more
            exact ⟨rfl, after⟩
  | .object fields =>
      cases w <;> cases kinds
      case object fields' =>
        match fields, fields' with
        | [], [] => exact ⟨rfl, List.append_cancel_left same⟩
        | [], (key, value) :: rest => simp [write, quoted] at same
        | (key, value) :: rest, [] => simp [write, quoted] at same
        | (key, value) :: rest, (key', value') :: rest' =>
            simp only [write, List.cons_append, List.append_assoc, List.cons.injEq, true_and]
              at same
            obtain ⟨rfl, more⟩ := quoted_append_inj same
            obtain ⟨rfl, more'⟩ := write_append_inj value value' (stops_writeFields rest x)
              (stops_writeFields rest' y) (List.cons.inj more).2
            obtain ⟨rfl, after⟩ := writeFields_append_inj rest rest' more'
            exact ⟨rfl, after⟩

theorem writeItems_append_inj (items items' : List Value) {x y : List Char}
    (same : writeItems items ++ x = writeItems items' ++ y)
    : items = items' ∧ x = y := by
  match items, items' with
  | [], [] => exact ⟨rfl, by simpa [writeItems] using same⟩
  | [], _ :: _ => simp [writeItems] at same
  | _ :: _, [] => simp [writeItems] at same
  | item :: rest, item' :: rest' =>
      simp only [writeItems, List.cons_append, List.append_assoc, List.cons.injEq, true_and]
        at same
      obtain ⟨rfl, more⟩ := write_append_inj item item' (stops_writeItems rest x)
        (stops_writeItems rest' y) same
      obtain ⟨rfl, after⟩ := writeItems_append_inj rest rest' more
      exact ⟨rfl, after⟩

theorem writeFields_append_inj (fields fields' : List (String × Value)) {x y : List Char}
    (same : writeFields fields ++ x = writeFields fields' ++ y)
    : fields = fields' ∧ x = y := by
  match fields, fields' with
  | [], [] => exact ⟨rfl, by simpa [writeFields] using same⟩
  | [], _ :: _ => simp [writeFields] at same
  | _ :: _, [] => simp [writeFields] at same
  | (key, value) :: rest, (key', value') :: rest' =>
      simp only [writeFields, List.cons_append, List.append_assoc, List.cons.injEq, true_and]
        at same
      obtain ⟨rfl, more⟩ := quoted_append_inj same
      obtain ⟨rfl, more'⟩ := write_append_inj value value' (stops_writeFields rest x)
        (stops_writeFields rest' y) (List.cons.inj more).2
      obtain ⟨rfl, after⟩ := writeFields_append_inj rest rest' more'
      exact ⟨rfl, after⟩

end

theorem write_injective : Function.Injective write := by
  intro v w same
  exact (write_append_inj v w stops_nil stops_nil (by simpa using same)).1

end Delonix.Library.Json

/-! How many bytes the compact text of a JSON object has. -/

namespace Delonix.Library.Json

open Delonix.Library.Text

/-- The bytes of a text. -/
def byteCount (text : List Char) : Nat := (text.map Char.utf8Size).sum

@[simp] theorem byteCount_nil : byteCount [] = 0 := rfl

@[simp] theorem byteCount_cons (c : Char) (text : List Char)
    : byteCount (c :: text) = c.utf8Size + byteCount text := by
  simp [byteCount]

@[simp] theorem byteCount_append (text more : List Char)
    : byteCount (text ++ more) = byteCount text + byteCount more := by
  simp [byteCount]

theorem size_utf8Encode (text : List Char) : text.utf8Encode.size = byteCount text := by
  induction text with
  | nil => simp
  | cons c text ih =>
      rw [List.utf8Encode_cons, ByteArray.size_append, ih, byteCount_cons,
        List.utf8Encode_singleton]
      simp

theorem byteCount_toList (s : String) : byteCount s.toList = s.utf8ByteSize := by
  rw [← size_utf8Encode, String.utf8Encode_toList, String.size_toByteArray]

/-- A text without control characters. -/
def Visible (s : String) : Prop := ∀ c ∈ s.toList, isControl c = false

theorem byteCount_escapeChar {c : Char} (visible : isControl c = false)
    : byteCount (escapeChar c) ≤ 2 * c.utf8Size := by
  have positive := c.utf8Size_pos
  obtain ⟨letter, found, is⟩ | ⟨control, -⟩ | ⟨is, -⟩ := escapeChar_cases c
  · have ascii : letter.utf8Size = 1 := by
      have all : letterEscapes.all fun entry => entry.2.utf8Size = 1 := by decide
      exact of_decide_eq_true (List.all_eq_true.mp all _ found)
    have slash : '\\'.utf8Size = 1 := by decide
    simp only [is, byteCount_cons, byteCount_nil, ascii, slash]
    omega
  · simp only [isControl, Bool.or_eq_false_iff, decide_eq_false_iff_not] at visible
    exact absurd control visible.1
  · simp only [is, byteCount_cons, byteCount_nil]
    omega

/-- Escaping at most doubles a text without control characters. -/
theorem byteCount_quoted {s : String} (visible : Visible s)
    : byteCount (quoted s) ≤ 2 * s.utf8ByteSize + 2 := by
  have escaped (text : List Char) (all : ∀ c ∈ text, isControl c = false)
      : byteCount (text.flatMap escapeChar) ≤ 2 * byteCount text := by
    induction text with
    | nil => simp
    | cons c rest ih =>
        have first := byteCount_escapeChar (all c List.mem_cons_self)
        have later := ih fun d member => all d (List.mem_cons_of_mem _ member)
        simp only [List.flatMap_cons, byteCount_append, byteCount_cons]
        omega
  have quote : '"'.utf8Size = 1 := by decide
  have inside := escaped s.toList visible
  rw [byteCount_toList] at inside
  simp only [quoted, byteCount_cons, byteCount_append, byteCount_nil, quote]
  omega

/-- A field behind the first one: a comma, the key, a colon and the value. -/
def fieldSize (field : String × Value) : Nat :=
  byteCount (quoted field.1) + byteCount (write field.2) + 2

theorem byteCount_writeFields (fields : List (String × Value))
    : byteCount (writeFields fields) = (fields.map fieldSize).sum + 1 := by
  have comma : ','.utf8Size = 1 := by decide
  have colon : ':'.utf8Size = 1 := by decide
  induction fields with
  | nil => rfl
  | cons field rest ih =>
      simp only [writeFields, byteCount_cons, byteCount_append, comma, colon, ih, List.map_cons,
        List.sum_cons, fieldSize]
      omega

theorem byteCount_object (first : String × Value) (rest : List (String × Value))
    : byteCount (write (.object (first :: rest))) = ((first :: rest).map fieldSize).sum + 1 := by
  have brace : '\x7b'.utf8Size = 1 := by decide
  have colon : ':'.utf8Size = 1 := by decide
  simp only [write, byteCount_cons, byteCount_append, brace, colon, byteCount_writeFields,
    List.map_cons, List.sum_cons, fieldSize]
  omega

theorem byteCount_decimal {n k : Nat} (positive : 0 < k) (small : n < 10 ^ k)
    : byteCount (decimal n) ≤ k := by
  have ascii (text : List Char) (digits : ∀ c ∈ text, 48 ≤ c.toNat ∧ c.toNat ≤ 57)
      : byteCount text = text.length := by
    induction text with
    | nil => rfl
    | cons c rest ih =>
        have digit := digits c List.mem_cons_self
        have one : c.utf8Size = 1 := by
          refine Char.utf8Size_eq_one_iff.mpr (UInt32.le_iff_toNat_le.mpr ?_)
          exact digit.2.trans (by decide)
        rw [byteCount_cons, ih fun d member => digits d (List.mem_cons_of_mem _ member), one,
          List.length_cons, Nat.add_comm]
  rw [ascii _ fun c => isDigit_toDigits]
  exact (Nat.length_toDigits_le_iff (by decide) positive).mpr small

end Delonix.Library.Json
