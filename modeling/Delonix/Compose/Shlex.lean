import Delonix.Library.Words
import Mathlib.Tactic.Common

/-! Shell command lines: how the text of `command:` and `entrypoint:` is cut into the words of an
argument vector. No shell reads them.
-/

namespace Delonix.Compose.Shlex

open Delonix.Library.Text

abbrev Text := List Char

-----------------------------------------------------------------------------------------
-- The tokenizer
-----------------------------------------------------------------------------------------

/-- The words read so far and the one being read. -/
structure Lexer where
  out : List Text
  cur : Text
  inSingle : Bool
  inDouble : Bool
  hasToken : Bool

namespace Lexer

def start : Lexer := ⟨[], [], false, false, false⟩

def push (lexer : Lexer) (c : Char) : Lexer :=
  { lexer with cur := lexer.cur ++ [c], hasToken := true }

def toggleSingle (lexer : Lexer) : Lexer :=
  { lexer with inSingle := !lexer.inSingle, hasToken := true }

def toggleDouble (lexer : Lexer) : Lexer :=
  { lexer with inDouble := !lexer.inDouble, hasToken := true }

/-- A blank ends the word. -/
def flush (lexer : Lexer) : Lexer :=
  if lexer.hasToken then
    { lexer with out := lexer.out ++ [lexer.cur], cur := [], hasToken := false }
  else lexer

end Lexer

/-- What a backslash protects inside double quotes. -/
def escapable (c : Char) : Bool := "$`\"\\\n".toList.contains c

def lex : Lexer → Text → Lexer
  | lexer, [] => lexer
  | lexer, c :: rest =>
      if c = '\'' ∧ lexer.inDouble = false then lex lexer.toggleSingle rest
      else if c = '"' ∧ lexer.inSingle = false then lex lexer.toggleDouble rest
      else if c = '\\' ∧ lexer.inSingle = false ∧ lexer.inDouble then
        match rest with
        | [] => lexer.push '\\'
        | next :: after =>
            if escapable next then lex (lexer.push next) after
            -- The backslash is kept, and what follows is read on its own.
            else lex (lexer.push '\\') (next :: after)
      else if c = '\\' ∧ lexer.inSingle = false then
        match rest with
        | [] => lexer
        | next :: after => lex (lexer.push next) after
      else if isWhitespace c ∧ lexer.inSingle = false ∧ lexer.inDouble = false then
        lex lexer.flush rest
      else lex (lexer.push c) rest

def shlexSplit (s : Text) : Except Text (List Text) :=
  let lexer := lex .start (trim s)
  if lexer.inSingle || lexer.inDouble then
    .error ("compose: unterminated quote in command: ".toList ++ s)
  else if lexer.hasToken then .ok (lexer.out ++ [lexer.cur])
  else .ok lexer.out

inductive CmdShape where
  | shell (text : Text)
  | exec (argv : List Text)

def composeCmdArgv : CmdShape → Except Text (List Text)
  | .shell s => shlexSplit s
  | .exec argv => .ok argv

-----------------------------------------------------------------------------------------
-- Lines as they are written
-----------------------------------------------------------------------------------------

/-- One way to write a text: a word is written in pieces. -/
inductive Piece where
  | single (text : Text) (noQuote : '\'' ∉ text)
  | double (text : Text)
  | escaped (text : Text) (nonempty : text ≠ [])

/-- What has to be escaped in double quotes. -/
def special (c : Char) : Bool := "$`\"\\".toList.contains c

namespace Piece

def text : Piece → Text
  | single text _ => text
  | double text => text
  | escaped text _ => text

def written : Piece → Text
  | single text _ => '\'' :: (text ++ ['\''])
  | double text => '"' :: (text.flatMap (fun c => if special c then ['\\', c] else [c]) ++ ['"'])
  | escaped text _ => text.flatMap fun c => ['\\', c]

/-- The character that ends the piece without a quote behind it. -/
def bareEnd : Piece → Option Char
  | escaped text _ => text.getLast?
  | _ => none

end Piece

structure Word where
  pieces : List Piece
  nonempty : pieces ≠ []

namespace Word

def text (word : Word) : Text := word.pieces.flatMap Piece.text

def written (word : Word) : Text := word.pieces.flatMap Piece.written

def bareEnd (word : Word) : Option Char := word.pieces.getLast?.bind Piece.bareEnd

end Word

/-- Any number of blanks. -/
abbrev Blanks := { blanks : Text // ∀ c ∈ blanks, isWhitespace c = true }

/-- At least one blank. -/
abbrev Gap := { gap : Text // gap ≠ [] ∧ ∀ c ∈ gap, isWhitespace c = true }

inductive Line where
  | blank (blanks : Blanks)
  | words (lead : Blanks) (init : List (Word × Gap)) (last : Word) (trail : Blanks)

namespace Line

def initText (init : List (Word × Gap)) : Text :=
  init.flatMap fun (word, gap) => word.written ++ gap.val

def text : Line → Text
  | blank blanks => blanks.val
  | words lead init last trail => lead.val ++ (initText init ++ last.written) ++ trail.val

def argv : Line → List Text
  | blank _ => []
  | words _ init last _ => init.map (·.1.text) ++ [last.text]

/-- The character that ends the last word without a quote behind it. -/
def bareEnd : Line → Option Char
  | blank _ => none
  | words _ _ last _ => last.bareEnd

end Line

-----------------------------------------------------------------------------------------
-- Reading a piece, a word and a gap
-----------------------------------------------------------------------------------------

theorem escapable_of_special {c : Char} (h : special c = true) : escapable c = true := by
  simp only [special, escapable, List.contains_eq_mem, decide_eq_true_eq] at h ⊢
  revert h
  simp
  grind

/-- One character that is not a backslash. -/
theorem lex_cons {c : Char} (other : c ≠ '\\') (lexer : Lexer) (rest : Text)
    : lex lexer (c :: rest)
      = lex (if c = '\'' ∧ lexer.inDouble = false then lexer.toggleSingle
          else if c = '"' ∧ lexer.inSingle = false then lexer.toggleDouble
          else if isWhitespace c ∧ lexer.inSingle = false ∧ lexer.inDouble = false then
            lexer.flush
          else lexer.push c) rest := by
  rw [lex.eq_def]
  simp only [other, false_and, if_false]
  split_ifs <;> rfl

theorem lex_slash_bare {lexer : Lexer} (single : lexer.inSingle = false)
    (double : lexer.inDouble = false) (next : Char) (rest : Text)
    : lex lexer ('\\' :: next :: rest) = lex (lexer.push next) rest := by
  rw [lex.eq_def]
  simp [single, double]

theorem lex_slash_double {lexer : Lexer} (single : lexer.inSingle = false)
    (double : lexer.inDouble = true) (next : Char) (rest : Text)
    : lex lexer ('\\' :: next :: rest)
      = if escapable next then lex (lexer.push next) rest
        else lex (lexer.push '\\') (next :: rest) := by
  rw [lex.eq_def]
  simp [single, double]

theorem lex_slash_single {lexer : Lexer} (single : lexer.inSingle = true) (rest : Text)
    : lex lexer ('\\' :: rest) = lex (lexer.push '\\') rest := by
  rw [lex.eq_def]
  simp [single]

theorem lex_in_single (out : List Text) (cur rest : Text) (tok : Bool) {t : Text}
    (noQuote : '\'' ∉ t)
    : lex ⟨out, cur, true, false, tok⟩ (t ++ '\'' :: rest)
      = lex ⟨out, cur ++ t, false, false, true⟩ rest := by
  induction t generalizing cur tok with
  | nil => simp [lex_cons, Lexer.toggleSingle]
  | cons c t ih =>
      have other : c ≠ '\'' := fun same => noQuote (by simp [same])
      have later : '\'' ∉ t := fun member => noQuote (by simp [member])
      have read : ∀ rest, lex ⟨out, cur, true, false, tok⟩ (c :: rest)
          = lex ⟨out, cur ++ [c], true, false, true⟩ rest := by
        intro rest
        by_cases slash : c = '\\'
        · rw [slash, lex_slash_single rfl]
          rfl
        · simp [lex_cons slash, other, Lexer.push]
      rw [List.cons_append, read, ih _ _ later]
      simp

/-- Between double quotes the escaped characters come back, by induction over the text. -/
theorem lex_in_double (out : List Text) (cur rest t : Text) (tok : Bool)
    : lex ⟨out, cur, false, true, tok⟩
        (t.flatMap (fun c => if special c then ['\\', c] else [c]) ++ '"' :: rest)
      = lex ⟨out, cur ++ t, false, false, true⟩ rest := by
  induction t generalizing cur tok with
  | nil => simp [lex_cons, Lexer.toggleDouble]
  | cons c t ih =>
      by_cases escaped : special c = true
      · simp [lex_slash_double, escaped, escapable_of_special escaped, Lexer.push, ih]
      · have quote : c ≠ '"' := fun same => escaped (by simp [same, special])
        have slash : c ≠ '\\' := fun same => escaped (by simp [same, special])
        simp [lex_cons slash, escaped, quote, Lexer.push, ih]

theorem lex_escaped (out : List Text) (cur rest t : Text) (tok : Bool)
    : lex ⟨out, cur, false, false, tok⟩ (t.flatMap (fun c => ['\\', c]) ++ rest)
      = lex ⟨out, cur ++ t, false, false, tok || !t.isEmpty⟩ rest := by
  induction t generalizing cur tok with
  | nil => simp
  | cons c t ih =>
      have read : lex ⟨out, cur, false, false, tok⟩
            ((c :: t).flatMap (fun c => ['\\', c]) ++ rest)
          = lex ⟨out, cur ++ [c], false, false, true⟩ (t.flatMap (fun c => ['\\', c]) ++ rest) :=
        lex_slash_bare rfl rfl c _
      rw [read, ih (cur ++ [c]) true]
      simp

theorem lex_piece (out : List Text) (cur rest : Text) (tok : Bool) (piece : Piece)
    : lex ⟨out, cur, false, false, tok⟩ (piece.written ++ rest)
      = lex ⟨out, cur ++ piece.text, false, false, true⟩ rest := by
  cases piece with
  | single t noQuote =>
      have inside := lex_in_single out cur rest true noQuote
      simpa [Piece.written, Piece.text, lex_cons, Lexer.toggleSingle] using inside
  | double t =>
      have inside := lex_in_double out cur rest t true
      simpa [Piece.written, Piece.text, lex_cons, Lexer.toggleDouble] using inside
  | escaped t nonempty =>
      have token : (tok || !t.isEmpty) = true := by simp [nonempty]
      rw [Piece.written, lex_escaped, token]
      rfl

/-- The pieces of a word are put together, by induction over them. -/
theorem lex_pieces (out : List Text) (cur rest : Text) (tok : Bool) (pieces : List Piece)
    : lex ⟨out, cur, false, false, tok⟩ (pieces.flatMap Piece.written ++ rest)
      = lex ⟨out, cur ++ pieces.flatMap Piece.text, false, false, tok || !pieces.isEmpty⟩ rest := by
  induction pieces generalizing cur tok with
  | nil => simp
  | cons piece pieces ih =>
      rw [List.flatMap_cons, List.append_assoc, lex_piece, ih]
      simp

theorem lex_word (out : List Text) (rest : Text) (word : Word)
    : lex ⟨out, [], false, false, false⟩ (word.written ++ rest)
      = lex ⟨out, word.text, false, false, true⟩ rest := by
  have token : (!word.pieces.isEmpty) = true := by simp [word.nonempty]
  rw [Word.written, lex_pieces, token]
  rfl

theorem not_quote_of_blank {c : Char} (blank : isWhitespace c = true)
    : c ≠ '\'' ∧ c ≠ '"' ∧ c ≠ '\\' := by
  refine ⟨?_, ?_, ?_⟩ <;> intro same <;> subst same <;> contradiction

theorem lex_blank (out : List Text) (cur rest : Text) (tok : Bool) {c : Char}
    (blank : isWhitespace c = true)
    : lex ⟨out, cur, false, false, tok⟩ (c :: rest)
      = lex (Lexer.flush ⟨out, cur, false, false, tok⟩) rest := by
  obtain ⟨single, double, slash⟩ := not_quote_of_blank blank
  simp [lex_cons slash, single, double, blank]

/-- Blanks before a word are skipped, by induction over them. -/
theorem lex_blanks (out : List Text) (cur rest : Text) {blanks : Text}
    (all : ∀ c ∈ blanks, isWhitespace c = true)
    : lex ⟨out, cur, false, false, false⟩ (blanks ++ rest)
      = lex ⟨out, cur, false, false, false⟩ rest := by
  induction blanks with
  | nil => rfl
  | cons c blanks ih =>
      rw [List.cons_append, lex_blank _ _ _ _ (all c (by simp))]
      exact ih fun other member => all other (by simp [member])

theorem lex_gap (out : List Text) (cur rest : Text) (gap : Gap)
    : lex ⟨out, cur, false, false, true⟩ (gap.val ++ rest)
      = lex ⟨out ++ [cur], [], false, false, false⟩ rest := by
  obtain ⟨blanks, nonempty, all⟩ := gap
  obtain ⟨c, blanks, rfl⟩ := List.exists_cons_of_ne_nil nonempty
  rw [List.cons_append, lex_blank _ _ _ _ (all c (by simp))]
  exact lex_blanks _ _ _ fun other member => all other (by simp [member])

/-- The words before the last are put out, by induction over them. -/
theorem lex_init (out : List Text) (rest : Text) (init : List (Word × Gap))
    : lex ⟨out, [], false, false, false⟩ (Line.initText init ++ rest)
      = lex ⟨out ++ init.map (·.1.text), [], false, false, false⟩ rest := by
  induction init generalizing out with
  | nil => simp [Line.initText]
  | cons entry init ih =>
      obtain ⟨word, gap⟩ := entry
      have cut : Line.initText ((word, gap) :: init) ++ rest
          = word.written ++ (gap.val ++ (Line.initText init ++ rest)) := by
        simp [Line.initText]
      rw [cut, lex_word, lex_gap, ih]
      simp

-----------------------------------------------------------------------------------------
-- The trim before the words are read
-----------------------------------------------------------------------------------------

theorem Word.written_starts (word : Word)
    : ∃ c rest, word.written = c :: rest ∧ isWhitespace c = false := by
  obtain ⟨piece, pieces, split⟩ := List.exists_cons_of_ne_nil word.nonempty
  rw [Word.written, split, List.flatMap_cons]
  cases piece with
  | single t noQuote => exact ⟨'\'', _, rfl, by decide⟩
  | double t => exact ⟨'"', _, rfl, by decide⟩
  | escaped t nonempty =>
      obtain ⟨c, t, rfl⟩ := List.exists_cons_of_ne_nil nonempty
      exact ⟨'\\', _, rfl, by decide⟩

theorem written_starts (init : List (Word × Gap)) (last : Word)
    : ∃ c rest, Line.initText init ++ last.written = c :: rest ∧ isWhitespace c = false := by
  cases init with
  | nil => exact last.written_starts
  | cons entry init =>
      obtain ⟨word, gap⟩ := entry
      obtain ⟨c, rest, starts, visible⟩ := word.written_starts
      exact ⟨c, _, by simp only [Line.initText, List.flatMap_cons, starts]; rfl, visible⟩

/-- How the last word ends: in a quote, or in a character with a backslash before it. -/
theorem Word.written_ends (word : Word)
    : (∃ front c, word.written = front ++ [c] ∧ isWhitespace c = false
        ∧ word.bareEnd.any isWhitespace = false)
      ∨ ∃ (pieces : List Piece) (front : Text) (c : Char), word.written
          = pieces.flatMap Piece.written ++ (front.flatMap (fun c => ['\\', c]) ++ ['\\', c])
        ∧ word.text = pieces.flatMap Piece.text ++ (front ++ [c])
        ∧ isWhitespace c = word.bareEnd.any isWhitespace := by
  obtain ⟨pieces, piece, split⟩ := List.eq_nil_or_concat' word.pieces |>.resolve_left word.nonempty
  have ends : word.bareEnd = piece.bareEnd := by simp [Word.bareEnd, split]
  rw [ends]
  simp only [Word.written, Word.text, split, List.flatMap_append, List.flatMap_singleton]
  cases piece with
  | single t noQuote =>
      exact .inl ⟨pieces.flatMap Piece.written ++ '\'' :: t, '\'', by simp [Piece.written],
        by decide, rfl⟩
  | double t =>
      refine .inl ⟨pieces.flatMap Piece.written ++ '"'
        :: t.flatMap (fun c => if special c then ['\\', c] else [c]), '"', ?_, by decide, rfl⟩
      simp [Piece.written]
  | escaped t nonempty =>
      obtain ⟨front, c, rfl⟩ := List.eq_nil_or_concat' t |>.resolve_left nonempty
      exact .inr ⟨pieces, front, c, by simp [Piece.written], rfl, by simp [Piece.bareEnd]⟩

theorem trim_core {lead trail front rest : Text} {first last : Char}
    (before : ∀ c ∈ lead, isWhitespace c = true) (after : ∀ c ∈ trail, isWhitespace c = true)
    (starts : front ++ [last] = first :: rest) (visible : isWhitespace first = false)
    (ends : isWhitespace last = false)
    : trim (lead ++ (front ++ [last]) ++ trail) = front ++ [last] := by
  have start : trimStart (front ++ [last]) = front ++ [last] := by
    rw [starts]
    simp [trimStart, visible]
  have whole : trim (front ++ [last]) = front ++ [last] := by
    rw [trim, start, trimEnd]
    exact List.rdropWhile_concat_neg _ _ _ (by simp [ends])
  exact Library.Words.trim_padded before after whole start (by simp)

theorem shlexSplit_of_lex {s core cur : Text} {out : List Text} {tok : Bool}
    (trimmed : trim s = core) (read : lex .start core = ⟨out, cur, false, false, tok⟩)
    : shlexSplit s = .ok (if tok then out ++ [cur] else out) := by
  rw [shlexSplit, trimmed, read]
  cases tok <;> rfl

theorem shlexSplit_blank (blanks : Blanks) : shlexSplit blanks.val = .ok [] := by
  have trimmed : trim blanks.val = [] := by
    rw [trim, trimStart, List.dropWhile_eq_nil_iff.mpr blanks.property]
    rfl
  exact shlexSplit_of_lex trimmed rfl

/-- A last word whose end can be seen is read whole. -/
theorem shlexSplit_visible (lead trail : Blanks) (init : List (Word × Gap)) (last : Word)
    {front : Text} {c : Char} (ends : last.written = front ++ [c])
    (visible : isWhitespace c = false)
    : shlexSplit (Line.words lead init last trail).text
      = .ok (Line.words lead init last trail).argv := by
  obtain ⟨first, rest, starts, firstVisible⟩ := written_starts init last
  have core : Line.initText init ++ last.written = (Line.initText init ++ front) ++ [c] := by
    simp [ends]
  have trimmed : trim (Line.words lead init last trail).text
      = Line.initText init ++ last.written := by
    rw [Line.text, core]
    exact trim_core lead.property trail.property (core ▸ starts) firstVisible visible
  have read : lex .start (Line.initText init ++ last.written)
      = ⟨init.map (·.1.text), last.text, false, false, true⟩ := by
    rw [Lexer.start, lex_init, ← List.append_nil last.written, lex_word]
    rfl
  exact shlexSplit_of_lex trimmed read

/-- The trim takes an escaped blank at the end, so that its word comes out shorter. -/
theorem shlexSplit_escaped_blank (lead trail : Blanks) (init : List (Word × Gap)) (last : Word)
    {pieces : List Piece} {front : Text} {c : Char}
    (written : last.written
      = pieces.flatMap Piece.written ++ (front.flatMap (fun c => ['\\', c]) ++ ['\\', c]))
    (blank : isWhitespace c = true)
    : shlexSplit (Line.words lead init last trail).text
      = .ok (init.map (·.1.text)
        ++ if pieces = [] ∧ front = [] then [] else [pieces.flatMap Piece.text ++ front]) := by
  obtain ⟨first, rest, starts, firstVisible⟩ := written_starts init last
  let kept := Line.initText init ++ (pieces.flatMap Piece.written
    ++ front.flatMap fun c => ['\\', c])
  have core : Line.initText init ++ last.written = (kept ++ ['\\']) ++ [c] := by
    simp [written, kept]
  have trimmed : trim (Line.words lead init last trail).text = kept ++ ['\\'] := by
    obtain ⟨back, keptStarts⟩ : ∃ back, kept ++ ['\\'] = first :: back := by
      obtain ⟨head, back, split⟩ := List.exists_cons_of_ne_nil (l := kept ++ ['\\']) (by simp)
      rw [core, split, List.cons_append] at starts
      exact ⟨back, by rw [split, (List.cons.inj starts).1]⟩
    have moved : (Line.words lead init last trail).text
        = lead.val ++ (kept ++ ['\\']) ++ (c :: trail.val) := by
      rw [Line.text, core]
      simp
    rw [moved]
    refine trim_core lead.property ?_ keptStarts firstVisible (by decide)
    simpa [blank] using trail.property
  have read : lex .start (kept ++ ['\\'])
      = ⟨init.map (·.1.text), pieces.flatMap Piece.text ++ front, false, false,
        !pieces.isEmpty || !front.isEmpty⟩ := by
    simp only [kept, List.append_assoc]
    rw [Lexer.start, lex_init, lex_pieces, lex_escaped]
    simp [lex]
  rw [shlexSplit_of_lex trimmed read]
  by_cases nothing : pieces = [] ∧ front = []
  · simp [nothing]
  · have token : (!pieces.isEmpty || !front.isEmpty) = true := by
      rw [not_and_or] at nothing
      rcases nothing with some | some <;> simp [some]
    simp [token, nothing]

/-- A line is read as its words unless it ends in a blank that only a backslash keeps. -/
theorem argv_iff (line : Line)
    : shlexSplit line.text = .ok line.argv ↔ line.bareEnd.any isWhitespace = false := by
  cases line with
  | blank blanks => exact ⟨fun _ => rfl, fun _ => shlexSplit_blank blanks⟩
  | words lead init last trail =>
      rcases last.written_ends with ⟨front, c, ends, visible, bare⟩
        | ⟨pieces, front, c, written, text, bare⟩
      · exact ⟨fun _ => bare, fun _ => shlexSplit_visible lead trail init last ends visible⟩
      · rw [Line.bareEnd, ← bare]
        cases blank : isWhitespace c with
        | false =>
            refine ⟨fun _ => rfl, fun _ => ?_⟩
            have ends : last.written = (pieces.flatMap Piece.written
                ++ (front.flatMap (fun c => ['\\', c]) ++ ['\\'])) ++ [c] := by
              simp [written]
            exact shlexSplit_visible lead trail init last ends blank
        | true =>
            rw [shlexSplit_escaped_blank lead trail init last written blank]
            simp only [Line.argv, text]
            split <;> simp

-----------------------------------------------------------------------------------------
-- Open quotes
-----------------------------------------------------------------------------------------

/-- What stands between double quotes: a backslash takes the next character with it. -/
inductive DoubleBody : Text → Prop
  | nil : DoubleBody []
  | plain (c : Char) {rest : Text} (quote : c ≠ '"') (slash : c ≠ '\\')
      : DoubleBody rest → DoubleBody (c :: rest)
  | escaped (c : Char) {rest : Text} : DoubleBody rest → DoubleBody ('\\' :: c :: rest)

/-- Every quote that the text opens is closed in it. -/
inductive Closed : Text → Prop
  | nil : Closed []
  | lastSlash : Closed ['\\']
  | plain (c : Char) {rest : Text} (single : c ≠ '\'') (double : c ≠ '"') (slash : c ≠ '\\')
      : Closed rest → Closed (c :: rest)
  | escaped (c : Char) {rest : Text} : Closed rest → Closed ('\\' :: c :: rest)
  | single {body rest : Text} (noQuote : '\'' ∉ body)
      : Closed rest → Closed ('\'' :: (body ++ '\'' :: rest))
  | double {body rest : Text} (inside : DoubleBody body)
      : Closed rest → Closed ('"' :: (body ++ '"' :: rest))

/-- The rest of a text behind an opened single quote. -/
def ClosesSingle (s : Text) : Prop :=
  ∃ body rest, '\'' ∉ body ∧ Closed rest ∧ s = body ++ '\'' :: rest

/-- The rest of a text behind an opened double quote. -/
def ClosesDouble (s : Text) : Prop :=
  ∃ body rest, DoubleBody body ∧ Closed rest ∧ s = body ++ '"' :: rest

theorem closed_quote (s : Text) : Closed ('\'' :: s) ↔ ClosesSingle s := by
  constructor
  · intro h
    cases h with
    | plain _ single => contradiction
    | single noQuote later => exact ⟨_, _, noQuote, later, rfl⟩
  · intro h
    obtain ⟨body, rest, noQuote, later, rfl⟩ := h
    exact .single noQuote later

theorem closed_doubleQuote (s : Text) : Closed ('"' :: s) ↔ ClosesDouble s := by
  constructor
  · intro h
    cases h with
    | plain _ _ double => contradiction
    | double inside later => exact ⟨_, _, inside, later, rfl⟩
  · intro h
    obtain ⟨body, rest, inside, later, rfl⟩ := h
    exact .double inside later

theorem closed_slash (c : Char) (s : Text) : Closed ('\\' :: c :: s) ↔ Closed s := by
  constructor
  · intro h
    cases h with
    | plain _ _ _ slash => contradiction
    | escaped _ later => exact later
  · exact .escaped c

theorem closed_plain {c : Char} (single : c ≠ '\'') (double : c ≠ '"') (slash : c ≠ '\\')
    (s : Text)
    : Closed (c :: s) ↔ Closed s := by
  constructor
  · intro h
    cases h with
    | lastSlash => contradiction
    | plain _ _ _ _ later => exact later
    | escaped => contradiction
    | single => contradiction
    | double => contradiction
  · exact .plain c single double slash

theorem not_closesSingle_nil : ¬ ClosesSingle [] := by
  intro h
  obtain ⟨body, rest, -, -, split⟩ := h
  simp at split

theorem closesSingle_quote (s : Text) : ClosesSingle ('\'' :: s) ↔ Closed s := by
  constructor
  · intro h
    obtain ⟨body, rest, noQuote, later, split⟩ := h
    cases body with
    | nil => exact (List.cons.inj split).2 ▸ later
    | cons c body => exact absurd ((List.cons.inj split).1 ▸ List.mem_cons_self) noQuote
  · exact fun later => ⟨[], s, by simp, later, rfl⟩

theorem closesSingle_cons {c : Char} (other : c ≠ '\'') (s : Text)
    : ClosesSingle (c :: s) ↔ ClosesSingle s := by
  constructor
  · intro h
    obtain ⟨body, rest, noQuote, later, split⟩ := h
    cases body with
    | nil => exact absurd (List.cons.inj split).1 other
    | cons first body =>
        exact ⟨body, rest, fun member => noQuote (by simp [member]), later,
          (List.cons.inj split).2⟩
  · intro h
    obtain ⟨body, rest, noQuote, later, split⟩ := h
    exact ⟨c :: body, rest, by simp [noQuote, other.symm], later, by simp [split]⟩

theorem not_closesDouble_nil : ¬ ClosesDouble [] := by
  intro h
  obtain ⟨body, rest, -, -, split⟩ := h
  simp at split

theorem closesDouble_quote (s : Text) : ClosesDouble ('"' :: s) ↔ Closed s := by
  constructor
  · intro h
    obtain ⟨body, rest, inside, later, split⟩ := h
    cases inside with
    | nil => exact (List.cons.inj split).2 ▸ later
    | plain c quote => exact absurd (List.cons.inj split).1.symm quote
    | escaped c => exact absurd (List.cons.inj split).1 (by decide)
  · exact fun later => ⟨[], s, .nil, later, rfl⟩

theorem closesDouble_cons {c : Char} (quote : c ≠ '"') (slash : c ≠ '\\') (s : Text)
    : ClosesDouble (c :: s) ↔ ClosesDouble s := by
  constructor
  · intro h
    obtain ⟨body, rest, inside, later, split⟩ := h
    cases inside with
    | nil => exact absurd (List.cons.inj split).1 quote
    | plain _ _ _ inside => exact ⟨_, rest, inside, later, (List.cons.inj split).2⟩
    | escaped => exact absurd (List.cons.inj split).1 slash
  · intro h
    obtain ⟨body, rest, inside, later, split⟩ := h
    exact ⟨c :: body, rest, .plain c quote slash inside, later, by simp [split]⟩

theorem closesDouble_slash (c : Char) (s : Text)
    : ClosesDouble ('\\' :: c :: s) ↔ ClosesDouble s := by
  constructor
  · intro h
    obtain ⟨body, rest, inside, later, split⟩ := h
    cases inside with
    | nil => exact absurd (List.cons.inj split).1 (by decide)
    | plain _ _ slash => exact absurd (List.cons.inj split).1.symm slash
    | escaped _ inside =>
        exact ⟨_, rest, inside, later, (List.cons.inj (List.cons.inj split).2).2⟩
  · intro h
    obtain ⟨body, rest, inside, later, split⟩ := h
    exact ⟨'\\' :: c :: body, rest, .escaped c inside, later, by simp [split]⟩

theorem not_closesDouble_lastSlash : ¬ ClosesDouble ['\\'] := by
  intro h
  obtain ⟨body, rest, inside, -, split⟩ := h
  cases inside with
  | nil => exact absurd (List.cons.inj split).1 (by decide)
  | plain _ _ slash => exact absurd (List.cons.inj split).1.symm slash
  | escaped _ inside => simpa using (List.cons.inj split).2

def Lexer.Unquoted (lexer : Lexer) : Prop := lexer.inSingle = false ∧ lexer.inDouble = false

/-- The rest of the text closes the quote that the lexer is in. -/
def Closes (lexer : Lexer) (s : Text) : Prop :=
  if lexer.inSingle then ClosesSingle s
  else if lexer.inDouble then ClosesDouble s
  else Closed s

/-- The lexer ends outside quotes exactly on texts that close them, by induction along its run. -/
theorem unquoted_lex_iff (lexer : Lexer) (s : Text)
    (one : lexer.inSingle = false ∨ lexer.inDouble = false)
    : (lex lexer s).Unquoted ↔ Closes lexer s := by
  fun_induction lex lexer s with
  | case1 lexer =>
      cases single : lexer.inSingle <;> cases double : lexer.inDouble <;>
        simp [Lexer.Unquoted, Closes, single, double, Closed.nil, not_closesSingle_nil,
          not_closesDouble_nil]
  | case2 lexer c rest quote ih =>
      obtain ⟨rfl, double⟩ := quote
      rw [ih (.inr double)]
      cases single : lexer.inSingle <;>
        simp [Closes, Lexer.toggleSingle, single, double, closed_quote, closesSingle_quote]
  | case3 lexer c rest _ quote ih =>
      obtain ⟨rfl, single⟩ := quote
      rw [ih (.inl single)]
      cases double : lexer.inDouble <;>
        simp [Closes, Lexer.toggleDouble, single, double, closed_doubleQuote,
          closesDouble_quote]
  | case4 lexer c _ _ slash =>
      obtain ⟨rfl, single, double⟩ := slash
      simp [Lexer.Unquoted, Closes, Lexer.push, single, double, not_closesDouble_lastSlash]
  | case5 lexer c _ _ slash next after special ih =>
      obtain ⟨rfl, single, double⟩ := slash
      rw [ih (.inl single)]
      simp [Closes, Lexer.push, single, double, closesDouble_slash]
  | case6 lexer c _ _ slash next after ordinary ih =>
      obtain ⟨rfl, single, double⟩ := slash
      have quote : next ≠ '"' := fun same => ordinary (by simp [same, escapable])
      have noSlash : next ≠ '\\' := fun same => ordinary (by simp [same, escapable])
      rw [ih (.inl single)]
      simp [Closes, Lexer.push, single, double, closesDouble_slash,
        closesDouble_cons quote noSlash]
  | case7 lexer c _ _ notDouble slash =>
      obtain ⟨rfl, single⟩ := slash
      have double : lexer.inDouble = false := by simpa [single] using notDouble
      simp [Lexer.Unquoted, Closes, single, double, Closed.lastSlash]
  | case8 lexer c _ _ notDouble slash next after ih =>
      obtain ⟨rfl, single⟩ := slash
      have double : lexer.inDouble = false := by simpa [single] using notDouble
      rw [ih (.inl single)]
      simp [Closes, Lexer.push, single, double, closed_slash]
  | case9 lexer c rest _ _ _ _ blank ih =>
      obtain ⟨blank, single, double⟩ := blank
      obtain ⟨noSingle, noDouble, noSlash⟩ := not_quote_of_blank blank
      have same : lexer.flush.inSingle = false ∧ lexer.flush.inDouble = false := by
        rw [Lexer.flush]
        split <;> exact ⟨single, double⟩
      rw [ih (.inl same.1)]
      simp [Closes, same, single, double, closed_plain noSingle noDouble noSlash]
  | case10 lexer c rest noSingle noDouble _ noSlash _ ih =>
      rw [ih one]
      cases single : lexer.inSingle <;> cases double : lexer.inDouble <;>
        simp only [single, double, and_true, true_or, or_true] at noSingle noDouble noSlash one
      · simp [Closes, Lexer.push, single, double, closed_plain noSingle noDouble noSlash]
      · simp [Closes, Lexer.push, single, double, closesDouble_cons noDouble noSlash]
      · simp [Closes, Lexer.push, single, double, closesSingle_cons noSingle]
      · simp at one

theorem unquoted_flush (lexer : Lexer) : lexer.flush.Unquoted ↔ lexer.Unquoted := by
  rw [Lexer.flush]
  split <;> rfl

theorem unquoted_push (lexer : Lexer) (c : Char)
    : (lexer.push c).Unquoted ↔ lexer.Unquoted :=
  .rfl

theorem unquoted_blank (lexer : Lexer) {b : Char} (blank : isWhitespace b = true)
    : (lex lexer [b]).Unquoted ↔ lexer.Unquoted := by
  obtain ⟨single, double, slash⟩ := not_quote_of_blank blank
  rw [lex_cons slash]
  simp only [single, double, false_and, if_false]
  split_ifs
  · exact unquoted_flush lexer
  · exact unquoted_push lexer b

/-- A blank at the end closes no quote and opens none, by induction along the run. -/
theorem unquoted_append_blank (lexer : Lexer) (s : Text) {b : Char}
    (blank : isWhitespace b = true)
    : (lex lexer (s ++ [b])).Unquoted ↔ (lex lexer s).Unquoted := by
  fun_induction lex lexer s with
  | case1 lexer => exact unquoted_blank lexer blank
  | case2 lexer c rest quote ih =>
      obtain ⟨rfl, double⟩ := quote
      rw [← ih, List.cons_append, lex_cons (by decide)]
      simp [double]
  | case3 lexer c rest _ quote ih =>
      obtain ⟨rfl, single⟩ := quote
      rw [← ih, List.cons_append, lex_cons (by decide)]
      simp [single]
  | case4 lexer c _ _ slash =>
      obtain ⟨rfl, single, double⟩ := slash
      rw [List.cons_append, List.nil_append, lex_slash_double single double]
      split
      · exact .rfl
      · exact unquoted_blank _ blank
  | case5 lexer c _ _ slash next after special ih =>
      obtain ⟨rfl, single, double⟩ := slash
      rw [← ih, List.cons_append, List.cons_append, lex_slash_double single double, if_pos special]
  | case6 lexer c _ _ slash next after ordinary ih =>
      obtain ⟨rfl, single, double⟩ := slash
      rw [← ih, List.cons_append, List.cons_append, lex_slash_double single double,
        if_neg ordinary]
  | case7 lexer c _ _ notDouble slash =>
      obtain ⟨rfl, single⟩ := slash
      have double : lexer.inDouble = false := by simpa [single] using notDouble
      rw [List.cons_append, List.nil_append, lex_slash_bare single double]
      exact .rfl
  | case8 lexer c _ _ notDouble slash next after ih =>
      obtain ⟨rfl, single⟩ := slash
      have double : lexer.inDouble = false := by simpa [single] using notDouble
      rw [← ih, List.cons_append, List.cons_append, lex_slash_bare single double]
  | case9 lexer c rest _ _ _ _ isBlank ih =>
      obtain ⟨noSingle, noDouble, noSlash⟩ := not_quote_of_blank isBlank.1
      rw [← ih, List.cons_append, lex_cons noSlash]
      simp [noSingle, noDouble, isBlank]
  | case10 lexer c rest noSingle noDouble _ noSlash ordinary ih =>
      rw [← ih]
      by_cases slash : c = '\\'
      · have single : lexer.inSingle = true := by simpa [slash] using noSlash
        rw [slash, List.cons_append, lex_slash_single single]
      · rw [List.cons_append, lex_cons slash, if_neg noSingle, if_neg noDouble, if_neg ordinary]

theorem closed_iff_unquoted (s : Text) : Closed s ↔ (lex .start s).Unquoted :=
  (unquoted_lex_iff .start s (.inl rfl)).symm

theorem closed_append_blanks (s : Text) {blanks : Text}
    (all : ∀ c ∈ blanks, isWhitespace c = true)
    : Closed (s ++ blanks) ↔ Closed s := by
  induction blanks using List.reverseRecOn with
  | nil => simp
  | append_singleton blanks b ih =>
      rw [← List.append_assoc, closed_iff_unquoted, unquoted_append_blank _ _ (all b (by simp)),
        ← closed_iff_unquoted]
      exact ih fun c member => all c (by simp [member])

theorem closed_blanks_append {blanks : Text} (all : ∀ c ∈ blanks, isWhitespace c = true)
    (s : Text)
    : Closed (blanks ++ s) ↔ Closed s := by
  rw [closed_iff_unquoted, closed_iff_unquoted, Lexer.start, lex_blanks _ _ _ all]

theorem closed_trim (s : Text) : Closed (trim s) ↔ Closed s := by
  obtain ⟨front, fromStart, before⟩ := trimStart_spec s
  obtain ⟨back, fromEnd, after⟩ := trimEnd_spec (trimStart s)
  have whole : s = front ++ (trim s ++ back) := fromStart.trans (congrArg (front ++ ·) fromEnd)
  conv_rhs => rw [whole]
  rw [closed_blanks_append before, closed_append_blanks _ after]

theorem shlexSplit_error_iff (s : Text) : (∃ e, shlexSplit s = .error e) ↔ ¬ Closed s := by
  rw [← closed_trim, closed_iff_unquoted, Lexer.Unquoted, shlexSplit]
  cases single : (lex .start (trim s)).inSingle <;>
    cases double : (lex .start (trim s)).inDouble <;> simp
  split <;> simp

/-- A command line comes apart into its words unless it ends in a blank that only a backslash
keeps: the trim before the tokenizer does not see the backslash. Every other text fails exactly
when it leaves a quote open.
-/
theorem shlexSplit_iff (line : Line) (s : Text)
    : (shlexSplit line.text = .ok line.argv ↔ line.bareEnd.any isWhitespace = false)
      ∧ ((∃ e, shlexSplit s = .error e) ↔ ¬ Closed s) :=
  ⟨argv_iff line, shlexSplit_error_iff s⟩

/-- The word of a letter and a blank, both escaped. -/
def escapedBlank : Line :=
  .words ⟨[], by simp⟩ [] ⟨[.escaped ['a', ' '] (by simp)], by simp⟩ ⟨[], by simp⟩

/-- It comes out without its blank. -/
theorem escaped_blank_lost
    : escapedBlank.text = "\\a\\ ".toList ∧ escapedBlank.argv = [['a', ' ']]
      ∧ shlexSplit escapedBlank.text = .ok [['a']]
      ∧ ¬ ∀ line : Line, shlexSplit line.text = .ok line.argv := by
  have read : shlexSplit escapedBlank.text = .ok [['a']] := rfl
  refine ⟨rfl, rfl, read, fun all => ?_⟩
  have whole : shlexSplit escapedBlank.text = .ok [['a', ' ']] := all escapedBlank
  rw [read] at whole
  simp at whole

end Delonix.Compose.Shlex
