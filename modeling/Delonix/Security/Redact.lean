import Delonix.Library.Text
import Mathlib.Data.List.Infix

/-! Secret redaction of free text. Each line is masked by its key first; the passes over PEM
blocks and over tokens that show by their shape then read what the first pass left.
-/

namespace Delonix.Security

open Delonix.Library.Text

/-- What replaces a value that matched. -/
def mask : List Char := "[redacted]".toList

/-- Above this many bytes the input is cut before it is scanned. -/
def maxInput : Nat := 64 * 1024

def truncated : List Char := "…[truncated]".toList

/-- Key fragments that make a value secret. -/
def sensitive : List String :=
  ["password", "passwd", "secret", "token", "apikey", "api_key", "accesskey", "privatekey",
    "credential", "authorization", "auth", "bearer", "sessionid", "cookie", "clientsecret",
    "refreshtoken", "sshkey", "dsn"]

/-- Whether a value under this key must never be shown. Case and punctuation do not count. -/
def isSensitiveKey (key : List Char) : Bool :=
  let norm := (key.filter Char.isAlphanum).map Char.toLower
  sensitive.any fun n => n.toList.filter (· != '_') <:+: norm

def isSeparator (c : Char) : Bool := c == ':' || c == '='

/-- The value without its outer blanks, and the comma that belongs to the structure. -/
def bodyAndTail (value : List Char) : List Char × List Char :=
  let trimmed := trimEnd value
  match stripSuffix [','] trimmed with
  | some b => (trim b, [','])
  | none => (trim trimmed, [])

def utf8Len (s : List Char) : Nat := (s.map fun c => c.utf8Size).sum

def isQuoted (body : List Char) : Bool :=
  2 ≤ utf8Len body && body.head? == some '"' && body.getLast? == some '"'

/-- `key: value` or `key=value`, masked when the key is sensitive. An empty field is left as it
is: masking it would invent a secret that is not there.
-/
def redactLineByKey (line : List Char) : List Char :=
  match line.span (!isSeparator ·) with
  | (_, []) => line
  | (key, sep :: value) =>
      if isSensitiveKey key then
        let (body, tail) := bodyAndTail value
        let lead := if value.head? == some ' ' then [' '] else []
        if isQuoted body then key ++ sep :: lead ++ '"' :: mask ++ '"' :: tail
        else if body.isEmpty then line
        else key ++ sep :: lead ++ mask ++ tail
      else line

def pemBegin : List Char := "-----BEGIN ".toList

def pemEnd : List Char := "-----END ".toList

/-- The lines of a text whose PEM bodies are one mask each. -/
def maskPemLines (inside bodyMasked : Bool) : List (List Char) → List (List Char)
  | [] => []
  | line :: rest =>
      if pemBegin.isPrefixOf (trim line) then line :: maskPemLines true false rest
      else if pemEnd.isPrefixOf (trim line) then line :: maskPemLines false bodyMasked rest
      else if inside then
        if bodyMasked then maskPemLines inside bodyMasked rest
        else mask :: maskPemLines inside true rest
      else line :: maskPemLines inside bodyMasked rest

def maskPemBlocks (s : List Char) : List Char :=
  if pemBegin <:+: s then ['\n'].intercalate (maskPemLines false false (s.splitOn '\n')) else s

def isTokenChar (c : Char) : Bool := c.isAlphanum || c == '-' || c == '_' || c == '.'

/-- The run of characters a token may contain. -/
def tokenRun (s : List Char) : List Char := s.takeWhile isTokenChar

def isAwsKeyId (tok : List Char) : Bool :=
  tok.length == 20 && tok.all fun c => c.isUpper || c.isDigit

/-- The shapes a secret announces itself with: a JWT and an AWS access key id. -/
def isKnownSecretShape (tok : List Char) : Bool :=
  ("eyJ".toList.isPrefixOf tok && tok.count '.' == 2 && 20 < tok.length)
    || ("AKIA".toList.isPrefixOf tok && isAwsKeyId tok)

def startsToken (s : List Char) : Bool :=
  "eyJ".toList.isPrefixOf s || "AKIA".toList.isPrefixOf s

/-- Tokens masked wherever they start. `done` counts the characters of a token that is already
written, and `before` is the character before this one, if no token came before it.
-/
def maskTokensFrom (done : Nat) (before : Option Char) : List Char → List Char
  | [] => []
  | c :: rest =>
      match done with
      | done + 1 => maskTokensFrom done none rest
      | 0 =>
          if startsToken (c :: rest) then
            let tok := tokenRun (c :: rest)
            let atWordStart := before.all (!Char.isAlphanum ·)
            (if atWordStart && isKnownSecretShape tok then mask else tok)
              ++ maskTokensFrom (tok.length - 1) none rest
          else c :: maskTokensFrom 0 (some c) rest

def maskTokenShapes (s : List Char) : List Char := maskTokensFrom 0 none s

/-- The longest start that fits in so many bytes. -/
def fitting : Nat → List Char → List Char
  | _, [] => []
  | max, c :: rest =>
      if c.utf8Size ≤ max then c :: fitting (max - c.utf8Size) rest else []

/-- Cuts at `max` bytes without splitting a character. -/
def truncateOnBoundary (s : List Char) (max : Nat) : List Char × Bool :=
  if utf8Len s ≤ max then (s, false) else (fitting max s, true)

def redactText (input : String) : String :=
  let (head, cut) := truncateOnBoundary input.toList maxInput
  let out := ['\n'].intercalate ((head.splitOn '\n').map redactLineByKey)
  let out := maskTokenShapes (maskPemBlocks out)
  String.ofList (if cut then out ++ truncated else out)

end Delonix.Security
