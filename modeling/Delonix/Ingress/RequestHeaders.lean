import Delonix.Library.Utf8
import Delonix.Library.Collections
import Delonix.Library.Text

/-! The headers of a request as the proxy reads them. A value is its bytes, and is text only where
all of them are visible. Which texts are header names is left to the HTTP library.
-/

namespace Delonix.Ingress

open Delonix.Library
open Delonix.Library.Bytes
open Delonix.Library.Text

/-- A header's name, which is kept in lower case. -/
structure HeaderName where
  text : String
  lower : text.toList.map Char.toLower = text.toList
deriving DecidableEq, Repr

abbrev HeaderValue := List Byte

abbrev HeaderMap := Multimap HeaderName HeaderValue

theorem toLower_toLower (c : Char) : c.toLower.toLower = c.toLower := by
  by_cases capital : 65 ≤ c.toNat ∧ c.toNat ≤ 90
  · refine toLower_eq_self (.inr ?_)
    have low : 65 ≤ c.val := UInt32.le_iff_toNat_le.mpr capital.1
    have high : c.val ≤ 90 := UInt32.le_iff_toNat_le.mpr capital.2
    have moved : c.toLower.toNat = (c.val + 32).toNat :=
      congrArg Char.toNat (dif_pos ⟨low, high⟩ : c.toLower = _)
    have value : c.val.toNat = c.toNat := rfl
    rw [moved, UInt32.toNat_add, value]
    have : (32 : UInt32).toNat = 32 := rfl
    omega
  · have outside : c.toNat < 65 ∨ 90 < c.toNat := by omega
    rw [toLower_eq_self outside, toLower_eq_self outside]

/-- `HeaderName::from_bytes`, which lowers the name before it looks at it. -/
def HeaderName.fromBytes (isName : String → Bool) (token : List Char) : Option HeaderName :=
  if isName (String.ofList (token.map Char.toLower)) then
    some ⟨String.ofList (token.map Char.toLower), by
      rw [String.toList_ofList, List.map_map]
      exact List.map_congr_left fun c _ => toLower_toLower c⟩
  else none

def host : HeaderName := ⟨"host", rfl⟩

def connection : HeaderName := ⟨"connection", rfl⟩

/-- `is_visible_ascii` of the HTTP library. -/
def isVisibleAscii (b : Byte) : Bool := (32 ≤ b.toNat && b.toNat < 127) || b.toNat == 9

/-- A byte as the character of that number. -/
def asChar (b : Byte) : Char := Char.ofNat b.toNat

/-- `HeaderValue::to_str`. -/
def toStr (value : HeaderValue) : Option (List Char) :=
  if value.all isVisibleAscii then some (value.map asChar) else none

/-- The bytes of a text without a character outside ASCII. -/
def asciiBytes (s : List Char) : HeaderValue := s.map fun c => UInt8.ofNat c.toNat

/-- `HeaderValue::from_str`. -/
def fromStr (s : List Char) : Option HeaderValue :=
  if s.all (fun c => (32 ≤ c.toNat && c.toNat < 127) || c.toNat == 9) then some (asciiBytes s)
  else none

/-- The request's `Host` without the port; `uriHost` is the host of an absolute request target. -/
def reqHost (headers : HeaderMap) (uriHost : Option (List Char)) : List Char :=
  let named := ((headers.get host).bind toStr).or uriHost
  (named.getD []).takeWhile (· ≠ ':')

theorem toNat_asChar (b : Byte) : (asChar b).toNat = b.toNat := by
  have small := b.toNat_lt
  have valid : b.toNat.isValidChar := .inl (by omega)
  rw [asChar, Char.ofNat, dif_pos valid]
  rfl

end Delonix.Ingress
