import Upkeep.Bytes
import Upkeep.Text.Search

/-!
# Charsets

The text of a body is read by the mark at its beginning, or else by the charset that the server names,
or else as UTF-8.

* `Charset.ofContentType?`: the charset that a content type names.
* `Charset.decode`: the text of bytes, with U+FFFD for each fault.
* `Charset.text`: the text of a body.
-/

namespace Upkeep

open Text

/-- How characters are written as bytes. -/
inductive Charset where
  | utf8
  /-- Units of two bytes, the low byte first or last. -/
  | utf16 (lowFirst : Bool)
  /-- One byte for each character of Western Europe. -/
  | western
  deriving DecidableEq, Inhabited

namespace Charset

/-- What stands for a fault. -/
def fault : Char := Char.ofNat 0xfffd

/-- The characters of the bytes from 0x80 to 0x9f. -/
def westernHigh : List Nat := [
  0x20ac, 0x81, 0x201a, 0x192, 0x201e, 0x2026, 0x2020, 0x2021,
  0x2c6, 0x2030, 0x160, 0x2039, 0x152, 0x8d, 0x17d, 0x8f,
  0x90, 0x2018, 0x2019, 0x201c, 0x201d, 0x2022, 0x2013, 0x2014,
  0x2dc, 0x2122, 0x161, 0x203a, 0x153, 0x9d, 0x17e, 0x178]

/-- The character of a byte. -/
def westernChar (b : UInt8) : Char :=
  if 0x80 ≤ b.toNat then Char.ofNat (westernHigh.getD (b.toNat - 0x80) b.toNat)
  else Char.ofNat b.toNat

/-- The units of two bytes; none stands for a single byte at the end. -/
def units (lowFirst : Bool) : Bytes → List (Option Nat)
  | [] => []
  | [_] => [none]
  | a :: b :: r =>
    some (if lowFirst then b.toNat * 256 + a.toNat else a.toNat * 256 + b.toNat)
      :: units lowFirst r

/-- The characters of units; two halves make one character. -/
def ofUnits : List (Option Nat) → List Char
  | [] => []
  | none :: r => fault :: ofUnits r
  | [some n] => [if 0xd800 ≤ n ∧ n ≤ 0xdfff then fault else Char.ofNat n]
  | some n :: m :: r =>
    -- a first half takes a second half along; any other unit stands for itself
    if 0xd800 ≤ n ∧ n ≤ 0xdbff then
      match m with
      | some k =>
        if 0xdc00 ≤ k ∧ k ≤ 0xdfff then
          Char.ofNat (0x10000 + (n - 0xd800) * 0x400 + (k - 0xdc00)) :: ofUnits r
        else fault :: ofUnits (m :: r)
      | none => fault :: ofUnits r
    else if 0xdc00 ≤ n ∧ n ≤ 0xdfff then fault :: ofUnits (m :: r)
    else Char.ofNat n :: ofUnits (m :: r)

/-- The text of bytes, with U+FFFD for each fault. -/
def decode : Charset → Bytes → String
  | utf8, b => b.text
  | utf16 lowFirst, b => String.ofList (ofUnits (units lowFirst b))
  | western, b => String.ofList (b.map westernChar)

/-- The names of the charsets. -/
def names : List (Charset × List String) := [
  (utf8, ["utf-8", "utf8", "unicode-1-1-utf-8", "unicode11utf8", "unicode20utf8", "x-unicode20utf8"]),
  (utf16 true, ["utf-16le", "utf-16", "unicode", "ucs-2", "csunicode", "iso-10646-ucs-2",
    "unicodefeff"]),
  (utf16 false, ["utf-16be", "unicodefffe"]),
  (western, ["windows-1252", "iso-8859-1", "latin1", "us-ascii", "ascii", "l1", "cp1252", "cp819",
    "ibm819", "iso-ir-100", "iso8859-1", "iso88591", "iso_8859-1", "iso_8859-1:1987", "csisolatin1",
    "x-cp1252", "ansi_x3.4-1968"])]

/-- The charset of a name, of which the case does not matter. -/
def ofName? (name : List Char) : Option Charset :=
  (names.find? fun entry => entry.2.contains (String.ofList (lowerAscii name))).map (·.1)

/-- A text without spaces and tabs around it. -/
def bare (s : List Char) : List Char :=
  let isBlank (c : Char) : Bool := c == ' ' || c == '\t'
  ((s.dropWhile isBlank).reverse.dropWhile isBlank).reverse

/-- A text without quotes around it. -/
def unquoted (s : List Char) : List Char :=
  match s with
  | '"' :: r => r.takeWhile (· ≠ '"')
  | s => s

/-- The value of a parameter of a given name. -/
def parameter? (name : List Char) (s : List Char) : Option (List Char) :=
  match cut '=' (bare s) with
  | some (n, v) => if lowerAscii n = name then some (unquoted v) else none
  | none => none

/-- The charset that a content type names, if it is a known one. -/
def ofContentType? (s : String) : Option Charset :=
  match fields ';' s.toList with
  | [] => none
  | kind :: parameters =>
    if kind.contains '/' then
      ((parameters.findSome? (parameter? "charset".toList)).bind ofName?)
    else none

/-- The text of a body whose server names a charset, or none. -/
def text (named : Option Charset) (b : Bytes) : String :=
  match b with
  | 0xef :: 0xbb :: 0xbf :: r => utf8.decode r
  | 0xff :: 0xfe :: r => (utf16 true).decode r
  | 0xfe :: 0xff :: r => (utf16 false).decode r
  | b => (named.getD utf8).decode b

end Charset

end Upkeep
