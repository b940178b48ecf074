import Upkeep.Regex.Basic

/-!
# Flags of regular expressions

The flags under which a part of a regular expression is read: whether case matters, what a dot and
the line anchors mean, and whether blanks and comments are passed over.
-/

namespace Upkeep.Regex

open Text

/-- The flags under which a part of an expression is read. -/
structure Flags where
  /-- Letters match in either case. -/
  anyCase : Bool := false
  /-- The line anchors match at every line. -/
  multiLine : Bool := false
  /-- A dot matches line ends too. -/
  dotAll : Bool := false
  /-- A carriage return ends a line too. -/
  crlf : Bool := false
  /-- Blanks are passed over, and comments from a number sign to the end of the line. -/
  spaced : Bool := false
  /-- Classes and letters are those of Unicode, not of ASCII alone. -/
  unicode : Bool := true
  deriving DecidableEq, Inhabited

/-- What is left after blanks and comments; at first a comment may be open. -/
def afterBlanks : Bool → List Char → List Char
  | _, [] => []
  | true, c :: r => afterBlanks (c != '\n') r
  | false, c :: r =>
    if isBlank c then afterBlanks false r
    else if c = '#' then afterBlanks true r
    else c :: r

namespace Flags

/-- Passes over what the flags allow between two parts. -/
def skip (f : Flags) (s : List Char) : List Char := if f.spaced then afterBlanks false s else s

/-- Gives the flag of a letter a value. Greed has its flag too, but does not change what matches. -/
def set? (f : Flags) (letter : Char) (value : Bool) : Option Flags :=
  if letter = 'i' then some { f with anyCase := value }
  else if letter = 'm' then some { f with multiLine := value }
  else if letter = 's' then some { f with dotAll := value }
  else if letter = 'R' then some { f with crlf := value }
  else if letter = 'x' then some { f with spaced := value }
  else if letter = 'u' then some { f with unicode := value }
  else if letter = 'U' then some f
  else none

/-- The ASCII characters. -/
def ascii : CharSet := .range 0 0x7f

/-- A set as it is meant under the flags. -/
def fold (f : Flags) (s : CharSet) : CharSet :=
  if f.anyCase then
    (if f.unicode then .anyCase s else .union s (.inter (.anyCase s) ascii))
  else s

/-- The complement of a set; without Unicode it would hold bytes that are no characters. -/
def complement? (f : Flags) (negated : Bool) (s : CharSet) : Option CharSet :=
  if ! negated then some s
  else if f.unicode then some (.complement s)
  else none

/-- The decimal digits. -/
def digits (f : Flags) : CharSet := if f.unicode then .digit else .range 0x30 0x39

/-- The blanks. -/
def blanks (f : Flags) : CharSet :=
  if f.unicode then .blank else .ranges [(0x09, 0x0d), (0x20, 0x20)]

/-- The word characters. -/
def wordChars (f : Flags) : CharSet :=
  if f.unicode then .word else .ranges [(0x30, 0x39), (0x41, 0x5a), (0x5f, 0x5f), (0x61, 0x7a)]

/-- What a dot matches. -/
def dot? (f : Flags) : Option CharSet :=
  if ! f.unicode then none
  else if f.dotAll then some .all
  else if f.crlf then some (.complement (.union (.one '\n') (.one '\r')))
  else some (.complement (.one '\n'))

/-- What a circumflex requires. -/
def lineStart (f : Flags) : Anchor := if f.multiLine then .lineStart f.crlf else .textStart

/-- What a dollar sign requires. -/
def lineEnd (f : Flags) : Anchor := if f.multiLine then .lineEnd f.crlf else .textEnd

/-- Reads the letters of a change of flags: the flags, whether there was no letter at all, the
character that ended them, and the rest. -/
def change? (f : Flags) (seen : List Char) (value : Bool) :
    List Char → Option (Flags × Bool × Char × List Char)
  | [] => none
  | c :: r =>
    if c = ':' ∨ c = ')' then
      if seen.head? = some '-' then none else some (f, seen.isEmpty, c, r)
    else if c ∈ seen then none
    else if c = '-' then change? f (c :: seen) false r
    else
      match f.set? c value with
      | none => none
      | some f => change? f (c :: seen) value r

end Flags

end Upkeep.Regex
