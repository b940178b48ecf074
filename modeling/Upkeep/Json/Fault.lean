import Upkeep.Text.Search

/-!
# Faults in a JSON text

Why a text was refused, and where. The place is counted in bytes: it is the number of bytes that had
been read, the offending one among them when it was looked at.

* `position`: line and column after so many bytes.
* `Fault.message`: the words of a fault.
-/

namespace Upkeep.Json

open Text

/-- Why a JSON text is refused. -/
inductive Reason where
  | endInValue
  | endInArray
  | endInObject
  | endInString
  | expectedValue
  | expectedWord
  | expectedColon
  | expectedCommaOrBracket
  | expectedCommaOrBrace
  | nameNotString
  | trailingComma
  | trailingCharacters
  | badNumber
  | numberOutOfRange
  | badEscape
  | unfinishedPair
  | loneSurrogate
  | controlCharacter
  | tooDeep
  deriving DecidableEq, Inhabited

/-- The words of a reason. -/
def Reason.text : Reason → String
  | endInValue => "EOF while parsing a value"
  | endInArray => "EOF while parsing a list"
  | endInObject => "EOF while parsing an object"
  | endInString => "EOF while parsing a string"
  | expectedValue => "expected value"
  | expectedWord => "expected ident"
  | expectedColon => "expected `:`"
  | expectedCommaOrBracket => "expected `,` or `]`"
  | expectedCommaOrBrace => "expected `,` or `\x7d`"
  | nameNotString => "key must be a string"
  | trailingComma => "trailing comma"
  | trailingCharacters => "trailing characters"
  | badNumber => "invalid number"
  | numberOutOfRange => "number out of range"
  | badEscape => "invalid escape"
  | unfinishedPair => "unexpected end of hex escape"
  | loneSurrogate => "lone leading surrogate in hex escape"
  | controlCharacter => "control character (\\u0000-\\u001F) found while parsing a string"
  | tooDeep => "recursion limit exceeded"

/-- A refused text: the reason, and how many bytes had not been read. -/
structure Fault where
  reason : Reason
  unread : Nat
  deriving DecidableEq, Inhabited

/-- A fault that was found when all before `rest` had been read. -/
def Fault.after (reason : Reason) (rest : List Char) : Fault := ⟨reason, utf8Size rest⟩

/-- A fault that was found at the first byte of `rest`. -/
def Fault.into (reason : Reason) (rest : List Char) : Fault := ⟨reason, utf8Size rest - 1⟩

/-- Line and column after `offset` bytes of a text, when line `line` began at byte `start` and the
text begins at byte `here`. -/
def positionFrom (offset line start here : Nat) : List Char → Nat × Nat
  | [] => (line, offset - start)
  | c :: r =>
    if offset ≤ here then (line, offset - start)
    else if c = '\n' then positionFrom offset (line + 1) (here + 1) (here + 1) r
    else positionFrom offset line start (here + c.utf8Size) r

/-- Line and column after so many bytes: lines count from one, columns are bytes of the line. -/
def position (offset : Nat) (s : List Char) : Nat × Nat := positionFrom offset 1 0 0 s

/-- The words of a fault in a text. -/
def Fault.message (f : Fault) (s : List Char) : String :=
  let (line, column) := position (utf8Size s - f.unread) s
  f.reason.text ++ " at line " ++ toString line ++ " column " ++ toString column

end Upkeep.Json
