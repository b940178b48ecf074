import Upkeep.Json.Basic
import Upkeep.Json.Number

/-!
# Reading JSON

A reader for whole texts. It refuses what the format forbids, trailing commas and characters among
it, and texts that nest more than 127 levels deep.

* `Json.parse`: the value of a text, or why the text is refused.
* `stringBody`: the characters of a string literal up to its closing quote.
* `value`, `items`, `members`: a value and the insides of the two kinds of brackets; the first
  argument bounds the work and is never short when it exceeds twice the length of the text.
-/

namespace Upkeep.Json

open Text

/-- The blanks of JSON. -/
def isSpace (c : Char) : Bool := c == ' ' || c == '\n' || c == '\t' || c == '\r'

/-- A text without the blanks in front. -/
def skipSpace (s : List Char) : List Char := s.dropWhile isSpace

/-- Reads the rest of a fixed word. -/
def word : List Char → List Char → Except Fault (List Char)
  | [], s => .ok s
  | _ :: _, [] => .error (.after .endInValue [])
  | e :: es, c :: r => if c = e then word es r else .error (.into .expectedWord (c :: r))

/-- The fault of four bytes that are not hexadecimal digits. -/
def hexFault (s : List Char) : Fault :=
  if utf8Size s < 4 then ⟨.endInString, 0⟩ else ⟨.badEscape, utf8Size s - 4⟩

/-- The number of four hexadecimal digits. -/
def hexFour (s : List Char) : Except Fault (Nat × List Char) :=
  match s with
  | a :: b :: c :: d :: r =>
    match hexValue? a, hexValue? b, hexValue? c, hexValue? d with
    | some a, some b, some c, some d => .ok (((a * 16 + b) * 16 + c) * 16 + d, r)
    | _, _, _, _ => .error (hexFault s)
  | _ => .error (hexFault s)

/-- The character of a numeric escape: one beyond the basic plane is written as a pair. -/
def unicodeEscape (s : List Char) : Except Fault (Char × List Char) := do
  let (n, r) ← hexFour s
  if 0xdc00 ≤ n ∧ n ≤ 0xdfff then .error (.after .loneSurrogate r)
  else if n < 0xd800 ∨ 0xdbff < n then .ok (Char.ofNat n, r)
  -- the first half of a pair: the other half has to follow
  else match r with
    | [] | ['\\'] => .error (.after .endInString [])
    | '\\' :: 'u' :: r => do
      let (m, r) ← hexFour r
      if m < 0xdc00 ∨ 0xdfff < m then .error (.after .loneSurrogate r)
      else .ok (Char.ofNat (0x10000 + (n - 0xd800) * 0x400 + (m - 0xdc00)), r)
    | '\\' :: r => .error (.into .unfinishedPair r)
    | r => .error (.into .unfinishedPair r)

/-- The character of an escape, whose backslash has been read. -/
def escape : List Char → Except Fault (Char × List Char)
  | [] => .error (.after .endInString [])
  | c :: r =>
    if c = '"' ∨ c = '\\' ∨ c = '/' then .ok (c, r)
    else if c = 'b' then .ok ('\x08', r)
    else if c = 'f' then .ok ('\x0c', r)
    else if c = 'n' then .ok ('\n', r)
    else if c = 'r' then .ok ('\r', r)
    else if c = 't' then .ok ('\t', r)
    else if c = 'u' then unicodeEscape r
    else .error (.into .badEscape (c :: r))

/-- The characters of a string literal, whose opening quote has been read, and what follows the
closing quote. -/
def stringBody : Nat → List Char → Except Fault (List Char × List Char)
  | 0, s => .error (.after .endInString s)
  | _ + 1, [] => .error (.after .endInString [])
  | n + 1, c :: r =>
    if c = '"' then .ok ([], r)
    else if c = '\\' then
      match escape r with
      | .error e => .error e
      | .ok (x, r) => (stringBody n r).map fun (xs, r) => (x :: xs, r)
    else if c.toNat < 32 then .error (.into .controlCharacter (c :: r))
    else (stringBody n r).map fun (xs, r) => (c :: xs, r)

/-- A string literal, whose opening quote has been read. -/
def stringLiteral (s : List Char) : Except Fault (String × List Char) :=
  (stringBody (s.length + 1) s).map fun (xs, r) => (String.ofList xs, r)

mutual

/-- A value and what follows it; `depth` levels may open inside it. -/
def value : Nat → Nat → List Char → Except Fault (Json × List Char)
  | 0, _, s => .error (.after .endInValue s)
  | fuel + 1, depth, s =>
    match skipSpace s with
    | [] => .error (.after .endInValue [])
    | c :: r =>
      if c = 'n' then (word "ull".toList r).map fun r => (null, r)
      else if c = 't' then (word "rue".toList r).map fun r => (bool true, r)
      else if c = 'f' then (word "alse".toList r).map fun r => (bool false, r)
      else if c = '"' then (stringLiteral r).map fun (s, r) => (string s, r)
      else if c = '-' ∨ c.isDigit then
        (number? (c :: r)).map fun (l, r) => (number (String.ofList l), r)
      else if c = '[' then
        match depth with
        | 0 => .error (.into .tooDeep (c :: r))
        | depth + 1 =>
          match skipSpace r with
          | [] => .error (.after .endInArray [])
          | d :: r =>
            if d = ']' then .ok (array [], r)
            else (items fuel depth (d :: r)).map fun (vs, r) => (array vs, r)
      else if c = '{' then
        match depth with
        | 0 => .error (.into .tooDeep (c :: r))
        | depth + 1 =>
          match skipSpace r with
          | [] => .error (.after .endInObject [])
          | d :: r =>
            if d = '}' then .ok (object [], r)
            else (members fuel depth (d :: r)).map fun (ms, r) => (object ms, r)
      else .error (.into .expectedValue (c :: r))

/-- The items of an array from one of them on, and what follows the bracket. -/
def items : Nat → Nat → List Char → Except Fault (List Json × List Char)
  | 0, _, s => .error (.after .endInArray s)
  | fuel + 1, depth, s =>
    match value fuel depth s with
    | .error e => .error e
    | .ok (v, r) =>
      match skipSpace r with
      | [] => .error (.after .endInArray [])
      | c :: r =>
        if c = ']' then .ok ([v], r)
        else if c = ',' then
          match skipSpace r with
          | [] => .error (.after .endInValue [])
          | d :: r =>
            if d = ']' then .error (.into .trailingComma (d :: r))
            else (items fuel depth (d :: r)).map fun (vs, r) => (v :: vs, r)
        else .error (.into .expectedCommaOrBracket (c :: r))

/-- The members of an object from the name of one of them on, and what follows the brace. -/
def members : Nat → Nat → List Char → Except Fault (List (String × Json) × List Char)
  | 0, _, s => .error (.after .endInObject s)
  | fuel + 1, depth, s =>
    match s with
    | '"' :: r =>
      match stringLiteral r with
      | .error e => .error e
      | .ok (name, r) =>
        match skipSpace r with
        | [] => .error (.after .endInObject [])
        | ':' :: r =>
          match value fuel depth r with
          | .error e => .error e
          | .ok (v, r) =>
            match skipSpace r with
            | [] => .error (.after .endInObject [])
            | c :: r =>
              if c = '}' then .ok ([(name, v)], r)
              else if c = ',' then
                match skipSpace r with
                | [] => .error (.after .endInValue [])
                | d :: r =>
                  if d = '}' then .error (.into .trailingComma (d :: r))
                  else (members fuel depth (d :: r)).map fun (ms, r) => ((name, v) :: ms, r)
              else .error (.into .expectedCommaOrBrace (c :: r))
        | r => .error (.into .expectedColon r)
    | r => .error (.into .nameNotString r)

end

/-- How many levels of brackets a text may open. -/
def maxDepth : Nat := 127

/-- The value of a text, on characters. -/
def parseChars (s : List Char) : Except Fault Json :=
  match value (2 * s.length + 2) maxDepth s with
  | .error e => .error e
  | .ok (v, r) =>
    match skipSpace r with
    | [] => .ok v
    | r => .error (.into .trailingCharacters r)

/-- The value of a text. -/
def parse (s : String) : Except Fault Json := parseChars s.toList

/-- The value of a text, or the words in which it is refused. -/
def read (s : String) : Except String Json := (parse s).mapError (·.message s.toList)

end Upkeep.Json
