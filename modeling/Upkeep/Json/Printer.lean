import Upkeep.Json.Basic

/-!
# Writing JSON

* `Json.encode`: the characters of a string literal between its quotes.
* `Json.compact`: a value on one line.
* `Json.pretty`: a value with every item and member on its own line.
-/

namespace Upkeep.Json

/-- The hexadecimal digit of a number below sixteen, in lower case. -/
def hexDigit (n : Nat) : Char := if n < 10 then Char.ofNat (48 + n) else Char.ofNat (87 + n)

/-- A character of a string literal: quotes, backslashes and control characters are escaped. -/
def encodeChar (c : Char) : List Char :=
  if c = '"' then ['\\', '"']
  else if c = '\\' then ['\\', '\\']
  else if c = '\x08' then ['\\', 'b']
  else if c = '\x0c' then ['\\', 'f']
  else if c = '\n' then ['\\', 'n']
  else if c = '\r' then ['\\', 'r']
  else if c = '\t' then ['\\', 't']
  else if c.toNat < 32 then ['\\', 'u', '0', '0', hexDigit (c.toNat / 16), hexDigit (c.toNat % 16)]
  else [c]

/-- The characters of a string literal between its quotes. -/
def encode (s : List Char) : List Char := s.flatMap encodeChar

/-- A string literal. -/
def quote (s : String) : List Char := '"' :: encode s.toList ++ ['"']

mutual

/-- A value on one line, without blanks. -/
def compactChars : Json → List Char
  | null => "null".toList
  | bool true => "true".toList
  | bool false => "false".toList
  | number literal => literal.toList
  | string s => quote s
  | array items => '[' :: compactItems items ++ [']']
  | object members => '{' :: compactMembers members ++ ['}']

/-- Items with commas between them. -/
def compactItems : List Json → List Char
  | [] => []
  | [v] => compactChars v
  | v :: w :: vs => compactChars v ++ ',' :: compactItems (w :: vs)

/-- Members with commas between them. -/
def compactMembers : List (String × Json) → List Char
  | [] => []
  | [(name, v)] => quote name ++ ':' :: compactChars v
  | (name, v) :: m :: ms => quote name ++ ':' :: compactChars v ++ ',' :: compactMembers (m :: ms)

end

/-- The start of a line that is indented by so many steps. -/
def newLine (depth : Nat) : List Char := '\n' :: List.replicate (2 * depth) ' '

mutual

/-- A value whose items and members stand on lines of their own, inside `depth` brackets. -/
def prettyChars (depth : Nat) : Json → List Char
  | null => "null".toList
  | bool true => "true".toList
  | bool false => "false".toList
  | number literal => literal.toList
  | string s => quote s
  | array [] => "[]".toList
  | array (v :: vs) => '[' :: prettyItems (depth + 1) (v :: vs) ++ newLine depth ++ [']']
  | object [] => ['{', '}']
  | object (m :: ms) => '{' :: prettyMembers (depth + 1) (m :: ms) ++ newLine depth ++ ['}']

/-- Items on lines of their own. -/
def prettyItems (depth : Nat) : List Json → List Char
  | [] => []
  | [v] => newLine depth ++ prettyChars depth v
  | v :: w :: vs => newLine depth ++ prettyChars depth v ++ ',' :: prettyItems depth (w :: vs)

/-- Members on lines of their own. -/
def prettyMembers (depth : Nat) : List (String × Json) → List Char
  | [] => []
  | [(name, v)] => newLine depth ++ quote name ++ ':' :: ' ' :: prettyChars depth v
  | (name, v) :: m :: ms =>
    newLine depth ++ quote name ++ ':' :: ' ' :: prettyChars depth v
      ++ ',' :: prettyMembers depth (m :: ms)

end

/-- A value on one line. -/
def compact (v : Json) : String := String.ofList (compactChars v)

/-- A value over several lines. -/
def pretty (v : Json) : String := String.ofList (prettyChars 0 v)

end Upkeep.Json
