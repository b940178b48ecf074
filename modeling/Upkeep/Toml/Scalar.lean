import Upkeep.Data
import Upkeep.Text.Search

/-!
# TOML scalars

The parts of a TOML text that hold no other value: blanks and comments, strings, numbers, and dates
and times. Each reader gives what it read and the rest, or nothing when the text is refused.

* `Toml.string?`: a string in any of its four forms.
* `Toml.bare?`: a number, a truth value, a date or a time.
-/

namespace Upkeep.Toml

open Text

/-- A blank within a line. -/
def isSpace (c : Char) : Bool := c == ' ' || c == '\t'

/-- What follows the blanks at the front of a text. -/
def skipSpace (s : List Char) : List Char := s.dropWhile isSpace

/-- Whether a character may stand in a comment, and unescaped in a string of one line. -/
def isPrintable (c : Char) : Bool := c == '\t' || (32 ≤ c.toNat && c.toNat != 127)

/-- What follows the end of a line. -/
def newline? : List Char → Option (List Char)
  | '\n' :: r => some r
  | '\r' :: '\n' :: r => some r
  | _ => none

/-- What follows the comment at the front of a text, if there is one. -/
def skipComment : List Char → List Char
  | '#' :: r => r.dropWhile isPrintable
  | s => s

/-- What follows blanks, comments and ends of lines. -/
def skipLines : Nat → List Char → List Char
  | 0, s => s
  | fuel + 1, s =>
    let s := skipComment (skipSpace s)
    match newline? s with
    | some r => skipLines fuel r
    | none => s

/-- The character of a number in hexadecimal digits, so many of them, and the rest. -/
def numbered? (n : Nat) (s : List Char) : Option (Char × List Char) := do
  if s.length < n then none
  let ds ← (s.take n).mapM hexValue?
  let v := ds.foldl (16 * · + ·) 0
  if v.isValidChar then some (Char.ofNat v, s.drop n) else none

/-- The character that a backslash and the text after it stand for. -/
def escape? : List Char → Option (Char × List Char)
  | 'b' :: r => some ('\x08', r)
  | 't' :: r => some ('\t', r)
  | 'n' :: r => some ('\n', r)
  | 'f' :: r => some ('\x0c', r)
  | 'r' :: r => some ('\r', r)
  | 'e' :: r => some ('\x1b', r)
  | '"' :: r => some ('"', r)
  | '\\' :: r => some ('\\', r)
  | 'x' :: r => numbered? 2 r
  | 'u' :: r => numbered? 4 r
  | 'U' :: r => numbered? 8 r
  | _ => none

/-- The rest of a quoted string on one line. -/
def quoted? : Nat → List Char → Option (List Char × List Char)
  | 0, _ => none
  | _ + 1, [] => none
  | fuel + 1, c :: r =>
    if c = '"' then some ([], r)
    else if c = '\\' then
      match escape? r with
      | none => none
      | some (x, r) => (quoted? fuel r).map fun (xs, r) => (x :: xs, r)
    else if isPrintable c then (quoted? fuel r).map fun (xs, r) => (c :: xs, r)
    else none

/-- The end of a string over several lines: three quotes, and up to two before them that belong to
the string. -/
def closing? (quote : Char) (s : List Char) : Option (List Char × List Char) :=
  let quotes := s.takeWhile (· == quote)
  if 3 ≤ quotes.length ∧ quotes.length ≤ 5 then
    some (quotes.drop 3, s.drop quotes.length)
  else none

/-- What follows a backslash at the end of a line: blanks and ends of lines are dropped. -/
def continued? (s : List Char) : Option (List Char) :=
  match newline? (skipSpace s) with
  | none => none
  | some r => some (r.dropWhile fun c => isSpace c || c == '\n' || c == '\r')

/-- The rest of a quoted string over several lines. -/
def quotedLines? : Nat → List Char → Option (List Char × List Char)
  | 0, _ => none
  | _ + 1, [] => none
  | fuel + 1, c :: r =>
    if c = '"' then
      match closing? '"' (c :: r) with
      | some (xs, r) => some (xs, r)
      | none =>
        -- one or two quotes belong to the string, six or more cannot be told apart
        if 6 ≤ ((c :: r).takeWhile (· == '"')).length then none
        else (quotedLines? fuel r).map fun (xs, r) => (c :: xs, r)
    else if c = '\\' then
      match continued? r with
      | some r => quotedLines? fuel r
      | none =>
        match escape? r with
        | none => none
        | some (x, r) => (quotedLines? fuel r).map fun (xs, r) => (x :: xs, r)
    else if c = '\n' ∨ isPrintable c then (quotedLines? fuel r).map fun (xs, r) => (c :: xs, r)
    else if c = '\r' ∧ r.head? = some '\n' then
      (quotedLines? fuel r).map fun (xs, r) => (c :: xs, r)
    else none

/-- The rest of a literal string on one line. -/
def literal? : List Char → Option (List Char × List Char)
  | [] => none
  | c :: r =>
    if c = '\'' then some ([], r)
    else if isPrintable c then (literal? r).map fun (xs, r) => (c :: xs, r)
    else none

/-- The rest of a literal string over several lines. -/
def literalLines? : List Char → Option (List Char × List Char)
  | [] => none
  | c :: r =>
    if c = '\'' then
      match closing? '\'' (c :: r) with
      | some (xs, r) => some (xs, r)
      | none =>
        if 6 ≤ ((c :: r).takeWhile (· == '\'')).length then none
        else (literalLines? r).map fun (xs, r) => (c :: xs, r)
    else if c = '\n' ∨ isPrintable c ∨ (c = '\r' ∧ r.head? = some '\n') then
      (literalLines? r).map fun (xs, r) => (c :: xs, r)
    else none

/-- A text without the end of a line at its front. -/
def dropNewline (s : List Char) : List Char := (newline? s).getD s

/-- A string on one line. -/
def lineString? : List Char → Option (List Char × List Char)
  | '"' :: r => quoted? (r.length + 1) r
  | '\'' :: r => literal? r
  | _ => none

/-- A string. -/
def string? : List Char → Option (List Char × List Char)
  | '"' :: '"' :: '"' :: r => quotedLines? (r.length + 1) (dropNewline r)
  | '\'' :: '\'' :: '\'' :: r => literalLines? (dropNewline r)
  | s => lineString? s

/-- Digits of a base without the underscores between them; an underscore stands between two digits. -/
def digits? (isBaseDigit : Char → Bool) (s : List Char) : Option (List Char) :=
  let parts := fields '_' s
  if parts.all (fun p => p ≠ [] && p.all isBaseDigit) then some parts.flatten else none

/-- The number of digits in a base. -/
def valueOf? (base : Nat) (digits : List Char) : Option Nat :=
  (digits.mapM hexValue?).map (·.foldl (base * · + ·) 0)

/-- A number without a sign in a base that a letter announces. -/
def based? (letter : Char) : Option (Nat × (Char → Bool)) :=
  if letter = 'x' then some (16, isHexDigit)
  else if letter = 'o' then some (8, fun c => '0' ≤ c && c ≤ '7')
  else if letter = 'b' then some (2, fun c => c == '0' || c == '1')
  else none

/-- A decimal number without a sign: no zero stands before another digit. -/
def decimal? (s : List Char) : Option Nat :=
  match digits? Char.isDigit s with
  | none => none
  | some ds => if 1 < ds.length ∧ ds.head? = some '0' then none else valueOf? 10 ds

/-- The number after its sign. -/
def unsigned (s : List Char) : Bool × List Char :=
  match s with
  | '-' :: r => (true, r)
  | '+' :: r => (false, r)
  | s => (false, s)

/-- An integer. -/
def integer? (s : List Char) : Option Int :=
  match s with
  | '0' :: c :: r =>
    match based? c with
    | some (base, isBaseDigit) =>
      ((digits? isBaseDigit r).bind (valueOf? base)).map Int.ofNat
    | none => (decimal? s).map Int.ofNat
  | _ =>
    let (negative, t) := unsigned s
    (decimal? t).map fun n => if negative then -(n : Int) else n

/-- Whether a text is the exponent of a number. -/
def isExponent (s : List Char) : Bool := (digits? Char.isDigit (unsigned s).2).isSome

/-- Whether a text is a number with a fraction or an exponent, or stands for infinity or no number. -/
def isFraction (s : List Char) : Bool :=
  let t := (unsigned s).2
  let isMantissa (m : List Char) : Bool :=
    match cut '.' m with
    | some (a, b) => (decimal? a).isSome && (digits? Char.isDigit b).isSome
    | none => (decimal? m).isSome
  t == "inf".toList || t == "nan".toList ||
    match t.span fun c => c != 'e' && c != 'E' with
    | (m, []) => m.contains '.' && isMantissa m
    | (m, _ :: e) => isMantissa m && isExponent e

/-- A number of exactly so many digits, and the rest. -/
def fixed? (n : Nat) (s : List Char) : Option (Nat × List Char) :=
  if n ≤ s.length ∧ (s.take n).all Char.isDigit then (natural? (s.take n)).map (·, s.drop n)
  else none

/-- How many days a month has. -/
def daysOf (year month : Nat) : Nat :=
  if month = 2 then
    (if year % 4 = 0 ∧ (year % 100 ≠ 0 ∨ year % 400 = 0) then 29 else 28)
  else if month ∈ [4, 6, 9, 11] then 30
  else 31

/-- What follows a date. -/
def date? (s : List Char) : Option (List Char) :=
  match fixed? 4 s with
  | some (year, '-' :: r) =>
    match fixed? 2 r with
    | some (month, '-' :: r) =>
      match fixed? 2 r with
      | some (day, r) =>
        if 1 ≤ month ∧ month ≤ 12 ∧ 1 ≤ day ∧ day ≤ daysOf year month then some r else none
      | none => none
    | _ => none
  | _ => none

/-- What follows hours and minutes. -/
def hours? (s : List Char) : Option (List Char) :=
  match fixed? 2 s with
  | some (hour, ':' :: r) =>
    match fixed? 2 r with
    | some (minute, r) => if hour < 24 ∧ minute < 60 then some r else none
    | none => none
  | _ => none

/-- What follows a time of day. The seconds may be missing. -/
def time? (s : List Char) : Option (List Char) :=
  match hours? s with
  | some (':' :: r) =>
    match fixed? 2 r with
    | some (second, '.' :: r) =>
      if second ≤ 60 ∧ r.takeWhile Char.isDigit ≠ [] then some (r.dropWhile Char.isDigit) else none
    | some (second, r) => if second ≤ 60 then some r else none
    | none => none
  | r => r

/-- Whether a text is a distance from universal time. -/
def isOffset : List Char → Bool
  | [] => true
  | c :: r =>
    ((c == 'Z' || c == 'z') && r.isEmpty) || ((c == '+' || c == '-') && hours? r == some [])

/-- Whether a text is a date, a time of day or both. -/
def isTime (s : List Char) : Bool :=
  match date? s with
  | some [] => true
  | some (c :: r) =>
    (c == 'T' || c == 't' || c == ' ') &&
      match time? r with
      | some r => isOffset r
      | none => false
  | none => time? s == some []

/-- A character of a value without quotes. -/
def isBareValue (c : Char) : Bool :=
  c.isAlphanum || c == '_' || c == '-' || c == '+' || c == '.' || c == ':'

/-- The text of a value without quotes, and the rest. A blank may separate a date from a time. -/
def bareText (s : List Char) : List Char × List Char :=
  let t := s.takeWhile isBareValue
  match s.dropWhile isBareValue with
  | ' ' :: c :: r =>
    if (date? t == some []) && c.isDigit then
      (t ++ ' ' :: (c :: r).takeWhile isBareValue, (c :: r).dropWhile isBareValue)
    else (t, ' ' :: c :: r)
  | r => (t, r)

/-- A value without quotes. -/
def bare? (s : List Char) : Option (Data × List Char) :=
  let (t, r) := bareText s
  if t = "true".toList then some (.bool true, r)
  else if t = "false".toList then some (.bool false, r)
  else
    match integer? t with
    | some n => some (.ofInteger n, r)
    | none =>
      if isFraction t then some (.fraction, r)
      else if isTime t then some (.time, r)
      else none

end Upkeep.Toml
