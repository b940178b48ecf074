import Upkeep.Regex.Flags
import Upkeep.Text.Search

/-!
# Escapes in regular expressions

A backslash makes an operator an ordinary character, and names characters, classes and anchors.

* `Regex.escape`: writes a text so that it stands for itself.
* `escaped?`: reads what follows a backslash.
-/

namespace Upkeep.Regex

open Text

/-- The characters with a meaning of their own. -/
def operators : List Char :=
  ['\\', '.', '+', '*', '?', '(', ')', '|', '[', ']', '\x7b', '\x7d', '^', '$', '#', '&', '-', '~']

/-- A character, written so that it stands for itself. -/
def escapeChar (c : Char) : List Char := if c ∈ operators then ['\\', c] else [c]

/-- A text, written so that it stands for itself. -/
def escape (s : List Char) : List Char := s.flatMap escapeChar

/-- A single part of an expression. -/
inductive Atom where
  | literal (c : Char)
  | set (s : CharSet)
  | anchor (a : Anchor)
  deriving DecidableEq, Inhabited

/-- The character of a number in hexadecimal digits. -/
def charOf? (digits : List Char) : Option Char := do
  let ds ← digits.mapM hexValue?
  let n := ds.foldl (16 * · + ·) 0
  if ds ≠ [] ∧ n.isValidChar then some (Char.ofNat n) else none

/-- A character by its number: so many digits, or any number of them between braces. -/
def hexadecimal? (f : Flags) (n : Nat) (s : List Char) : Option (Char × List Char) :=
  match f.skip s with
  | '{' :: r =>
    match r.dropWhile (· ≠ '\x7d') with
    | _ :: rest => do
      let c ← charOf? ((r.takeWhile (· ≠ '\x7d')).filter fun c => ! (f.spaced && isBlank c))
      return (c, f.skip rest)
    | [] => none
  | r => do
    if r.length < n then none
    let c ← charOf? (r.take n)
    return (c, f.skip (r.drop n))

/-- The special word boundaries by name. -/
def boundaryOf? (w : CharSet) (name : List Char) : Option Anchor :=
  if name = "start".toList then some (.wordStart w)
  else if name = "end".toList then some (.wordEnd w)
  else if name = "start-half".toList then some (.wordStartHalf w)
  else if name = "end-half".toList then some (.wordEndHalf w)
  else none

/-- A word boundary, which a name in braces may make special. A brace that begins no name begins a
repetition. -/
def boundary? (f : Flags) (s : List Char) : Option (Anchor × List Char) :=
  let isNameChar (c : Char) : Bool := c.isAlpha || c == '-'
  match s with
  | '{' :: r =>
    match f.skip r with
    | [] => none
    | c :: r =>
      if isNameChar c then
        match (c :: r).dropWhile isNameChar with
        | '\x7d' :: rest => (boundaryOf? f.wordChars ((c :: r).takeWhile isNameChar)).map (·, rest)
        | _ => none
      else some (.boundary f.wordChars, s)
  | _ => some (.boundary f.wordChars, s)

/-- A set or its complement, and the rest. -/
def setAtom? (f : Flags) (negated : Bool) (s : CharSet) (r : List Char) :
    Option (Atom × List Char) :=
  (f.complement? negated s).map fun s => (.set s, r)

/-- What a backslash and the text after it stand for. -/
def escaped? (f : Flags) : List Char → Option (Atom × List Char)
  | [] => none
  | c :: r =>
    if c ∈ operators then some (.literal c, r)
    else if c = 'd' ∨ c = 'D' then setAtom? f (c = 'D') f.digits r
    else if c = 's' ∨ c = 'S' then setAtom? f (c = 'S') f.blanks r
    else if c = 'w' ∨ c = 'W' then setAtom? f (c = 'W') f.wordChars r
    else if c = 'x' then (hexadecimal? f 2 r).map fun (c, r) => (.literal c, r)
    else if c = 'u' then (hexadecimal? f 4 r).map fun (c, r) => (.literal c, r)
    else if c = 'U' then (hexadecimal? f 8 r).map fun (c, r) => (.literal c, r)
    else if c = 'a' then some (.literal '\x07', r)
    else if c = 'f' then some (.literal '\x0c', r)
    else if c = 't' then some (.literal '\t', r)
    else if c = 'n' then some (.literal '\n', r)
    else if c = 'r' then some (.literal '\r', r)
    else if c = 'v' then some (.literal '\x0b', r)
    else if c = 'A' then some (.anchor .textStart, r)
    else if c = 'z' then some (.anchor .textEnd, r)
    else if c = 'b' then (boundary? f r).map fun (a, r) => (.anchor a, r)
    else if c = 'B' then some (.anchor (.noBoundary f.wordChars), r)
    else if c = '<' then some (.anchor (.wordStart f.wordChars), r)
    else if c = '>' then some (.anchor (.wordEnd f.wordChars), r)
    else if c.isAlphanum then none
    else if c.toNat < 128 then some (.literal c, r)
    else none

end Upkeep.Regex
