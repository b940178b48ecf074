import Upkeep.Regex.CharSet

/-!
# Regular expressions

A regular expression and its meaning. A match begins at a position in a text, between what lies
behind it and what lies ahead, and may end at several positions.

* `Regex.ends`: the positions where a match that begins at a position may end.
* `Regex.isMatch`: whether an expression matches anywhere in a text.
-/

namespace Upkeep

/-- A condition on a position, which takes up no character. -/
inductive Anchor where
  | textStart
  | textEnd
  /-- The start of a line; lines end at a line feed, or with `crlf` also at a carriage return. -/
  | lineStart (crlf : Bool)
  | lineEnd (crlf : Bool)
  /-- A boundary between a word and what is none, as `w` tells them apart. -/
  | boundary (w : Regex.CharSet)
  | noBoundary (w : Regex.CharSet)
  | wordStart (w : Regex.CharSet)
  | wordEnd (w : Regex.CharSet)
  /-- No word character behind. -/
  | wordStartHalf (w : Regex.CharSet)
  /-- No word character ahead. -/
  | wordEndHalf (w : Regex.CharSet)
  deriving DecidableEq, Inhabited

/-- A regular expression. -/
inductive Regex where
  | empty
  | char (s : Regex.CharSet)
  | anchor (a : Anchor)
  | seq (a b : Regex)
  | alt (a b : Regex)
  /-- At least `least` matches in a row, and at most `most` if that is given. -/
  | rep (a : Regex) (least : Nat) (most : Option Nat)
  deriving DecidableEq, Inhabited

/-- A position in a text: what lies behind, nearest first, and what lies ahead. -/
structure Position where
  behind : List Char
  ahead : List Char
  deriving DecidableEq, Inhabited

namespace Anchor

/-- Whether the next character, if there is one, is in a set. -/
def nextIn (s : Regex.CharSet) : List Char → Bool
  | [] => false
  | c :: _ => s.mem c.toNat

/-- Whether a position satisfies a condition. -/
def holds (p : Position) : Anchor → Bool
  | textStart => p.behind.isEmpty
  | textEnd => p.ahead.isEmpty
  | lineStart crlf =>
    match p.behind, p.ahead with
    | [], _ => true
    | '\n' :: _, _ => true
    | '\r' :: _, '\n' :: _ => false
    | c :: _, _ => crlf && c == '\r'
  | lineEnd crlf =>
    match p.ahead, p.behind with
    | [], _ => true
    | '\n' :: _, '\r' :: _ => ! crlf
    | '\n' :: _, _ => true
    | c :: _, _ => crlf && c == '\r'
  | boundary w => nextIn w p.behind != nextIn w p.ahead
  | noBoundary w => nextIn w p.behind == nextIn w p.ahead
  | wordStart w => ! nextIn w p.behind && nextIn w p.ahead
  | wordEnd w => nextIn w p.behind && ! nextIn w p.ahead
  | wordStartHalf w => ! nextIn w p.behind
  | wordEndHalf w => ! nextIn w p.ahead

end Anchor

namespace Regex

/-- What can be reached in at most `n` steps, without repetitions. -/
def reach (step : Position → List Position) : Nat → List Position → List Position
  | 0, ps => ps
  | n + 1, ps => reach step n (ps ++ ps.flatMap step).eraseDups

/-- What can be reached in exactly `n` steps, without repetitions. -/
def iterate (step : Position → List Position) : Nat → List Position → List Position
  | 0, ps => ps
  | n + 1, ps => if ps = [] then [] else iterate step n (ps.flatMap step).eraseDups

/-- The positions where a match that begins at `p` may end. -/
def ends : Regex → Position → List Position
  | empty, p => [p]
  | char s, p =>
    match p.ahead with
    | [] => []
    | c :: r => if s.mem c.toNat then [⟨c :: p.behind, r⟩] else []
  | anchor a, p => if a.holds p then [p] else []
  | seq a b, p => ((ends a p).flatMap (ends b)).eraseDups
  | alt a b, p => (ends a p ++ ends b p).eraseDups
  | rep a least most, p =>
    -- a further match is of use only if it takes up a character, so `n` of them reach everything
    let n := p.ahead.length + 1
    reach (ends a) (match most with | some m => min (m - least) n | none => n)
      (iterate (ends a) least [p])

/-- All positions from `p` on. -/
def positions (behind : List Char) : List Char → List Position
  | [] => [⟨behind, []⟩]
  | c :: r => ⟨behind, c :: r⟩ :: positions (c :: behind) r

/-- Whether an expression matches anywhere in a text. -/
def isMatch (r : Regex) (s : String) : Bool :=
  (positions [] s.toList).any fun p => ! (ends r p).isEmpty

/-- An expression that matches several in a row. -/
def seqs : List Regex → Regex
  | [] => empty
  | [a] => a
  | a :: b :: l => seq a (seqs (b :: l))

/-- An expression that matches any of several. -/
def alts : List Regex → Regex
  | [] => empty
  | [a] => a
  | a :: b :: l => alt a (alts (b :: l))

end Regex

end Upkeep
