import Upkeep.Regex.Class

/-!
# Reading regular expressions

An expression is read from left to right; an opening parenthesis starts a group, which is read in the
same way up to its end.

* `Regex.parse`: the expression of a text, when it is one.
-/

namespace Upkeep.Regex

open Text

/-- Whether a character may stand in the name of a group. -/
def isGroupNameChar (first : Bool) (c : Char) : Bool :=
  c == '_' ||
    (if first then isWord c && ! isDecimalDigit c
     else c == '.' || c == '[' || c == ']' || isWord c)

/-- The name of a group up to its closing angle bracket. -/
def groupName? (s : List Char) : Option (List Char × List Char) :=
  match cut '>' s with
  | none => none
  | some ([], _) => none
  | some (c :: name, rest) =>
    if isGroupNameChar true c && name.all (isGroupNameChar false) then some (c :: name, rest)
    else none

/-- How a parenthesis goes on. -/
inductive Opening where
  /-- A group with flags of its own, and perhaps a name. -/
  | group (f : Flags) (name : Option (List Char))
  /-- No group, but flags for what follows. -/
  | flags (f : Flags)
  deriving Inhabited

/-- Reads how an opening parenthesis goes on. Groups that look ahead or behind are none. -/
def opening? (f : Flags) (s : List Char) : Option (Opening × List Char) :=
  match f.skip s with
  | '?' :: '=' :: _ | '?' :: '!' :: _ | '?' :: '<' :: '=' :: _ | '?' :: '<' :: '!' :: _ => none
  | '?' :: 'P' :: '<' :: r => (groupName? r).map fun (n, r) => (.group f (some n), r)
  | '?' :: '<' :: r => (groupName? r).map fun (n, r) => (.group f (some n), r)
  | '?' :: r =>
    match f.change? [] true r with
    | none => none
    | some (g, unchanged, last, r) =>
      if last = ':' then some (.group g none, r)
      else if unchanged then none
      else some (.flags g, r)
  | r => some (.group f none, r)

/-- The digits at the front of a count, with blanks around them. -/
def count (s : List Char) : List Char × List Char :=
  let s := s.dropWhile isBlank
  (s.takeWhile Char.isDigit, (s.dropWhile Char.isDigit).dropWhile isBlank)

/-- A count below 2^32. -/
def count? (digits : List Char) : Option Nat := (natural? digits).filter (· < 0x100000000)

/-- The counts of a repetition up to its closing brace. -/
def counts? (f : Flags) (s : List Char) : Option (Nat × Option Nat × List Char) :=
  let (first, r) := count (f.skip s)
  match r with
  | ',' :: r =>
    match f.skip r with
    | '\x7d' :: r => (count? first).map (·, none, r)
    | r =>
      match count r with
      | (second, '\x7d' :: r) => do
        let least ← count? first
        let most ← count? second
        if least ≤ most then return (least, some most, r) else none
      | _ => none
  | '\x7d' :: r => (count? first).map fun n => (n, some n, r)
  | _ => none

/-- A repetition operator at the front of a text: the counts, and what follows. Whether the operator
is lazy does not change what matches. -/
def repetition? (f : Flags) : List Char → Option (Option (Nat × Option Nat × List Char))
  | '*' :: r => some (some (0, none, lazyMark r))
  | '+' :: r => some (some (1, none, lazyMark r))
  | '?' :: r => some (some (0, some 1, lazyMark r))
  | '\x7b' :: r => (counts? f r).map fun (n, m, r) => some (n, m, lazyMark (f.skip r))
  | _ => some none
where
  /-- What follows the mark of a lazy operator. -/
  lazyMark : List Char → List Char
    | '?' :: r => r
    | r => r

/-- The expression of a single character. -/
def literal (f : Flags) (c : Char) : Regex := .char (f.fold (.one c))

/-- The expression of an atom. Without Unicode a character beyond ASCII has no number to be given
by. -/
def atom (f : Flags) : Atom → Regex
  | .literal c => literal f c
  | .set s => .char s
  | .anchor a => .anchor a

/-- What has been read of a group: the branches before the last bar, and the items after it, newest
first. A change of flags is an item that cannot be repeated. -/
structure Reading where
  flags : Flags
  branches : List Regex := []
  items : List (Option Regex) := []
  deriving Inhabited

namespace Reading

/-- The branch after the last bar. -/
def branch (g : Reading) : Regex := .seqs (g.items.reverse.filterMap id)

/-- The expression of what has been read. -/
def whole (g : Reading) : Regex := .alts (g.branches ++ [g.branch])

/-- With one more item. -/
def add (g : Reading) (r : Regex) : Reading := { g with items := some r :: g.items }

end Reading

/-- Reads a group from one of its items on; gives its expression, the names of groups up to there,
and the text from the closing parenthesis on. -/
def group? : Nat → List (List Char) → Reading → List Char →
    Option (Regex × List (List Char) × List Char)
  | 0, _, _, _ => none
  | fuel + 1, names, g, s =>
    let f := g.flags
    match f.skip s with
    | [] => some (g.whole, names, [])
    | c :: r =>
      if c = ')' then some (g.whole, names, c :: r)
      else if c = '|' then
        group? fuel names { g with branches := g.branches ++ [g.branch], items := [] } r
      else if c = '(' then
        match opening? f r with
        | none => none
        | some (.flags f, r) => group? fuel names { g with flags := f, items := none :: g.items } r
        | some (.group f name, r) =>
          if name.any (· ∈ names) then none
          else
            match group? fuel (name.toList ++ names) { flags := f } r with
            | some (inner, names, ')' :: r) => group? fuel names (g.add inner) r
            | _ => none
      else if c = '[' then
        match class? f r with
        | none => none
        | some (s, r) => group? fuel names (g.add (.char s)) r
      else if c = '\\' then
        match escaped? f r with
        | none => none
        | some (a, r) => group? fuel names (g.add (atom f a)) r
      else if c = '.' then
        match f.dot? with
        | none => none
        | some s => group? fuel names (g.add (.char s)) r
      else if c = '^' then group? fuel names (g.add (.anchor f.lineStart)) r
      else if c = '$' then group? fuel names (g.add (.anchor f.lineEnd)) r
      else
        match repetition? f (c :: r) with
        | none => none
        | some none => group? fuel names (g.add (literal f c)) r
        | some (some (least, most, r)) =>
          match g.items with
          | some a :: items => group? fuel names { g with items := some (.rep a least most) :: items } r
          | _ => none

/-- The expression of a text, on characters. -/
def parseChars (s : List Char) : Option Regex :=
  match group? (s.length + 1) [] { flags := {} } s with
  | some (r, _, []) => some r
  | _ => none

/-- The expression of a text, when it is one. -/
def parse (s : String) : Option Regex := parseChars s.toList

end Upkeep.Regex
