import Upkeep.Regex.Escape

/-!
# Classes in brackets

A class lists characters, ranges and other classes; it may be negated, and the operators `&&`, `--`
and `~~` combine what stands on their two sides, from left to right.

* `class?`: reads a class whose opening bracket has been read.
-/

namespace Upkeep.Regex

open Text

/-- The classes of ASCII by name. -/
def namedClasses : List (String × List (Nat × Nat)) :=
  [("alnum", [(0x30, 0x39), (0x41, 0x5a), (0x61, 0x7a)]),
   ("alpha", [(0x41, 0x5a), (0x61, 0x7a)]),
   ("ascii", [(0x00, 0x7f)]),
   ("blank", [(0x09, 0x09), (0x20, 0x20)]),
   ("cntrl", [(0x00, 0x1f), (0x7f, 0x7f)]),
   ("digit", [(0x30, 0x39)]),
   ("graph", [(0x21, 0x7e)]),
   ("lower", [(0x61, 0x7a)]),
   ("print", [(0x20, 0x7e)]),
   ("punct", [(0x21, 0x2f), (0x3a, 0x40), (0x5b, 0x60), (0x7b, 0x7e)]),
   ("space", [(0x09, 0x0d), (0x20, 0x20)]),
   ("upper", [(0x41, 0x5a)]),
   ("word", [(0x30, 0x39), (0x41, 0x5a), (0x5f, 0x5f), (0x61, 0x7a)]),
   ("xdigit", [(0x30, 0x39), (0x41, 0x46), (0x61, 0x66)])]

/-- A named class such as `:alpha:` with its closing bracket, when the text begins with one. -/
def named? (s : List Char) : Option (Bool × CharSet × List Char) :=
  match s with
  | ':' :: r =>
    let (negated, r) := match r with
      | '^' :: r => (true, r)
      | r => (false, r)
    match r.dropWhile (· ≠ ':') with
    | ':' :: ']' :: rest =>
      (namedClasses.find? (·.1.toList = r.takeWhile (· ≠ ':'))).map fun (_, ranges) =>
        (negated, CharSet.ranges ranges, rest)
    | _ => none
  | _ => none

/-- An operator between two sides of a class. -/
inductive SetOp where
  | inter
  | diff
  | symmDiff
  deriving DecidableEq, Inhabited

/-- What an operator makes of two sets. -/
def SetOp.apply : SetOp → CharSet → CharSet → CharSet
  | inter => .inter
  | diff => .diff
  | symmDiff => .symmDiff

/-- The operator at the front of a text. -/
def setOp? : List Char → Option (SetOp × List Char)
  | '&' :: '&' :: r => some (.inter, r)
  | '-' :: '-' :: r => some (.diff, r)
  | '~' :: '~' :: r => some (.symmDiff, r)
  | _ => none

/-- What has been read of a class: the side before the last operator with that operator, and the
items after it. -/
structure Sides where
  left : Option (CharSet × SetOp) := none
  items : List CharSet := []
  deriving Inhabited

/-- The set of what has been read. -/
def Sides.set (f : Flags) (s : Sides) : CharSet :=
  let right := f.fold (.unions s.items)
  match s.left with
  | none => right
  | some (left, op) => op.apply (f.fold left) right

/-- What has been read, with one more item. -/
def Sides.add (s : Sides) (item : CharSet) : Sides := { s with items := s.items ++ [item] }

/-- One character or class of a class. -/
def classAtom? (f : Flags) : List Char → Option (Atom × List Char)
  | [] => none
  | '\\' :: r => escaped? f r
  | c :: r => some (.literal c, r)

/-- The set of an item; an anchor is none, and without Unicode only ASCII characters are items. -/
def itemSet? (f : Flags) : Atom → Option CharSet
  | .literal c => if f.unicode || c.toNat < 128 then some (.one c) else none
  | .set s => some s
  | .anchor _ => none

/-- One item of a class, which may be a range. A hyphen in front of the closing bracket or of another
hyphen makes no range. -/
def classItem? (f : Flags) (s : List Char) : Option (CharSet × List Char) :=
  match classAtom? f s with
  | none => none
  | some (a, r) =>
    match f.skip r with
    | [] => none
    | '-' :: r' =>
      match f.skip r' with
      | [] => none
      | c :: r'' =>
        -- the hyphen is an item of its own, or begins the operator `--`
        if c = ']' ∨ c = '-' then (itemSet? f a).map (·, '-' :: r')
        else
          match a, classAtom? f (c :: r'') with
          | .literal lo, some (.literal hi, rest) =>
            if lo.toNat ≤ hi.toNat ∧ (f.unicode ∨ hi.toNat < 128) then
              some (.range lo.toNat hi.toNat, rest)
            else none
          | _, _ => none
    | r => (itemSet? f a).map (·, r)

/-- The hyphens at the start of a class, which stand for themselves. -/
def hyphens (f : Flags) : Nat → Sides → List Char → Sides × List Char
  | fuel + 1, sides, '-' :: r => hyphens f fuel (sides.add (.one '-')) (f.skip r)
  | _, sides, s => (sides, s)

/-- The start of a class: whether it is negated, and the hyphens and the bracket that stand for
themselves there. -/
def classStart (f : Flags) (s : List Char) : Bool × Sides × List Char :=
  let s := f.skip s
  let (negated, s) := match s with
    | '^' :: r => (true, f.skip r)
    | s => (false, s)
  let (sides, s) := hyphens f s.length {} s
  match sides.items, s with
  | [], ']' :: r => (negated, sides.add (.one ']'), f.skip r)
  | _, s => (negated, sides, s)

/-- The rest of a class up to its closing bracket. -/
def classRest? (f : Flags) : Nat → Sides → List Char → Option (CharSet × List Char)
  | 0, _, _ => none
  | fuel + 1, sides, s =>
    match f.skip s with
    | [] => none
    | ']' :: r => some (f.fold (sides.set f), r)
    | '[' :: r =>
      match named? r with
      | some (negated, set, rest) =>
        match f.complement? negated (f.fold set) with
        | none => none
        | some set => classRest? f fuel (sides.add set) rest
      | none =>
        let (negated, inner, s) := classStart f r
        match classRest? f fuel inner s with
        | none => none
        | some (set, rest) =>
          match f.complement? negated set with
          | none => none
          | some set => classRest? f fuel (sides.add set) rest
    | s =>
      match setOp? s with
      | some (op, r) => classRest? f fuel ⟨some (sides.set f, op), []⟩ r
      | none =>
        match classItem? f s with
        | none => none
        | some (item, r) => classRest? f fuel (sides.add item) r

/-- A class whose opening bracket has been read. -/
def class? (f : Flags) (s : List Char) : Option (CharSet × List Char) :=
  let (negated, sides, r) := classStart f s
  match classRest? f (s.length + 1) sides r with
  | none => none
  | some (set, rest) => (f.complement? negated set).map (·, rest)

end Upkeep.Regex
