import Upkeep.Text.Search

/-!
# Paths

A path is a text with slashes. Doubled slashes, slashes at the end and single dots do not matter,
except for a dot at the front of a relative path.

* `Path.parent?`: the path of the directory that holds the last name.
* `Path.temporary`: the path next to another one to which content is written first.
-/

namespace Upkeep.Path

open Text

/-- The texts between the slashes. -/
def segments (p : String) : List String := (fields '/' p.toList).map String.ofList

/-- The path of segments. -/
def ofSegments (l : List String) : String := String.ofList (join ['/'] (l.map String.toList))

/-- Whether a segment names nothing. -/
def isVoid (s : String) : Bool := s == "" || s == "."

/-- Segments without those at the end that name nothing; the first one stays. -/
def trimmed : List String → List String
  | [] => []
  | first :: rest => first :: (rest.reverse.dropWhile isVoid).reverse

/-- A path that begins at the root. -/
def isAbsolute (p : String) : Bool := p.toList.head? == some '/'

/-- The path of the directory that holds the last name; the root and the empty path have none. -/
def parent? (p : String) : Option String :=
  match trimmed (segments p) with
  | [] => none
  | [first] => if first = "" then none else some ""
  | l =>
    match trimmed l.dropLast with
    -- the only segment before the last name is the void one in front of the first slash
    | [""] => some "/"
    | l => some (ofSegments l)

/-- A path, the path of its directory, and so on. -/
def ancestors : Nat → String → List String
  | 0, _ => []
  | n + 1, p =>
    p :: match parent? p with
      | none => []
      | some q => ancestors n q

/-- The last name of a path, when it ends with one. -/
def fileName? (p : String) : Option String :=
  match trimmed (segments p) with
  | [] => none
  | [first] => if isVoid first ∨ first = ".." then none else some first
  | l => l.getLast?.filter (· ≠ "..")

/-- A name without its extension. A dot at the front begins no extension. -/
def stem (name : String) : String :=
  let before := (name.toList.reverse.dropWhile (· ≠ '.')).drop 1
  if before = [] then name else String.ofList before.reverse

/-- The path next to another one to which content is written first: it has the extension `tmp`. A
path without a last name stays as it is. -/
def temporary (p : String) : String :=
  match fileName? p with
  | none => p
  | some name => ofSegments ((trimmed (segments p)).dropLast ++ [stem name ++ ".tmp"])

end Upkeep.Path
