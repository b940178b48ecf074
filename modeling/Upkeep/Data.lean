import Std.Data.ExtTreeMap
import Upkeep.Json.Basic

/-!
# Data trees

What JSON and TOML texts have in common: a tree of plain values, from which settings and releases are
read. A record is written as a table of its fields by name, or as a list of them in their order.

* `Data.record`: the fields of a record.
* `Data.ofJson`: the tree of a JSON value.
-/

namespace Upkeep

/-- A tree of plain values. -/
inductive Data where
  | null
  | bool (b : Bool)
  | integer (n : Int)
  /-- A number that is no integer in the range of 64 bits. -/
  | fraction
  | text (s : String)
  | list (items : List Data)
  | table (members : List (String × Data))
  /-- A date or a time of day. -/
  | time
  deriving Inhabited

namespace Data

/-- The text of a node. -/
def text? : Data → Option String
  | text s => some s
  | _ => none

/-- The truth value of a node. -/
def bool? : Data → Option Bool
  | bool b => some b
  | _ => none

/-- The number of a node, which is not negative. -/
def natural? : Data → Option Nat
  | integer n => if 0 ≤ n then some n.toNat else none
  | _ => none

/-- A node that may be null. -/
def optional {α : Type} (read : Data → Option α) : Data → Option (Option α)
  | null => some none
  | d => (read d).map some

/-- The items of a list. -/
def listOf? {α : Type} (read : Data → Option α) : Data → Option (List α)
  | list items => items.mapM read
  | _ => none

/-- The members of a table by name; of a repeated name the last member counts. -/
def mapOf? {α : Type} (read : Data → Option α) : Data → Option (Std.ExtTreeMap String α)
  | table members =>
    (members.mapM fun (m : String × Data) => (read m.2).map (m.1, ·)).map
      fun (l : List (String × α)) => l.foldl (fun map (name, v) => map.insert name v) ∅
  | _ => none

/-- The values of the fields of a record. -/
structure Fields where
  value? : String → Option Data

/-- Whether a table has a field more than once. -/
def repeats (names : List String) (members : List (String × Data)) : Bool :=
  names.any fun name => 1 < (members.filter (·.1 = name)).length

/-- The fields of a record by their names: a table without repetition among them, whose other members
do not matter, or a list that has no further item. -/
def record (names : List String) : Data → Option Fields
  | table members =>
    if repeats names members then none
    else some ⟨fun name => (members.find? (·.1 = name)).map (·.2)⟩
  | list items =>
    if names.length < items.length then none
    else some ⟨fun name => ((names.zip items).find? (·.1 = name)).map (·.2)⟩
  | _ => none

namespace Fields

/-- A field that must be there. -/
def required {α : Type} (f : Fields) (name : String) (read : Data → Option α) : Option α :=
  (f.value? name).bind read

/-- A field that has a default. -/
def orElse {α : Type} (f : Fields) (name : String) (read : Data → Option α) (default : α) :
    Option α :=
  match f.value? name with
  | none => some default
  | some d => read d

end Fields

/-- An integer in the range of 64 bits, with a sign or without. -/
def ofInteger (n : Int) : Data :=
  if -0x8000000000000000 ≤ n ∧ n < 0x10000000000000000 then integer n else fraction

mutual

/-- The tree of a JSON value. -/
def ofJson : Json → Data
  | .null => null
  | .bool b => bool b
  | .number literal =>
    if literal = "-0" then fraction
    else match literal.toInt? with
      | some n => ofInteger n
      | none => fraction
  | .string s => text s
  | .array items => list (ofItems items)
  | .object members => table (ofMembers members)

/-- The trees of the items of an array. -/
def ofItems : List Json → List Data
  | [] => []
  | j :: js => ofJson j :: ofItems js

/-- The trees of the members of an object. -/
def ofMembers : List (String × Json) → List (String × Data)
  | [] => []
  | (name, j) :: js => (name, ofJson j) :: ofMembers js

end

end Data

end Upkeep
