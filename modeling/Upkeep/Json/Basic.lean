import Std.Data.ExtTreeMap

/-!
# JSON values

A value is kept as it was written: the members of an object in their order, repeated names among
them, and numbers as literals.

* `Json.toMap`: the members of an object by name; of a repeated name the last member counts.
* `Json.member?`: the member of a name.
-/

namespace Upkeep

/-- A JSON value. -/
inductive Json where
  | null
  | bool (b : Bool)
  /-- A number, as it was written. -/
  | number (literal : String)
  | string (s : String)
  | array (items : List Json)
  | object (members : List (String × Json))
  deriving Inhabited

namespace Json

/-- Members by name; of a repeated name the last member counts. -/
def mapOf (members : List (String × Json)) : Std.ExtTreeMap String Json :=
  members.foldl (fun m (name, v) => m.insert name v) ∅

/-- The members of an object by name. -/
def toMap : Json → Option (Std.ExtTreeMap String Json)
  | object members => some (mapOf members)
  | _ => none

/-- The member of a name. -/
def member? (name : String) : Json → Option Json
  | object members => (members.reverse.find? (·.1 = name)).map (·.2)
  | _ => none

/-- The text of a string. -/
def string? : Json → Option String
  | string s => some s
  | _ => none

/-- A number that is written without fraction and exponent. -/
def integer? : Json → Option Int
  | number literal => literal.toInt?
  | _ => none

end Json

end Upkeep
