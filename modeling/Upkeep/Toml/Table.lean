import Upkeep.Data

/-!
# TOML tables under construction

The tables of a TOML text grow line by line, and a table may be defined only once. A node remembers
how it came about, which decides what may still be added to it.

* `Toml.assign?`: gives a dotted key a value.
* `Toml.openTable?`: opens the table of a header.
* `Toml.openItem?`: opens one more table of an array of tables.
* `Toml.within?`: works on the table that was opened last.
-/

namespace Upkeep.Toml

/-- How a table came about. -/
inductive Origin where
  /-- On the way to a header. -/
  | implicit
  /-- On the way of a dotted key. -/
  | dotted
  /-- By its own header. -/
  | header
  deriving DecidableEq, Inhabited

/-- A node of the tables under construction. -/
inductive Node where
  | leaf (d : Data)
  | table (origin : Origin) (members : List (String × Node))
  /-- The tables of an array, the last one first. -/
  | array (last : List (String × Node)) (earlier : List (List (String × Node)))
  deriving Inhabited

/-- The members of a table. -/
abbrev Members := List (String × Node)

/-- The node of a name. -/
def node? (name : String) (ms : Members) : Option Node := (ms.find? (·.1 = name)).map (·.2)

/-- Puts a node in the place of the one of that name, or at the end. -/
def put (name : String) (n : Node) : Members → Members
  | [] => [(name, n)]
  | (m, x) :: r => if m = name then (m, n) :: r else (m, x) :: put name n r

/-- Gives a dotted key a value. Tables that have a header of their own, or were given as values, take
no dotted key, and no key is given a value twice. -/
def assign? : List String → Data → Members → Option Members
  | [], _, _ => none
  | [name], d, ms =>
    match node? name ms with
    | none => some (put name (.leaf d) ms)
    | some _ => none
  | name :: path, d, ms =>
    match node? name ms with
    | none => (assign? path d []).map fun inner => put name (.table .dotted inner) ms
    | some (.table .header _) => none
    | some (.table origin inner) =>
      (assign? path d inner).map fun inner => put name (.table origin inner) ms
    | some (.array last earlier) =>
      (assign? path d last).map fun last => put name (.array last earlier) ms
    | some (.leaf _) => none

/-- Opens the table of a header: one that came about on the way to another header may still get its
own. -/
def openTable? : List String → Members → Option Members
  | [], _ => none
  | [name], ms =>
    match node? name ms with
    | none => some (put name (.table .header []) ms)
    | some (.table .implicit inner) => some (put name (.table .header inner) ms)
    | some _ => none
  | name :: path, ms =>
    match node? name ms with
    | none => (openTable? path []).map fun inner => put name (.table .implicit inner) ms
    | some (.table origin inner) =>
      (openTable? path inner).map fun inner => put name (.table origin inner) ms
    | some (.array last earlier) =>
      (openTable? path last).map fun last => put name (.array last earlier) ms
    | some (.leaf _) => none

/-- Opens one more table of an array of tables. -/
def openItem? : List String → Members → Option Members
  | [], _ => none
  | [name], ms =>
    match node? name ms with
    | none => some (put name (.array [] []) ms)
    | some (.array last earlier) => some (put name (.array [] (last :: earlier)) ms)
    | some _ => none
  | name :: path, ms =>
    match node? name ms with
    | none => (openItem? path []).map fun inner => put name (.table .implicit inner) ms
    | some (.table origin inner) =>
      (openItem? path inner).map fun inner => put name (.table origin inner) ms
    | some (.array last earlier) =>
      (openItem? path last).map fun last => put name (.array last earlier) ms
    | some (.leaf _) => none

/-- Works on the table at a path, through the last tables of arrays. -/
def within? (work : Members → Option Members) : List String → Members → Option Members
  | [], ms => work ms
  | name :: path, ms =>
    match node? name ms with
    | some (.table origin inner) =>
      (within? work path inner).map fun inner => put name (.table origin inner) ms
    | some (.array last earlier) =>
      (within? work path last).map fun last => put name (.array last earlier) ms
    | _ => none

mutual

/-- The value of a node. -/
def Node.data : Node → Data
  | .leaf d => d
  | .table _ members => .table (membersData members)
  | .array last earlier => .list (tablesData earlier [.table (membersData last)])

/-- The values of the members of a table. -/
def membersData : List (String × Node) → List (String × Data)
  | [] => []
  | (name, n) :: r => (name, n.data) :: membersData r

/-- The values of tables, the last one first, in front of further values. -/
def tablesData : List (List (String × Node)) → List Data → List Data
  | [], ds => ds
  | ms :: r, ds => tablesData r (.table (membersData ms) :: ds)

end

end Upkeep.Toml
