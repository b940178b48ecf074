import Std.Data.ExtTreeMap
import Upkeep.Problem
import Upkeep.Text.Blank
import Upkeep.Text.Search

/-!
# Dependencies

A dependency is a product and the version it is to have. A set of them is kept by name; an entry
with a blank version counts as not provided.

* `Dependency.parse`: reads `NAME=VERSION`.
* `Dependencies.get?_insert`: the last entry of a name is the one that counts.
* `Dependencies.list`: the provided entries in the order of their names.
-/

namespace Upkeep

open Text

/-- A product and the version it is to have. -/
structure Dependency where
  name : String
  version : String
  deriving DecidableEq, Inhabited

namespace Dependency

/-- Whether a version is given at all. -/
def isProvided (d : Dependency) : Bool := ! d.version.toList.all isBlank

/-- Name and version with a blank between them. -/
def text (d : Dependency) : String := d.name ++ " " ++ d.version

/-- Reads `NAME=VERSION`. The first equals sign separates; blanks around both parts are dropped, and
the name may not be blank. -/
def parse (s : String) : Except Problem Dependency :=
  match cut '=' s.toList with
  | none => .error (.invalidDependency s "expected NAME=VERSION")
  | some (name, version) =>
    if trim name = [] then .error (.invalidDependency s "dependency name is empty")
    else .ok ⟨String.ofList (trim name), String.ofList (trim version)⟩

end Dependency

/-- The versions of products by name. -/
structure Dependencies where
  versions : Std.ExtTreeMap String String

namespace Dependencies

/-- No dependency at all. -/
def empty : Dependencies := ⟨∅⟩

instance : Inhabited Dependencies := ⟨empty⟩

/-- Puts a dependency in the place of any other of its name. -/
def insert (ds : Dependencies) (d : Dependency) : Dependencies :=
  ⟨ds.versions.insert d.name d.version⟩

/-- The set of a list; the last entry of a name counts. -/
def ofList (l : List Dependency) : Dependencies := l.foldl insert empty

/-- The dependency of a name, when its version is provided. -/
def get? (ds : Dependencies) (name : String) : Option Dependency :=
  (ds.versions[name]?.map (Dependency.mk name)).filter Dependency.isProvided

/-- The version provided for a name. -/
def version? (ds : Dependencies) (name : String) : Option String :=
  (ds.get? name).map Dependency.version

/-- The provided dependencies in the order of their names. -/
def list (ds : Dependencies) : List Dependency :=
  (ds.versions.toList.map fun (n, v) => Dependency.mk n v).filter Dependency.isProvided

/-- How many dependencies are provided. -/
def size (ds : Dependencies) : Nat := ds.list.length

theorem get?_empty (name : String) : empty.get? name = none := by
  simp [empty, get?]

theorem get?_insert (ds : Dependencies) (d : Dependency) (name : String) :
    (ds.insert d).get? name =
      if d.name = name then (if d.isProvided then some d else none) else ds.get? name := by
  by_cases h : d.name = name
  · subst h
    simp only [get?, insert, Std.ExtTreeMap.getElem?_insert_self, Option.map_some, if_true]
    cases hv : d.isProvided <;> simp [Option.filter, hv]
  · simp [get?, insert, Std.ExtTreeMap.getElem?_insert, h]

/-- What is provided for a name is its entry, if that has a version. -/
theorem get?_eq_some_iff {ds : Dependencies} {d : Dependency} {name : String} :
    ds.get? name = some d ↔ ds.versions[name]? = some d.version ∧ d.name = name ∧ d.isProvided = true := by
  rw [get?, Option.filter_eq_some_iff, Option.map_eq_some_iff]
  constructor
  · rintro ⟨⟨version, hversion, rfl⟩, hprovided⟩
    exact ⟨hversion, rfl, hprovided⟩
  · rintro ⟨hversion, rfl, hprovided⟩
    exact ⟨⟨d.version, hversion, rfl⟩, hprovided⟩

end Dependencies

end Upkeep
