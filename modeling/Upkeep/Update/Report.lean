import Upkeep.Json.Printer
import Upkeep.Update.Updater

/-!
# Reports

What a run changed, and what it could not do.

* `Report.dependencies`: the dependencies behind the changes.
* `Report.commitMessage`: the changes as the message of a commit.
* `Report.json`: the report as a JSON value.
-/

namespace Upkeep.Update

/-- A variable that got another value. -/
structure Change where
  variableName : String
  oldValue : String
  newValue : String
  dependencies : List Dependency
  deriving DecidableEq, Inhabited

/-- The change that a proposal makes. -/
def Proposal.change (p : Proposal) : Change := ⟨p.variableName, p.current, p.desired, p.used⟩

/-- What a run changed, and what it recorded. -/
structure Report where
  changes : List Change := []
  errors : List String := []
  warnings : List String := []
  deriving DecidableEq, Inhabited

/-- Whether a dependency comes before another or is the same: by name, and then by version. -/
def beforeOrSame (a b : Dependency) : Bool :=
  a.name < b.name || (a.name == b.name && a.version ≤ b.version)

namespace Report

/-- Whether anything changed. -/
def madeChanges (r : Report) : Bool := ! r.changes.isEmpty

/-- Whether there were errors. -/
def metErrors (r : Report) : Bool := ! r.errors.isEmpty

/-- The dependencies behind the changes, each once, by name and version. -/
def dependencies (r : Report) : List Dependency :=
  ((r.changes.flatMap (·.dependencies)).mergeSort beforeOrSame).eraseDups

/-- What the changes are about, on one line. -/
def subject (r : Report) : String :=
  match r.dependencies with
  | [] => "Update manifest variables"
  | ds => "Update " ++ ", ".intercalate (ds.map fun d => d.name ++ " to " ++ d.version)

/-- A change as an item of a list. -/
def item (c : Change) : String :=
  "\n- " ++ c.variableName ++ ": " ++ c.oldValue ++ " -> " ++ c.newValue

/-- The changes as the message of a commit. -/
def commitMessage (r : Report) : String :=
  r.subject ++ (if r.madeChanges then "\n" else "") ++ String.join (r.changes.map item)

/-- A dependency as a JSON value. -/
def dependencyJson (d : Dependency) : Json :=
  .object [("name", .string d.name), ("version", .string d.version)]

/-- A change as a JSON value. -/
def changeJson (c : Change) : Json :=
  .object [("variable_name", .string c.variableName), ("old_value", .string c.oldValue),
    ("new_value", .string c.newValue),
    ("dependencies", .array (c.dependencies.map dependencyJson))]

/-- The report as a JSON value. -/
def json (r : Report) : Json :=
  .object [("updates", .array (r.changes.map changeJson)),
    ("errors", .array (r.errors.map .string)),
    ("warnings", .array (r.warnings.map .string))]

end Report

end Upkeep.Update
