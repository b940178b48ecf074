import Upkeep.Json.Parser
import Upkeep.Json.Printer
import Upkeep.Manifest.Patch
import Upkeep.Manifest.Variables

/-!
# Manifests

A manifest is a JSON text together with the variables read from it. An update changes the text and
then records the value, so that the two stay in step.

* `Manifest.parse`: reads a manifest.
* `Manifest.update`: gives a variable a value, in the text and among the variables.
* `Manifest.render`: the usual text of a manifest that holds given variables.
-/

namespace Upkeep

/-- A manifest: its text and its variables, and the file that it came from. -/
structure Manifest where
  path : Option String
  text : String
  vars : Variables

namespace Manifest

/-- What a manifest is called when it came from no file. -/
def unnamed : String := "<memory>"

/-- Reads a manifest that came from a file, or from none. -/
def ofText (path : Option String) (text : String) : Except Problem Manifest :=
  let source := path.getD unnamed
  match Json.read text with
  | .error reason => .error (.unreadableManifest source reason)
  | .ok document => (Variables.ofJson source document).map (⟨path, text, ·⟩)

/-- Reads a manifest that came from no file. -/
def parse (text : String) : Except Problem Manifest := ofText none text

/-- Gives a variable a value; none when the text holds the value already. -/
def update (m : Manifest) (name value : String) : Except Problem (Option Manifest) :=
  if name ∈ m.vars then
    (Patch.apply name m.text value).map fun text =>
      text.map fun text => { m with text, vars := m.vars.insert name value }
  else .error (.missingVariable name)

/-- The manifest of given variables as a JSON value. -/
def document (vars : Variables) : Json :=
  .object [(Variables.sectionName,
    .object (vars.toList.map fun (name, value) => (name, .string value)))]

/-- The usual text of a manifest that holds given variables. -/
def render (vars : Variables) : String := (document vars).pretty ++ "\n"

end Manifest

end Upkeep
