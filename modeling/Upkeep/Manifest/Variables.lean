import Std.Data.ExtTreeMap
import Upkeep.Json.Basic
import Upkeep.Manifest.Reference
import Upkeep.Problem

/-!
# Variables

The variables of a manifest, by name. A value may refer to other variables; it is resolved on
demand, depth first and from left to right, and what a reference brings in is not scanned again.

* `Variables.value`: the resolved value of a variable.
* `Variables.resolve`: a text with its references resolved.
* `Variables.ofJson`: the variables of a manifest that was read as JSON.
* `Variables.unvisited_lt`: the measure by which resolution ends, the names not yet on the path.
-/

namespace Upkeep

open Text

/-- The raw values of the variables, by name. -/
abbrev Variables := Std.ExtTreeMap String String

namespace Variables

/-- The names that are defined and not on a path. -/
def unvisited (vars : Variables) (path : List String) : Nat :=
  (vars.keys.filter (· ∉ path)).length

theorem unvisited_lt {vars : Variables} {path : List String} {name raw : String}
    (hp : name ∉ path) (h : vars[name]? = some raw) :
    vars.unvisited (name :: path) < vars.unvisited path := by
  have hk : name ∈ vars.keys := by
    rw [Std.ExtTreeMap.mem_keys]
    exact Std.ExtTreeMap.mem_iff_isSome_getElem?.2 (by simp [h])
  unfold unvisited
  have hsub : (vars.keys.filter (· ∉ name :: path)) =
      (vars.keys.filter (· ∉ path)).filter (· ≠ name) := by
    rw [List.filter_filter]
    congr 1
    funext x
    simp [List.mem_cons, not_or]
  rw [hsub]
  refine List.length_filter_lt_length_iff_exists.2 ⟨name, ?_, by simp⟩
  simp [hk, hp]

/-- The names from the first visit of `name` on, along a path that is kept newest first, and then
`name` again. -/
def cycle (path : List String) (name : String) : List String :=
  name :: (path.takeWhile (· ≠ name)).reverse ++ [name]

mutual

/-- The resolved value of a variable that is reached along a path. -/
def follow (vars : Variables) (path : List String) (name : String) : Except Problem (List Char) :=
  if hp : name ∈ path then .error (.circularReference (cycle path name))
  else
    match h : vars[name]? with
    | none => .error (.missingVariable name)
    | some raw =>
      have := unvisited_lt hp h
      expand vars (name :: path) (Piece.ofText raw.toList)
termination_by (vars.unvisited path, 0)

/-- Pieces with their references resolved, the leftmost first. -/
def expand (vars : Variables) (path : List String) : List Piece → Except Problem (List Char)
  | [] => .ok []
  | .plain c :: ps => (expand vars path ps).map (c :: ·)
  | .reference name :: ps =>
    match follow vars path name with
    | .error e => .error e
    | .ok v => (expand vars path ps).map (v ++ ·)
termination_by ps => (vars.unvisited path, ps.length)

end

/-- The value of a variable with all references resolved. -/
def value (vars : Variables) (name : String) : Except Problem String :=
  (follow vars [] name).map String.ofList

/-- The value of a variable with all references resolved, or nothing when it has none. -/
def valueOrEmpty (vars : Variables) (name : String) : String :=
  (vars.value name).toOption.getD ""

/-- A text with all its references resolved. -/
def resolve (vars : Variables) (text : String) : Except Problem String :=
  (expand vars [] (Piece.ofText text.toList)).map String.ofList

/-- The section of a manifest that holds the variables. -/
def sectionName : String := "variables"

/-- The variables of a list; of a repeated name the last value counts. -/
def ofList (pairs : List (String × String)) : Variables :=
  pairs.foldl (fun vars (name, v) => vars.insert name v) ∅

/-- The values of an object, in the order of the names; `source` names the manifest. -/
def ofMembers (source : String) : List (String × Json) → Except Problem (List (String × String))
  | [] => .ok []
  | (name, v) :: rest =>
    match v.string? with
    | none => .error (.unreadableManifest source ("variable '" ++ name ++ "' is not a string"))
    | some s => (ofMembers source rest).map ((name, s) :: ·)

/-- The variables of a manifest that was read as JSON; `source` names the manifest. -/
def ofJson (source : String) (document : Json) : Except Problem Variables :=
  match (document.member? sectionName).bind Json.toMap with
  | none => .error (.missingSection sectionName)
  | some members => (ofMembers source members.toList).map ofList

end Variables

end Upkeep
