import Upkeep.Manifest
import Upkeep.Update.Report

/-!
# Runs

A run takes the tracked variables of a manifest one after the other, in the order of the stages. Each
sees the changes of those before it. A change is made in the manifest and, unless the run is a trial,
the manifest is written to its file at once.

* `dockerfileVersion`: the Dockerfile version that a run is for.
* `Progress.step`: one variable.
* `run`: a whole run; the manifest keeps its changes also when the run fails midway.
-/

namespace Upkeep.Update

/-- The products whose version tells the Dockerfile version, in the order of preference. -/
def leadingProducts : List String := ["runtime", "aspnet", "sdk"]

/-- The dependency whose version tells the Dockerfile version: that of a leading product, or else the
first one. -/
def leadingDependency? (ds : Dependencies) : Option Dependency :=
  (leadingProducts.findSome? ds.get?).or ds.list.head?

/-- The Dockerfile version that a run is for. -/
def dockerfileVersion (s : Settings) (ds : Dependencies) : Except Problem String :=
  match s.dockerfileVersion with
  | some v => .ok v
  | none =>
    match leadingDependency? ds with
    | some d => Version.dockerfile d.version
    | none => .error (.settings "no dependency versions to derive the Dockerfile version from")

/-- What a run is given, and what it holds on to. -/
structure Plan where
  settings : Settings
  dependencies : Dependencies
  dockerfileVersion : String
  /-- The variables at the start of the run. -/
  baseline : Variables
  /-- Whether the file is left as it is. -/
  isTrial : Bool

/-- How far a run has come. -/
structure Progress where
  manifest : Manifest
  changes : List Change := []
  notes : List Note := []

/-- Writes a manifest to its file, if it has one. -/
def save (m : Manifest) : Job (Except Failure Unit) :=
  match m.path with
  | none => return .ok ()
  | some path => do
    return (← askSave path m.text).mapError (.during ("Failed to save manifest: " ++ path))

namespace Progress

/-- What the next variable sees. -/
def context (plan : Plan) (p : Progress) : Context :=
  ⟨plan.settings, plan.dependencies, plan.dockerfileVersion, p.manifest.vars, plan.baseline⟩

/-- Makes a change, and writes the manifest unless the run is a trial. -/
def apply (plan : Plan) (p : Progress) (proposal : Proposal) :
    Job (Progress × Except Failure Unit) :=
  match p.manifest.update proposal.variableName proposal.desired with
  | .error e => return (p, .error (.of e))
  | .ok none => return (p, .ok ())
  | .ok (some m) =>
    let changed := { p with manifest := m, changes := p.changes ++ [proposal.change] }
    if plan.isTrial then return (changed, .ok ())
    else do return (changed, ← save m)

/-- Works on one variable. -/
def step (plan : Plan) (p : Progress) (u : Updater) : Job (Progress × Except Failure Unit) := do
  let (notes, proposal) ← u.propose (p.context plan)
  let p := { p with notes := p.notes ++ notes }
  match proposal with
  | .error e => return (p, .error e)
  | .ok proposal => if proposal.alters then p.apply plan proposal else return (p, .ok ())

/-- Works on variables one after the other; a failure ends the run. -/
def steps (plan : Plan) : List Updater → Progress → Job (Progress × Except Failure Unit)
  | [], p => return (p, .ok ())
  | u :: us, p => do
    match ← p.step plan u with
    | (p, .ok ()) => steps plan us p
    | (p, .error e) => return (p, .error e)

/-- What a run reports in the end. -/
def report (p : Progress) : Report := ⟨p.changes, Note.errors p.notes, Note.warnings p.notes⟩

end Progress

/-- A run over a manifest: the manifest with its changes, and the report or the failure. -/
def run (s : Settings) (ds : Dependencies) (isTrial : Bool) (m : Manifest) :
    Job (Manifest × Except Failure Report) :=
  match dockerfileVersion s ds with
  | .error e => return (m, .error (.of e))
  | .ok v => do
    let plan : Plan := ⟨s, ds, v, m.vars, isTrial⟩
    let (p, outcome) ← Progress.steps plan (updaters s v m.vars) ⟨m, [], []⟩
    return (p.manifest, outcome.map fun _ => p.report)

end Upkeep.Update
