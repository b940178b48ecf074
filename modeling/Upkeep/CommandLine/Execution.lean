import Upkeep.CommandLine.Invocation
import Upkeep.Surroundings

/-!
# Doing what the command line says

The settings are read, the options of the command line are laid over them, and the command is done.
What there is to tell goes to one of two channels; a failure is explained at the end.

* `Invocation.execute`: an invocation, done in the surroundings.
* `Outcome.exitCode`: how the program ends.
-/

namespace Upkeep.CommandLine

open Surroundings

/-- Where a program is called: what the environment says. -/
structure Place where
  /-- The file of the settings, when the environment names one. -/
  configVariable : Option String
  home : Option String
  deriving DecidableEq, Inhabited

/-- A name in a directory. -/
def within (directory name : String) : String :=
  if directory.toList.getLast? = some '/' then directory ++ name else directory ++ "/" ++ name

/-- The file of the settings when the command line names none. -/
def Place.settingsPath? (p : Place) : Option String :=
  match p.configVariable.filter (· ≠ "") with
  | some path => some path
  | none => p.home.map fun home => within (within home ".update-deps") "config.toml"

/-- What is told in the end. -/
structure Outcome where
  /-- The lines of the result. -/
  result : List String := []
  /-- The lines of warnings and errors. -/
  notes : List String := []
  failure : Option Failure := none
  deriving Inhabited

namespace Outcome

/-- The explanation of the failure. -/
def explanation? (o : Outcome) : Option Explanation := o.failure.map Failure.explain

/-- How the program ends. -/
def exitCode (o : Outcome) : Nat := if o.failure.isSome then 1 else 0

/-- The lines of warnings and errors, with the explanation of the failure. -/
def allNotes (o : Outcome) : List String := o.notes ++ (o.explanation?.map (·.lines)).getD []

/-- A failure with nothing else to tell. -/
def failed (f : Failure) : Outcome := ⟨[], [], some f⟩

/-- The failure of work that was done but for some part of it. -/
def incomplete (count : Nat) : Option Failure :=
  if count = 0 then none else some (.of (.runFailed count))

end Outcome

namespace UpdateOptions

/-- The settings with what the command line says laid over them. -/
def settings (o : UpdateOptions) (s : Settings) : Settings :=
  { s with
    dockerfileVersion := o.dockerfileVersion.or s.dockerfileVersion
    checksumsFile := o.checksumsFile.or s.checksumsFile
    baseUrl := o.baseUrl.or s.baseUrl
    internalBaseUrl := o.internalBaseUrl.or s.internalBaseUrl
    branch := o.branch.getD s.branch
    releaseState := s.releaseState || o.releaseState
    isInternal := s.isInternal || o.isInternal
    computeShas := s.computeShas && ! o.noHashing }

/-- What is told of a run, line by line. -/
def reportLines (o : UpdateOptions) (r : Update.Report) : List String :=
  if r.madeChanges then
    [(if o.isTrial then "Would update " else "Updated ") ++ toString r.changes.length
        ++ " variable(s) in " ++ o.manifest]
      ++ r.changes.map (fun c => "  " ++ c.variableName ++ " " ++ c.oldValue ++ " -> " ++ c.newValue)
      ++ ["", r.commitMessage]
  else ["No updates required"]

/-- What is told of a run in the end. -/
def outcome (o : UpdateOptions) (r : Update.Report) : Outcome :=
  { result := if o.asJson then [r.json.pretty] else o.reportLines r
    notes :=
      if o.asJson then []
      else r.warnings.map ("warning: " ++ ·) ++ r.errors.map ("error: " ++ ·)
    failure := Outcome.incomplete r.errors.length }

/-- Updates a manifest. -/
def execute (o : UpdateOptions) (s : Settings) : Work Outcome := do
  match ← loadManifest o.manifest with
  | .error f => return .failed f
  | .ok m =>
    let engine : Engine := ⟨o.settings s, {}⟩
    let ((_, report), _) ← atWork (engine.run (.ofList o.dependencies) o.isTrial m)
    match report with
    | .error f => return .failed f
    | .ok r => return o.outcome r

end UpdateOptions

namespace ChecksumOptions

/-- The settings with what the command line says laid over them. -/
def settings (o : ChecksumOptions) (s : Settings) : Settings :=
  { s with
    checksumsFile := o.checksumsFile.or s.checksumsFile
    computeShas := s.computeShas && ! o.noHashing }

/-- The requests for the digests. -/
def requests (o : ChecksumOptions) (s : Settings) : List Checksum.Request :=
  o.urls.map fun url =>
    { url, product := o.product, buildVersion := o.buildVersion, baseUrl := some s.fallbackBaseUrl }

/-- What is told of digests in the end. -/
def outcome (found : List (String × Option String)) : Outcome :=
  let missing := found.filter fun (_, digest) => digest.isNone
  { result := found.filterMap fun (url, digest) => digest.map fun d => d ++ "  " ++ url
    notes := missing.map fun (url, _) => "error: no checksum found for " ++ url
    failure := Outcome.incomplete missing.length }

/-- Finds digests. -/
def execute (o : ChecksumOptions) (s : Settings) : Work Outcome := do
  let s := o.settings s
  let (found, _) ← atWork (Engine.ofDigests
    (Once.alone (Checksum.resolveAll (Engine.service s) (o.requests s)) .empty))
  match found with
  | .error f => return .failed f
  | .ok found => return outcome found

end ChecksumOptions

/-- Does an invocation. -/
def Invocation.execute (i : Invocation) (p : Place) : Work Outcome := do
  match ← loadSettings (i.config.or p.settingsPath?) with
  | .error f => return .failed f
  | .ok s =>
    match i.command with
    | .update o => o.execute s
    | .checksum o => o.execute s

end Upkeep.CommandLine
