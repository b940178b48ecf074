import Upkeep.Update.Resolver

/-!
# Updaters

Each variable that is tracked has an updater: the stage of the run in which it is worked on, and the
rule for its value. The names of the variables tell which are tracked.

* `updaterFor?`: the updater of a variable.
* `updaters`: the updaters of all variables, in the order in which they run.
* `Updater.propose`: the value that a variable is to get.
-/

namespace Upkeep.Update

/-- The stages of a run, in their order. Digests come after what the URLs are built from. -/
inductive Stage where
  | buildVersion
  | productVersion
  | baseUrl
  | checksum
  | toolRef
  | toolUrl
  | toolChecksum
  deriving DecidableEq, Inhabited

namespace Stage

/-- All stages in their order. -/
def all : List Stage :=
  [buildVersion, productVersion, baseUrl, checksum, toolRef, toolUrl, toolChecksum]

/-- The name of a stage. -/
def text : Stage → String
  | buildVersion => "build-version"
  | productVersion => "product-version"
  | baseUrl => "base-url"
  | checksum => "checksum"
  | toolRef => "tool-ref"
  | toolUrl => "tool-url"
  | toolChecksum => "tool-checksum"

end Stage

/-- A tracked variable, with the rule for its value and the stage in which the rule is applied. -/
structure Updater where
  stage : Stage
  variableName : String
  resolver : Resolver

/-- The updater of a variable of a tool, by the segments after the Dockerfile version. -/
def toolUpdater? (tool : Tool) (name : String) : List String → Option Updater
  | [kind] =>
    if kind = Key.toolRef then some ⟨.toolRef, name, .gated tool.gatedOn (.toolRef tool)⟩ else none
  | [arch, kind] =>
    if kind = Key.toolUrl then
      some ⟨.toolUrl, name, .gated tool.gatedOn (.toolAsset tool arch .url)⟩
    else if kind = Key.digest then
      some ⟨.toolChecksum, name, .gated tool.gatedOn (.toolAsset tool arch .digest)⟩
    else none
  | _ => none

/-- The updater of any other variable, by its first segment and those after the Dockerfile version. -/
def productUpdater? (s : Settings) (product name : String) : List String → Option Updater
  | [kind] =>
    if product = Key.baseUrl then
      (if kind = s.branch then some ⟨.baseUrl, name, .baseUrl⟩ else none)
    else if kind = Key.buildVersion then some ⟨.buildVersion, name, .buildVersion product⟩
    else if kind = Key.productVersion then some ⟨.productVersion, name, .productVersion product⟩
    else none
  | [os, arch, kind] =>
    if kind = Key.digest ∧ (s.templates? product).isSome then
      some ⟨.checksum, name, .checksum name product os arch⟩
    else none
  | _ => none

/-- The updater of a variable, when it is tracked for a Dockerfile version. -/
def updaterFor? (s : Settings) (dockerfileVersion name : String) : Option Updater :=
  match Key.segments name with
  | first :: second :: rest =>
    if second = dockerfileVersion then
      match s.tool? first with
      | some tool => toolUpdater? tool name rest
      | none => productUpdater? s first name rest
    else none
  | _ => none

/-- The updaters of all tracked variables, stage by stage, and in each stage in the order of the
names. -/
def updaters (s : Settings) (dockerfileVersion : String) (vars : Variables) : List Updater :=
  Stage.all.flatMap fun stage =>
    (vars.keys.filterMap (updaterFor? s dockerfileVersion)).filter (·.stage = stage)

/-- The value that a variable has, and the one that it is to get. -/
structure Proposal where
  variableName : String
  current : String
  desired : String
  used : List Dependency
  deriving DecidableEq, Inhabited

namespace Proposal

/-- A variable that keeps its value. -/
def keep (name current : String) : Proposal := ⟨name, current, current, []⟩

/-- Whether the variable gets another value. -/
def alters (p : Proposal) : Bool := p.desired != p.current

end Proposal

/-- The value that a variable is to get, with the notes recorded on the way. A variable that refers
to another one keeps its value, and so does one for which the rule has none. -/
def Updater.propose (ctx : Context) (u : Updater) : Job (List Note × Except Failure Proposal) :=
  match ctx.vars[u.variableName]? with
  | none => return ([], .error (.of (.missingVariable u.variableName)))
  | some current =>
    if isWholeReference current then return ([], .ok (.keep u.variableName current))
    else do
      let finding ← u.resolver.resolve ctx
      return (finding.notes, finding.derived.map fun
        | some r =>
          if r.value = current then .keep u.variableName current
          else ⟨u.variableName, current, r.value, r.used⟩
        | none => .keep u.variableName current)

end Upkeep.Update
