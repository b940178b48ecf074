import Upkeep.Dependency
import Upkeep.Manifest.Variables
import Upkeep.Settings
import Upkeep.Update.Key

/-!
# The context of an update

What the value of a variable may depend on: the settings, the dependencies, the Dockerfile version,
the variables as they are now, and the variables as they were at the start of the run.

* `Context.renews`: whether a product gets another version than it had at the start.
* `Context.runtimeVersion?`: the version of the runtime.
* `Context.baseUrl`: the base URL of the artifacts.
-/

namespace Upkeep.Update

/-- What the value of a variable may depend on. -/
structure Context where
  settings : Settings
  dependencies : Dependencies
  dockerfileVersion : String
  vars : Variables
  /-- The variables at the start of the run. -/
  baseline : Variables

namespace Context

/-- The name of the build version of a product. -/
def buildVersionKey (ctx : Context) (product : String) : String :=
  Key.ofSegments [product, ctx.dockerfileVersion, Key.buildVersion]

/-- Whether a product gets another version than it had at the start. A build version that cannot be
resolved counts as another one. -/
def renews (ctx : Context) (product : String) : Bool :=
  match ctx.dependencies.get? product with
  | none => false
  | some d =>
    match ctx.baseline.value (ctx.buildVersionKey product) with
    | .ok previous => previous != d.version
    | .error _ => true

/-- The version of the runtime: the one provided, or else the one in the manifest. -/
def runtimeVersion? (ctx : Context) : Option String :=
  (ctx.dependencies.version? "runtime").or
    ((ctx.vars.value (ctx.buildVersionKey "runtime")).toOption.filter (· ≠ ""))

/-- The base URL of the artifacts: the one in the manifest, or else the one of the settings. -/
def baseUrl (ctx : Context) : String :=
  let value := ctx.vars.valueOrEmpty
    (Key.ofSegments [Key.baseUrl, ctx.dockerfileVersion, ctx.settings.branch])
  if value = "" then ctx.settings.fallbackBaseUrl else value

/-- The dependency whose version a product has. -/
def dependency? (ctx : Context) (product : String) : Option Dependency :=
  ctx.dependencies.get? (ctx.settings.dependencyName product)

end Context

end Upkeep.Update
