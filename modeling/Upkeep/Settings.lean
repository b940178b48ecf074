import Upkeep.Checksum.Location
import Upkeep.Data
import Upkeep.Toml.Parser
import Upkeep.Tool

/-!
# Settings

What a run is to work with: where artifacts are found, which products and tools there are, and how
digests may be obtained. Every setting has a default.

* `Settings.desiredBaseUrl?`: the base URL that the settings ask for.
* `Settings.templates?`: the URL templates of a product.
* `Settings.ofData?`: reads settings.
-/

namespace Upkeep

/-- The settings of a run. -/
structure Settings where
  dockerfileVersion : Option String := none
  branch : String := "nightly"
  baseUrl : Option String := none
  /-- Whether the artifacts are those of public releases. -/
  releaseState : Bool := false
  /-- Whether the artifacts are internal ones. -/
  isInternal : Bool := false
  internalBaseUrl : Option String := none
  /-- A file that lists digests. -/
  checksumsFile : Option String := none
  /-- Whether an artifact may be downloaded to be hashed. -/
  computeShas : Bool := true
  timeoutSeconds : Nat := 300
  urlTemplates : Std.ExtTreeMap String (List String) := ∅
  /-- The dependency that stands for a product. -/
  productAliases : Std.ExtTreeMap String String := .ofList [("aspnet-composite", "aspnet")]
  tools : List Tool := [.chisel]

namespace Settings

instance : Inhabited Settings := ⟨{}⟩

/-- The base URL that the settings ask for: an internal one for internal artifacts, else the one that
is given, else that of public releases. -/
def desiredBaseUrl? (s : Settings) : Option String :=
  match s.isInternal, s.internalBaseUrl, s.baseUrl with
  | true, some url, _ => some url
  | _, _, some url => some url
  | _, _, none => if s.releaseState then some Checksum.publicBase else none

/-- The base URL when no other is known. -/
def fallbackBaseUrl (s : Settings) : String := s.desiredBaseUrl?.getD Checksum.publicBase

/-- The dependency whose version a product has. -/
def dependencyName (s : Settings) (product : String) : String :=
  s.productAliases[product]?.getD product

/-- The directory and the file name of the artifacts of a known product. -/
def knownProducts : List (String × String × String) :=
  [("runtime", "Runtime", "dotnet-runtime"),
   ("aspnet", "aspnetcore/Runtime", "aspnetcore-runtime"),
   ("aspnet-composite", "aspnetcore/Runtime", "aspnetcore-runtime-composite"),
   ("sdk", "Sdk", "dotnet-sdk"),
   ("monitor", "diagnostics/monitor", "dotnet-monitor")]

/-- The templates of artifacts in a directory: the file carries the version of the build or that of
the product. -/
def templatesIn (directory file : String) : List String :=
  ["$VERSION_FILE", "$PRODUCT_VERSION"].map fun version =>
    "$DOTNET_BASE_URL/" ++ directory ++ "/$VERSION_DIR/" ++ file ++ "-" ++ version
      ++ "-$OS-$ARCH.$ARCHIVE_EXT"

/-- The templates of a known product. -/
def knownTemplates? (product : String) : Option (List String) :=
  (knownProducts.find? (·.1 = product)).map fun (_, directory, file) => templatesIn directory file

/-- The URL templates of a product: those of the settings, if there are any, or else the known ones. -/
def templates? (s : Settings) (product : String) : Option (List String) :=
  (s.urlTemplates[product]?.filter (· ≠ [])).or (knownTemplates? product)

/-- The tool of a name. -/
def tool? (s : Settings) (name : String) : Option Tool := s.tools.find? (·.name = name)

/-- The names of the settings, in their order. -/
def names : List String :=
  ["dockerfile_version", "branch", "base_url", "release_state", "internal", "internal_base_url",
   "checksums_file", "compute_shas", "http_timeout_secs", "url_templates", "product_aliases",
   "tools"]

/-- Reads settings; those that are missing have their defaults. -/
def ofData? (d : Data) : Option Settings := do
  let f ← d.record names
  let default : Settings := {}
  return {
    dockerfileVersion := ← f.orElse "dockerfile_version" (Data.optional Data.text?) none
    branch := ← f.orElse "branch" Data.text? default.branch
    baseUrl := ← f.orElse "base_url" (Data.optional Data.text?) none
    releaseState := ← f.orElse "release_state" Data.bool? false
    isInternal := ← f.orElse "internal" Data.bool? false
    internalBaseUrl := ← f.orElse "internal_base_url" (Data.optional Data.text?) none
    checksumsFile := ← f.orElse "checksums_file" (Data.optional Data.text?) none
    computeShas := ← f.orElse "compute_shas" Data.bool? default.computeShas
    timeoutSeconds := ← f.orElse "http_timeout_secs" Data.natural? default.timeoutSeconds
    urlTemplates :=
      ← f.orElse "url_templates" (Data.mapOf? (Data.listOf? Data.text?)) default.urlTemplates
    productAliases := ← f.orElse "product_aliases" (Data.mapOf? Data.text?) default.productAliases
    tools := ← f.orElse "tools" (Data.listOf? Tool.ofData?) default.tools }

/-- Reads settings from a TOML text. -/
def ofToml? (s : String) : Option Settings := (Toml.parse s).bind ofData?

/-- Reads settings from a JSON value. -/
def ofJson? (j : Json) : Option Settings := ofData? (.ofJson j)

end Settings

end Upkeep
