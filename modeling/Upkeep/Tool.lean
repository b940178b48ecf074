import Upkeep.Data
import Upkeep.Regex.Parser

/-!
# Tools

A tool is something whose releases are tracked. The names of the assets of a release follow a
pattern, in which the version and the architecture are filled in.

* `Tool.patternText`: the pattern for a version and an architecture, as a text.
* `Tool.pattern?`: the same as a regular expression.
-/

namespace Upkeep

open Text

/-- A tool whose releases are tracked. -/
structure Tool where
  name : String
  owner : String
  repo : String
  /-- The pattern of the names of its assets, with places for version and architecture. -/
  assetPattern : String
  /-- The product whose change lets the tool be updated. -/
  gatedOn : String := "runtime"
  /-- What the assets call an architecture. -/
  archAliases : Std.ExtTreeMap String String := ∅

namespace Tool

/-- What the assets of a tool call an architecture. -/
def archName (t : Tool) (arch : String) : String := t.archAliases[arch]?.getD arch

/-- Owner and repository. -/
def repository (t : Tool) : String := t.owner ++ "/" ++ t.repo

/-- The place of the version in a pattern. -/
def versionPlace : List Char := "\x7bversion\x7d".toList

/-- The place of the architecture in a pattern. -/
def archPlace : List Char := "\x7barch\x7d".toList

/-- A pattern with version and architecture filled in, so that they stand for themselves. -/
def fill (pattern version arch : List Char) : List Char :=
  replace archPlace (Regex.escape arch) (replace versionPlace (Regex.escape version) pattern)

/-- The pattern of the assets of a version for an architecture. -/
def patternText (t : Tool) (version arch : String) : String :=
  String.ofList (fill t.assetPattern.toList version.toList (t.archName arch).toList)

/-- The pattern of the assets of a version for an architecture, when it is one. -/
def pattern? (t : Tool) (version arch : String) : Option Regex :=
  Regex.parse (t.patternText version arch)

/-- The tool that is tracked when the settings do not say otherwise. -/
def chisel : Tool where
  name := "chisel"
  owner := "canonical"
  repo := "chisel"
  assetPattern := "^chisel_\x7bversion\x7d_linux_\x7barch\x7d\\.tar\\.gz$"
  archAliases := .ofList [("x64", "amd64"), ("arm32", "arm")]

/-- Reads a tool. -/
def ofData? (d : Data) : Option Tool := do
  let f ← d.record ["name", "owner", "repo", "asset_pattern", "gated_on", "arch_aliases"]
  return {
    name := ← f.required "name" Data.text?
    owner := ← f.required "owner" Data.text?
    repo := ← f.required "repo" Data.text?
    assetPattern := ← f.required "asset_pattern" Data.text?
    gatedOn := ← f.orElse "gated_on" Data.text? "runtime"
    archAliases := ← f.orElse "arch_aliases" (Data.mapOf? Data.text?) ∅ }

end Tool

end Upkeep
