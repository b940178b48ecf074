import Upkeep.Data
import Upkeep.Regex.Parser
import Upkeep.Text.Blank
import Upkeep.Text.Search

/-!
# Releases of tools

A release has assets to download and a body of notes. The digest of an asset is read from a line of
the notes that names the asset, be it a row of a table or a line of a listing.

* `Release.findAsset?`: the first asset whose name matches a pattern.
* `Release.checksum?`: the digest that the notes give for an asset.
* `Release.ofData?`: reads a release.
* `isDigest_of_lineChecksum?`: what `checksum?` gives stands on the line, long and hexadecimal.
-/

namespace Upkeep

open Text

/-- A file to download. -/
structure Asset where
  name : String
  url : String
  deriving DecidableEq, Inhabited

/-- A release of a tool. -/
structure Release where
  tag : String
  body : Option String
  assets : List Asset
  deriving DecidableEq, Inhabited

namespace Release

/-- The first asset whose name matches a pattern. -/
def findAsset? (r : Release) (pattern : Regex) : Option Asset :=
  r.assets.find? fun a => pattern.isMatch a.name

/-- Whether a character only emphasises a token. -/
def isMarkup (c : Char) : Bool := c == '\x60' || c == '*'

/-- A token without the emphasis around it. -/
def bare (t : List Char) : List Char :=
  ((t.dropWhile isMarkup).reverse.dropWhile isMarkup).reverse

/-- The tokens of a line: what blanks and bars separate, without emphasis. -/
def tokens (line : List Char) : List (List Char) :=
  ((wordsBy (fun c => c == '|' || isBlank c) line).map bare).filter (· ≠ [])

/-- Whether a token is a digest: at least 32 hexadecimal digits. -/
def isDigest (t : List Char) : Bool := 32 ≤ t.length && t.all isHexDigit

/-- The digest on a line that names a file. -/
def lineChecksum? (name : List Char) (line : List Char) : Option (List Char) :=
  if (tokens line).contains name then ((tokens line).find? isDigest).map lowerAscii else none

/-- The digest that the notes give for the asset of a name. -/
def checksum? (r : Release) (name : String) : Option String :=
  match r.body with
  | none => none
  | some body => ((lines body.toList).findSome? (lineChecksum? name.toList)).map String.ofList

theorem isDigest_of_lineChecksum? {name line d : List Char} (h : lineChecksum? name line = some d) :
    ∃ t ∈ tokens line, isDigest t = true ∧ d = lowerAscii t := by
  unfold lineChecksum? at h
  split at h
  · obtain ⟨t, ht, rfl⟩ := Option.map_eq_some_iff.1 h
    exact ⟨t, List.mem_of_find?_eq_some ht, List.find?_some ht, rfl⟩
  · simp at h

/-- Reads an asset. -/
def assetOfData? (d : Data) : Option Asset := do
  let f ← d.record ["name", "browser_download_url"]
  return ⟨← f.required "name" Data.text?, ← f.required "browser_download_url" Data.text?⟩

/-- Reads a release. The notes and the assets may be missing. -/
def ofData? (d : Data) : Option Release := do
  let f ← d.record ["tag_name", "body", "assets"]
  return ⟨← f.required "tag_name" Data.text?,
    ← f.orElse "body" (Data.optional Data.text?) none,
    ← f.orElse "assets" (Data.listOf? assetOfData?) []⟩

end Release

end Upkeep
