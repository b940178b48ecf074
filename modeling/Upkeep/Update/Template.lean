import Upkeep.Text.Search

/-!
# URL templates

A template has places for the base URL, for versions, and for the operating system and the
architecture of an artifact. The places are filled in one kind after another.

* `Placeholder.all`: the places in the order in which they are filled in.
* `Filling.fill`: a template with all places filled in.
-/

namespace Upkeep.Update

open Text

/-- A place in a template. -/
inductive Placeholder where
  | baseUrl
  | versionDir
  | versionFile
  | productVersion
  | archive
  | os
  | arch
  deriving DecidableEq, Inhabited

/-- How a place is written. -/
def Placeholder.written : Placeholder → List Char
  | baseUrl => "$DOTNET_BASE_URL".toList
  | versionDir => "$VERSION_DIR".toList
  | versionFile => "$VERSION_FILE".toList
  | productVersion => "$PRODUCT_VERSION".toList
  | archive => "$ARCHIVE_EXT".toList
  | os => "$OS".toList
  | arch => "$ARCH".toList

/-- The places in the order in which they are filled in; that of the archive comes before that of the
architecture, which begins it. -/
def Placeholder.all : List Placeholder :=
  [baseUrl, versionDir, versionFile, productVersion, archive, os, arch]

/-- What is filled into a template. -/
structure Filling where
  baseUrl : String
  buildVersion : String
  productVersion : String
  os : String
  arch : String
  deriving DecidableEq, Inhabited

namespace Filling

/-- The extension of an archive: Windows has its own. -/
def archive (v : Filling) : List Char :=
  if "win".toList.isPrefixOf v.os.toList then "zip".toList else "tar.gz".toList

/-- What is filled into a place; the base URL loses the slashes at its end. -/
def value (v : Filling) : Placeholder → List Char
  | .baseUrl => dropEnd '/' v.baseUrl.toList
  | .versionDir => v.buildVersion.toList
  | .versionFile => v.buildVersion.toList
  | .productVersion => v.productVersion.toList
  | .archive => v.archive
  | .os => v.os.toList
  | .arch => v.arch.toList

/-- A template with all places filled in, on characters. -/
def fillChars (v : Filling) (template : List Char) : List Char :=
  Placeholder.all.foldl (fun t p => replace p.written (v.value p) t) template

/-- A template with all places filled in. -/
def fill (v : Filling) (template : String) : String :=
  String.ofList (v.fillChars template.toList)

end Filling

end Upkeep.Update
