import Upkeep.Text.Search

/-!
# Keys of variables

The name of a tracked variable is a list of segments with bars between them, such as
`runtime|9.0|build-version`; the second segment is the Dockerfile version.

* `Key.segments`: the segments of a name.
* `Key.ofSegments`: the name of segments.
* `Key.ofSegments_segments`: nothing is lost between the two.
-/

namespace Upkeep.Update.Key

open Text

/-- The character between two segments. -/
def separator : Char := '|'

/-- The segments of a name. -/
def segments (name : String) : List String := (fields separator name.toList).map String.ofList

/-- The name of segments. -/
def ofSegments (l : List String) : String := String.ofList (join [separator] (l.map String.toList))

theorem ofSegments_segments (name : String) : ofSegments (segments name) = name := by
  have h : (segments name).map String.toList = fields separator name.toList := by
    simp [segments, Function.comp_def]
  simp [ofSegments, h, join_fields]

/-- The last segment of a build version. -/
def buildVersion : String := "build-version"

/-- The last segment of a product version. -/
def productVersion : String := "product-version"

/-- The first segment of a base URL. -/
def baseUrl : String := "base-url"

/-- The last segment of a digest. -/
def digest : String := "sha"

/-- The last segment of the version of a tool. -/
def toolRef : String := "ref"

/-- The last segment of the URL of an asset of a tool. -/
def toolUrl : String := "url"

end Upkeep.Update.Key
