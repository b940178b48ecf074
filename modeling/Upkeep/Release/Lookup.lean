import Upkeep.Once
import Upkeep.Problem
import Upkeep.Release

/-!
# Looking up releases

A release is asked for by the owner and the repository of its tool and by its tag, and is looked up
once; that there is no such release is an answer too. A failed lookup is made again when the release
is asked for again.

* `Release.lookup`: the release of a key.
-/

namespace Upkeep.Release

open Once

/-- What names a release. -/
structure Key where
  owner : String
  repo : String
  tag : String
  deriving DecidableEq, Inhabited

/-- How a key is written. -/
def Key.text (k : Key) : String := k.owner ++ "/" ++ k.repo ++ "@" ++ k.tag

/-- What is asked from the outside: the release of a key. -/
abbrev Source := Key

/-- What the outside answers; there may be no release. -/
abbrev Source.Answer (_ : Source) : Type := Except Failure (Option Release)

/-- What is found out about a key. -/
abbrev Content (_ : Key) : Type := Option Release

/-- The releases that have been found out. -/
abbrev Findings := Memory Key Content

/-- A lookup under way. -/
abbrev Lookup (α : Type) := Work Key Content Source Source.Answer α

/-- The release of a key, which is looked up once. -/
def lookup (k : Key) : Lookup (Except Failure (Option Release)) := once k (outside k)

end Upkeep.Release
