import Upkeep.Text.Search

/-!
# Where digests are published

The addresses at which the digest of an artifact may be found: the listings of a release, and the
sidecar file next to the artifact.

* `isPublicBase`: the bases under which releases publish their listings.
* `listingUrl`: the listing of a version.
* `fileName`: the name under which a listing has the artifact.
* `sidecarUrl`: the sidecar of the artifact.
-/

namespace Upkeep.Checksum

open Text

/-- The bases of public releases. -/
def publicBases : List String :=
  ["https://dotnetcli.azureedge.net/dotnet", "https://dotnetcli.blob.core.windows.net/dotnet"]

/-- The base of public releases that is used when none is given. -/
def publicBase : String := "https://dotnetcli.azureedge.net/dotnet"

/-- Whether a base URL is one of public releases; slashes at its end and the case of ASCII letters
do not matter. -/
def isPublicBase (base : String) : Bool :=
  publicBases.any fun b => sameIgnoringCase (dropEnd '/' base.toList) b.toList

/-- The listing of a version under a base. -/
def listingUrl (base version : String) : String :=
  String.ofList (dropEnd '/' base.toList) ++ "/checksums/" ++ version ++ "-sha.txt"

/-- The name of the file of a URL: what follows the last slash before the query and fragment. -/
def fileNameChars (url : List Char) : List Char := afterLast '/' (upTo ['?', '#'] url)

/-- The name of the file of a URL. -/
def fileName (url : String) : String := String.ofList (fileNameChars url.toList)

/-- The host of the content network. -/
def contentHost : List Char := "dotnetcli.azureedge.net".toList

/-- The host of the storage behind the content network. -/
def storageHost : List Char := "dotnetcli.blob.core.windows.net".toList

/-- The changes that lead from the place of an artifact to the place of its checksum, in the order
in which they are made. -/
def relocations : List (List Char × List Char) :=
  [(contentHost, storageHost),
   ("://dotnetcli.".toList, "://dotnetclichecksums.".toList),
   ("/public/".toList, "/public-checksums/".toList),
   ("/internal/".toList, "/internal-checksums/".toList)]

/-- A path with all relocations made. -/
def relocate (path : List Char) : List Char :=
  relocations.foldl (fun p (old, new) => replace old new p) path

/-- The ending of a sidecar: public SDK artifacts have the short one. -/
def sidecarEnding (path : List Char) (sdk : Bool) : List Char :=
  if occurs "/internal/".toList path || ! sdk then ".sha512".toList else ".sha".toList

/-- The sidecar of an artifact, on characters. -/
def sidecarChars (url : List Char) (sdk : Bool) : List Char :=
  match cut '?' url with
  | some (path, query) => relocate path ++ sidecarEnding path sdk ++ '?' :: query
  | none => relocate url ++ sidecarEnding url sdk

/-- The sidecar of an artifact: the checksum file next to it, with the query kept. -/
def sidecarUrl (url : String) (sdk : Bool) : String := String.ofList (sidecarChars url.toList sdk)

end Upkeep.Checksum
