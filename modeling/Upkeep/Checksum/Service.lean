import Upkeep.Checksum.Listing
import Upkeep.Checksum.Location
import Upkeep.Once
import Upkeep.Problem
import Upkeep.Version

/-!
# Finding the digest of an artifact

The digest of an artifact is looked for in several places, one after the other: a local listing, the
listings of public releases, the sidecar of the artifact, and at last the artifact itself, which is
downloaded and hashed. The first place that has a digest wins, and a place that fails counts as
having none; only a local listing that cannot be read is a failure.

Each artifact is looked up once, and each listing is fetched once.

* `Request.listings`: the listings that may have the digest.
* `places`: the places outside the local listing, in their order.
* `resolve`: the digest of an artifact.
* `resolveAll`: the digests of several artifacts.
-/

namespace Upkeep.Checksum

open Text Once

/-- An artifact whose digest is wanted, and what is known about it. -/
structure Request where
  url : String
  product : String
  buildVersion : Option String := none
  runtimeVersion : Option String := none
  baseUrl : Option String := none
  deriving DecidableEq, Inhabited

/-- What is asked from the outside: a text by its URL, the digest of what is downloaded, or the text of
a local file. -/
inductive Source where
  | text (url : String)
  | sha512 (url : String)
  | file (path : String)
  deriving DecidableEq, Inhabited

/-- What the outside answers; a URL that is not found has no text and no digest. -/
def Source.Answer : Source → Type
  | text _ => Except Failure (Option String)
  | sha512 _ => Except Failure (Option String)
  | file _ => Except FileError String

/-- What is found out once: the digest of an artifact, a listing, and the local listing. -/
inductive Slot where
  | digest (url : String)
  | listing (url : String)
  | localListing
  deriving DecidableEq, Inhabited

/-- What is found out; there may be no digest, and no listing. -/
def Slot.Content : Slot → Type
  | digest _ => Option String
  | listing _ => Option Listing
  | localListing => Listing

/-- What has been found out. -/
abbrev Findings := Memory Slot Slot.Content

/-- A lookup under way. -/
abbrev Lookup (α : Type) := Work Slot Slot.Content Source Source.Answer α

/-- How digests may be found: in a local listing, and by hashing. -/
structure Service where
  checksumsFile : Option String := none
  computeShas : Bool := true
  deriving DecidableEq, Inhabited

namespace Request

/-- Whether the product is an SDK. -/
def wantsSdk (r : Request) : Bool := "sdk".toList.isPrefixOf r.product.toList

/-- Whether the listing of the runtime has the product too. -/
def isListedWithRuntime (r : Request) : Bool :=
  r.wantsSdk || "aspnet".toList.isPrefixOf r.product.toList

/-- The versions whose listings may have the artifact, each once: that of the runtime, that of the
build, and the version of the preview. -/
def versions (r : Request) : List String :=
  -- products that are built with the runtime are listed under its version too
  let candidates :=
    [if r.isListedWithRuntime then r.runtimeVersion else none,
     r.buildVersion,
     (r.runtimeVersion.or r.buildVersion).bind Version.preview?]
  ((candidates.filterMap id).filter (· ≠ "")).eraseDups

/-- The listings that may have the artifact; only public releases publish them. -/
def listings (r : Request) : List String :=
  match r.baseUrl with
  | some base => if isPublicBase base then r.versions.map (listingUrl base) else []
  | none => []

end Request

/-- Whether a text is a digest: hexadecimal digits, at least one. -/
def isDigest (t : List Char) : Bool := t ≠ [] && t.all isHexDigit

/-- The digest in a sidecar: its first word. -/
def sidecarDigest? (content : String) : Option String :=
  match words content.toList with
  | [] => none
  | w :: _ => if isDigest (lower w) then some (String.ofList (lower w)) else none

/-- The text at a URL. -/
def textAt (url : String) : Lookup (Except Failure (Option String)) := outside (Source.text url)

/-- The digest of what is downloaded from a URL. -/
def sha512Of (url : String) : Lookup (Except Failure (Option String)) :=
  outside (Source.sha512 url)

/-- The text of a local file. -/
def fileAt (path : String) : Lookup (Except FileError String) := outside (Source.file path)

/-- Fetches a listing; one that cannot be had is none. -/
def fetchListing (url : String) : Lookup (Option Listing) := do
  match ← textAt url with
  | .ok (some content) => return some (Listing.parse content)
  | _ => return none

/-- A listing, which is fetched once. -/
def listing (url : String) : Lookup (Option Listing) := once' (Slot.listing url) (fetchListing url)

/-- The digest that a listing has for a file. -/
def inListing (file url : String) : Lookup (Option String) := do
  return (← listing url).bind (·.get? file)

/-- The digest in the sidecar at a URL. -/
def inSidecar (url : String) : Lookup (Option String) := do
  match ← textAt url with
  | .ok (some content) => return sidecarDigest? content
  | _ => return none

/-- The digest of the artifact itself. -/
def ofArtifact (url : String) : Lookup (Option String) := do
  match ← sha512Of url with
  | .ok digest => return digest
  | .error _ => return none

/-- The first digest that one of several places has. -/
def firstOf : List (Lookup (Option String)) → Lookup (Option String)
  | [] => return none
  | place :: rest => do
    match ← place with
    | some digest => return some digest
    | none => firstOf rest

/-- The places where a digest is looked for after the local listing, in their order. -/
def places (s : Service) (r : Request) : List (Lookup (Option String)) :=
  r.listings.map (inListing (fileName r.url))
    ++ [inSidecar (sidecarUrl r.url r.wantsSdk)]
    ++ (if s.computeShas then [ofArtifact r.url] else [])

/-- Reads the local listing. -/
def readListing (path : String) : Lookup (Except Failure Listing) := do
  match ← fileAt path with
  | .ok content => return .ok (Listing.parse content)
  | .error e => return .error (.ofFile ("Failed to read checksums file: " ++ path) e)

/-- The local listing, which is read once. -/
def localListing (path : String) : Lookup (Except Failure Listing) :=
  once Slot.localListing (readListing path)

/-- The digest that the local listing has for an artifact, when there is such a listing. -/
def inLocalListing (s : Service) (url : String) : Lookup (Except Failure (Option String)) :=
  match s.checksumsFile with
  | none => return .ok none
  | some path => do
    match ← localListing path with
    | .error e => return .error e
    | .ok listing => return .ok (listing.get? (fileName url))

/-- Looks for a digest in all places. -/
def search (s : Service) (r : Request) : Lookup (Except Failure (Option String)) := do
  match ← inLocalListing s r.url with
  | .error e => return .error e
  | .ok (some digest) => return .ok (some digest)
  | .ok none => return .ok (← firstOf (places s r))

/-- The digest of an artifact, which is looked for once; none when no place has one. -/
def resolve (s : Service) (r : Request) : Lookup (Except Failure (Option String)) :=
  once (Slot.digest r.url) (search s r)

/-- Each request whose URL is not that of an earlier one. -/
def distinct : List Request → List Request
  | [] => []
  | r :: rs => r :: (distinct rs).filter (·.url ≠ r.url)

/-- The answers to several requests. -/
def answers (s : Service) :
    List Request → Lookup (List (String × Except Failure (Option String)))
  | [] => return []
  | r :: rs => do
    let digest ← resolve s r
    return (r.url, digest) :: (← answers s rs)

/-- The digests of several artifacts, one for each URL; the first failure is that of all. -/
def resolveAll (s : Service) (rs : List Request) :
    Lookup (Except Failure (List (String × Option String))) := do
  let found ← answers s (distinct rs)
  return found.mapM fun (url, digest) => digest.map (url, ·)

/-- What has been found out about an artifact: nothing yet, or its digest, which may be none. -/
def cached? (m : Findings) (url : String) : Option (Option String) := m.get? (Slot.digest url)

end Upkeep.Checksum
