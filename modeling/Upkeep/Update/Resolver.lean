import Upkeep.Checksum.Service
import Upkeep.Release.Lookup
import Upkeep.Update.Context
import Upkeep.Update.Template

/-!
# Resolvers

A resolver works out the value that a variable should have. It may ask for digests and releases, and
it records what it could not find. It has no value to give when the dependency is not provided, when
a gate is closed, or when something was not found.

* `Resolver.resolve`: the value of a variable, with the notes recorded on the way.
* `candidates`: the URLs under which an artifact is looked for.
-/

namespace Upkeep.Update

open Text

/-- What is asked during an update: the digest of an artifact, a release, and that the manifest is
written to its file. -/
inductive Question where
  | digest (r : Checksum.Request)
  | release (k : Release.Key)
  | save (path text : String)
  deriving DecidableEq, Inhabited

/-- What is answered. -/
def Question.Answer : Question → Type
  | digest _ => Except Failure (Option String)
  | release _ => Except Failure (Option Release)
  | save _ _ => Except Failure Unit

/-- A part of an update under way. -/
abbrev Job (α : Type) := Inquiry Question Question.Answer α

/-- Asks for the digest of an artifact. -/
def askDigest (r : Checksum.Request) : Job (Except Failure (Option String)) :=
  Inquiry.ask (Question.digest r) Inquiry.done

/-- Asks for a release. -/
def askRelease (k : Release.Key) : Job (Except Failure (Option Release)) :=
  Inquiry.ask (Question.release k) Inquiry.done

/-- Asks that the manifest is written to its file. -/
def askSave (path text : String) : Job (Except Failure Unit) :=
  Inquiry.ask (Question.save path text) Inquiry.done

/-- What is recorded during an update. -/
inductive Note where
  | warning (text : String)
  | error (text : String)
  deriving DecidableEq, Inhabited

/-- The texts of the warnings among notes. -/
def Note.warnings (l : List Note) : List String :=
  l.filterMap fun | warning t => some t | error _ => none

/-- The texts of the errors among notes. -/
def Note.errors (l : List Note) : List String :=
  l.filterMap fun | error t => some t | warning _ => none

/-- The value that a variable should have, and the dependencies that it comes from. -/
structure DerivedValue where
  value : String
  used : List Dependency
  deriving DecidableEq, Inhabited

/-- What a resolver comes to: its notes, and a value, none, or a failure that ends the run. -/
structure Finding where
  notes : List Note := []
  derived : Except Failure (Option DerivedValue)

namespace Finding

/-- No value, for no recorded reason. -/
def nothing : Finding := ⟨[], .ok none⟩

/-- No value, because of an error. -/
def error (text : String) : Finding := ⟨[.error text], .ok none⟩

/-- A value that comes from a dependency. -/
def value (v : String) (d : Dependency) : Finding := ⟨[], .ok (some ⟨v, [d]⟩)⟩

end Finding

/-- What an asset of a tool is looked up for. -/
inductive AssetDetail where
  | url
  | digest
  deriving DecidableEq, Inhabited

/-- A rule that gives a variable its value. -/
inductive Resolver where
  /-- The version of a product. -/
  | buildVersion (product : String)
  /-- The tag of the version of a product. -/
  | productVersion (product : String)
  /-- The base URL that the settings ask for. -/
  | baseUrl
  /-- The digest of the artifact of a product for an operating system and an architecture. -/
  | checksum (variableName product os arch : String)
  /-- The version of a tool. -/
  | toolRef (tool : Tool)
  /-- The URL or the digest of an asset of a tool for an architecture. -/
  | toolAsset (tool : Tool) (arch : String) (field : AssetDetail)
  /-- Another rule, as long as a product is changing. -/
  | gated (product : String) (inner : Resolver)

/-- The values for the templates of an artifact. -/
def filling (ctx : Context) (os arch version : String) : Filling :=
  ⟨ctx.baseUrl, version, Version.tag version, os, arch⟩

/-- The URLs under which the artifact of a product is looked for, each once, in the order of the
templates. -/
def candidates (ctx : Context) (product os arch version : String) : List String :=
  (((ctx.settings.templates? product).getD []).map
    (filling ctx os arch version).fill).eraseDups

/-- The request for the digest of an artifact of a product. -/
def request (ctx : Context) (product version url : String) : Checksum.Request :=
  { url, product
    buildVersion := some version
    runtimeVersion := ctx.runtimeVersion?
    baseUrl := some ctx.baseUrl }

/-- What is recorded when the artifact of a variable has no digest at a URL; at the last URL that is
an error. -/
def missNote (variableName url : String) (isLast : Bool) : Note :=
  if isLast then .error (Problem.noChecksum variableName url).text
  else .warning ("No checksum for " ++ variableName ++ " at " ++ url)

/-- The digest of the first of several artifacts that has one. -/
def firstDigest (variableName : String) (request : String → Checksum.Request) (d : Dependency) :
    List String → Job Finding
  | [] => return .nothing
  | url :: rest => do
    match ← askDigest (request url) with
    | .error e => return ⟨[], .error e⟩
    | .ok (some digest) => return .value digest d
    | .ok none =>
      -- the note on this URL stands before those on the later ones
      let later ← firstDigest variableName request d rest
      return { later with notes := missNote variableName url rest.isEmpty :: later.notes }

/-- What a field of an asset holds. -/
def assetValue? (r : Release) (a : Asset) : AssetDetail → Option String
  | .url => some a.url
  | .digest => r.checksum? a.name

/-- Looks up an asset of a release of a tool. -/
def inRelease (tool : Tool) (arch : String) (field : AssetDetail) (d : Dependency) (r : Release) :
    Finding :=
  match tool.pattern? d.version arch with
  | none => .error ("Invalid asset pattern for " ++ tool.name ++ ": regex parse error:")
  | some pattern =>
    match r.findAsset? pattern with
    | none =>
      .error ("No asset matching '" ++ tool.patternText d.version arch ++ "' in " ++ tool.name
        ++ " release " ++ d.version)
    | some a =>
      match assetValue? r a field with
      | none =>
        .error ("No checksum for " ++ a.name ++ " in " ++ tool.name ++ " release " ++ d.version)
      | some v => .value v d

/-- Looks up an asset of the release of a tool that a dependency asks for. -/
def ofAsset (tool : Tool) (arch : String) (field : AssetDetail) (d : Dependency) : Job Finding := do
  match ← askRelease ⟨tool.owner, tool.repo, d.version⟩ with
  | .ok (some r) => return inRelease tool arch field d r
  | .ok none => return .error ("No " ++ tool.repository ++ " release tagged " ++ d.version)
  | .error e =>
    return .error ("Failed to fetch " ++ tool.name ++ " release " ++ d.version ++ ": " ++ e.text)

/-- The value that a variable should have. -/
def Resolver.resolve (ctx : Context) : Resolver → Job Finding
  | buildVersion product =>
    return match ctx.dependency? product with
      | some d => .value d.version d
      | none => .nothing
  | productVersion product =>
    return match ctx.dependency? product with
      | some d => .value (Version.tag d.version) d
      | none => .nothing
  | baseUrl => return ⟨[], .ok (ctx.settings.desiredBaseUrl?.map (⟨·, []⟩))⟩
  | checksum variableName product os arch =>
    match ctx.dependency? product with
    | none => return .nothing
    | some d =>
      firstDigest variableName (request ctx product d.version) d
        (candidates ctx product os arch d.version)
  | toolRef tool =>
    return match ctx.dependencies.get? tool.name with
      | some d => .value d.version d
      | none => .nothing
  | toolAsset tool arch field =>
    match ctx.dependencies.get? tool.name with
    | none => return .nothing
    | some d => ofAsset tool arch field d
  | gated product inner => if ctx.renews product then inner.resolve ctx else return .nothing

end Upkeep.Update
