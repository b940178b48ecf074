import Upkeep.Update.Run

/-!
# The engine

An engine makes runs over manifests and keeps what was found out about artifacts and releases, so that
a later run does not ask for it again.

* `Engine.handle`: answers the questions of an update from what is known and from the outside.
* `Engine.run`: one run.
-/

namespace Upkeep

open Update Once

/-- What an engine asks from the outside. -/
inductive Outside where
  | source (q : Checksum.Source)
  | release (k : Release.Key)
  | save (path text : String)
  deriving DecidableEq, Inhabited

/-- What the outside answers. -/
def Outside.Answer : Outside → Type
  | source q => q.Answer
  | release _ => Except Failure (Option Release)
  | save _ _ => Except Failure Unit

/-- What has been found out about artifacts and releases. -/
structure Findings where
  digests : Checksum.Findings := .empty
  releases : Release.Findings := .empty
  deriving Inhabited

/-- The settings of runs, and what they have found out so far. -/
structure Engine where
  settings : Settings
  findings : Findings := {}

namespace Engine

/-- How the settings let digests be found. -/
def service (s : Settings) : Checksum.Service := ⟨s.checksumsFile, s.computeShas⟩

/-- A lookup of a digest, as part of the work of an engine. -/
def ofDigests {α : Type} (x : Inquiry Checksum.Source Checksum.Source.Answer α) :
    Inquiry Outside Outside.Answer α :=
  x.perform fun q => Inquiry.ask (Outside.source q) Inquiry.done

/-- A lookup of a release, as part of the work of an engine. -/
def ofReleases {α : Type} (x : Inquiry Release.Source Release.Source.Answer α) :
    Inquiry Outside Outside.Answer α :=
  x.perform fun k => Inquiry.ask (Outside.release k) Inquiry.done

/-- Answers a question of an update. -/
def handle (service : Checksum.Service) (q : Question) :
    StateT Findings (Inquiry Outside Outside.Answer) q.Answer :=
  match q with
  | .digest r => fun known => do
    let (a, digests) ← ofDigests (alone (Checksum.resolve service r) known.digests)
    return (a, { known with digests })
  | .release k => fun known => do
    let (a, releases) ← ofReleases (alone (Release.lookup k) known.releases)
    return (a, { known with releases })
  | .save path text => fun known =>
    Inquiry.ask (Outside.save path text) fun a => Inquiry.done (a, known)

/-- Does a part of an update. -/
def perform {α : Type} (e : Engine) (t : Job α) : Inquiry Outside Outside.Answer (α × Engine) := do
  let (a, findings) ← (t.perform (handle (service e.settings))).run e.findings
  return (a, { e with findings })

/-- One run over a manifest. -/
def run (e : Engine) (ds : Dependencies) (isTrial : Bool) (m : Manifest) :
    Inquiry Outside Outside.Answer ((Manifest × Except Failure Report) × Engine) :=
  e.perform (Update.run e.settings ds isTrial m)

/-- What the engine has found out about an artifact. -/
def cached? (e : Engine) (url : String) : Option (Option String) :=
  Checksum.cached? e.findings.digests url

end Engine

end Upkeep
