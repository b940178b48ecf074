import Upkeep.Engine
import Upkeep.Files.AtomicWrite
import Upkeep.Web.Client

/-!
# The surroundings of an engine

An engine that works on a machine has its questions answered from the web and from the files there.

* `Surroundings.answer`: how a question of an engine is answered.
* `Surroundings.loadManifest`, `Surroundings.loadSettings`: what is read from files before a run.
* `Surroundings.atWork_bind`: work in two parts is done part by part.
-/

namespace Upkeep.Surroundings

/-- What is asked of the surroundings. -/
inductive Question where
  | exchange (r : Web.Request)
  | files (q : Files.Question)
  deriving DecidableEq, Inhabited

/-- What they answer. -/
def Question.Answer : Question → Type
  | exchange r => Web.Answer r
  | files q => q.Answer

/-- Work in the surroundings. -/
abbrev Work (α : Type) := Inquiry Question Question.Answer α

/-- Work on the web. -/
def onWeb {α : Type} (w : Web.Work α) : Work α :=
  w.perform fun r => Inquiry.ask (Question.exchange r) Inquiry.done

/-- Work on files. -/
def onFiles {α : Type} (w : Files.Work α) : Work α :=
  w.perform fun q => Inquiry.ask (Question.files q) Inquiry.done

/-- The text of a file. -/
def readText (path : String) : Work (Except FileError String) :=
  Inquiry.ask (Question.files (.read path)) fun (content : Except FileError Bytes) =>
    Inquiry.done (content.bind fun b => b.text?.elim (.error .notText) .ok)

/-- How a question of an engine is answered. -/
def answer : (q : Outside) → Work q.Answer
  | .source (.text url) => onWeb (Web.textAt url)
  | .source (.sha512 url) => onWeb (Web.digestAt url)
  | .source (.file path) => readText path
  | .release k => onWeb (Web.releaseAt Web.releaseService k)
  | .save path text => onFiles (Files.writeAtomically path (.ofText text))

/-- The work of an engine, done in the surroundings. -/
def atWork {α : Type} (x : Inquiry Outside Outside.Answer α) : Work α := x.perform answer

theorem atWork_bind {α β : Type} (x : Inquiry Outside Outside.Answer α)
    (f : α → Inquiry Outside Outside.Answer β) :
    atWork (x >>= f) = atWork x >>= fun a => atWork (f a) :=
  Inquiry.perform_bind answer x f

/-- The manifest in a file. -/
def loadManifest (path : String) : Work (Except Failure Manifest) := do
  match ← readText path with
  | .error e => return .error (.ofFile ("Failed to read manifest: " ++ path) e)
  | .ok text => return (Manifest.ofText (some path) text).mapError .of

/-- The settings in a file. -/
def readSettings (path : String) : Work (Except Failure Settings) := do
  match ← readText path with
  | .error e => return .error (.ofFile ("Failed to read config from " ++ path) e)
  | .ok text =>
    match Settings.ofToml? text with
    | some s => return .ok s
    | none => return .error ⟨["Failed to parse config from " ++ path], .toml⟩

/-- The settings in a file, if there is one; without a file all settings have their defaults. -/
def loadSettings (path : Option String) : Work (Except Failure Settings) :=
  match path with
  | none => return .ok {}
  | some path =>
    Inquiry.ask (Question.files (.isThere path)) fun (isThere : Bool) =>
      if isThere then readSettings path else Inquiry.done (.ok {})

end Upkeep.Surroundings
