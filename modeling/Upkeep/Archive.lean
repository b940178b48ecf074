import Upkeep.Bytes
import Upkeep.Engine
import Upkeep.Sha512

/-!
# Archives

An archive answers in the place of the outside: it holds texts, artifacts and releases by their
addresses, knows which of them fail, and keeps a record of what was asked for.

* `Archive.answerSource`, `Archive.answerRelease`: the answers, with the record.
* `Archive.Visit.reached`: how many releases were looked up without a failure.
-/

namespace Upkeep

/-- What an archive holds. -/
structure Archive where
  texts : Std.ExtTreeMap String String := ∅
  artifacts : Std.ExtTreeMap String Bytes := ∅
  /-- The URLs that cannot be reached. -/
  failing : List String := []
  /-- Releases by their keys; of two with one key the later one counts. -/
  releases : List (Release.Key × Release) := []
  /-- Local files by their paths. -/
  files : List (String × Bytes) := []

namespace Archive

/-- Something that was asked for. -/
inductive Asked where
  | text (url : String)
  | sha512 (url : String)
  | release (k : Release.Key)
  deriving DecidableEq, Inhabited

/-- A line that tells what was asked for. -/
def Asked.line : Asked → String
  | text url => "text " ++ url
  | sha512 url => "sha512 " ++ url
  | release k => "release " ++ k.text

/-- The URL that was asked for. -/
def Asked.url? : Asked → Option String
  | text url | sha512 url => some url
  | release _ => none

/-- What was asked for so far, and how often lookups of a release are still to fail. -/
structure Visit where
  asked : List Asked := []
  toFail : List (String × Nat) := []
  /-- How many lookups of releases did not fail. -/
  reached : Nat := 0
  deriving Inhabited

/-- Answers what a lookup of a digest asks. -/
def answerSource (a : Archive) : (q : Checksum.Source) → StateM Visit q.Answer
  | .text url => fun v =>
    let v := { v with asked := v.asked ++ [.text url] }
    if url ∈ a.failing then (.error (refused url), v) else (.ok a.texts[url]?, v)
  | .sha512 url => fun v =>
    let v := { v with asked := v.asked ++ [.sha512 url] }
    if url ∈ a.failing then (.error (refused url), v)
    else (.ok (a.artifacts[url]?.map Sha512.hex), v)
  | .file path => fun v =>
    match a.files.find? (·.1 = path) with
    | none => (.error .missing, v)
    | some (_, bytes) =>
      match bytes.text? with
      | some s => (.ok s, v)
      | none => (.error .notText, v)
where
  /-- The failure of a URL that cannot be reached. -/
  refused (url : String) : Failure := ⟨[], .message ("connection reset while fetching " ++ url)⟩

/-- The release of a key. -/
def release? (a : Archive) (k : Release.Key) : Option Release :=
  (a.releases.reverse.find? fun entry => entry.1 = k).map Prod.snd

/-- Answers what a lookup of a release asks. -/
def answerRelease (a : Archive) (k : Release.Key) :
    StateM Visit (Except Failure (Option Release)) := fun (v : Visit) =>
  let v : Visit := { v with asked := v.asked ++ [Asked.release k] }
  match v.toFail.find? fun (key, n) => key = k.text && 0 < n with
  | some _ =>
    (.error (.of (.network ("fetch release " ++ k.text) "connection reset")),
      { v with toFail := v.toFail.map fun (key, n) =>
          if key = k.text then (key, n - 1) else (key, n) })
  | none =>
    (.ok (a.release? k), { v with reached := v.reached + 1 })

/-- Answers what an engine asks; `save` writes a manifest. -/
def answer {m : Type → Type} [Monad m] (a : Archive)
    (save : String → String → m (Except Failure Unit)) :
    (q : Outside) → StateT Visit m q.Answer
  | .source q => fun v => pure (answerSource a q v)
  | .release k => fun v => pure (answerRelease a k v)
  | .save path text => fun v => do return (← save path text, v)

end Archive

end Upkeep
