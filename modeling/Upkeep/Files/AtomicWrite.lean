import Upkeep.Files.Tree
import Upkeep.Inquiry

/-!
# Writing a file in one step

New content goes to a temporary file next to the file, which then takes the name of the file. A
reader never meets a file that is half written.

* `Files.Question`: what is asked of a system of files, and `Files.answer` answers from a tree.
* `Files.writeAtomically`: the content of a file, replaced in one step.
-/

namespace Upkeep.Files

/-- What is asked of a system of files. -/
inductive Question where
  | read (path : String)
  | isThere (path : String)
  | createDirectories (path : String)
  | create (path : String)
  | write (path : String) (content : Bytes)
  | rename (old new : String)
  deriving DecidableEq, Inhabited

/-- What it answers. -/
def Question.Answer : Question → Type
  | read _ => Except FileError Bytes
  | isThere _ => Bool
  | createDirectories _ => Except FileError Unit
  | create _ => Except FileError Unit
  | write _ _ => Except FileError Unit
  | rename _ _ => Except FileError Unit

/-- The work on a system of files. -/
abbrev Work (α : Type) := Inquiry Question Question.Answer α

/-- Makes a directory with all those on the way to it. -/
def createDirectories (path : String) : Work (Except FileError Unit) :=
  Inquiry.ask (Question.createDirectories path) Inquiry.done

/-- Makes an empty file. -/
def create (path : String) : Work (Except FileError Unit) :=
  Inquiry.ask (Question.create path) Inquiry.done

/-- Gives a file its content. -/
def write (path : String) (content : Bytes) : Work (Except FileError Unit) :=
  Inquiry.ask (Question.write path content) Inquiry.done

/-- Gives a file another name. -/
def rename (old new : String) : Work (Except FileError Unit) :=
  Inquiry.ask (Question.rename old new) Inquiry.done

/-- Goes on when an operation did not fail; a failure is told with what was being done. -/
def next (activity : String) (operation : Work (Except FileError Unit))
    (rest : Work (Except Failure Unit)) : Work (Except Failure Unit) := do
  match ← operation with
  | .error e => return .error (.ofFile activity e)
  | .ok () => rest

/-- Makes the directory of a path, if the path names one. -/
def makeParent (path : String) (rest : Work (Except Failure Unit)) : Work (Except Failure Unit) :=
  match Path.parent? path with
  | none => rest
  | some "" => rest
  | some parent => next ("Failed to create directory: " ++ parent) (createDirectories parent) rest

/-- Replaces the content of a file in one step. The directory of the file is made if it is not there. -/
def writeAtomically (path : String) (content : Bytes) : Work (Except Failure Unit) :=
  let temporary := Path.temporary path
  makeParent path <|
    next ("Failed to create temp file: " ++ temporary) (create temporary) <|
      next ("Failed to write to temp file: " ++ temporary) (write temporary content) <|
        next ("Failed to rename temp file to: " ++ path) (rename temporary path) <|
          return .ok ()

/-- Takes over a tree that an operation made, if it did not fail. -/
def settle (t : FileTree) : Except FileError FileTree → Except FileError Unit × FileTree
  | .ok t => (.ok (), t)
  | .error e => (.error e, t)

/-- Answers from a tree of files. -/
def answer : (q : Question) → StateM FileTree q.Answer
  | .read path => fun t => (t.read path, t)
  | .isThere path => fun t => (t.exists? path, t)
  | .createDirectories path => fun t =>
    let (t, result) := t.createDirectories path
    (result, t)
  | .create path => fun t => settle t (t.create path)
  | .write path content => fun t => settle t (t.write path content)
  | .rename old new => fun t => settle t (t.rename old new)

/-- Does work on a tree of files. -/
def onTree {α : Type} (w : Work α) (t : FileTree) : α × FileTree := (w.perform answer).run t

end Upkeep.Files
