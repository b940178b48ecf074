import Upkeep.CommandLine.Execution
import Upkeep.CommandLine.Help

/-!
# The program

Connects the work of the command line with the files, the environment and the output channels of the
machine. There is no transport for exchanges with servers, so each server counts as one that cannot be
reached; digests come from local listings.
-/

namespace Upkeep.Program

open CommandLine

/-- A failed file operation of the machine. -/
def fileError : IO.Error → FileError
  | .noFileOrDirectory .. => .missing
  | .permissionDenied .. => ⟨.permissionDenied, "Permission denied (os error 13)"⟩
  | .alreadyExists .. => .taken
  | e => ⟨.other, toString e⟩

/-- Tries a file operation. -/
def attempt {α : Type} (operation : IO α) : IO (Except FileError α) := do
  return (← operation.toBaseIO).mapError fileError

/-- The bytes of a buffer. -/
def bytesOf (b : ByteArray) : Bytes := b.toList

/-- A buffer of bytes. -/
def bufferOf (b : Bytes) : ByteArray := ⟨b.toArray⟩

/-- Whether something can be opened under a path. -/
def isThere (path : String) : IO Bool := do
  return (← attempt (discard (IO.FS.Handle.mk path .read))).toBool

/-- Answers what is asked of the surroundings. -/
def answer : (q : Surroundings.Question) → IO q.Answer
  | .exchange _ => return none
  | .files (.read path) => attempt (bytesOf <$> IO.FS.readBinFile path)
  | .files (.isThere path) => isThere path
  | .files (.createDirectories path) => attempt (IO.FS.createDirAll path)
  | .files (.create path) => attempt (IO.FS.writeBinFile path (bufferOf []))
  | .files (.write path content) => attempt (IO.FS.writeBinFile path (bufferOf content))
  | .files (.rename old new) => attempt (IO.FS.rename old new)

/-- Does what a command line says. -/
def run (words : List String) : IO UInt32 := do
  match Invocation.parse words with
  | .error u =>
    u.lines.forM (if u.exitCode = 0 then (IO.println ·) else (IO.eprintln ·))
    return u.exitCode.toUInt32
  | .ok i =>
    let place : Place := ⟨← IO.getEnv "UPDATE_DEPS_CONFIG_PATH", ← IO.getEnv "HOME"⟩
    let outcome ← (i.execute place).perform answer
    outcome.result.forM (IO.println ·)
    outcome.allNotes.forM (IO.eprintln ·)
    return outcome.exitCode.toUInt32

end Upkeep.Program

def main (words : List String) : IO UInt32 := Upkeep.Program.run words
