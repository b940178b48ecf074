/-!
# Problems

What can go wrong in an update, each cause with what names it, and the words it is told in.

* `Problem.text`: the one line that tells a problem.
* `Failure`: a cause under the activities during which it arose, outermost first.
* `Failure.explain`: the problem as the user is told it, with details and a suggestion.
* `Problem.plain_text`: giving up the kind of a problem does not change its words.
-/

namespace Upkeep

/-- What can go wrong in an update. -/
inductive Problem where
  /-- A variable is asked for that the manifest does not define. -/
  | missingVariable (name : String)
  /-- The manifest lacks one of its sections. -/
  | missingSection (name : String)
  /-- References lead back to a variable that is being resolved. -/
  | circularReference (chain : List String)
  /-- The pair of a variable does not stand in the text of the manifest. -/
  | patternNotFound (name : String)
  /-- The manifest cannot be read as one. -/
  | unreadableManifest (file reason : String)
  /-- No source has a digest for the artifact of a variable. -/
  | noChecksum (name url : String)
  /-- An exchange with a server failed, other than by "not found". -/
  | network (operation reason : String)
  /-- The settings do not determine what to do. -/
  | settings (message : String)
  /-- A text does not name a dependency and its version. -/
  | invalidDependency (name reason : String)
  /-- A version does not begin with the numbers that are needed. -/
  | invalidVersion (version : String)
  /-- A run ended and had recorded errors. -/
  | runFailed (count : Nat)
  /-- A file operation failed, with no more known about it. -/
  | fileTrouble (message : String)
  /-- A JSON text was refused. -/
  | badJson (message : String)
  /-- A TOML text was refused. -/
  | badToml (message : String)
  /-- Anything else. -/
  | other (message : String)
  deriving DecidableEq, Inhabited

/-- The words that stand for a refused TOML text. -/
def tomlRefused : String := "TOML parse error"

/-- The line that tells a problem. -/
def Problem.text : Problem → String
  | missingVariable name => "Variable '" ++ name ++ "' is not defined in the manifest"
  | missingSection name => "Manifest has no '" ++ name ++ "' section"
  | circularReference chain => "Circular variable reference: " ++ " -> ".intercalate chain
  | patternNotFound name =>
    "Could not find the pattern for variable '" ++ name ++ "' in the manifest text"
  | unreadableManifest file reason => "Failed to parse manifest " ++ file ++ ": " ++ reason
  | noChecksum name url =>
    "Could not resolve a checksum for '" ++ name ++ "' from " ++ url
  | network operation reason => "Network error during " ++ operation ++ ": " ++ reason
  | settings message => "Configuration error: " ++ message
  | invalidDependency name reason => "Invalid dependency '" ++ name ++ "': " ++ reason
  | invalidVersion version => "Invalid version: " ++ version
  | runFailed count => "Update run finished with " ++ toString count ++ " error(s)"
  | fileTrouble message => "IO error: " ++ message
  | badJson message => "JSON error: " ++ message
  | badToml message => "TOML parsing error: " ++ message
  | other message => message

/-- A problem as it can be told again: one that came from outside keeps its words only. -/
def Problem.plain : Problem → Problem
  | fileTrouble message => .other (fileTrouble message).text
  | badJson message => .other (badJson message).text
  | badToml message => .other (badToml message).text
  | p => p

theorem Problem.plain_text (p : Problem) : p.plain.text = p.text := by
  cases p <;> rfl

/-- Why a file operation failed, as far as advice depends on it. -/
inductive FileError.Kind where
  | notFound
  | permissionDenied
  | other
  deriving DecidableEq, Inhabited

/-- A failed file operation, in the words of the system. -/
structure FileError where
  kind : FileError.Kind
  text : String
  deriving DecidableEq, Inhabited

namespace FileError

/-- The name, or a directory on the way to it, does not exist. -/
def missing : FileError := ⟨.notFound, "No such file or directory (os error 2)"⟩

/-- The name is taken. -/
def taken : FileError := ⟨.other, "File exists (os error 17)"⟩

/-- A directory is needed where something else stands. -/
def notDirectory : FileError := ⟨.other, "Not a directory (os error 20)"⟩

/-- A file is needed where a directory stands. -/
def isDirectory : FileError := ⟨.other, "Is a directory (os error 21)"⟩

/-- The name stands for a directory that is in use. -/
def busy : FileError := ⟨.other, "Device or resource busy (os error 16)"⟩

/-- A name on the path has more than 255 bytes. -/
def nameTooLong : FileError := ⟨.other, "File name too long (os error 36)"⟩

/-- A name on the path holds the character that ends names. -/
def badName : FileError := ⟨.other, "file name contained an unexpected NUL byte"⟩

/-- The file is not UTF-8. -/
def notText : FileError := ⟨.other, "stream did not contain valid UTF-8"⟩

end FileError

/-- The innermost cause of a failure. -/
inductive Cause where
  | problem (p : Problem)
  | file (e : FileError)
  /-- A TOML text was refused. -/
  | toml
  /-- Anything else, in words. -/
  | message (text : String)
  deriving DecidableEq, Inhabited

/-- The words of a cause. -/
def Cause.text : Cause → String
  | problem p => p.text
  | file e => e.text
  | toml => tomlRefused
  | message text => text

/-- A cause under the activities during which it arose, outermost first. -/
structure Failure where
  contexts : List String
  cause : Cause
  deriving DecidableEq, Inhabited

namespace Failure

/-- A problem that arose during nothing in particular. -/
def of (p : Problem) : Failure := ⟨[], .problem p⟩

/-- A failure, told as arising during an activity. -/
def during (activity : String) (f : Failure) : Failure := { f with contexts := activity :: f.contexts }

/-- A failed file operation during an activity. -/
def ofFile (activity : String) (e : FileError) : Failure := ⟨[activity], .file e⟩

/-- The activities and the cause, outermost first. -/
def chain (f : Failure) : List String := f.contexts ++ [f.cause.text]

/-- The whole chain on one line. -/
def text (f : Failure) : String := ": ".intercalate f.chain

end Failure

/-- A problem as the user is told it. -/
structure Explanation where
  problem : Problem
  details : Option String
  suggestion : Option String
  deriving DecidableEq, Inhabited

namespace Explanation

/-- The explanation as one text. -/
def text (e : Explanation) : String :=
  e.problem.text
    ++ (match e.details with | some d => "\nDetails: " ++ d | none => "")
    ++ (match e.suggestion with | some s => "\nSuggestion: " ++ s | none => "")

/-- The explanation as it is written for the user, line by line. -/
def lines (e : Explanation) : List String :=
  ["error: " ++ e.problem.text]
    ++ (e.details.map ("details: " ++ ·)).toList
    ++ (e.suggestion.map ("suggestion: " ++ ·)).toList

end Explanation

/-- What is known of a problem beyond its text. -/
def Problem.explain (p : Problem) : Explanation :=
  let tell (suggestion details : Option String) : Explanation := ⟨p, details, suggestion⟩
  match p with
  | missingVariable name =>
    tell (some ("Add '" ++ name ++ "' to the \"variables\" section of the manifest"))
      (some "Every variable discovered by an updater must exist before it can be updated")
  | missingSection _ =>
    tell (some "The manifest must be a JSON object with a top-level \"variables\" object")
      (some "Only string values are supported inside \"variables\"")
  | circularReference _ =>
    tell (some "Replace one of the $(name) references in the cycle with a literal value") none
  | patternNotFound _ =>
    tell (some "Make sure the variable is written as \"name\": \"value\" in the manifest")
      (some "Manifest edits are applied textually so formatting and comments are preserved")
  | unreadableManifest file _ => tell (some ("Check the JSON syntax in " ++ file)) none
  | noChecksum _ _ =>
    tell (some "Pass --checksums-file or check the URL templates in the configuration")
      (some "Hashing the artifact is the last resort; see --no-compute-shas")
  | network _ _ =>
    tell (some "Check your internet connection and retry")
      (some "A 404 means 'not found'; any other failure status is a network error")
  | settings _ =>
    tell (some "Pass --dockerfile-version or a runtime, aspnet or sdk version") none
  | invalidDependency _ _ =>
    tell (some "Use the form NAME=VERSION, for example --product-version runtime=9.0.0") none
  | invalidVersion _ =>
    tell (some "Versions must start with a numeric major.minor.patch triple") none
  | runFailed _ =>
    tell none (some "Variables that could not be updated kept their current values")
  | badJson _ => tell (some "Check the JSON syntax of the manifest") none
  | fileTrouble _ | badToml _ | other _ => tell none none

/-- The causes below the outermost line, numbered from one. -/
def Failure.causedBy (lines : List String) : String :=
  if lines = [] then ""
  else "\n\nCaused by:" ++ String.join
    (lines.zipIdx.map fun (line, i) => "\n  " ++ toString (i + 1) ++ ": " ++ line)

/-- How a failure is explained to the user. A problem is explained by itself, whatever it arose
during; a file that may not be written or does not exist, and a refused settings file, get a hint;
anything else is told with its whole chain. -/
def Failure.explain (f : Failure) : Explanation :=
  match f.cause with
  | .problem p => p.plain.explain
  | .file ⟨.permissionDenied, _⟩ =>
    ⟨.other ("Permission denied: " ++ f.text), none,
      some "Check that the manifest file is writable by the current user"⟩
  | .file ⟨.notFound, _⟩ =>
    ⟨.other ("File not found: " ++ f.text), none,
      some "Check that the manifest path is correct (see --manifest)"⟩
  | .toml =>
    ⟨.settings tomlRefused,
      some "Read from --config, UPDATE_DEPS_CONFIG_PATH or ~/.update-deps/config.toml",
      some "Check the TOML syntax in your configuration file"⟩
  | _ =>
    match f.chain with
    | [] => ⟨.other "", none, none⟩
    | line :: rest => ⟨.other (line ++ Failure.causedBy rest), none, none⟩

end Upkeep
