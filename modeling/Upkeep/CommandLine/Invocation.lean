import Upkeep.CommandLine.Scan

/-!
# Invocations

What the program is told to do: to update a manifest for given versions, or to find the digests of
artifacts. Some options may stand before the name of the command as well as behind it.

* `Invocation.parse`: reads the words of a command line.
* `Invocation.logLevel`: what the program is to tell of its work.
-/

namespace Upkeep.CommandLine

/-- How a manifest is to be updated. -/
structure UpdateOptions where
  manifest : String
  dependencies : List Dependency
  dockerfileVersion : Option String
  checksumsFile : Option String
  releaseState : Bool
  baseUrl : Option String
  isInternal : Bool
  internalBaseUrl : Option String
  branch : Option String
  noHashing : Bool
  /-- Whether the manifest is left as it is. -/
  isTrial : Bool
  /-- Whether the report is written as JSON. -/
  asJson : Bool
  deriving DecidableEq, Inhabited

/-- Which digests are to be found. -/
structure ChecksumOptions where
  urls : List String
  product : String
  buildVersion : Option String
  checksumsFile : Option String
  noHashing : Bool
  deriving DecidableEq, Inhabited

/-- What is to be done. -/
inductive Command where
  | update (o : UpdateOptions)
  | checksum (o : ChecksumOptions)
  deriving DecidableEq, Inhabited

/-- What the program is told to do. -/
structure Invocation where
  isVerbose : Bool
  isQuiet : Bool
  /-- The file of the settings. -/
  config : Option String
  command : Command
  deriving DecidableEq, Inhabited

/-- The manifest when no other is named. -/
def defaultManifest : String := "manifest.versions.json"

/-- The product when no other is named. -/
def defaultProduct : String := "runtime"

/-- An option that takes no value. -/
def flag (name : String) : Switch := ⟨name, none, .nothing, false⟩

/-- An option with a text. -/
def text (name : String) : Switch := ⟨name, none, .text, false⟩

/-- An option with a path. -/
def path (name : String) (letter : Option Char) : Switch := ⟨name, letter, .path, false⟩

/-- The options that may stand before the name of a command as well as behind it. -/
def everywhere : List Switch :=
  [⟨"help", some 'h', .ends .help, false⟩, ⟨"verbose", some 'v', .nothing, false⟩,
   ⟨"quiet", some 'q', .nothing, false⟩, path "config" (some 'c')]

/-- What stands before the name of a command, and that name. -/
def mainGrammar : Grammar :=
  ⟨everywhere ++ [⟨"version", some 'V', .ends .version, false⟩],
   ["specific", "checksum", "help"], false⟩

/-- What is said of an update. -/
def updateGrammar : Grammar :=
  ⟨everywhere ++ [path "manifest" (some 'm'), ⟨"product-version", some 'p', .dependency, true⟩,
      text "dockerfile-version", path "checksums-file" none, flag "release-state", text "base-url",
      flag "internal", text "internal-base-url", text "branch", flag "no-compute-shas",
      flag "dry-run", flag "json"],
   [], false⟩

/-- What is said of digests to be found. -/
def checksumGrammar : Grammar :=
  ⟨everywhere ++ [text "product", text "build-version", path "checksums-file" none,
      flag "no-compute-shas"],
   [], true⟩

/-- Refuses a command line on a condition. -/
def refuseIf (condition : Bool) (u : Usage) : Except Usage Unit :=
  if condition then .error u else .ok ()

/-- Refuses options that exclude each other. -/
def checkVolume (s : Scan) : Except Usage Unit := refuseIf (s.has "verbose" && s.has "quiet") .conflict

/-- The update that a command line asks for. -/
def updateOf (s : Scan) : Except Usage Command := do
  checkVolume s
  refuseIf (s.has "internal-base-url" && ! s.has "internal") .missingRequired
  return .update {
    manifest := (s.value? "manifest").getD defaultManifest
    dependencies := (s.values "product-version").filterMap fun v => (Dependency.parse v).toOption
    dockerfileVersion := s.value? "dockerfile-version"
    checksumsFile := s.value? "checksums-file"
    releaseState := s.has "release-state"
    baseUrl := s.value? "base-url"
    isInternal := s.has "internal"
    internalBaseUrl := s.value? "internal-base-url"
    branch := s.value? "branch"
    noHashing := s.has "no-compute-shas"
    isTrial := s.has "dry-run"
    asJson := s.has "json" }

/-- The digests that a command line asks for. -/
def checksumOf (s : Scan) : Except Usage Command := do
  checkVolume s
  refuseIf s.operands.isEmpty .missingRequired
  return .checksum {
    urls := s.operands
    product := (s.value? "product").getD defaultProduct
    buildVersion := s.value? "build-version"
    checksumsFile := s.value? "checksums-file"
    noHashing := s.has "no-compute-shas" }

/-- What a request for help ends with: help on a command is known for the commands only. -/
def helpOn : List String → Usage
  | [] => .help
  | [name] => if mainGrammar.commands.contains name then .help else .unknownCommand
  | _ => .unknownCommand

/-- The command of a name, and what was read of its words. -/
def commandOf (name : String) (words : List String) : Except Usage (Scan × Command) :=
  if name = "specific" then do
    let s ← scanAll updateGrammar words
    return (s, ← updateOf s)
  else if name = "checksum" then do
    let s ← scanAll checksumGrammar words
    return (s, ← checksumOf s)
  else .error (helpOn words)

namespace Invocation

/-- Reads the words of a command line. -/
def parse (words : List String) : Except Usage Invocation := do
  let (before, rest) ← scan mainGrammar {} words
  match rest with
  | none =>
    let before ← before.settle
    .error (if before.given.isEmpty then .nothingGiven else .missingCommand)
  | some (name, words) =>
    let (s, command) ← commandOf name words
    let before ← before.settle
    checkVolume before
    return {
      isVerbose := before.has "verbose" || s.has "verbose"
      isQuiet := before.has "quiet" || s.has "quiet"
      config := (s.value? "config").or (before.value? "config")
      command }

/-- What the program is to tell of its work, if anything was said about that. -/
def logLevel (i : Invocation) : Option String :=
  if i.isVerbose then some "debug" else if i.isQuiet then some "error" else none

end Invocation

end Upkeep.CommandLine
