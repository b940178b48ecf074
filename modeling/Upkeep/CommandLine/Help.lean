import Upkeep.CommandLine.Invocation

/-!
# Help

What is written when a command line does not lead to work.

* `Usage.lines`: the lines for a command line that asks for help or is refused.
-/

namespace Upkeep.CommandLine

/-- The name and the version of the program. -/
def programVersion : String := "update-dependencies 0.1.0"

/-- How an option is written. -/
def Switch.synopsis (o : Switch) : String :=
  (o.letter.elim "    " fun c => "-" ++ String.ofList [c] ++ ", ") ++ "--" ++ o.name
    ++ match o.takes with
      | .nothing | .ends _ => ""
      | .text => " <TEXT>"
      | .path => " <PATH>"
      | .dependency => " <NAME=VERSION>"

/-- The options of a grammar, one on a line, under a heading. -/
def Grammar.synopsis (g : Grammar) (heading : String) : List String :=
  ["", heading] ++ g.switches.map fun o => "  " ++ o.synopsis

/-- How the program is called. -/
def helpLines : List String :=
  ["Update .NET product versions and checksums in a Docker versions manifest", "",
   "Usage: update-dependencies [OPTIONS] <COMMAND>", "", "Commands:",
   "  specific  Update the manifest for specific product versions",
   "  checksum  Resolve checksums for artifact URLs",
   "  help      Print this message"]
    ++ mainGrammar.synopsis "Options:"
    ++ updateGrammar.synopsis "Options of specific:"
    ++ checksumGrammar.synopsis "Options of checksum (which takes the URLs):"

/-- Why a command line is refused. -/
def Usage.reason : Usage → String
  | help | version => ""
  | nothingGiven | missingCommand => "a command is required"
  | unknownCommand => "unrecognized command"
  | unknownOption => "unexpected argument"
  | conflict => "an argument cannot be used with another one, or more than once"
  | missingRequired => "a required argument was not provided"
  | missingValue => "a value is required for an option"
  | malformedValue => "invalid value for an option"
  | unneededValue => "unexpected value for an option"

/-- The lines for a command line that asks for help or is refused. -/
def Usage.lines : Usage → List String
  | help | nothingGiven => helpLines
  | version => [programVersion]
  | u => ["error: " ++ u.reason, "", "For more information, try '--help'."]

end Upkeep.CommandLine
