import Upkeep.Dependency
import Upkeep.Text.Search

/-!
# Scanning a command line

The words of a command line are options with their values, operands, and the name of a command, after
which that command has words of its own. An option is settled when the next one begins: only then its
value is looked at.

* `Usage`: what a command line asks for or why it is refused, in the place of work.
* `scan`: the options and operands of a grammar, up to the name of a command.
* `Scan.given_settle`: settling an option loses none of those that were settled before.
-/

namespace Upkeep.CommandLine

open Text

/-- What ends a command line without work: it asks for help, or it is refused. -/
inductive Usage where
  | help
  | version
  /-- Nothing was said at all. -/
  | nothingGiven
  | missingCommand
  | unknownCommand
  | unknownOption
  /-- An option was given twice, or with one that it excludes. -/
  | conflict
  | missingRequired
  /-- An option has no value, or an empty one where a path is needed. -/
  | missingValue
  | malformedValue
  /-- An option that takes no value was given one. -/
  | unneededValue
  deriving DecidableEq, Inhabited

/-- The exit code of a program that is used so. -/
def Usage.exitCode : Usage → Nat
  | help | version => 0
  | _ => 2

/-- What an option takes. -/
inductive Takes where
  | nothing
  /-- The option ends the command line. -/
  | ends (u : Usage)
  | text
  /-- A path, which is not empty. -/
  | path
  /-- A dependency with its version. -/
  | dependency
  deriving DecidableEq, Inhabited

/-- Why an option does not take a value. -/
def Takes.refusal? : Takes → String → Option Usage
  | path, v => if v = "" then some .missingValue else none
  | dependency, v =>
    match Dependency.parse v with
    | .ok _ => none
    | .error _ => some .malformedValue
  | _, _ => none

/-- Whether an option takes a value. -/
def Takes.isValue : Takes → Bool
  | nothing | ends _ => false
  | _ => true

/-- An option. -/
structure Switch where
  name : String
  letter : Option Char
  takes : Takes
  isRepeatable : Bool
  deriving DecidableEq, Inhabited

/-- What may stand on a command line. -/
structure Grammar where
  switches : List Switch
  commands : List String
  takesOperands : Bool
  deriving Inhabited

/-- What has been read of a command line. -/
structure Scan where
  /-- The settled options with their values. -/
  given : List (String × String) := []
  operands : List String := []
  /-- The option to be settled, and its value, if that has been read. -/
  waiting : Option (Switch × Option String) := none
  deriving Inhabited

namespace Scan

/-- Whether an option has been settled. -/
def has (s : Scan) (name : String) : Bool := s.given.any (·.1 == name)

/-- The values of an option. -/
def values (s : Scan) (name : String) : List String := (s.given.filter (·.1 == name)).map (·.2)

/-- The value of an option. -/
def value? (s : Scan) (name : String) : Option String := (s.values name).head?

/-- Whether an option waits for its value. -/
def isOpen (s : Scan) : Bool :=
  match s.waiting with
  | some (_, none) => true
  | _ => false

/-- Takes up an option with a value. -/
def add (s : Scan) (o : Switch) (v : String) : Except Usage Scan :=
  if s.has o.name && ! o.isRepeatable then .error .conflict
  else match o.takes.refusal? v with
    | some u => .error u
    | none => .ok { s with given := s.given ++ [(o.name, v)] }

/-- Settles the option that waits. -/
def settle (s : Scan) : Except Usage Scan :=
  match s.waiting with
  | none => .ok s
  | some (_, none) => .error .missingValue
  | some (o, some v) => { s with waiting := none }.add o v

/-- Takes up an option that takes no value. -/
def flag (s : Scan) (o : Switch) : Except Usage Scan := do
  let s ← s.settle
  match o.takes with
  | .ends u => .error u
  | _ => s.add o ""

/-- Takes up an option with a value that is attached to it, or that is still to come. -/
def option (s : Scan) (o : Switch) (attached : Option String) : Except Usage Scan := do
  let s ← s.settle
  match attached with
  | some v => s.add o v
  | none => .ok { s with waiting := some (o, none) }

/-- Gives the option that waits its value. -/
def fill (s : Scan) (v : String) : Scan :=
  { s with waiting := s.waiting.map fun (o, _) => (o, some v) }

theorem given_add {s t : Scan} {o : Switch} {v : String} (h : s.add o v = .ok t) :
    t.given = s.given ++ [(o.name, v)] := by
  unfold add at h
  split at h
  · simp at h
  · split at h
    · simp at h
    · simp only [Except.ok.injEq] at h
      simp [← h]

theorem given_settle {s t : Scan} (h : s.settle = .ok t) : s.given <+: t.given := by
  unfold settle at h
  split at h
  · simp only [Except.ok.injEq] at h
    simp [h]
  · simp at h
  · exact ⟨_, (given_add h).symm⟩

end Scan

/-- A word that begins with two dashes, without them. -/
def longWord (g : Grammar) (s : Scan) (w : List Char) : Except Usage Scan :=
  let name := String.ofList (w.takeWhile (· ≠ '='))
  let attached := (cut '=' w).map fun (_, v) => String.ofList v
  match g.switches.find? (·.name = name) with
  | none => .error .unknownOption
  | some o =>
    if o.takes.isValue then s.option o attached
    else if attached.isSome then .error .unneededValue
    else s.flag o

/-- A word that begins with one dash, without it: letters of options, and a value at its end. -/
def shortWord (g : Grammar) : Scan → List Char → Except Usage Scan
  | s, [] => .ok s
  | s, c :: r =>
    match g.switches.find? (·.letter = some c) with
    | none => .error .unknownOption
    | some o =>
      if o.takes.isValue then
        match r with
        | [] => s.option o none
        | '=' :: v => s.option o (some (String.ofList v))
        | v => s.option o (some (String.ofList v))
      else do shortWord g (← s.flag o) r

/-- A word that is no option. Behind two dashes the name of a command is out of place. -/
def operand (g : Grammar) (isBehind : Bool) (s : Scan) (w : String) : Except Usage Scan :=
  if g.takesOperands then do
    let s ← s.settle
    return { s with operands := s.operands ++ [w] }
  else if g.commands = [] || (isBehind && g.commands.contains w) then .error .unknownOption
  else .error .unknownCommand

/-- The words of a command line, up to the name of a command; also that name, and the words behind
it. -/
def scan (g : Grammar) : Scan → List String → Except Usage (Scan × Option (String × List String))
  | s, [] => .ok (s, none)
  | s, w :: ws =>
    -- a word after an option that still lacks its value is that value, not a command
    if g.commands.contains w && ! s.isOpen then .ok (s, some (w, ws))
    else match w.toList with
      | ['-', '-'] => do return (← ws.foldlM (operand g true) s, none)
      | '-' :: '-' :: r => do scan g (← longWord g s r) ws
      | '-' :: c :: r => do scan g (← shortWord g s (c :: r)) ws
      | _ =>
        if s.isOpen then scan g (s.fill w) ws
        else do scan g (← operand g false s w) ws

/-- The words of a command that has no commands of its own, with all options settled. -/
def scanAll (g : Grammar) (ws : List String) : Except Usage Scan := do
  let (s, _) ← scan g {} ws
  s.settle

end Upkeep.CommandLine
