import Std.Data.ExtTreeMap
import Upkeep.Bytes
import Upkeep.Files.Path
import Upkeep.Problem

/-!
# Trees of files

Files and directories by their names, and what the operations on them do and answer.

* `FileTree.read`, `FileTree.create`, `FileTree.write`, `FileTree.rename`: the operations on files.
* `FileTree.createDirectories`: a directory with all those on the way to it.
* `FileTree.filesIn`: the files below a directory with their content.
-/

namespace Upkeep

open Text

/-- What a name stands for. -/
inductive Entry where
  | file (content : Bytes)
  | directory
  deriving DecidableEq, Inhabited

/-- The files and directories by their names from the root on, and the directory where relative paths
begin. -/
structure FileTree where
  entries : Std.ExtTreeMap (List String) Entry := ∅
  here : List String := []

/-- The end of a path on the way from its directory. -/
inductive LastName where
  | name (s : String)
  /-- The directory itself or the one above it. -/
  | dots
  deriving DecidableEq, Inhabited

/-- Where a path leads: a directory, the last name, and whether a slash follows it. -/
structure Spot where
  directory : List String
  last : LastName
  slash : Bool
  deriving DecidableEq, Inhabited

namespace FileTree

/-- What stands at a place; the root is a directory. -/
def entry? (t : FileTree) (place : List String) : Option Entry :=
  if place = [] then some .directory else t.entries[place]?

/-- Puts an entry at a place. -/
def put (t : FileTree) (place : List String) (e : Entry) : FileTree :=
  { t with entries := t.entries.insert place e }

/-- Removes what stands at a place. -/
def remove (t : FileTree) (place : List String) : FileTree :=
  { t with entries := t.entries.erase place }

/-- Whether a name has more than 255 bytes. -/
def isTooLong (name : String) : Bool := 255 < utf8Size name.toList

/-- The directory that segments lead to. -/
def walk (t : FileTree) : List String → List String → Except FileError (List String)
  | place, [] => .ok place
  | place, s :: rest =>
    if Path.isVoid s then walk t place rest
    else if s = ".." then walk t place.dropLast rest
    else if isTooLong s then .error .nameTooLong
    else
      match t.entry? (place ++ [s]) with
      | none => .error .missing
      | some (.file _) => .error .notDirectory
      | some .directory => walk t (place ++ [s]) rest

/-- Where a path leads. -/
def locate (t : FileTree) (path : String) : Except FileError Spot :=
  if path = "" then .error .missing
  else if path.toList.contains '\x00' then .error .badName
  else
    let start := if Path.isAbsolute path then [] else t.here
    let segments := Path.segments path
    match segments.reverse.dropWhile (· = "") with
    | [] => .ok ⟨[], .dots, false⟩
    | last :: before =>
      (walk t start before.reverse).bind fun directory =>
        if last = "." ∨ last = ".." then (walk t directory [last]).map (⟨·, .dots, false⟩)
        else if isTooLong last then .error .nameTooLong
        else .ok ⟨directory, .name last, segments.getLast? = some ""⟩

/-- The place of a last name, when it is one. -/
def Spot.place? (s : Spot) : Option (List String) :=
  match s.last with
  | .name n => some (s.directory ++ [n])
  | .dots => none

/-- What a path stands for. -/
def lookup (t : FileTree) (path : String) : Except FileError Entry :=
  (t.locate path).bind fun s =>
    match Spot.place? s with
    | none => .ok .directory
    | some place =>
      match t.entry? place with
      | none => .error .missing
      | some (.file c) => if s.slash then .error .notDirectory else .ok (.file c)
      | some .directory => .ok .directory

/-- Whether a path stands for anything. -/
def exists? (t : FileTree) (path : String) : Bool := (t.lookup path).toBool

/-- Whether a path stands for a directory. -/
def isDirectory (t : FileTree) (path : String) : Bool :=
  match t.lookup path with
  | .ok .directory => true
  | _ => false

/-- The content of a file. -/
def read (t : FileTree) (path : String) : Except FileError Bytes :=
  (t.lookup path).bind fun
    | .file c => .ok c
    | .directory => .error .isDirectory

/-- Makes a directory, whose name must be free. -/
def createDirectory (t : FileTree) (path : String) : Except FileError FileTree :=
  (t.locate path).bind fun s =>
    match Spot.place? s with
    | none => .error .taken
    | some place =>
      match t.entry? place with
      | some _ => .error .taken
      | none => .ok (t.put place .directory)

/-- Those among the directories of a path, deepest first, that have to be made, and the tree in which
the one above them has been made. -/
def climb (t : FileTree) : List String → List String → FileTree × Except FileError (List String)
  | missing, [] => (t, .ok missing)
  | missing, p :: rest =>
    -- the root and the place where relative paths begin are always there
    if p = "" ∨ Path.parent? p = none then (t, .ok missing)
    else
      match t.createDirectory p with
      | .ok t => (t, .ok missing)
      | .error e =>
        -- only then the directory above has to be made first
        if e = .missing then climb t (p :: missing) rest
        else if e = .taken ∧ t.isDirectory p then (t, .ok missing)
        else (t, .error e)

/-- Makes directories, the outermost first; those that are there already stay. -/
def createAll (t : FileTree) : List String → FileTree × Except FileError Unit
  | [] => (t, .ok ())
  | p :: rest =>
    match t.createDirectory p with
    | .ok t => createAll t rest
    | .error e => if e = .taken ∧ t.isDirectory p then createAll t rest else (t, .error e)

/-- Makes a directory with all those on the way to it. -/
def createDirectories (t : FileTree) (path : String) : FileTree × Except FileError Unit :=
  match t.climb [] (Path.ancestors (path.length + 1) path) with
  | (t, .error e) => (t, .error e)
  | (t, .ok missing) => createAll t missing

/-- Gives a file its content; the file is made when there is none. -/
def write (t : FileTree) (path : String) (content : Bytes) : Except FileError FileTree :=
  (t.locate path).bind fun s =>
    match Spot.place? s with
    | none => .error .isDirectory
    | some place =>
      if s.slash ∨ t.entry? place = some .directory then .error .isDirectory
      else .ok (t.put place (.file content))

/-- Makes an empty file, or empties the one that is there. -/
def create (t : FileTree) (path : String) : Except FileError FileTree := t.write path []

/-- Gives a file another name, in the place of any other file of that name. -/
def rename (t : FileTree) (old new : String) : Except FileError FileTree :=
  (t.locate old).bind fun origin =>
    (t.locate new).bind fun goal =>
      match Spot.place? origin, Spot.place? goal with
      | some source, some target =>
        match t.entry? source with
        | none => .error .missing
        | some e =>
          if goal.slash then .error .notDirectory
          else if t.entry? target = some .directory then .error .isDirectory
          else .ok ((t.remove source).put target e)
      | _, _ => .error .busy

/-- The files below a directory, by the names from there on, with their content. -/
def filesIn (t : FileTree) (directory : List String) : List (List String × Bytes) :=
  t.entries.toList.filterMap fun (place, e) =>
    match e with
    | .file c => if directory.isPrefixOf place then some (place.drop directory.length, c) else none
    | .directory => none

/-- Puts a file at a place, with all directories on the way to it. -/
def place (t : FileTree) (directory : List String) (names : List String) (content : Bytes) :
    FileTree :=
  match names with
  | [] => t
  | [name] => t.put (directory ++ [name]) (.file content)
  | name :: rest =>
    place (t.put (directory ++ [name]) .directory) (directory ++ [name]) rest content

end FileTree

end Upkeep
