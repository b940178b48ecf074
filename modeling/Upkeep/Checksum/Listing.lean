import Std.Data.ExtTreeMap
import Upkeep.Text.Blank
import Upkeep.Text.Lower
import Upkeep.Text.Search

/-!
# Checksum listings

A listing is a text whose lines give a digest and the name of a file, with one blank between them.
A first line that speaks of a hash is a heading; lines of any other shape are passed over.

* `entry?`: the entry of a line.
* `Listing.get?_record`: the first entry of a file is the one that counts.
-/

namespace Upkeep.Checksum

open Text

/-- The digests of files by the name of the file. -/
structure Listing where
  digests : Std.ExtTreeMap String String

/-- Digest and file name of a line: exactly two nonempty parts with a single blank between them. -/
def entry? (line : List Char) : Option (String × String) :=
  match fields ' ' line with
  | [digest, file] =>
    if digest = [] ∨ file = [] then none
    else some (String.ofList (lower digest), String.ofList file)
  | _ => none

namespace Listing

/-- The listing of no file. -/
def empty : Listing := ⟨∅⟩

instance : Inhabited Listing := ⟨empty⟩

/-- Adds an entry, unless the file has one already. -/
def record (l : Listing) (digest file : String) : Listing :=
  ⟨l.digests.insertIfNew file digest⟩

/-- The digest of a file. -/
def get? (l : Listing) (file : String) : Option String := l.digests[file]?

/-- How many files are listed. -/
def size (l : Listing) : Nat := l.digests.size

/-- Takes up a line: a blank line or one of another shape adds nothing. -/
def takeLine (l : Listing) (line : List Char) : Listing :=
  let line := dropEnd '\r' line
  if trim line = [] then l
  else match entry? line with
    | some (digest, file) => l.record digest file
    | none => l

/-- Whether a line is a heading, when it is the first. -/
def isHeading (line : List Char) : Bool := occurs "Hash".toList (dropEnd '\r' line)

/-- The lines of a listing without its heading. -/
def body : List (List Char) → List (List Char)
  | [] => []
  | line :: rest => if isHeading line then rest else line :: rest

/-- Reads a listing. -/
def parse (s : String) : Listing := (body (lines s.toList)).foldl takeLine empty

theorem get?_record (l : Listing) (digest file name : String) :
    (l.record digest file).get? name =
      if file = name ∧ l.get? name = none then some digest else l.get? name := by
  unfold get? record
  simp only [Std.ExtTreeMap.getElem?_insertIfNew, Std.ExtTreeMap.mem_iff_isSome_getElem?]
  by_cases h : file = name
  · subst h
    cases hd : l.digests[file]? <;> simp
  · simp [h]

end Listing

end Upkeep.Checksum
