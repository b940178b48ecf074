import Upkeep.Text.Search
import Upkeep.Text.Word

/-!
# References

A value may hold references `$(name)` to variables. A single scan from left to right finds them; a
dollar sign that opens no reference is a plain character.

* `Piece.ofText`: a text as plain characters and references.
* `Piece.written_ofText`: the scan loses nothing.
* `isWholeReference`: whether a text is one reference from end to end.
-/

namespace Upkeep

open Text

/-- A part of a value: a plain character, or a reference to a variable. -/
inductive Piece where
  | plain (c : Char)
  | reference (name : String)
  deriving DecidableEq, Inhabited

namespace Piece

/-- A character that may stand in the name of a reference. -/
def isNameChar (c : Char) : Bool :=
  isWord c || c == ':' || c == '-' || c == '.' || c == '|'

/-- The name of a reference at the front of a text, and what follows the reference. -/
def reference? : List Char → Option (List Char × List Char)
  | '$' :: '(' :: s =>
    if s.takeWhile isNameChar = [] then none
    else match s.dropWhile isNameChar with
      | ')' :: r => some (s.takeWhile isNameChar, r)
      | _ => none
  | _ => none

theorem eq_of_reference? {s name r : List Char} (h : reference? s = some (name, r)) :
    s = '$' :: '(' :: name ++ ')' :: r := by
  unfold reference? at h
  split at h
  · rename_i t
    split at h
    · simp at h
    · split at h
      · rename_i r' hr
        obtain ⟨rfl, rfl⟩ := Prod.mk.inj (Option.some.inj h)
        have := t.takeWhile_append_dropWhile (p := isNameChar)
        rw [hr] at this
        simp [this]
      · simp at h
  · simp at h

theorem length_of_reference? {s name r : List Char} (h : reference? s = some (name, r)) :
    r.length < s.length := by
  rw [eq_of_reference? h]
  simp
  omega

/-- The pieces of a text, as one scan from left to right finds them. -/
def ofText (s : List Char) : List Piece :=
  match h : reference? s with
  | some (name, r) =>
    have := length_of_reference? h
    reference (String.ofList name) :: ofText r
  | none =>
    match s with
    | [] => []
    | c :: r => plain c :: ofText r
termination_by s.length

/-- How a piece is written. -/
def written : Piece → List Char
  | plain c => [c]
  | reference name => '$' :: '(' :: name.toList ++ [')']

theorem written_ofText (s : List Char) : (ofText s).flatMap written = s := by
  fun_induction ofText s with
  | case1 s name r h hlt ih => simp [written, ih, eq_of_reference? h]
  | case2 h => rfl
  | case3 c r h ih => simp [written, ih]

end Piece

/-- Whether a text is a reference from end to end, on one line. Such a value stays as it is: the
variable that it refers to gets the new value. -/
def isWholeReference (value : String) : Bool :=
  match value.toList with
  | '$' :: '(' :: r => r.getLast? == some ')' && ! r.contains '\n'
  | _ => false

end Upkeep
