import Upkeep.Problem
import Upkeep.Text.Search
import Upkeep.Text.Digit

/-!
# Versions

A version is a text such as `9.0.100-rc.2.24474.11`. The module derives from it the forms that name
a release: the tag, the preview version, the Dockerfile version and the numeric triple.

* `Version.tag`: everything up to the label, without a label that marks a stable build.
* `Version.preview?`: the version of a preview without its build number.
* `Version.dockerfile`: the first two numbers.
* `Version.numeric?`: the first three numbers, after a customary lead such as `v`.
* `Version.highest`: the first version of a list with the greatest numeric triple.
-/

namespace Upkeep

open Text

namespace Version

/-- The labels of stable builds, which a tag does not carry. -/
def stableLabels : List (List Char) := ["-servicing".toList, "-rtm".toList]

/-- A text without the first of the given endings that it has. -/
def dropEnding : List (List Char) → List Char → List Char
  | [], s => s
  | e :: es, s => (before? e s).getD (dropEnding es s)

/-- The part of a label that a tag keeps: up to its hyphen, or else up to its dot. -/
def tagLabel (label : List Char) : List Char :=
  match cut '-' label with
  | some (kept, _) => kept
  | none => upTo ['.'] label

/-- The tag of a build, on characters. -/
def tagChars (v : List Char) : List Char :=
  match cut '-' v with
  | none => v
  | some (release, label) => dropEnding stableLabels (release ++ '-' :: tagLabel label)

/-- The tag of a build. The label after the first hyphen is cut at a further hyphen, or else at its
first dot, and a label that then marks a stable build is dropped. -/
def tag (v : String) : String := String.ofList (tagChars v.toList)

/-- The nonempty run of characters of a class at the front, and the rest. -/
def run? (p : Char → Bool) (s : List Char) : Option (List Char × List Char) :=
  if s.takeWhile p = [] then none else some (s.takeWhile p, s.dropWhile p)

/-- Runs of decimal digits with dots between them, `n + 1` of them, and the rest. -/
def numbers? : Nat → List Char → Option (List (List Char) × List Char)
  | 0, s => (run? isDecimalDigit s).map fun (d, r) => ([d], r)
  | n + 1, s =>
    match run? isDecimalDigit s with
    | some (d, '.' :: r) => (numbers? n r).map fun (ds, r) => (d :: ds, r)
    | _ => none

/-- An ASCII letter. -/
def isLetter (c : Char) : Bool := c.isAlpha

/-- The preview version on characters: three numbers, a word, and the number of the preview, when a
dot and more follows. -/
def previewChars (v : List Char) : Option (List Char) :=
  match numbers? 2 v with
  | some (triple, '-' :: r) =>
    match run? isLetter r with
    | some (label, '.' :: r) =>
      match run? isDecimalDigit r with
      | some (n, '.' :: _) => some (join ['.'] triple ++ '-' :: label ++ '.' :: n)
      | _ => none
    | _ => none
  | _ => none

/-- The preview version of a preview build, which names the release that the build went into. -/
def preview? (v : String) : Option String := (previewChars v.toList).map String.ofList

/-- The major and minor number, under which the variables of a release are kept. -/
def dockerfile? (v : String) : Option String :=
  (numbers? 1 v.toList).map fun (ds, _) => String.ofList (join ['.'] ds)

/-- The Dockerfile version, or the problem that the version has none. -/
def dockerfile (v : String) : Except Problem String :=
  match dockerfile? v with
  | some d => .ok d
  | none => .error (.invalidVersion v)

end Version

/-- The numeric triple of a version; a triple is compared number by number. -/
structure Triple where
  major : Nat
  minor : Nat
  patch : Nat
  deriving DecidableEq, Inhabited

namespace Triple

/-- Whether a triple comes before another. -/
def lt (a b : Triple) : Bool :=
  a.major < b.major ||
    (a.major == b.major && (a.minor < b.minor || (a.minor == b.minor && a.patch < b.patch)))

/-- The three numbers with dots between them. -/
def text (t : Triple) : String :=
  toString t.major ++ "." ++ toString t.minor ++ "." ++ toString t.patch

end Triple

namespace Version

/-- The leads that are passed over before the numbers. -/
def leads : List (List Char) := ["version-".toList, "release-".toList, ['v']]

/-- A text without the first of the leads that it has. -/
def dropLead (s : List Char) : List Char := (leads.findSome? (after? · s)).getD s

/-- A number in ASCII digits below 2^64. -/
def part? (s : List Char) : Option Nat := (natural? s).filter (· < 0x10000000000000000)

/-- The numeric triple on characters. -/
def numericChars (v : List Char) : Option Triple :=
  match numbers? 2 (dropLead v) with
  | some ([a, b, c], _) => do return ⟨← part? a, ← part? b, ← part? c⟩
  | _ => none

/-- The numeric triple at the front of a version; whatever follows it is ignored. -/
def numeric? (v : String) : Option Triple := numericChars v.toList

/-- The numeric triple, or the problem that the version has none. -/
def numeric (v : String) : Except Problem Triple :=
  match numeric? v with
  | some t => .ok t
  | none => .error (.invalidVersion v)

/-- The better of what was found so far and a version: a version without a triple never is, and a
later one only if its triple is greater. -/
def better (best : Option (String × Triple)) (v : String) : Option (String × Triple) :=
  match numeric? v, best with
  | none, _ => best
  | some t, none => some (v, t)
  | some t, some (w, u) => if u.lt t then some (v, t) else some (w, u)

/-- The first version of a list with the greatest numeric triple. -/
def highest (versions : List String) : Option String :=
  (versions.foldl better none).map Prod.fst

end Version

end Upkeep
