import Upkeep.Text.Blank
import Upkeep.Text.Digit
import Upkeep.Text.Fold
import Upkeep.Text.Word

/-!
# Sets of characters

The sets that a regular expression names, as terms: single characters and ranges, the classes of
digits, blanks and word characters, and what is built from them.

* `CharSet.mem`: whether a character is in a set.
* `CharSet.mem_anyCase`: a set up to case holds what agrees with a member up to case.
-/

namespace Upkeep.Regex

open Text

/-- A set of characters. -/
inductive CharSet where
  | range (lo hi : Nat)
  | digit
  | blank
  | word
  | union (a b : CharSet)
  | inter (a b : CharSet)
  | complement (a : CharSet)
  /-- The characters that agree with a member up to case. -/
  | anyCase (a : CharSet)
  deriving DecidableEq, Inhabited

namespace CharSet

/-- Whether the character of a code point is in a set. -/
def mem : CharSet → Nat → Bool
  | range lo hi, n => lo ≤ n && n ≤ hi
  | digit, n => isDecimalDigit (Char.ofNat n)
  | blank, n => isBlank (Char.ofNat n)
  | word, n => isWord (Char.ofNat n)
  | union a b, n => a.mem n || b.mem n
  | inter a b, n => a.mem n && b.mem n
  | complement a, n => ! a.mem n
  | anyCase a, n => a.mem n || (caseVariants n).any a.mem

/-- No character. -/
def none : CharSet := range 1 0

/-- All characters. -/
def all : CharSet := range 0 0x10ffff

/-- One character. -/
def one (c : Char) : CharSet := range c.toNat c.toNat

/-- The characters that are in one set and not in the other. -/
def diff (a b : CharSet) : CharSet := inter a (complement b)

/-- The characters that are in exactly one of two sets. -/
def symmDiff (a b : CharSet) : CharSet := union (diff a b) (diff b a)

/-- The union of several sets. -/
def unions : List CharSet → CharSet
  | [] => none
  | [a] => a
  | a :: b :: l => union a (unions (b :: l))

/-- The union of ranges. -/
def ranges (l : List (Nat × Nat)) : CharSet := unions (l.map fun (lo, hi) => range lo hi)

theorem mem_none (n : Nat) : none.mem n = false := by
  simp [none, mem]
  omega

theorem mem_one (c d : Char) : (one c).mem d.toNat = (c == d) := by
  have h : c.toNat = d.toNat ↔ c = d := by
    constructor
    · intro h
      exact Char.ext (UInt32.toNat_inj.1 h)
    · rintro rfl
      rfl
  rw [Bool.eq_iff_iff]
  simp only [one, mem, Bool.and_eq_true, decide_eq_true_eq, beq_iff_eq, ← h]
  omega

theorem mem_anyCase (a : CharSet) (n : Nat) :
    (anyCase a).mem n = true ↔ a.mem n = true ∨ ∃ m ∈ caseVariants n, a.mem m = true := by
  simp [mem]

end CharSet

end Upkeep.Regex
