import Upkeep.Text.Ranges

/-!
# Blank characters

The characters of the Unicode property White_Space, and the operations that go by it.

* `isBlank_of_isWhitespace`: the usual ASCII blanks are among them.
* `not_isBlank_of_mem_words`: no word holds a blank.
-/

namespace Upkeep.Text

/-- The code points of white space. -/
def blankRanges : List (Nat × Nat) := [
  (0x9, 0xd), (0x20, 0x20), (0x85, 0x85), (0xa0, 0xa0), (0x1680, 0x1680), (0x2000, 0x200a),
  (0x2028, 0x2029), (0x202f, 0x202f), (0x205f, 0x205f), (0x3000, 0x3000)]

/-- Whether a character is white space. -/
def isBlank (c : Char) : Bool := inRanges blankRanges c.toNat

theorem isBlank_of_isWhitespace {c : Char} (h : c.isWhitespace = true) : isBlank c = true := by
  simp only [Char.isWhitespace, Bool.or_eq_true, decide_eq_true_eq] at h
  rcases h with ((rfl | rfl) | rfl) | rfl <;> rfl

/-- A text without the blanks at its two ends. -/
def trim (s : List Char) : List Char :=
  ((s.dropWhile isBlank).reverse.dropWhile isBlank).reverse

/-- The words of a text: its longest runs of characters that satisfy no `sep`. -/
def wordsBy (sep : Char → Bool) (s : List Char) : List (List Char) :=
  -- the word under way is kept backwards
  let rec go : List Char → List Char → List (List Char)
    | [], [] => []
    | w, [] => [w.reverse]
    | w, c :: r =>
      if sep c then (if w = [] then go [] r else w.reverse :: go [] r) else go (c :: w) r
  go [] s

/-- The words of a text, as blanks separate them. -/
def words (s : List Char) : List (List Char) := wordsBy isBlank s

theorem not_sep_of_mem_go (sep : Char → Bool) (w s : List Char) (hw : ∀ c ∈ w, sep c = false) :
    ∀ v ∈ wordsBy.go sep w s, ∀ c ∈ v, sep c = false := by
  fun_induction wordsBy.go sep w s with
  | case1 => simp
  | case2 w hne => simpa using hw
  | case3 c r h ih => exact ih (by simp)
  | case4 w c r h hne ih =>
    intro v hv
    rcases List.mem_cons.1 hv with rfl | hv
    · simpa using hw
    · exact ih (by simp) v hv
  | case5 w c r h ih => exact ih (by simpa [h] using hw)

theorem not_isBlank_of_mem_words {s v : List Char} (h : v ∈ words s) :
    ∀ c ∈ v, isBlank c = false :=
  not_sep_of_mem_go isBlank [] s (by simp) v h

end Upkeep.Text
