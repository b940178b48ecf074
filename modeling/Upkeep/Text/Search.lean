/-!
# Cutting and replacing in a text

Texts are lists of characters. The module holds the cuts and replacements that the rest of the
library is built from.

* `fields_ne_nil`: splitting at a separator yields at least one field.
* `join_fields`: joining the fields with the separator gives the text back.
* `cut_eq_some`: a cut loses nothing but the separator, and its first part is free of it.
* `replace_append_of_not_mem`: where the first character of a pattern is absent, nothing is replaced.
* `isHexDigit_iff`: the digits of hexadecimal notation, one by one.
-/

namespace Upkeep.Text

/-- The fields of a text between the occurrences of `sep`; a text without `sep` is one field. -/
def fields (sep : Char) : List Char → List (List Char)
  | [] => [[]]
  | c :: r =>
    if c = sep then [] :: fields sep r
    else match fields sep r with
      | [] => [[c]]
      | f :: fs => (c :: f) :: fs

/-- Texts written one after the other with `sep` between them. -/
def join (sep : List Char) : List (List Char) → List Char
  | [] => []
  | [t] => t
  | t :: u :: ts => t ++ sep ++ join sep (u :: ts)

theorem fields_ne_nil (sep : Char) (s : List Char) : fields sep s ≠ [] := by
  cases s with
  | nil => simp [fields]
  | cons c r =>
    simp only [fields]
    split
    · simp
    · split <;> simp

theorem join_fields (sep : Char) (s : List Char) : join [sep] (fields sep s) = s := by
  induction s with
  | nil => rfl
  | cons c r ih =>
    have hne := fields_ne_nil sep r
    cases hf : fields sep r with
    | nil => exact absurd hf hne
    | cons f fs =>
      rw [hf] at ih
      by_cases hc : c = sep
      · subst hc
        simp [fields, hf, join, ih]
      · cases fs with
        | nil => simp [fields, hf, hc, join] at ih ⊢; exact ih
        | cons g gs => simp [fields, hf, hc, join] at ih ⊢; exact ih

/-- The text before the first `sep` and the text after it. -/
def cut (sep : Char) : List Char → Option (List Char × List Char)
  | [] => none
  | c :: r => if c = sep then some ([], r) else (cut sep r).map fun (a, b) => (c :: a, b)

theorem cut_eq_some {sep : Char} {s a b : List Char} :
    cut sep s = some (a, b) ↔ s = a ++ sep :: b ∧ sep ∉ a := by
  induction s generalizing a with
  | nil => simp [cut]
  | cons c r ih =>
    by_cases hc : c = sep
    · subst hc
      cases a with
      | nil => simp [cut]
      | cons d a => simp [cut]; intro h; simp [h]
    · cases a with
      | nil => simp [cut, hc]
      | cons d a =>
        simp only [cut, hc, if_false, Option.map_eq_some_iff, Prod.exists, Prod.mk.injEq,
          List.cons.injEq, List.cons_append, List.mem_cons, not_or]
        constructor
        · rintro ⟨x, y, hxy, ⟨rfl, rfl⟩, rfl⟩
          obtain ⟨h, hn⟩ := ih.1 hxy
          exact ⟨⟨rfl, h⟩, fun h => hc h.symm, hn⟩
        · rintro ⟨⟨rfl, h⟩, -, hn⟩
          exact ⟨a, b, ih.2 ⟨h, hn⟩, ⟨rfl, rfl⟩, rfl⟩

/-- The text up to, and not with, the first character of `stops`. -/
def upTo (stops : List Char) (s : List Char) : List Char := s.takeWhile (! stops.contains ·)

/-- The text after the last `sep`, or all of it. -/
def afterLast (sep : Char) (s : List Char) : List Char :=
  (s.reverse.takeWhile (· ≠ sep)).reverse

/-- A text without the `c` at its end. -/
def dropEnd (c : Char) (s : List Char) : List Char := (s.reverse.dropWhile (· = c)).reverse

/-- What follows `lead` in a text that begins with it. -/
def after? : List Char → List Char → Option (List Char)
  | [], s => some s
  | _ :: _, [] => none
  | p :: ps, c :: r => if p = c then after? ps r else none

theorem after?_eq_some {lead s r : List Char} : after? lead s = some r ↔ s = lead ++ r := by
  induction lead generalizing s with
  | nil => simp [after?, eq_comm]
  | cons p ps ih =>
    cases s with
    | nil => simp [after?]
    | cons c s =>
      by_cases h : p = c
      · simp [after?, h, ih]
      · simp [after?, h]; intro hc; exact absurd hc.symm h

/-- A text without `tail` at its end, when it ends so. -/
def before? (tail s : List Char) : Option (List Char) :=
  (after? tail.reverse s.reverse).map List.reverse

/-- Whether `pat` stands anywhere in a text. -/
def occurs (pat : List Char) : List Char → Bool
  | [] => pat.isEmpty
  | c :: r => pat.isPrefixOf (c :: r) || occurs pat r

/-- Replaces from left to right, passing over the first `skip` characters in silence. -/
def replaceFrom (pat new : List Char) : Nat → List Char → List Char
  | _, [] => []
  | k + 1, _ :: r => replaceFrom pat new k r
  | 0, c :: r =>
    -- `c` is the first character of the occurrence, so one less is left to pass over
    if pat.isPrefixOf (c :: r) then new ++ replaceFrom pat new (pat.length - 1) r
    else c :: replaceFrom pat new 0 r

/-- Every occurrence of `pat`, from left to right and without overlap, becomes `new`.
The pattern is not empty. -/
def replace (pat new s : List Char) : List Char := replaceFrom pat new 0 s

/-- A part of a text without the first character of the pattern is passed over. -/
theorem replace_append_of_not_mem {p : Char} {ps new pre : List Char} (h : p ∉ pre) (s : List Char) :
    replace (p :: ps) new (pre ++ s) = pre ++ replace (p :: ps) new s := by
  unfold replace
  induction pre with
  | nil => rfl
  | cons c r ih =>
    simp only [List.mem_cons, not_or] at h
    have hp : (p :: ps).isPrefixOf (c :: (r ++ s)) = false := by
      simp [List.isPrefixOf, h.1]
    rw [List.cons_append, replaceFrom, hp]
    simp [ih h.2]

/-- An occurrence of the pattern at the beginning is replaced first. -/
theorem replace_append_self {p : Char} {ps new : List Char} (s : List Char) :
    replace (p :: ps) new (p :: ps ++ s) = new ++ replace (p :: ps) new s := by
  have hskip (l : List Char) : replaceFrom (p :: ps) new l.length (l ++ s) = replaceFrom (p :: ps) new 0 s := by
    induction l with
    | nil => rfl
    | cons c l ih => exact ih
  have hp : (p :: ps).isPrefixOf (p :: (ps ++ s)) = true :=
    List.isPrefixOf_iff_prefix.2 (List.prefix_append (p :: ps) s)
  rw [replace, List.cons_append, replaceFrom, if_pos hp, List.length_cons, Nat.add_sub_cancel, hskip]
  rfl

/-- The lines of a text: each ends at a line feed, a carriage return before that line feed is
dropped, and a line feed at the very end opens no further line. -/
def lines (s : List Char) : List (List Char) :=
  -- the line under way is kept backwards
  let rec go : List Char → List Char → List (List Char)
    | [], [] => []
    | line, [] => [line.reverse]
    | line, '\n' :: r => (match line with | '\r' :: l => l.reverse | l => l.reverse) :: go [] r
    | line, c :: r => go (c :: line) r
  go [] s

/-- An ASCII letter in lower case; every other character as it is. -/
def lowerAscii (s : List Char) : List Char := s.map Char.toLower

/-- Whether two texts agree up to the case of ASCII letters. -/
def sameIgnoringCase (s t : List Char) : Bool := lowerAscii s == lowerAscii t

/-- The sixteen digits of hexadecimal notation, in both cases. -/
def isHexDigit (c : Char) : Bool :=
  c.isDigit || ('a' ≤ c && c ≤ 'f') || ('A' ≤ c && c ≤ 'F')

theorem isHexDigit_iff {c : Char} : isHexDigit c = true ↔ c ∈ "0123456789abcdefABCDEF".toList := by
  have hdigits : ∀ c ∈ "0123456789abcdefABCDEF".toList, isHexDigit c = true :=
    List.all_eq_true.1 (by decide)
  have hascii : ∀ n < 128, isHexDigit (Char.ofNat n) = true →
      Char.ofNat n ∈ "0123456789abcdefABCDEF".toList := by decide
  refine ⟨fun h => ?_, hdigits c⟩
  have hlt : c.toNat < 128 := by
    simp only [isHexDigit, Char.isDigit, Bool.or_eq_true, Bool.and_eq_true, decide_eq_true_eq, ge_iff_le,
      Char.le_def, UInt32.le_iff_toNat_le] at h
    have hval : c.val.toNat = c.toNat := rfl
    have hlast : '9'.val.toNat = 57 ∧ 'f'.val.toNat = 102 ∧ 'F'.val.toNat = 70 := by decide
    omega
  have hc := hascii c.toNat hlt
  rw [Char.ofNat_toNat] at hc
  exact hc h

/-- The value of a hexadecimal digit. -/
def hexValue? (c : Char) : Option Nat :=
  if c.isDigit then some (c.toNat - 48)
  else if 'a' ≤ c && c ≤ 'f' then some (c.toNat - 87)
  else if 'A' ≤ c && c ≤ 'F' then some (c.toNat - 55)
  else none

/-- The length in bytes of the UTF-8 form. -/
def utf8Size (s : List Char) : Nat := s.foldl (fun n c => n + c.utf8Size) 0

/-- The number that a nonempty run of ASCII digits denotes. -/
def natural? (s : List Char) : Option Nat :=
  if s ≠ [] ∧ s.all Char.isDigit then some (s.foldl (fun n c => 10 * n + (c.toNat - 48)) 0)
  else none

end Upkeep.Text
