import Upkeep.Proofs.Json.Grammar

/-!
# Strings and structure in a text

Reading a text from left to right, a character stands in the structure of the text or in a string. One
machine tells the two apart without knowing what a value is, and a text of a value leads it back to
where it began. So whether a quote opens a string or closes one is decided by what stands before it.

* `Mode.run`: the mode after a text.
* `Spells.run_eq`: **a text of a value ends in the structure**.
* `Literal.run_prefix`: the inside of a string never does.
-/

namespace Upkeep.Json

/-- Where a character stands: in the structure, in a string, behind a backslash in a string, or
behind a character that no text has in its structure. -/
inductive Mode where
  | outside
  | inside
  | escaped
  | broken
  deriving DecidableEq

/-- The characters of the structure of a text: marks, blanks, and those of numbers and words. -/
def isStructure (c : Char) : Bool :=
  isSpace c || isNumeral c ||
    ['[', ']', '{', '}', ':', ',', 'n', 'u', 'l', 't', 'r', 'f', 'a', 's'].contains c

namespace Mode

/-- The mode behind a character. -/
def next : Mode → Char → Mode
  | outside, c => if c = '"' then inside else if isStructure c then outside else broken
  | inside, c => if c = '"' then outside else if c = '\\' then escaped else inside
  | escaped, _ => inside
  | broken, _ => broken

/-- The mode behind a text. -/
def run (m : Mode) (s : List Char) : Mode := s.foldl next m

variable {m : Mode} {s t : List Char}

@[simp] theorem run_nil (m : Mode) : run m [] = m := rfl

@[simp] theorem run_cons (m : Mode) (c : Char) (s : List Char) : run m (c :: s) = run (next m c) s := rfl

theorem run_append (m : Mode) (s t : List Char) : run m (s ++ t) = run (run m s) t :=
  List.foldl_append

@[simp] theorem run_broken (s : List Char) : run broken s = broken := by
  induction s with
  | nil => rfl
  | cons c s ih => exact ih

/-- A text of structure keeps the mode. -/
theorem run_structure (h : ∀ c ∈ s, isStructure c = true ∧ c ≠ '"') : run outside s = outside := by
  induction s with
  | nil => rfl
  | cons c s ih =>
    obtain ⟨hc, hq⟩ := h c (by simp)
    rw [run_cons, next, if_neg hq, if_pos hc]
    exact ih fun d hd => h d (by simp [hd])

/-- A text without quotes and backslashes stays in a string. -/
theorem run_plain (h : ∀ c ∈ s, c ≠ '"' ∧ c ≠ '\\') : run inside s = inside := by
  induction s with
  | nil => rfl
  | cons c s ih =>
    obtain ⟨hq, hs⟩ := h c (by simp)
    rw [run_cons, next, if_neg hq, if_neg hs]
    exact ih fun d hd => h d (by simp [hd])

/-- Only a quote ends a string. -/
theorem run_ne_outside (hs : '"' ∉ s) (hm : m ≠ outside) : run m s ≠ outside := by
  induction s generalizing m with
  | nil => exact hm
  | cons c s ih =>
    rw [List.mem_cons, not_or] at hs
    refine ih hs.2 ?_
    cases m with
    | outside => exact absurd rfl hm
    | inside => rw [next, if_neg (Ne.symm hs.1)]; split_ifs <;> simp
    | escaped | broken => simp [next]

/-- Without a quote the structure goes on or breaks. -/
theorem run_outside (hs : '"' ∉ s) : run outside s = outside ∨ run outside s = broken := by
  induction s with
  | nil => exact .inl rfl
  | cons c s ih =>
    rw [List.mem_cons, not_or] at hs
    rw [run_cons, next, if_neg (Ne.symm hs.1)]
    split_ifs
    · exact ih hs.2
    · exact .inr (run_broken s)

theorem run_quote_ne_escaped (m : Mode) (s : List Char) : run m (s ++ ['"']) ≠ escaped := by
  rw [run_append]
  cases run m s <;> decide

theorem ne_broken_of_run (h : run m (s ++ t) = outside) : run m s ≠ broken := by
  intro hs
  rw [run_append, hs, run_broken] at h
  cases h

end Mode

open Mode

theorem isStructure_of_isSpace {c : Char} (h : isSpace c = true) : isStructure c = true ∧ c ≠ '"' :=
  ⟨by simp [isStructure, h], by rintro rfl; exact absurd h (by decide)⟩

theorem isStructure_of_isNumeral {c : Char} (h : isNumeral c = true) :
    isStructure c = true ∧ c ≠ '"' :=
  ⟨by simp [isStructure, h], by rintro rfl; exact absurd h (by decide)⟩

variable {d : Nat} {k : Kind} {c raw text w : List Char} {v : Json}

theorem Spaces.run_eq (hw : Spaces w) : run outside w = outside :=
  run_structure fun _ hc => isStructure_of_isSpace (hw _ hc)

/-! ### Strings -/

theorem IsHexFour.run_eq {q : List Char} {n : Nat} (h : IsHexFour q n) : run inside q = inside :=
  run_plain h.plain

theorem Escape.run_eq {e : List Char} {x : Char} (h : Escape e x) : run inside ('\\' :: e) = inside := by
  cases h with
  | short => rfl
  | unit hq => exact hq.run_eq
  | @pair q q' n m hq hq' _ _ =>
    show run inside (q ++ '\\' :: 'u' :: q') = inside
    rw [run_append, hq.run_eq]
    exact hq'.run_eq

/-- The inside of a string ends in the string. -/
theorem Literal.run_eq (h : Literal raw text) : run inside raw = inside := by
  induction h with
  | nil => rfl
  | plain hq hs _ _ ih => rw [run_cons, next, if_neg hq, if_neg hs, ih]
  | escape he _ ih => rw [run_append, he.run_eq, ih]

theorem run_literal (h : Literal raw text) : run outside ('"' :: raw ++ ['"']) = outside := by
  rw [List.cons_append, run_cons, run_append]
  show run (run inside raw) ['"'] = outside
  rw [h.run_eq]
  rfl

/-- A part of an escape does not end a string. -/
theorem Escape.run_prefix {e x y : List Char} {u : Char} (h : Escape e u) (he : e = x ++ y) :
    run escaped x ≠ outside := by
  cases x with
  | nil => simp
  | cons b x =>
    have hx : '"' ∉ x := by
      intro hq
      obtain ⟨rfl, -⟩ := h.of_quote_mem (by rw [he]; simp [hq])
      rw [List.append_eq_nil_iff.1 (List.cons.inj he).2.symm |>.1] at hq
      simp at hq
    rw [run_cons]
    exact run_ne_outside hx (by simp [next])

/-- **The inside of a string** stays in the string all along. -/
theorem Literal.run_prefix (h : Literal raw text) {x y : List Char} (hr : raw = x ++ y) :
    run inside x ≠ outside := by
  -- the part ends between two characters of the text, or within an escape
  induction h generalizing x with
  | nil =>
    obtain ⟨rfl, -⟩ := List.append_eq_nil_iff.1 hr.symm
    simp
  | plain hq hs _ _ ih =>
    cases x with
    | nil => simp
    | cons b x =>
      obtain ⟨rfl, hr'⟩ := List.cons.inj hr
      rw [run_cons, next, if_neg hq, if_neg hs]
      exact ih hr'
  | @escape e raw text u he _ ih =>
    rcases List.append_eq_append_iff.1 hr with ⟨z, rfl, hz⟩ | ⟨z, hz, -⟩
    · rw [run_append, he.run_eq]
      exact ih hz
    · cases x with
      | nil => simp
      | cons b x =>
        obtain ⟨rfl, hz'⟩ := List.cons.inj hz
        exact he.run_prefix hz'

/-! ### Values -/

theorem Atom.isStructure (h : Atom c v) : ∀ x ∈ c, isStructure x = true ∧ x ≠ '"' := by
  cases h with
  | null | truth | falsity => simp [isStructure, isNumeral]
  | number h => exact fun x hx => isStructure_of_isNumeral (h.chars x hx)

theorem run_label (hw : Spaces w) (hn : Literal raw text) {w' : List Char} (hw' : Spaces w') :
    run outside (label w raw w') = outside := by
  have hs : label w raw w' = w ++ (('"' :: raw ++ ['"']) ++ w') := by simp [label]
  rw [hs, run_append, hw.run_eq, run_append, run_literal hn, hw'.run_eq]

/-- **A text of a value ends in the structure** where it began. -/
theorem Spells.run_eq (h : Spells d k c v) : run outside c = outside := by
  have hcons {x : Char} {s : List Char} (hx : isStructure x = true ∧ x ≠ '"') :
      run outside (x :: s) = run outside s := by
    rw [run_cons, next, if_neg hx.2, if_pos hx.1]
  induction h with
  | atom h => exact run_structure h.isStructure
  | string h => exact run_literal h
  | noItems hw | noMembers hw =>
    rw [List.cons_append, hcons (by decide), run_append, hw.run_eq, hcons (by decide), run_nil]
  | array _ ih | object _ ih =>
    rw [List.cons_append, hcons (by decide), run_append, ih, hcons (by decide), run_nil]
  | slot hw _ hw' ih => rw [run_append, run_append, hw.run_eq, ih, hw'.run_eq]
  | item _ ih => exact ih
  | items _ _ ih iht => rw [run_append, ih, hcons (by decide), iht]
  | member hw hn hw' _ ih => rw [run_append, run_label hw hn hw', hcons (by decide), ih]
  | members hw hn hw' _ _ ih iht =>
    rw [run_append, run_append, run_label hw hn hw', hcons (by decide), ih, hcons (by decide), iht]

end Upkeep.Json
