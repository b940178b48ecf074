import Upkeep.Proofs.Json.Site

/-!
# What a search passes over

A search for a name goes through a text from the front. Where no quote stands it passes, and it passes a
quote if what follows cannot be the name with a colon behind it. So it passes over the literal of any
value, even of one that reads like the pair that is looked for.

* `Plain`: a name that stands for itself between quotes.
* `Skips`: **a part of a text in which the search finds no place**.
* `name_of_at?`: a place that begins at a literal has this literal for its name.
* `skips_value`: the search passes over a value.
-/

namespace Upkeep.Patch

open Json Text

variable {name b s t w : List Char}

/-- A name that stands for itself between quotes. -/
def Plain (name : List Char) : Prop := ∀ c ∈ name, c ≠ '"' ∧ c ≠ '\\' ∧ 32 ≤ c.toNat

theorem Plain.encode_eq (h : Plain name) : encode name = name := by
  induction name with
  | nil => rfl
  | cons c s ih =>
    obtain ⟨hq, hs, hc⟩ := h c (by simp)
    have hne {d : Char} (hd : d.toNat < 32) : c ≠ d := by rintro rfl; omega
    rw [encode_cons, ih fun d hd => h d (by simp [hd]), encodeChar, if_neg hq, if_neg hs,
      if_neg (hne (by decide)), if_neg (hne (by decide)), if_neg (hne (by decide)),
      if_neg (hne (by decide)), if_neg (hne (by decide)), if_neg (by omega)]
    rfl

theorem Plain.isBody (h : Plain name) : IsBody name := h.encode_eq ▸ isBody_encode name

theorem Plain.quote_notMem (h : Plain name) : '"' ∉ name := fun hq => (h _ hq).1 rfl

theorem Plain.newline_notMem (h : Plain name) : '\n' ∉ name := fun hn =>
  absurd (h _ hn).2.2 (by decide)

/-! ### Skipping -/

/-- A place in a text that has more text in front. -/
def Place.behind (w : List Char) (p : Place) : Place := { p with before := w ++ p.before }

/-- The search for a name passes over `w` in front of `s`. -/
def Skips (name w s : List Char) : Prop := find? name (w ++ s) = (find? name s).map (·.behind w)

theorem Skips.append {v : List Char} (hw : Skips name w (v ++ s)) (hv : Skips name v s) :
    Skips name (w ++ v) s := by
  unfold Skips at *
  rw [List.append_assoc, hw, hv, Option.map_map]
  congr 1
  funext p
  simp [Place.behind]

theorem Skips.cons {c : Char} (h : at? name (c :: (w ++ s)) = none) (hw : Skips name w s) :
    Skips name (c :: w) s := by
  unfold Skips at *
  rw [List.cons_append, find?, h]
  show (find? name (w ++ s)).map _ = _
  rw [hw, Option.map_map]
  rfl

theorem at?_of_ne_quote {c : Char} (hc : c ≠ '"') : at? name (c :: s) = none := by
  by_contra hne
  obtain ⟨p, hp⟩ := Option.ne_none_iff_exists'.1 hne
  obtain ⟨b₁, b₂, -, -, hbefore, hs, -⟩ := at?_eq_some.1 hp
  rw [hbefore] at hs
  exact hc (List.cons.inj hs).1

theorem skips_of_no_quote (h : '"' ∉ w) : Skips name w s := by
  induction w with
  | nil => simp [Skips, Place.behind]
  | cons c w ih =>
    rw [List.mem_cons, not_or] at h
    exact .cons (at?_of_ne_quote (Ne.symm h.1)) (ih h.2)

/-- A place that begins at the quote of a literal has the literal for its name, and a colon and another
quote behind it. -/
theorem name_of_at? (hn : Plain name) (hb : IsBody b) (h : at? name ('"' :: (b ++ '"' :: t)) ≠ none) :
    b = name ∧ ∃ b₁ b₂ r, Blank b₁ ∧ Blank b₂ ∧ t = b₁ ++ ':' :: (b₂ ++ '"' :: r) := by
  obtain ⟨p, hp⟩ := Option.ne_none_iff_exists'.1 h
  obtain ⟨b₁, b₂, hb₁, hb₂, hbefore, hs, -⟩ := at?_eq_some.1 hp
  have htext : b ++ '"' :: t = name ++ '"' :: (b₁ ++ ':' :: (b₂ ++ '"' :: (p.body ++ p.after))) := by
    rw [hbefore] at hs
    simpa [lead, quoted] using hs
  have hl := hb t
  rw [htext, hn.isBody] at hl
  obtain ⟨rfl, hrest⟩ := Prod.mk.inj (Option.some.inj hl)
  exact ⟨rfl, b₁, b₂, _, hb₁, hb₂, (List.cons.inj hrest).2.symm⟩

/-- No place begins at a quote that a line ends behind. -/
theorem at?_of_line (hn : Plain name) (hw : '"' ∉ w) : at? name ('"' :: (w ++ '\n' :: s)) = none := by
  by_contra hne
  obtain ⟨p, hp⟩ := Option.ne_none_iff_exists'.1 hne
  obtain ⟨b₁, b₂, -, -, hbefore, hs, -⟩ := at?_eq_some.1 hp
  have htext : w ++ '\n' :: s =
      name ++ '"' :: (b₁ ++ ':' :: (b₂ ++ '"' :: (p.body ++ p.after))) := by
    rw [hbefore] at hs
    simpa [lead, quoted] using hs
  rcases append_eq_append_cons htext with ⟨z, rfl, -⟩ | ⟨z, rfl, hz⟩
  · simp at hw
  · cases z with
    | nil => exact absurd (List.cons.inj hz).1 (by decide)
    | cons c z => exact hn.newline_notMem (by rw [← (List.cons.inj hz).1]; simp)

/-- A text that does not go on like a member. -/
def NoColon (t : List Char) : Prop := ∀ b r, Blank b → t ≠ b ++ ':' :: r

theorem noColon_of_blank {c : Char} (hw : Blank w) (hc : isBlank c = false) (hne : c ≠ ':')
    (s : List Char) : NoColon (w ++ c :: s) := by
  intro b r hb h
  have hdrop := congrArg (List.dropWhile isBlank) h
  rw [(dropWhile_blank hw hc).1, (dropWhile_blank hb (by decide)).1] at hdrop
  exact hne (List.cons.inj hdrop).1

/-- No place begins at the quote of a value. -/
theorem at?_value (hn : Plain name) (ht : NoColon t) (v : List Char) :
    at? name ('"' :: (encode v ++ '"' :: t)) = none := by
  by_contra hne
  obtain ⟨-, b₁, b₂, r, hb₁, -, heq⟩ := name_of_at? hn (isBody_encode v) hne
  exact ht _ _ hb₁ heq

theorem quote_notMem_encodeChar {c : Char} (hc : c ≠ '"') : '"' ∉ encodeChar c := by
  intro h
  rw [encodeChar, if_neg hc] at h
  split_ifs at h <;> simp [hc.symm] at h
  -- a control character without a letter of its own
  rcases h with h | h
  · exact (hexDigit_plain (c.toNat / 16) (by omega)).1 h.symm
  · exact (hexDigit_plain (c.toNat % 16) (by omega)).1 h.symm

/-- The search passes over a value. -/
theorem skips_value (hn : Plain name) (ht : NoColon t) (v : List Char) :
    Skips name (encode v) ('"' :: t) := by
  induction v with
  | nil => exact skips_of_no_quote (by simp [encode])
  | cons c v ih =>
    rw [encode_cons]
    by_cases hc : c = '"'
    · -- behind an escaped quote stands what could stand in a value of its own
      have hquote : Skips name ('"' :: encode v) ('"' :: t) := .cons (at?_value hn ht v) ih
      subst hc
      exact .cons (at?_of_ne_quote (by decide)) hquote
    · exact .append (skips_of_no_quote (quote_notMem_encodeChar hc)) ih

end Upkeep.Patch
