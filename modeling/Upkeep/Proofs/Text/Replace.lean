import Mathlib.Data.List.Infix
import Upkeep.Proofs.Text.Cuts

/-!
# Replacing in a text

An occurrence of a pattern is replaced wherever it stands, so what becomes of a part of a text depends on its
surroundings only if an occurrence reaches beyond the part.

* `replace_induction`: **what every replacement keeps**, without the scanner that makes it.
* `replace_append`: **a text is replaced part by part**, unless an occurrence lies across the cut.
* `replace_eq_self`: without an occurrence nothing is replaced.
* `length_replace`: a longer text in its place makes the whole longer.
* `suffix_of_suffix_replace`: an ending that shares nothing with the new text was there before.
* `afterLast_replace`, `afterLast_replace_eq_self`: what becomes of the text after the last separator.
-/

namespace Upkeep.Text

variable {pat new s t u : List Char} {c sep : Char}

/-! ### The steps of a replacement -/

theorem replace_cons (h : ¬ pat <+: c :: s) : replace pat new (c :: s) = c :: replace pat new s := by
  rw [replace, replaceFrom, if_neg (by rwa [List.isPrefixOf_iff_prefix])]
  rfl

/-- **What every replacement keeps**: it holds of nothing, of one more occurrence, and of one more character at which
no occurrence begins. -/
@[elab_as_elim]
theorem replace_induction {P : List Char → List Char → Prop} (new : List Char) (hpat : pat ≠ []) (nil : P [] [])
    (occurrence : ∀ s, P s (replace pat new s) → P (pat ++ s) (new ++ replace pat new s))
    (other : ∀ c s, ¬ pat <+: c :: s → P s (replace pat new s) → P (c :: s) (c :: replace pat new s))
    (s : List Char) : P s (replace pat new s) := by
  obtain ⟨p, ps, rfl⟩ := List.exists_cons_of_ne_nil hpat
  induction hlength : s.length using Nat.strong_induction_on generalizing s with
  | _ n ih =>
    by_cases hhere : p :: ps <+: s
    · obtain ⟨rest, rfl⟩ := hhere
      rw [replace_append_self]
      exact occurrence rest (ih _ (by simp at hlength; omega) rest rfl)
    · cases s with
      | nil => exact nil
      | cons c s =>
        rw [replace_cons hhere]
        exact other c s hhere (ih _ (by simp at hlength; omega) s rfl)

theorem mem_replace (hpat : pat ≠ []) : ∀ c ∈ replace pat new s, c ∈ s ∨ c ∈ new := by
  induction s using replace_induction new hpat with
  | nil => simp
  | occurrence s ih =>
    intro c hc
    rcases List.mem_append.1 hc with hc | hc
    · exact .inr hc
    · exact (ih c hc).imp_left (List.mem_append_right _)
  | other d s _ ih =>
    intro c hc
    rcases List.mem_cons.1 hc with rfl | hc
    · exact .inl List.mem_cons_self
    · exact (ih c hc).imp_left (List.mem_cons_of_mem _)

/-- Without an occurrence nothing is replaced. -/
theorem replace_eq_self (h : ¬ pat <:+: s) : replace pat new s = s := by
  have hpat : pat ≠ [] := by
    rintro rfl
    exact h List.nil_infix
  induction s using replace_induction new hpat with
  | nil => rfl
  | occurrence s _ => exact absurd (List.prefix_append pat s).isInfix h
  | other c s _ ih => rw [ih fun hin => h (hin.trans (List.suffix_cons c s).isInfix)]

/-! ### Part by part -/

/-- An occurrence of a pattern may begin in one text and end in the text after it. -/
def Straddles (pat s t : List Char) : Prop :=
  ∃ a b, pat = a ++ b ∧ a ≠ [] ∧ b ≠ [] ∧ a <:+ s ∧ b <+: t

theorem Straddles.append_left (h : Straddles pat s t) (u : List Char) : Straddles pat (u ++ s) t := by
  obtain ⟨a, b, hpat, ha, hb, hs, ht⟩ := h
  exact ⟨a, b, hpat, ha, hb, hs.trans (List.suffix_append u s), ht⟩

/-- An occurrence at the beginning of two texts is one in the first, or lies across the cut. -/
theorem prefix_or_straddles (h : pat <+: s ++ t) (hs : s ≠ []) : pat <+: s ∨ Straddles pat s t := by
  obtain ⟨rest, hrest⟩ := h
  rcases List.append_eq_append_iff.1 hrest with ⟨a, rfl, -⟩ | ⟨b, rfl, rfl⟩
  · exact .inl (List.prefix_append _ _)
  · by_cases hb : b = []
    · exact .inl (by simp [hb])
    · exact .inr ⟨s, b, rfl, hs, hb, List.suffix_refl s, List.prefix_append _ _⟩

/-- **A text is replaced part by part**, unless an occurrence lies across the cut. -/
theorem replace_append (hpat : pat ≠ []) (h : ¬ Straddles pat s t) :
    replace pat new (s ++ t) = replace pat new s ++ replace pat new t := by
  induction s using replace_induction new hpat with
  | nil => rfl
  | occurrence s ih =>
    obtain ⟨p, ps, rfl⟩ := List.exists_cons_of_ne_nil hpat
    rw [List.append_assoc, replace_append_self, ih fun hcut => h (hcut.append_left _), List.append_assoc]
  | other c s hc ih =>
    have hc' : ¬ pat <+: c :: s ++ t := fun hin => (prefix_or_straddles hin (by simp)).elim hc h
    rw [List.cons_append] at hc' ⊢
    rw [replace_cons hc', ih fun hcut => h (hcut.append_left [c]), List.cons_append]

/-- A character that the pattern does not hold cuts a text. -/
theorem replace_append_cons (hpat : pat ≠ []) (h : sep ∉ pat) (s t : List Char) :
    replace pat new (s ++ sep :: t) = replace pat new s ++ sep :: replace pat new t := by
  have hhere : ¬ pat <+: sep :: t := by
    rintro ⟨rest, hrest⟩
    obtain ⟨p, ps, rfl⟩ := List.exists_cons_of_ne_nil hpat
    rw [List.cons_append, List.cons.injEq] at hrest
    exact h (hrest.1 ▸ List.mem_cons_self)
  rw [replace_append hpat, replace_cons hhere]
  rintro ⟨a, b, rfl, -, hb, -, ⟨rest, hrest⟩⟩
  obtain ⟨c, b, rfl⟩ := List.exists_cons_of_ne_nil hb
  rw [List.cons_append, List.cons.injEq] at hrest
  exact h (by simp [hrest.1])

/-- An occurrence of a pattern that cannot overlap itself is replaced, whatever stands around it. -/
theorem replace_append_occurrence {p : Char} {ps : List Char} (h : p ∉ ps) (s t : List Char) :
    replace (p :: ps) new (s ++ (p :: ps) ++ t) = replace (p :: ps) new s ++ new ++ replace (p :: ps) new t := by
  rw [List.append_assoc, replace_append (by simp), replace_append_self, List.append_assoc]
  rintro ⟨a, b, hsplit, ha, hb, -, hbegin⟩
  obtain ⟨a₀, a, rfl⟩ := List.exists_cons_of_ne_nil ha
  obtain ⟨b₀, b, rfl⟩ := List.exists_cons_of_ne_nil hb
  obtain ⟨-, rfl⟩ := List.cons.inj hsplit
  obtain ⟨rfl, -⟩ := List.cons_prefix_cons.1 hbegin
  exact h (by simp)

/-! ### What is left of a text -/

/-- A longer text in the place of an occurrence makes the whole longer by as much at least. -/
theorem length_replace (hpat : pat ≠ []) (hlonger : pat.length ≤ new.length) (s : List Char) :
    s.length ≤ (replace pat new s).length ∧
      (pat <:+: s → s.length + (new.length - pat.length) ≤ (replace pat new s).length) := by
  induction s using replace_induction new hpat with
  | nil => exact ⟨le_rfl, fun h => absurd (List.infix_nil.1 h) hpat⟩
  | occurrence s ih =>
    simp only [List.length_append]
    omega
  | other c s hc ih =>
    refine ⟨by simpa using ih.1, fun h => ?_⟩
    have hlater := ih.2 ((List.infix_cons_iff.1 h).resolve_left hc)
    simp only [List.length_cons]
    omega

/-- A text that shares nothing with the new one is as it was. -/
theorem replace_eq_self_of_disjoint (hpat : pat ≠ []) (hnew : new ≠ []) :
    (∀ c ∈ replace pat new s, c ∉ new) → replace pat new s = s := by
  induction s using replace_induction new hpat with
  | nil => exact fun _ => rfl
  | occurrence s _ =>
    obtain ⟨c, hc⟩ := List.exists_mem_of_ne_nil new hnew
    exact fun h => absurd hc (h c (List.mem_append_left _ hc))
  | other c s _ ih => exact fun h => by rw [ih fun d hd => h d (List.mem_cons_of_mem c hd)]

/-- An ending that shares nothing with the new text was there before. -/
theorem suffix_of_suffix_replace (hpat : pat ≠ []) (hnew : new ≠ []) (hu : ∀ c ∈ u, c ∉ new) :
    u <:+ replace pat new s → u <:+ s := by
  induction s using replace_induction new hpat with
  | nil => exact id
  | occurrence s ih =>
    intro h
    suffices hrest : u <:+ replace pat new s from (ih hrest).trans (List.suffix_append pat s)
    -- otherwise the ending would reach into the new text
    rcases List.suffix_or_suffix_of_suffix h (List.suffix_append new _) with h' | ⟨v, hv⟩
    · exact h'
    · subst hv
      cases v with
      | nil => exact List.suffix_refl _
      | cons c v =>
        have hc : c ∈ new := ((List.suffix_append_inj_of_length_eq rfl).1 h).1.subset List.mem_cons_self
        exact absurd hc (hu c (by simp))
  | other c s _ ih =>
    intro h
    rcases List.suffix_cons_iff.1 h with rfl | h
    · rw [replace_eq_self_of_disjoint hpat hnew fun d hd => hu d (List.mem_cons_of_mem c hd)]
    · exact (ih h).trans (List.suffix_cons c s)

/-! ### After the last separator -/

/-- What follows the last separator is replaced by itself, if no occurrence holds a separator. -/
theorem afterLast_replace (hpat : pat ≠ []) (h : sep ∉ pat) (hnew : sep ∉ new) (s : List Char) :
    afterLast sep (replace pat new s) = replace pat new (afterLast sep s) := by
  have hfree : sep ∉ replace pat new (afterLast sep s) := fun hmem =>
    (mem_replace hpat sep hmem).elim sep_notMem_afterLast hnew
  rcases (afterLast_eq_iff.1 (rfl : afterLast sep s = _)).2 with hs | ⟨front, hs⟩
  · exact afterLast_eq_iff.2 ⟨hfree, .inl (by rw [← hs])⟩
  · refine afterLast_eq_iff.2 ⟨hfree, .inr ⟨replace pat new front, ?_⟩⟩
    rw [← replace_append_cons hpat h, ← hs]

/-- What follows the last separator stays, if the pattern and the new text end in the same after theirs, or a separator
follows each occurrence. -/
theorem afterLast_replace_eq_self (hpat : sep ∈ pat) (hnew : sep ∈ new) (s : List Char)
    (h : afterLast sep pat = afterLast sep new ∨ ∀ front file, s = front ++ pat ++ file → sep ∈ file) :
    afterLast sep (replace pat new s) = afterLast sep s := by
  have hfree {t : List Char} (ht : sep ∉ t) : replace pat new t = t :=
    replace_eq_self fun hin => ht (hin.subset hpat)
  suffices (sep ∈ replace pat new s ↔ sep ∈ s) ∧ afterLast sep (replace pat new s) = afterLast sep s from this.2
  induction s using replace_induction new (List.ne_nil_of_mem hpat) with
  | nil => simp
  | occurrence s ih =>
    obtain ⟨hmem, hafter⟩ := ih (h.imp_right fun hfile front file hs => hfile (pat ++ front) file (by simp [hs]))
    refine ⟨by simp [hpat, hnew], ?_⟩
    rw [afterLast_append, afterLast_append]
    by_cases hs : sep ∈ s
    · rw [if_pos (hmem.2 hs), if_pos hs, hafter]
    · have hends := h.resolve_right fun hfile => hs (hfile [] s rfl)
      rw [if_neg (hmem.not.2 hs), if_neg hs, hfree hs, hends]
  | other c s _ ih =>
    obtain ⟨hmem, hafter⟩ := ih (h.imp_right fun hfile front file hs => hfile (c :: front) file (by simp [hs]))
    refine ⟨by simp [hmem], ?_⟩
    rw [← List.singleton_append, ← List.singleton_append (l := s), afterLast_append, afterLast_append]
    by_cases hs : sep ∈ s
    · rw [if_pos (hmem.2 hs), if_pos hs, hafter]
    · rw [if_neg (hmem.not.2 hs), if_neg hs, hfree hs]

end Upkeep.Text
