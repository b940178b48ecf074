import Upkeep.Proofs.Json.Site
import Upkeep.Proofs.Patch.Laws

/-!
# What a patch matches in a JSON text

A lead in a JSON text is cut by the quotes of the text: either its last quote opens a string, and then
it stands behind the colon of a member and the value is the string of that member, or its last quote
closes a string, and then what the patch takes for a value is no string but structure.

* `member_of_lead`: **a lead whose name ends in the structure** gives way to any string.
* `gap_of_lead`: **a lead whose name ends in a string** does not.
-/

namespace Upkeep.Patch

open Text Json Mode

theorem isBlank_of_isSpace {c : Char} (h : isSpace c = true) : isBlank c = true := by
  simp only [isSpace, Bool.or_eq_true, beq_iff_eq] at h
  rcases h with ((rfl | rfl) | rfl) | rfl <;> decide

theorem isBlank_of_opens {c : Char} (h : opens c = true) : isBlank c = false := by
  rcases opens_iff.1 h with rfl | rfl | rfl | rfl | (rfl | hd) | rfl | rfl
  · decide
  · decide
  · decide
  · decide
  · decide
  · obtain ⟨h0, h9⟩ := Char.isDigit_iff_toNat.1 hd
    simp at h0 h9
    simp [isBlank, inRanges, blankRanges]
    omega
  · decide
  · decide

variable {d : Nat} {name pre b b₁ b₂ body after c r s : List Char} {v : Json}

/-- A name without quotes and backslashes that has a character which no structure has. -/
structure Ordinary (name : List Char) : Prop where
  strange : ∃ c ∈ name, isStructure c = false
  quote : '"' ∉ name
  slash : '\\' ∉ name

theorem ordinary_of_bar (hbar : '|' ∈ name) (hq : '"' ∉ name) (hs : '\\' ∉ name) : Ordinary name :=
  ⟨⟨_, hbar, by decide⟩, hq, hs⟩

/-- An ordinary name stands in a string, so its closing quote leads into the structure. -/
theorem Ordinary.run_quoted (h : Ordinary name) (hne : run outside (pre ++ quoted name) ≠ broken) :
    run outside (pre ++ quoted name) = outside := by
  have hplain : run inside name = inside :=
    run_plain fun c hc => ⟨fun hq => h.quote (hq ▸ hc), fun hs => h.slash (hs ▸ hc)⟩
  have hbreak : run outside name = broken := by
    obtain ⟨c, hc, hstrange⟩ := h.strange
    obtain ⟨l, r, rfl⟩ := List.append_of_mem hc
    have hl : '"' ∉ l := fun hq => h.quote (by simp [hq])
    have hnext : next outside c = broken := by
      have hcq : c ≠ '"' := by rintro rfl; exact h.quote (by simp)
      simp [next, hcq, hstrange]
    rw [run_append]
    rcases run_outside hl with hrun | hrun
    · rw [hrun, run_cons, hnext, run_broken]
    · rw [hrun, run_broken]
  have hquoted : quoted name = '"' :: (name ++ ['"']) := rfl
  rw [run_append, hquoted, run_cons, run_append] at hne ⊢
  cases hm : run outside pre with
  | outside | escaped =>
    show run (run inside name) ['"'] = outside
    rw [hplain]
    rfl
  | inside =>
    rw [hm, show next inside '"' = outside from rfl, hbreak] at hne
    exact absurd rfl hne
  | broken =>
    rw [hm, show next broken '"' = broken from rfl, run_broken] at hne
    exact absurd rfl hne

theorem Blank.quote_notMem_left (hb : Blank b) : '"' ∉ b := fun h =>
  absurd (hb _ h) (by decide)

/-- A text has one last quote. -/
theorem last_quote {a a' u u' : List Char} (hu : '"' ∉ u) (hu' : '"' ∉ u')
    (h : a ++ '"' :: u = a' ++ '"' :: u') : a = a' ∧ u = u' := by
  rcases append_eq_append_cons h with ⟨z, -, hz⟩ | ⟨z, rfl, hz⟩
  · exact absurd (by rw [hz]; simp) hu'
  · cases z with
    | nil => exact ⟨by simp, (List.cons.inj hz).2⟩
    | cons e z => exact absurd (by rw [(List.cons.inj hz).2]; simp) hu

/-- A value that begins with a quote behind blanks is the string of a literal. -/
theorem string_of_quote (hv : Spells d .slot c v) (hc : b ++ '"' :: s = c ++ r) (hb : Blank b)
    (hl : literal? s = some (body, after)) :
    ∃ prev w, v = .string prev ∧ Spaces b ∧ Spaces w ∧ after = '"' :: w ++ r := by
  cases hv with
  | @slot _ w e w' _ hw he hw' =>
    obtain ⟨o, e', rfl, ho⟩ := he.exists_opens
    have hstart : b ++ '"' :: s = w ++ o :: (e' ++ w' ++ r) := by rw [hc]; simp
    have hdrop := congrArg (List.dropWhile isBlank) hstart
    have htake := congrArg (List.takeWhile isBlank) hstart
    obtain ⟨hd, ht⟩ := dropWhile_blank (c := '"') (r := s) hb (by decide)
    obtain ⟨hd', ht'⟩ := dropWhile_blank (c := o) (r := e' ++ w' ++ r)
      (fun x hx => isBlank_of_isSpace (hw x hx)) (isBlank_of_opens ho)
    rw [hd, hd'] at hdrop
    rw [ht, ht'] at htake
    obtain ⟨rfl, rfl⟩ := List.cons.inj hdrop
    cases he with
    | @string _ raw text hn =>
      have hbody := hn.isBody (w' ++ r)
      have hs : raw ++ '"' :: (w' ++ r) = raw ++ ['"'] ++ w' ++ r := by simp
      obtain ⟨-, rfl⟩ := Prod.mk.inj (Option.some.inj (hbody.symm.trans (hs ▸ hl)))
      exact ⟨_, w', rfl, htake ▸ hw, hw', rfl⟩
    | atom ha => exact absurd rfl (ha.isStructure '"' (by simp)).2

/-- A text of a string between blanks. -/
theorem spells_string {w w' : List Char} (hw : Spaces w) (hw' : Spaces w') (value : String) :
    Spells d .slot (w ++ '"' :: encode value.toList ++ '"' :: w') (.string value) := by
  have h := Spells.slot (d := d) hw (.string (literal_encode value.toList)) hw'
  simpa using h

theorem append_lead_colon (pre name b₁ b₂ z : List Char) : pre ++ lead name b₁ b₂ ++ z =
    (pre ++ quoted name ++ b₁) ++ ':' :: (b₂ ++ '"' :: z) := by
  simp [lead]

/-- What stands in front of the colon of a lead ends in the structure if the name does. -/
theorem run_lead (hb₁ : Blank b₁) {z : List Char}
    (hne : run outside (pre ++ lead name b₁ b₂ ++ z) ≠ broken)
    (hm : run outside (pre ++ quoted name) = outside) :
    run outside (pre ++ quoted name ++ b₁) = outside := by
  rw [append_lead_colon, run_append] at hne
  have hx : run outside (pre ++ quoted name ++ b₁) ≠ broken := by
    intro hx
    rw [hx, run_broken] at hne
    exact hne rfl
  rw [run_append, hm] at hx ⊢
  exact (run_outside hb₁.quote_notMem_left).resolve_right hx

/-- A lead whose name ends in the structure is cut at its colon, and the value is a string. -/
theorem cut_of_lead (hb₁ : Blank b₁) (hb₂ : Blank b₂)
    (hl : literal? (body ++ after) = some (body, after))
    (hv : Spells d .slot (pre ++ lead name b₁ b₂ ++ (body ++ after)) v)
    (hm : run outside (pre ++ quoted name) = outside) :
    ∃ (C : Cut d .slot (pre ++ quoted name ++ b₁) (b₂ ++ '"' :: (body ++ after)) v)
      (prev : String) (w : List Char),
      C.old = .string prev ∧ Spaces b₂ ∧ Spaces w ∧ after = '"' :: w ++ C.rest := by
  have hx := run_lead hb₁ (by rw [hv.run_eq]; decide) hm
  obtain ⟨C⟩ := hv.cut (append_lead_colon _ _ _ _ _) hx
  obtain ⟨prev, w, hold, hw₂, hw, hafter⟩ := string_of_quote C.spells C.right_eq hb₂ hl
  exact ⟨C, prev, w, hold, hw₂, hw, hafter⟩

/-- **A lead whose name ends in the structure** stands behind the name of a member, and its value is
the string of the member. -/
theorem member_of_lead (hb₁ : Blank b₁) (hb₂ : Blank b₂)
    (hl : literal? (body ++ after) = some (body, after))
    (hv : Spells d .slot (pre ++ lead name b₁ b₂ ++ (body ++ after)) v)
    (hm : run outside (pre ++ quoted name) = outside) :
    ∃ (S : Site) (front raw : List Char) (prev : String),
      pre ++ '"' :: name = front ++ '"' :: raw ∧ Literal raw S.name.toList ∧
      v = S.fill (.string prev) ∧
      ∀ value : String, Spells d .slot (pre ++ lead name b₁ b₂ ++ (encode value.toList ++ after))
        (S.fill (.string value)) := by
  obtain ⟨C, prev, w, hold, hw₂, hw, hafter⟩ := cut_of_lead hb₁ hb₂ hl hv hm
  have hgap : '"' ∉ C.gap := fun h => absurd (C.spaces _ h) (by decide)
  have hleft : (pre ++ '"' :: name) ++ '"' :: b₁ = (C.front ++ '"' :: C.raw) ++ '"' :: C.gap := by
    rw [← C.left_eq]
    simp [quoted]
  refine ⟨C.site, C.front, C.raw, prev, (last_quote hb₁.quote_notMem_left hgap hleft).1, C.name,
    by rw [← hold]; exact C.fill_eq, fun value => ?_⟩
  have htext : pre ++ lead name b₁ b₂ ++ (encode value.toList ++ after) =
      (pre ++ quoted name ++ b₁) ++
        ':' :: ((b₂ ++ '"' :: encode value.toList ++ '"' :: w) ++ C.rest) := by
    rw [append_lead_colon]
    simpa using hafter
  rw [htext]
  exact C.fill (spells_string hw₂ hw value)

/-- The value of a lead whose name ends in the structure is not the name of another member. -/
theorem after_ne_of_lead (hb₁ : Blank b₁) (hb₂ : Blank b₂)
    (hl : literal? (body ++ after) = some (body, after))
    (hv : Spells d .slot (pre ++ lead name b₁ b₂ ++ (body ++ after)) v)
    (hm : run outside (pre ++ quoted name) = outside) {g z : List Char} (hg : '"' ∉ g) :
    after ≠ '"' :: (g ++ ':' :: z) := by
  intro heq
  obtain ⟨C, prev, w, -, -, hw, hafter⟩ := cut_of_lead hb₁ hb₂ hl hv hm
  have hrest : w ++ C.rest = g ++ ':' :: z := (List.cons.inj (hafter.symm.trans heq)).2
  obtain ⟨t, ht, -⟩ | ⟨t, rfl, ht⟩ := append_eq_append_cons hrest
  · exact hw.no_colon ht
  -- any value may stand here, so take one without a quote: no name can end in front of the colon
  have hnull := C.fill (.slot spaces_nil (.atom .null) spaces_nil)
  obtain ⟨x, hx⟩ : ∃ x, x = b₁ ++ ':' :: (['n', 'u', 'l', 'l'] ++ t) := ⟨_, rfl⟩
  have hqx : '"' ∉ x := by
    have hqt : '"' ∉ t := fun h => hg (by simp [h])
    simp [hx, hqt, hb₁.quote_notMem_left]
  have hcut : pre ++ quoted name ++ b₁ ++
      ':' :: ([] ++ ['n', 'u', 'l', 'l'] ++ [] ++ C.rest) = (pre ++ quoted name ++ x) ++ ':' :: z := by
    simp [hx, ht]
  have hrun : run outside (pre ++ quoted name ++ x) = outside := by
    have hne : run outside (pre ++ quoted name ++ x) ≠ broken := by
      refine ne_broken_of_run (t := ':' :: z) ?_
      rw [← hcut]
      exact hnull.run_eq
    rw [run_append, hm] at hne ⊢
    exact (run_outside hqx).resolve_right hne
  obtain ⟨C'⟩ := hnull.cut hcut hrun
  have hgap : '"' ∉ C'.gap := fun h => absurd (C'.spaces _ h) (by decide)
  have hleft : (pre ++ '"' :: name) ++ '"' :: x = (C'.front ++ '"' :: C'.raw) ++ '"' :: C'.gap := by
    rw [← C'.left_eq]
    simp [quoted]
  have hxgap := (last_quote hqx hgap hleft).2
  exact C'.spaces.no_colon (hxgap.symm.trans hx)

/-- **A lead whose name ends in a string** is followed by structure, where no other text may
stand. -/
theorem gap_of_lead (hb₁ : Blank b₁) (hb₂ : Blank b₂)
    (hm : run outside (pre ++ quoted name) = inside) (z : List Char) :
    ¬ Spells d .slot (pre ++ lead name b₁ b₂ ++ '|' :: z) v := by
  intro hv
  have hgap : run inside (b₁ ++ ':' :: b₂) = inside := by
    refine run_plain fun x hx => ⟨fun hq => hb₁.quote_notMem hb₂ (hq ▸ hx), ?_⟩
    rintro rfl
    exact hb₁.notMem hb₂ (by decide) (by decide) hx
  have hrun := hv.run_eq
  rw [append_lead, run_append, hm, run_append, hgap, run_cons, run_cons] at hrun
  rw [show next (next inside '"') '|' = broken by decide, run_broken] at hrun
  cases hrun

end Upkeep.Patch
