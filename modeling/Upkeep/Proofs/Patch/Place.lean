import Mathlib.Data.List.Basic
import Upkeep.Manifest.Patch
import Upkeep.Proofs.Text.Cuts

/-!
# Where a value stands

A place is found by its lead, the name between quotes and a colon, and by the literal behind it.
What is written at a place decides nothing about the search: the lead is complete before the value
begins, and a search that starts earlier has closed its literal before.

* `opening?_eq_some`: what a lead looks like.
* `literal?_encode`: an encoded text is the body of a literal.
* `find?_replace`: **another literal at a place is found at the same place.**
-/

namespace Upkeep.Patch

open Text

/-- A text of blanks only. -/
def Blank (b : List Char) : Prop := ∀ c ∈ b, isBlank c = true

/-- A name between quotes. -/
def quoted (name : List Char) : List Char := '"' :: name ++ ['"']

/-- What stands in front of a value, up to its opening quote. -/
def lead (name b₁ b₂ : List Char) : List Char := quoted name ++ (b₁ ++ ':' :: b₂) ++ ['"']

theorem append_lead (pre name b₁ b₂ z : List Char) : pre ++ lead name b₁ b₂ ++ z =
    (pre ++ quoted name) ++ ((b₁ ++ ':' :: b₂) ++ '"' :: z) := by
  simp [lead]

theorem dropWhile_blank {b r : List Char} {c : Char} (hb : Blank b) (hc : isBlank c = false) :
    (b ++ c :: r).dropWhile isBlank = c :: r ∧ (b ++ c :: r).takeWhile isBlank = b :=
  (takeWhile_run hb (by simpa using hc)).symm

/-- **What a lead looks like.** -/
theorem opening?_eq_some {name s l r : List Char} :
    opening? name s = some (l, r) ↔
      s = l ++ r ∧ ∃ b₁ b₂, Blank b₁ ∧ Blank b₂ ∧ l = lead name b₁ b₂ := by
  constructor
  · intro h
    refine ⟨eq_of_opening? h, ?_⟩
    unfold opening? at h
    split at h
    · simp at h
    · rename_i t ht
      split at h
      · rename_i u hu
        split at h
        · obtain ⟨rfl, -⟩ := Prod.mk.inj (Option.some.inj h)
          exact ⟨t.takeWhile isBlank, u.takeWhile isBlank, fun _ => List.mem_takeWhile_imp,
            fun _ => List.mem_takeWhile_imp, by simp [lead, quoted]⟩
        · simp at h
      · simp at h
  · rintro ⟨rfl, b₁, b₂, hb₁, hb₂, rfl⟩
    have hs : lead name b₁ b₂ ++ r = ('"' :: name ++ ['"']) ++ (b₁ ++ ':' :: (b₂ ++ '"' :: r)) := by
      simp [lead, quoted]
    obtain ⟨h1, h1'⟩ := dropWhile_blank (c := ':') (r := b₂ ++ '"' :: r) hb₁ rfl
    obtain ⟨h2, h2'⟩ := dropWhile_blank (c := '"') (r := r) hb₂ rfl
    unfold opening?
    rw [hs, after?_eq_some.2 rfl]
    simp only [h1, h2, h1', h2']
    simp [lead, quoted]

/-! ### Literals -/

/-- A text that is the body of a literal, whatever follows its closing quote. -/
def IsBody (b : List Char) : Prop := ∀ r, literal? (b ++ '"' :: r) = some (b, '"' :: r)

theorem literal?_quote (r : List Char) : literal? ('"' :: r) = some ([], '"' :: r) := by
  simp [literal?.eq_def]

theorem literal?_escape {d : Char} (hd : d ≠ '\n') (r : List Char) :
    literal? ('\\' :: d :: r) = (literal? r).map fun (b, r) => ('\\' :: d :: b, r) := by
  rw [literal?.eq_def]
  simp [hd]

theorem literal?_plain {c : Char} (hq : c ≠ '"') (hs : c ≠ '\\') (r : List Char) :
    literal? (c :: r) = (literal? r).map fun (b, r) => (c :: b, r) := by
  rw [literal?.eq_def]
  simp [hq, hs]

/-- What a literal leaves begins with its closing quote. -/
theorem quote_of_literal? {s b r : List Char} (h : literal? s = some (b, r)) :
    ∃ r', r = '"' :: r' := by
  fun_induction literal? s generalizing b r with
  | case1 => simp at h
  | case2 r' => obtain ⟨-, rfl⟩ := Prod.mk.inj (Option.some.inj h); exact ⟨_, rfl⟩
  | case3 | case4 => simp at h
  | case5 d r' _ _ ih | case6 d r' _ _ ih =>
    obtain ⟨⟨b', r''⟩, hb, hr⟩ := Option.map_eq_some_iff.1 h
    obtain ⟨-, rfl⟩ := Prod.mk.inj hr
    exact ih hb

/-- The body of a literal that was read is a body before any rest. -/
theorem isBody_of_literal? {s b r : List Char} (h : literal? s = some (b, r)) : IsBody b := by
  intro r₀
  fun_induction literal? s generalizing b r with
  | case1 => simp at h
  | case2 r' => obtain ⟨rfl, -⟩ := Prod.mk.inj (Option.some.inj h); exact literal?_quote r₀
  | case3 | case4 => simp at h
  | case5 d r' hd _ ih =>
    obtain ⟨⟨b', r''⟩, hb, hr⟩ := Option.map_eq_some_iff.1 h
    obtain ⟨rfl, -⟩ := Prod.mk.inj hr
    simp [literal?_escape hd, ih hb]
  | case6 c r' hq hs ih =>
    obtain ⟨⟨b', r''⟩, hb, hr⟩ := Option.map_eq_some_iff.1 h
    obtain ⟨rfl, -⟩ := Prod.mk.inj hr
    simp [literal?_plain hq hs, ih hb]

theorem hexDigit_plain : ∀ n < 16, Json.hexDigit n ≠ '"' ∧ Json.hexDigit n ≠ '\\' := by decide

/-- An encoded character is passed over as a whole. -/
theorem literal?_encodeChar (c : Char) (r : List Char) :
    literal? (Json.encodeChar c ++ r) =
      (literal? r).map fun (b, r) => (Json.encodeChar c ++ b, r) := by
  unfold Json.encodeChar
  by_cases h1 : c = '"'
  · simp [h1, literal?_escape]
  by_cases h2 : c = '\\'
  · simp [h2, literal?_escape]
  simp only [h1, h2, if_false]
  split_ifs with h3 h4 h5 h6 h7 h8
  iterate 5 · simp [literal?_escape]
  · -- a control character without a letter of its own
    obtain ⟨hh, hh'⟩ := hexDigit_plain (c.toNat / 16) (by omega)
    obtain ⟨hl, hl'⟩ := hexDigit_plain (c.toNat % 16) (by omega)
    simp [literal?_escape, literal?_plain (c := '0'), literal?_plain hh hh', literal?_plain hl hl',
      Function.comp_def]
  · simp [literal?_plain h1 h2]

/-- **An encoded text is the body of a literal.** -/
theorem isBody_encode (s : List Char) : IsBody (Json.encode s) := by
  intro r
  induction s with
  | nil => exact literal?_quote r
  | cons c s ih =>
    have h : Json.encode (c :: s) = Json.encodeChar c ++ Json.encode s := by simp [Json.encode]
    rw [h, List.append_assoc, literal?_encodeChar, ih]
    simp

/-! ### The search -/

theorem Blank.notMem {b₁ b₂ : List Char} {c : Char} (h₁ : Blank b₁) (h₂ : Blank b₂)
    (hc : isBlank c = false) (hne : c ≠ ':') : c ∉ b₁ ++ ':' :: b₂ := by
  intro h
  rcases List.mem_append.1 h with h | h
  · exact absurd (h₁ _ h) (by simp [hc])
  · rcases List.mem_cons.1 h with h | h
    · exact hne h
    · exact absurd (h₂ _ h) (by simp [hc])

theorem Blank.quote_notMem {b₁ b₂ : List Char} (h₁ : Blank b₁) (h₂ : Blank b₂) :
    '"' ∉ b₁ ++ ':' :: b₂ := h₁.notMem h₂ (by decide) (by decide)

theorem Blank.getLast?_ne {b₁ b₂ : List Char} (h₂ : Blank b₂) (z : List Char) :
    (z ++ (b₁ ++ ':' :: b₂)).getLast? ≠ some '\\' := by
  intro h
  rw [← List.append_assoc, List.getLast?_append_of_ne_nil _ (by simp)] at h
  rcases List.mem_cons.1 (List.mem_of_getLast? h) with h | h
  · exact absurd h (by decide)
  · exact absurd (h₂ _ h) (by decide)

theorem at?_eq_some {name s : List Char} {p : Place} :
    at? name s = some p ↔ ∃ b₁ b₂, Blank b₁ ∧ Blank b₂ ∧ p.before = lead name b₁ b₂ ∧
      s = p.before ++ (p.body ++ p.after) ∧ literal? (p.body ++ p.after) = some (p.body, p.after) := by
  unfold at?
  constructor
  · intro h
    split at h
    · simp at h
    · rename_i l r ho
      obtain ⟨⟨body, rest⟩, hl, rfl⟩ := Option.map_eq_some_iff.1 h
      obtain ⟨rfl, b₁, b₂, hb₁, hb₂, rfl⟩ := opening?_eq_some.1 ho
      obtain rfl := eq_of_literal? hl
      exact ⟨b₁, b₂, hb₁, hb₂, rfl, rfl, hl⟩
  · rintro ⟨b₁, b₂, hb₁, hb₂, hp, hs, hl⟩
    rw [opening?_eq_some.2 ⟨hs, b₁, b₂, hb₁, hb₂, hp⟩]
    simp [hl]

/-- Whether a literal closes is decided by the first quote that no backslash stands before. -/
theorem literal?_isSome_congr (z z' : List Char) : ∀ {t : List Char}, t.getLast? ≠ some '\\' →
    (literal? (t ++ '"' :: z)).isSome → (literal? (t ++ '"' :: z')).isSome
  | [], _, _ => by simp [literal?_quote]
  | [c], hl, _ => by
    by_cases hq : c = '"'
    · simp [hq, literal?_quote]
    · have hs : c ≠ '\\' := by simpa using hl
      simp [literal?_plain hq hs, literal?_quote]
  | c :: d :: t, hl, h => by
    have hl' : (d :: t).getLast? ≠ some '\\' := by simpa using hl
    by_cases hq : c = '"'
    · simp [hq, literal?_quote]
    by_cases hs : c = '\\'
    · subst hs
      by_cases hd : d = '\n'
      · simp [hd, literal?.eq_def] at h
      · have ht : t.getLast? ≠ some '\\' := by
          cases t with
          | nil => simp
          | cons e t => simpa using hl'
        simp only [List.cons_append, literal?_escape hd, Option.isSome_map] at h ⊢
        exact literal?_isSome_congr z z' ht h
    · simp only [List.cons_append, literal?_plain hq hs, Option.isSome_map] at h ⊢
      exact literal?_isSome_congr z z' hl' h

/-- A lead that begins earlier than another one of the same name ends before the gap of that one. -/
theorem lead_before {name pre b₁ b₂ d₁ d₂ x z : List Char} (hd₁ : Blank d₁) (hd₂ : Blank d₂)
    (hpre : pre ≠ []) (h : lead name d₁ d₂ ++ x = pre ++ lead name b₁ b₂ ++ z) :
    ∃ t, pre ++ quoted name = lead name d₁ d₂ ++ t ∧
      x = t ++ (b₁ ++ ':' :: b₂) ++ '"' :: z := by
  have h' := h.trans (append_lead pre name b₁ b₂ z)
  rcases List.append_eq_append_iff.1 h' with ⟨t, hU, hx⟩ | ⟨t, hL, hY⟩
  · exact ⟨t, hU, by rw [hx]; simp⟩
  · -- the lead reaches the closing quote of the name, and has no quote but its last one there
    have ht : t = [] := by
      have hsplit : quoted name ++ ((d₁ ++ ':' :: d₂) ++ ['"']) = (pre ++ quoted name) ++ t := by
        rw [← hL]; simp [lead]
      rcases List.append_eq_append_iff.1 hsplit with ⟨u, hu, hut⟩ | ⟨u, hu, -⟩
      · have hune : u ≠ [] := by
          rintro rfl
          have := congrArg List.length hu
          simp only [List.length_append, List.length_nil] at this
          exact hpre (List.eq_nil_of_length_eq_zero (by omega))
        have hlast : u.getLast? = some '"' := by
          have := congrArg List.getLast? hu
          rw [List.getLast?_append_of_ne_nil _ hune] at this
          rw [← this, quoted, ← List.append_assoc, List.getLast?_concat]
        by_contra htne
        obtain ⟨t', e, rfl⟩ := List.eq_nil_or_concat' t |>.resolve_left htne
        rw [← List.append_assoc] at hut
        have hgap := (List.append_inj' hut rfl).1
        exact hd₁.quote_notMem hd₂ (hgap ▸ List.mem_append_left _ (List.mem_of_getLast? hlast))
      · have := congrArg List.length hu
        simp only [List.length_append] at this
        exact absurd (List.eq_nil_of_length_eq_zero (by omega)) hpre
    subst ht
    refine ⟨[], by simpa using hL.symm, ?_⟩
    rw [List.nil_append] at hY
    rw [← hY]; simp

/-- Whether a place begins in front of a lead does not depend on what follows the lead. -/
theorem at?_isSome_congr {name pre b₁ b₂ : List Char} (hb₂ : Blank b₂) (hpre : pre ≠ [])
    (z z' : List Char) (h : (at? name (pre ++ lead name b₁ b₂ ++ z)).isSome) :
    (at? name (pre ++ lead name b₁ b₂ ++ z')).isSome := by
  obtain ⟨p, hp⟩ := Option.isSome_iff_exists.1 h
  obtain ⟨d₁, d₂, hd₁, hd₂, hbefore, hs, hl⟩ := at?_eq_some.1 hp
  rw [hbefore] at hs
  obtain ⟨t, hU, hx⟩ := lead_before hd₁ hd₂ hpre hs.symm
  have hsome : (literal? (t ++ (b₁ ++ ':' :: b₂) ++ '"' :: z)).isSome := by
    rw [← hx, hl]; rfl
  obtain ⟨⟨b, r⟩, hl'⟩ :=
    Option.isSome_iff_exists.1 (literal?_isSome_congr z z' (hb₂.getLast?_ne t) hsome)
  have hs' : pre ++ lead name b₁ b₂ ++ z' = lead name d₁ d₂ ++ (b ++ r) := by
    rw [← eq_of_literal? hl']
    rw [append_lead, hU]; simp
  rw [at?_eq_some (p := ⟨lead name d₁ d₂, b, r⟩) |>.2
    ⟨d₁, d₂, hd₁, hd₂, rfl, hs', eq_of_literal? hl' ▸ hl'⟩]
  rfl

/-- The place that is found begins a text, or no place does and it is found behind the first character. -/
theorem find?_cons_eq_some {name r : List Char} {c : Char} {p : Place} (h : find? name (c :: r) = some p) :
    at? name (c :: r) = some p ∨ at? name (c :: r) = none ∧
      ∃ q, find? name r = some q ∧ p = { q with before := c :: q.before } := by
  unfold find? at h
  split at h
  · rename_i q hq
    exact .inl (hq.trans h)
  · rename_i hnone
    obtain ⟨q, hq, hp⟩ := Option.map_eq_some_iff.1 h
    exact .inr ⟨hnone, q, hq, hp.symm⟩

/-- What stands in front of a place that was found ends in a lead. -/
theorem before_of_find? {name s : List Char} {p : Place} (h : find? name s = some p) :
    ∃ pre b₁ b₂, Blank b₁ ∧ Blank b₂ ∧ p.before = pre ++ lead name b₁ b₂ ∧
      literal? (p.body ++ p.after) = some (p.body, p.after) := by
  induction s generalizing p with
  | nil => simp [find?] at h
  | cons c r ih =>
    rcases find?_cons_eq_some h with hat | ⟨-, q, hq, rfl⟩
    · obtain ⟨b₁, b₂, hb₁, hb₂, hp, -, hl⟩ := at?_eq_some.1 hat
      exact ⟨[], b₁, b₂, hb₁, hb₂, hp, hl⟩
    · obtain ⟨pre, b₁, b₂, hb₁, hb₂, hp, hl⟩ := ih hq
      exact ⟨c :: pre, b₁, b₂, hb₁, hb₂, by simp [hp], hl⟩

/-- A place of a value in a text, the first one or a later one. -/
structure IsPlace (name s : List Char) (p : Place) : Prop where
  text_eq : p.text = s
  before_eq : ∃ pre b₁ b₂, Blank b₁ ∧ Blank b₂ ∧ p.before = pre ++ lead name b₁ b₂
  literal : literal? (p.body ++ p.after) = some (p.body, p.after)

theorem isPlace_of_find? {name s : List Char} {p : Place} (h : find? name s = some p) :
    IsPlace name s p := by
  obtain ⟨pre, b₁, b₂, hb₁, hb₂, hp, hl⟩ := before_of_find? h
  exact ⟨text_of_find? h, ⟨pre, b₁, b₂, hb₁, hb₂, hp⟩, hl⟩

/-- A text has one place behind the same characters. -/
theorem IsPlace.unique {name s : List Char} {p q : Place} (hp : IsPlace name s p)
    (hq : IsPlace name s q) (h : p.before.length = q.before.length) : p = q := by
  obtain ⟨before, body, after⟩ := p
  obtain ⟨before', body', after'⟩ := q
  have htext : before ++ (body ++ after) = before' ++ (body' ++ after') := by
    simpa [Place.text] using hp.text_eq.trans hq.text_eq.symm
  obtain ⟨rfl, hrest⟩ := List.append_inj htext h
  have hl : literal? (body ++ after) = some (body, after) := hp.literal
  rw [hrest, show literal? (body' ++ after') = some (body', after') from hq.literal] at hl
  obtain ⟨rfl, rfl⟩ := Prod.mk.inj (Option.some.inj hl)
  rfl

/-- The place that is found stands in front of all others. -/
theorem IsPlace.find?_le {name s : List Char} {q : Place} (hq : IsPlace name s q) :
    ∃ p, find? name s = some p ∧ p.before.length ≤ q.before.length := by
  obtain ⟨htext, ⟨pre, b₁, b₂, hb₁, hb₂, hbefore⟩, hl⟩ := hq
  induction pre generalizing s q with
  | nil =>
    rw [List.nil_append] at hbefore
    have hat : at? name s = some q := at?_eq_some.2
      ⟨b₁, b₂, hb₁, hb₂, hbefore, by rw [← htext, Place.text, List.append_assoc], hl⟩
    cases s with
    | nil => simp [Place.text, hbefore, lead, quoted] at htext
    | cons c r => exact ⟨q, by simp [find?, hat], le_refl _⟩
  | cons c pre ih =>
    obtain ⟨before, body, after⟩ := q
    obtain rfl : before = c :: (pre ++ lead name b₁ b₂) := hbefore
    obtain rfl : c :: (pre ++ lead name b₁ b₂ ++ body ++ after) = s := htext
    obtain ⟨p, hp, hle⟩ := ih (s := pre ++ lead name b₁ b₂ ++ body ++ after)
      (q := ⟨pre ++ lead name b₁ b₂, body, after⟩) rfl hl rfl
    unfold find?
    split
    · rename_i p' hat
      obtain ⟨d₁, d₂, hd₁, hd₂, hp', hs, -⟩ := at?_eq_some.1 hat
      refine ⟨p', rfl, ?_⟩
      -- this place begins earlier, so its value does too
      rw [hp'] at hs ⊢
      have hlead : lead name d₁ d₂ ++ (p'.body ++ p'.after) =
          (c :: pre) ++ lead name b₁ b₂ ++ (body ++ after) := by rw [← hs]; simp
      obtain ⟨t, ht, -⟩ := lead_before hd₁ hd₂ (by simp) hlead
      have hlength := congrArg List.length ht
      simp only [lead, List.length_append, List.length_cons] at hlength ⊢
      omega
    · refine ⟨_, by rw [hp]; rfl, ?_⟩
      simpa using hle

/-- **The place that is found** is the first one. -/
theorem find?_eq_some_iff {name s : List Char} {p : Place} : find? name s = some p ↔
    IsPlace name s p ∧ ∀ q, IsPlace name s q → p.before.length ≤ q.before.length := by
  constructor
  · intro h
    refine ⟨isPlace_of_find? h, fun q hq => ?_⟩
    obtain ⟨p', hp', hle⟩ := hq.find?_le
    obtain rfl := Option.some.inj (h.symm.trans hp')
    exact hle
  · rintro ⟨hp, hfirst⟩
    obtain ⟨p', hp', hle⟩ := hp.find?_le
    have hle' := hfirst p' (isPlace_of_find? hp')
    rw [hp', (isPlace_of_find? hp').unique hp (by omega)]

/-- **Another literal at a place is found at the same place.** -/
theorem find?_replace {name s : List Char} {p : Place} (h : find? name s = some p) {b : List Char}
    (hb : IsBody b) : find? name (p.before ++ b ++ p.after) = some { p with body := b } := by
  induction s generalizing p with
  | nil => simp [find?] at h
  | cons c r ih =>
    rcases find?_cons_eq_some h with hq | ⟨hnone, q, hq, rfl⟩
    · obtain ⟨b₁, b₂, hb₁, hb₂, hp, -, hl⟩ := at?_eq_some.1 hq
      obtain ⟨rest, hrest⟩ := quote_of_literal? hl
      have hat : at? name (p.before ++ b ++ p.after) = some { p with body := b } :=
        at?_eq_some.2 ⟨b₁, b₂, hb₁, hb₂, hp, by simp, by rw [hrest]; exact hb rest⟩
      obtain ⟨e, t, het⟩ : ∃ e t, p.before ++ b ++ p.after = e :: t := by
        rw [hp]; exact ⟨_, _, rfl⟩
      rw [het] at hat ⊢
      simp [find?, hat]
    · obtain ⟨pre, b₁, b₂, hb₁, hb₂, hp, -⟩ := before_of_find? hq
      -- nothing began earlier before, so nothing begins earlier now
      have hnone' : at? name (c :: (q.before ++ b ++ q.after)) = none := by
        by_contra hne
        have hr : c :: r = (c :: pre) ++ lead name b₁ b₂ ++ (q.body ++ q.after) := by
          rw [← text_of_find? hq, Place.text, hp]; simp
        have hsome : (at? name ((c :: pre) ++ lead name b₁ b₂ ++ (b ++ q.after))).isSome := by
          rw [hp] at hne
          simpa [Option.isSome_iff_ne_none] using hne
        have := at?_isSome_congr hb₂ (by simp) _ (q.body ++ q.after) hsome
        rw [← hr, hnone] at this
        simp at this
      simp only [List.cons_append, find?, hnone', ih hq, Option.map_some]

end Upkeep.Patch
