import Upkeep.Proofs.Manifest.Match

/-!
# Places of different names

In a JSON text two ordinary names have their places apart: the literal of the one does not touch the
lead or the literal of the other. So another value at the place of one name moves the places of all
others along and makes none of them come or go.

* `IsPlace.shift`: **a place outlives another value elsewhere**.
* `find?_shift`: so does the first place.
* `Shifted.filled_comm`: two values are written in either order.
-/

namespace Upkeep.Patch

open Json Mode

variable {name k s x y : List Char} {p p' q q' r r' : Place}

/-! ### Literals and modes -/

/-- The inside of a literal stays in the string all along. -/
theorem run_prefix_of_literal? {b t u v : List Char} (h : literal? s = some (b, t))
    (hb : b = u ++ v) : run inside u ≠ outside := by
  fun_induction literal? s generalizing b t u with
  | case1 => simp at h
  | case2 =>
    obtain ⟨rfl, -⟩ := Prod.mk.inj (Option.some.inj h)
    obtain ⟨rfl, -⟩ := List.append_eq_nil_iff.1 hb.symm
    decide
  | case3 | case4 => simp at h
  | case5 d r' _ _ ih =>
    obtain ⟨⟨b', t'⟩, hl, heq⟩ := Option.map_eq_some_iff.1 h
    obtain ⟨rfl, -⟩ := Prod.mk.inj heq
    rcases u with _ | ⟨c, _ | ⟨d', u⟩⟩
    · decide
    · obtain ⟨rfl, -⟩ := List.cons.inj hb
      decide
    · obtain ⟨rfl, hb'⟩ := List.cons.inj hb
      show run inside u ≠ outside
      exact ih hl (List.cons.inj hb').2
  | case6 c r' hq hs ih =>
    obtain ⟨⟨b', t'⟩, hl, heq⟩ := Option.map_eq_some_iff.1 h
    obtain ⟨rfl, -⟩ := Prod.mk.inj heq
    cases u with
    | nil => decide
    | cons e u =>
      obtain ⟨rfl, hb'⟩ := List.cons.inj hb
      rw [run_cons, next, if_neg hq, if_neg hs]
      exact ih hl hb'

/-- What leads from a string into the structure takes the literal along. -/
theorem split_of_literal? {b t u v : List Char} (h : literal? (b ++ t) = some (b, t))
    (hu : run inside u = outside) (heq : b ++ t = u ++ '"' :: v) :
    ∃ z, u ++ ['"'] = b ++ z ∧ z ≠ [] ∧ z ≠ ['"'] ∧ t = z ++ v := by
  have heq' : b ++ t = (u ++ ['"']) ++ v := by simpa using heq
  rcases List.append_eq_append_iff.1 heq' with ⟨z, hz, ht⟩ | ⟨z, hz, -⟩
  · refine ⟨z, hz, ?_, ?_, ht⟩
    · rintro rfl
      exact run_prefix_of_literal? h (u := u) (v := ['"']) (by simpa using hz.symm) hu
    · rintro rfl
      exact run_prefix_of_literal? h (u := u) (v := []) (by simpa using hz.symm) hu
  · exact absurd hu (run_prefix_of_literal? h (u := u) (v := '"' :: z) (by simpa using hz))

/-! ### Places in the structure -/

/-- The last quote in front of a value stands in the structure, if the name is an ordinary one. -/
theorem IsPlace.before_outside (hk : Ordinary name) (hs : run outside s ≠ broken)
    (hp : IsPlace name s p) : ∃ pre g, '"' ∉ g ∧ p.before = (pre ++ '"' :: name ++ '"' :: g) ++ ['"'] ∧
      run outside (pre ++ '"' :: name ++ '"' :: g) = outside := by
  obtain ⟨htext, ⟨pre, b₁, b₂, hb₁, hb₂, hbefore⟩, -⟩ := hp
  have hg := hb₁.quote_notMem hb₂
  have hsplit : pre ++ '"' :: name ++ '"' :: (b₁ ++ ':' :: b₂) =
      (pre ++ quoted name) ++ (b₁ ++ ':' :: b₂) := by simp [quoted]
  have hcut : s = (pre ++ quoted name) ++ ((b₁ ++ ':' :: b₂) ++ '"' :: (p.body ++ p.after)) := by
    rw [← append_lead, ← hbefore, ← List.append_assoc]
    exact htext.symm
  have hne {u v : List Char} (h : s = u ++ v) : run outside u ≠ broken := by
    intro hu
    rw [h, run_append, hu, run_broken] at hs
    exact hs rfl
  have hname : run outside (pre ++ quoted name) = outside := hk.run_quoted (hne hcut)
  have hgap : run outside ((pre ++ quoted name) ++ (b₁ ++ ':' :: b₂)) ≠ broken :=
    hne (hcut.trans (List.append_assoc _ _ _).symm)
  rw [run_append, hname] at hgap
  refine ⟨pre, b₁ ++ ':' :: b₂, hg, by rw [hsplit, hbefore]; simp [lead], ?_⟩
  rw [hsplit, run_append, hname]
  exact (run_outside hg).resolve_right hgap

/-- A part of a lead that begins with a quote: the gap, unless it is the lead or its last quote. -/
theorem lead_suffix {b₁ b₂ l c : List Char} (hk : '"' ∉ k) (hb₁ : Blank b₁) (hb₂ : Blank b₂)
    (h : lead k b₁ b₂ = l ++ '"' :: c) (hl : l ≠ []) (hc : c ≠ []) :
    c = b₁ ++ ':' :: (b₂ ++ ['"']) := by
  have hg := hb₁.quote_notMem hb₂
  have hlead : lead k b₁ b₂ = '"' :: (k ++ '"' :: ((b₁ ++ ':' :: b₂) ++ ['"'])) := by
    simp [lead, quoted]
  rw [hlead] at h
  cases l with
  | nil => exact absurd rfl hl
  | cons e l =>
    rcases append_eq_append_cons (List.cons.inj h).2 with ⟨z, hz, -⟩ | ⟨z, -, hz⟩
    · exact absurd (by rw [hz]; simp) hk
    · cases z with
      | nil => simpa using (List.cons.inj hz).2.symm
      | cons e z =>
        rcases append_eq_append_cons (List.cons.inj hz).2 with ⟨u, hu, -⟩ | ⟨u, -, hu⟩
        · exact absurd (by rw [hu]; simp) hg
        · cases u with
          | nil => exact absurd (List.cons.inj hu).2.symm hc
          | cons e u => simp at hu

/-! ### Another value elsewhere -/

/-- A place in a text, and the same place after another body was written at the place `p`. It stands in
front of `p` or behind it. -/
inductive Shifted (p : Place) (x : List Char) (q q' : Place) : Prop where
  | front {z : List Char} (hz : z ≠ []) (hp : p.before = q.before ++ q.body ++ z)
      (hq : q.after = z ++ p.body ++ p.after) (hq' : q' = ⟨q.before, q.body, z ++ x ++ p.after⟩)
  | back {c : List Char} (hc : c ≠ []) (hp : p.after = c ++ q.body ++ q.after)
      (hq : q.before = p.before ++ p.body ++ c) (hq' : q' = ⟨p.before ++ x ++ c, q.body, q.after⟩)

theorem Shifted.symm (h : Shifted p x q q') : Shifted { p with body := x } p.body q' q := by
  cases h with
  | front hz hp hq hq' =>
    subst hq'
    exact .front hz hp rfl (by rw [← hq])
  | back hc hp hq hq' =>
    subst hq'
    exact .back hc hp rfl (by rw [← hq])

/-- Places keep their order. -/
theorem Shifted.le (hq : Shifted p x q q') (hr : Shifted p x r r')
    (h : q.before.length ≤ r.before.length) : q'.before.length ≤ r'.before.length := by
  cases hq with
  | front _ hpq _ hq' =>
    cases hr with
    | front _ _ _ hr' => rw [hq', hr']; exact h
    | back _ _ _ hr' =>
      have hlength := congrArg List.length hpq
      rw [hq', hr']
      simp only [List.length_append] at hlength ⊢
      omega
  | back hc _ hpq hq' =>
    have hpos := List.length_pos_iff.2 hc
    cases hr with
    | front _ hpr =>
      have hlength := congrArg List.length hpr
      rw [hpq] at h
      simp only [List.length_append] at hlength h
      omega
    | back _ _ hpr hr' =>
      rw [hpq, hpr] at h
      rw [hq', hr']
      simp only [List.length_append] at h ⊢
      omega

/-- **Two values are written in either order.** -/
theorem Shifted.filled_comm (hq : Shifted p x q q') (hp : Shifted q y p p') :
    q'.before ++ y ++ q'.after = p'.before ++ x ++ p'.after := by
  cases hq with
  | front hz hpq hafter hq' =>
    cases hp with
    | front _ hqp =>
      have hlength := congrArg List.length hpq
      have hlength' := congrArg List.length hqp
      have hpos := List.length_pos_iff.2 hz
      simp only [List.length_append] at hlength hlength'
      omega
    | back _ _ hbefore hp' =>
      obtain rfl := List.append_cancel_left (hpq.symm.trans hbefore)
      simp [hq', hp']
  | back hc hpq hbefore hq' =>
    cases hp with
    | front _ _ hafter hp' =>
      have hcz := hpq.symm.trans hafter
      rw [List.append_assoc, List.append_assoc] at hcz
      obtain rfl := List.append_cancel_right hcz
      simp [hq', hp']
    | back _ hqp =>
      have hlength := congrArg List.length hpq
      have hlength' := congrArg List.length hqp
      have hpos := List.length_pos_iff.2 hc
      simp only [List.length_append] at hlength hlength'
      omega

/-- Two places do not begin behind one another's quotes, unless the names are the same. -/
theorem lead_name {pre pre' g g' : List Char} (hq : '"' ∉ name) (hq' : '"' ∉ k) (hg : '"' ∉ g)
    (hg' : '"' ∉ g') (h : pre ++ '"' :: name ++ '"' :: g = pre' ++ '"' :: k ++ '"' :: g') :
    name = k := (last_quote hq hq' (last_quote hg hg' h).1).2

/-- A lead behind a place begins behind it. -/
theorem IsPlace.lead_back {c : List Char} (hk : '"' ∉ k) (hp : IsPlace name s p)
    (hafter : ∀ g z, '"' ∉ g → p.after ≠ '"' :: (g ++ ':' :: z)) (hq : IsPlace k s q) (hc : c ≠ [])
    (hc' : c ≠ ['"']) (hbefore : q.before = p.before ++ p.body ++ c)
    (hrest : p.after = c ++ q.body ++ q.after) :
    ∃ pre b₁ b₂, Blank b₁ ∧ Blank b₂ ∧ c = pre ++ lead k b₁ b₂ := by
  obtain ⟨r, hr⟩ := quote_of_literal? hp.literal
  obtain ⟨e, c, rfl⟩ := List.exists_cons_of_ne_nil hc
  obtain rfl : e = '"' := by
    rw [hrest] at hr
    exact (List.cons.inj hr).1
  obtain ⟨pre, b₁, b₂, hb₁, hb₂, hlead⟩ := hq.before_eq
  rcases List.append_eq_append_iff.1 (hlead.symm.trans hbefore) with ⟨l, -, hl⟩ | ⟨c', -, hc'⟩
  · cases l with
    | nil => exact ⟨[], b₁, b₂, hb₁, hb₂, hl.symm⟩
    | cons e l =>
      -- the quote behind the value would close the name of another member
      have hgap := lead_suffix hk hb₁ hb₂ hl (by simp) (by rintro rfl; exact hc' rfl)
      refine absurd ?_ (hafter b₁ (b₂ ++ '"' :: (q.body ++ q.after)) hb₁.quote_notMem_left)
      rw [hrest, hgap]
      simp
  · exact ⟨c', b₁, b₂, hb₁, hb₂, hc'⟩

section Shift

variable (hn : Ordinary name) (hk : Ordinary k) (hnk : name ≠ k) (hs : run outside s ≠ broken)
  (hp : IsPlace name s p) (hafter : ∀ g z, '"' ∉ g → p.after ≠ '"' :: (g ++ ':' :: z))

include hn hk hnk hs hp hafter

/-- **A place outlives another value elsewhere.** -/
theorem IsPlace.shift (hq : IsPlace k s q) :
    ∃ q', Shifted p x q q' ∧ IsPlace k (p.before ++ x ++ p.after) q' := by
  obtain ⟨pre, g, hg, hA, hmA⟩ := hp.before_outside hn hs
  obtain ⟨pre', g', hg', hB, hmB⟩ := hq.before_outside hk hs
  have htext : (pre' ++ '"' :: k ++ '"' :: g') ++ '"' :: (q.body ++ q.after) =
      (pre ++ '"' :: name ++ '"' :: g) ++ '"' :: (p.body ++ p.after) := by
    have := hq.text_eq.trans hp.text_eq.symm
    simpa [Place.text, hA, hB] using this
  rcases append_eq_append_cons htext with ⟨u, hu, hrest⟩ | ⟨u, hu, hrest⟩
  · -- the place of the other name stands behind
    have hmu : run inside u = outside := by
      rw [hu, run_append, hmA] at hmB
      exact hmB
    obtain ⟨c, hc, hne, hne', hpa⟩ := split_of_literal? hp.literal hmu hrest
    have hbefore : q.before = p.before ++ p.body ++ c := by rw [hB, hA, hu]; simp [hc]
    rw [← List.append_assoc] at hpa
    obtain ⟨z, b₁, b₂, hb₁, hb₂, hlead⟩ :=
      hp.lead_back hk.quote hafter hq hne hne' hbefore hpa
    refine ⟨_, .back hne hpa hbefore rfl, ⟨?_, ⟨p.before ++ x ++ z, b₁, b₂, hb₁, hb₂, ?_⟩, hq.literal⟩⟩
    · simp [Place.text, hpa]
    · simp [hlead]
  · cases u with
    | nil =>
      rw [List.append_nil] at hu
      exact absurd (lead_name hn.quote hk.quote hg hg' hu) hnk
    | cons e u =>
      -- it stands in front
      obtain ⟨rfl, hrest'⟩ := List.cons.inj hrest
      have hmu : run inside u = outside := by
        rw [hu, run_append, hmB] at hmA
        exact hmA
      obtain ⟨z, hz, hne, -, hqa⟩ := split_of_literal? hq.literal hmu hrest'
      have hbefore : p.before = q.before ++ q.body ++ z := by rw [hA, hB, hu]; simp [hz]
      rw [← List.append_assoc] at hqa
      obtain ⟨e, z, rfl⟩ := List.exists_cons_of_ne_nil hne
      obtain ⟨t, ht⟩ := quote_of_literal? hq.literal
      obtain rfl : e = '"' := by
        rw [hqa] at ht
        exact (List.cons.inj ht).1
      refine ⟨_, .front hne hbefore hqa rfl, ⟨?_, hq.before_eq, ?_⟩⟩
      · simp [Place.text, hbefore]
      · exact isBody_of_literal? hq.literal _

/-- **The first place outlives another value elsewhere**, and no other one comes in front of it. -/
theorem find?_shift (hx : IsBody x) (hs' : run outside (p.before ++ x ++ p.after) ≠ broken) :
    (∀ q, find? k s = some q →
      ∃ q', Shifted p x q q' ∧ find? k (p.before ++ x ++ p.after) = some q') ∧
    (find? k s = none → find? k (p.before ++ x ++ p.after) = none) := by
  have hp' : IsPlace name (p.before ++ x ++ p.after) { p with body := x } := by
    obtain ⟨r, hr⟩ := quote_of_literal? hp.literal
    refine ⟨rfl, hp.before_eq, ?_⟩
    rw [hr]
    exact hx r
  have htext : p.before ++ p.body ++ p.after = s := hp.text_eq
  -- every place that is there now was there before
  have hback {r' : Place} (hr' : IsPlace k (p.before ++ x ++ p.after) r') :
      ∃ r, Shifted p x r r' ∧ IsPlace k s r := by
    obtain ⟨r, hshift, hr⟩ := hp'.shift hn hk hnk hs' hafter hr'
    exact ⟨r, hshift.symm, by rwa [htext] at hr⟩
  constructor
  · intro q hq
    obtain ⟨hplace, hfirst⟩ := find?_eq_some_iff.1 hq
    obtain ⟨q', hshift, hplace'⟩ := hp.shift hn hk hnk hs hafter hplace
    refine ⟨q', hshift, find?_eq_some_iff.2 ⟨hplace', fun r' hr' => ?_⟩⟩
    obtain ⟨r, hrr, hr⟩ := hback hr'
    exact hshift.le hrr (hfirst r hr)
  · intro hnone
    by_contra hsome
    obtain ⟨r', hr'⟩ := Option.ne_none_iff_exists'.1 hsome
    obtain ⟨r, -, hr⟩ := hback (isPlace_of_find? hr')
    obtain ⟨q, hq, -⟩ := hr.find?_le
    cases hnone.symm.trans hq

end Shift

end Upkeep.Patch
