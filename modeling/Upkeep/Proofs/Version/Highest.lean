import Mathlib.Data.List.Induction
import Upkeep.Proofs.Version.Numeric

/-!
# The highest version of a list

Versions are compared by their numeric triples alone, and of several versions with the greatest triple the first
counts. Versions without a triple are passed over.

* `IsFirstGreatest`: the first entry of a list with the greatest triple, among those that have one.
* `isBest_better`, `isBest_foldl`: one version more, and all versions of a list.
* `highest_eq_some_iff`: **the highest version of a list**.
-/

namespace Upkeep

namespace Version

/-! ### The first of the greatest -/

section Greatest

variable {α β : Type} {key : α → Triple → Prop} {l : List α} {a a' b : α} {t t' : Triple}

/-- The first entry of a list with the greatest triple, among those that have one. -/
def IsFirstGreatest (key : α → Triple → Prop) (l : List α) (a : α) (t : Triple) : Prop :=
  ∃ earlier later, l = earlier ++ a :: later ∧ key a t ∧ (∀ b ∈ earlier, ∀ u, key b u → u < t) ∧
    ∀ b ∈ later, ∀ u, key b u → u ≤ t

theorem IsFirstGreatest.mem (h : IsFirstGreatest key l a t) : a ∈ l ∧ key a t := by
  obtain ⟨earlier, later, rfl, hkey, -⟩ := h
  exact ⟨List.mem_append_right _ List.mem_cons_self, hkey⟩

/-- No entry has a greater triple. -/
theorem IsFirstGreatest.le (h : IsFirstGreatest key l a t) (hkey : ∀ a t u, key a t → key a u → t = u)
    (hb : b ∈ l) (hu : key b t') : t' ≤ t := by
  obtain ⟨earlier, later, rfl, ha, hearlier, hlater⟩ := h
  rcases List.mem_append.1 hb with hb | hb
  · exact (hearlier b hb t' hu).le
  · rcases List.mem_cons.1 hb with rfl | hb
    · exact (hkey _ _ _ hu ha).le
    · exact hlater b hb t' hu

/-- The first of the greatest is one entry only. -/
theorem IsFirstGreatest.unique (h : IsFirstGreatest key l a t) (h' : IsFirstGreatest key l a' t') : a = a' := by
  obtain ⟨earlier, later, rfl, ha, hearlier, hlater⟩ := h
  obtain ⟨earlier', later', hsplit, ha', hearlier', hlater'⟩ := h'
  rcases List.append_eq_append_iff.1 hsplit with ⟨more, rfl, hmore⟩ | ⟨more, rfl, hmore⟩
  · cases more with
    | nil => exact (List.cons.inj hmore).1
    | cons b more =>
      obtain ⟨rfl, rfl⟩ := List.cons.inj hmore
      have hlt := hearlier' a (by simp) t ha
      have hle := hlater a' (by simp) t' ha'
      exact absurd hlt hle.not_gt
  · cases more with
    | nil => exact (List.cons.inj hmore).1.symm
    | cons b more =>
      obtain ⟨rfl, rfl⟩ := List.cons.inj hmore
      have hlt := hearlier a' (by simp) t' ha'
      have hle := hlater' a (by simp) t ha
      exact absurd hlt hle.not_gt

/-- An entry more that is not greater changes nothing. -/
theorem IsFirstGreatest.concat (h : IsFirstGreatest key l a t) (hb : ∀ u, key b u → u ≤ t) :
    IsFirstGreatest key (l ++ [b]) a t := by
  obtain ⟨earlier, later, rfl, ha, hearlier, hlater⟩ := h
  refine ⟨earlier, later ++ [b], by simp, ha, hearlier, List.forall_mem_append.2 ⟨hlater, ?_⟩⟩
  simpa using hb

/-- An entry more that is greater than all before is the first of the greatest. -/
theorem isFirstGreatest_concat (hb : key b t) (hl : ∀ a ∈ l, ∀ u, key a u → u < t) :
    IsFirstGreatest key (l ++ [b]) b t := ⟨l, [], rfl, hb, hl, by simp⟩

/-- Where the triples are read off parts of some entries, the first of the greatest parts is a part of the first of
the greatest among these entries. -/
theorem isFirstGreatest_map_filter {key : β → Triple → Prop} {q : α → Bool} {f : α → β} {b : β} :
    IsFirstGreatest key ((l.filter q).map f) b t ↔
      ∃ a, IsFirstGreatest (fun a u => q a = true ∧ key (f a) u) l a t ∧ f a = b := by
  constructor
  · rintro ⟨earlier, later, hsplit, hb, hearlier, hlater⟩
    obtain ⟨l₁, l₂, hl, rfl, hl₂⟩ := List.map_eq_append_iff.1 hsplit
    obtain ⟨a, l₃, rfl, rfl, rfl⟩ := List.map_eq_cons_iff.1 hl₂
    obtain ⟨m₁, m₂, rfl, rfl, hm₂⟩ := List.filter_eq_append_iff.1 hl
    obtain ⟨skipped, m₃, rfl, hskipped, hqa, rfl⟩ := List.filter_eq_cons_iff.1 hm₂
    refine ⟨a, ⟨m₁ ++ skipped, m₃, by simp, ⟨hqa, hb⟩, ?_, ?_⟩, rfl⟩
    · rw [List.forall_mem_append]
      refine ⟨fun c hc u hu => hearlier _ ?_ u hu.2, fun c hc u hu => absurd hu.1 (hskipped c hc)⟩
      exact List.mem_map_of_mem (List.mem_filter.2 ⟨hc, hu.1⟩)
    · exact fun c hc u hu => hlater _ (List.mem_map_of_mem (List.mem_filter.2 ⟨hc, hu.1⟩)) u hu.2
  · rintro ⟨a, ⟨earlier, later, rfl, ⟨hqa, hb⟩, hearlier, hlater⟩, rfl⟩
    refine ⟨(earlier.filter q).map f, (later.filter q).map f, by simp [hqa], hb, ?_, ?_⟩
    · rw [List.forall_mem_map]
      exact fun c hc u hu => hearlier c (List.mem_filter.1 hc).1 u ⟨(List.mem_filter.1 hc).2, hu⟩
    · rw [List.forall_mem_map]
      exact fun c hc u hu => hlater c (List.mem_filter.1 hc).1 u ⟨(List.mem_filter.1 hc).2, hu⟩

end Greatest

/-! ### The search -/

variable {vs : List String} {v : String} {best : Option (String × Triple)}

/-- What a search has found in a list: nothing if no version has a triple, and else the first of the greatest. -/
def IsBest (vs : List String) : Option (String × Triple) → Prop
  | none => ∀ v ∈ vs, ∀ t, ¬ Numbered v t
  | some (v, t) => IsFirstGreatest Numbered vs v t

/-- One version more. -/
theorem isBest_better (h : IsBest vs best) (v : String) : IsBest (vs ++ [v]) (better best v) := by
  unfold better
  cases hv : numeric? v with
  | none =>
    have hnone (t : Triple) : ¬ Numbered v t := fun ht => by
      rw [numeric?_eq_some_iff.2 ht] at hv
      cases hv
    cases best with
    | none => exact List.forall_mem_append.2 ⟨h, by simpa using hnone⟩
    | some found => exact IsFirstGreatest.concat h fun u hu => absurd hu (hnone u)
  | some t =>
    have ht := numeric?_eq_some_iff.1 hv
    cases best with
    | none => exact isFirstGreatest_concat ht fun w hw u hu => absurd hu (h w hw u)
    | some found =>
      obtain ⟨w, u⟩ := found
      have hgreatest : IsFirstGreatest Numbered vs w u := h
      by_cases hlt : u.lt t = true
      · simp only [hlt, if_true]
        refine isFirstGreatest_concat ht fun w' hw' u' hu' => ?_
        exact (hgreatest.le (fun _ _ _ => Numbered.unique) hw' hu').trans_lt (Triple.lt_iff.1 hlt)
      · simp only [hlt]
        refine hgreatest.concat fun u' hu' => ?_
        rw [← ht.unique hu']
        exact not_lt.1 (mt Triple.lt_iff.2 hlt)

/-- All versions of a list. -/
theorem isBest_foldl (vs : List String) : IsBest vs (vs.foldl better none) := by
  induction vs using List.reverseRecOn with
  | nil => exact fun v hv => absurd hv List.not_mem_nil
  | append_singleton vs v ih =>
    rw [List.foldl_append]
    exact isBest_better ih v

/-- **The highest version of a list** is the first one with the greatest triple. -/
theorem highest_eq_some_iff : highest vs = some v ↔ ∃ t, IsFirstGreatest Numbered vs v t := by
  have hbest := isBest_foldl vs
  rw [highest, Option.map_eq_some_iff]
  cases hfound : vs.foldl better none with
  | none =>
    rw [hfound] at hbest
    constructor
    · rintro ⟨found, h, -⟩
      cases h
    · rintro ⟨t, h⟩
      exact absurd h.mem.2 (hbest v h.mem.1 t)
  | some found =>
    obtain ⟨w, u⟩ := found
    rw [hfound] at hbest
    constructor
    · rintro ⟨_, h, rfl⟩
      cases h
      exact ⟨u, hbest⟩
    · rintro ⟨t, h⟩
      exact ⟨(w, u), rfl, IsFirstGreatest.unique hbest h⟩

/-- A list has a highest version if one of its versions has a triple. -/
theorem isSome_highest_iff : (highest vs).isSome = true ↔ ∃ v ∈ vs, ∃ t, Numbered v t := by
  constructor
  · intro h
    obtain ⟨v, hv⟩ := Option.isSome_iff_exists.1 h
    obtain ⟨t, hgreatest⟩ := highest_eq_some_iff.1 hv
    exact ⟨v, hgreatest.mem.1, t, hgreatest.mem.2⟩
  · rintro ⟨v, hv, t, ht⟩
    have hbest := isBest_foldl vs
    rw [highest, Option.isSome_map]
    cases hfound : vs.foldl better none with
    | none =>
      rw [hfound] at hbest
      exact absurd ht (hbest v hv t)
    | some found => rfl

end Version

end Upkeep
