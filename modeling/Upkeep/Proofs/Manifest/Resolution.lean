import Mathlib.Logic.Relation
import Upkeep.Manifest.Variables
import Upkeep.Proofs.Json.Literal

/-!
# Which variables have a value

A variable refers to others, and these to further ones. Resolution follows the references along a path
and ends, because each step leaves fewer names that are not on the path. What it comes to can be said
without the path: a variable has a value when all that stands behind it is defined and runs in no
circle, and the value is made of the values of the variables that it refers to.

* `Scan`: how a text is cut into plain characters and references, without a scanner.
* `Reaches`: the variables that stand behind a variable.
* `follow_eq_ok_iff`: **a path only forbids.** What is found along a path is the value.
* `value_resolved`: **which variables have a value**, and what it is made of.
* `value_congr`: the value depends on nothing but the variables that are reached.
* `value_of_noReference`: a value without references is its own value.
-/

namespace Upkeep

/-! ### The scan -/

namespace Piece

variable {s r name : List Char} {ps : List Piece}

/-- A text that may be the name of a reference. -/
def IsName (name : List Char) : Prop := name ≠ [] ∧ ∀ c ∈ name, isNameChar c = true

/-- A text begins with a reference. -/
def Opens (s name r : List Char) : Prop := IsName name ∧ s = '$' :: '(' :: (name ++ ')' :: r)

/-- The pieces of a text from left to right. A reference is taken where one begins, and any other
character stands for itself. -/
inductive Scan : List Char → List Piece → Prop where
  | nil : Scan [] []
  | reference {s name r : List Char} {ps : List Piece} (hs : Opens s name r) (h : Scan r ps) :
      Scan s (.reference (String.ofList name) :: ps)
  | plain {c : Char} {s : List Char} {ps : List Piece} (hno : ∀ name r, ¬ Opens (c :: s) name r)
      (h : Scan s ps) : Scan (c :: s) (.plain c :: ps)

theorem reference?_eq_some : reference? s = some (name, r) ↔ Opens s name r := by
  constructor
  · intro h
    refine ⟨?_, by simpa using eq_of_reference? h⟩
    unfold reference? at h
    split at h
    · rename_i t
      split_ifs at h with ht
      split at h
      · obtain ⟨rfl, -⟩ := Prod.mk.inj (Option.some.inj h)
        exact ⟨ht, fun c hc => List.mem_takeWhile_imp hc⟩
      · simp at h
    · simp at h
  · rintro ⟨⟨hne, hchars⟩, rfl⟩
    -- the bracket ends the name, as it is no character of one
    have hend : isNameChar ')' = false := by decide
    obtain ⟨htake, hdrop⟩ := Text.takeWhile_run (t := ')' :: r) hchars (by simpa using hend)
    simp [reference?, htake, hdrop, hne]

/-- **The scan of a text** is the one that the scanner makes. -/
theorem scan_iff : Scan s ps ↔ ofText s = ps := by
  constructor
  · intro h
    induction h with
    | nil => rw [ofText]; rfl
    | reference hs _ ih =>
      rw [ofText]
      split
      · rename_i h
        obtain ⟨rfl, rfl⟩ := Prod.mk.inj (Option.some.inj (h.symm.trans (reference?_eq_some.2 hs)))
        rw [ih]
      · rename_i h
        cases h.symm.trans (reference?_eq_some.2 hs)
    | plain hno _ ih =>
      rw [ofText]
      split
      · rename_i h
        exact absurd (reference?_eq_some.1 h) (hno _ _)
      · exact congrArg _ ih
  · rintro rfl
    fun_induction ofText s with
    | case1 s name r h _ ih => exact .reference (reference?_eq_some.1 h) ih
    | case2 => exact .nil
    | case3 c r h ih =>
      refine .plain (fun name r' hs => ?_) ih
      cases h.symm.trans (reference?_eq_some.2 hs)

/-- A piece with the value of what it refers to. -/
def valued (value : String → List Char) : Piece → List Char
  | plain c => [c]
  | reference name => value name

end Piece

namespace Variables

open Relation

variable {vars vars' : Variables} {path path' : List String} {name k raw : String} {w : List Char}
  {ps : List Piece}

/-! ### What stands behind a variable -/

/-- The raw value of one variable holds a reference to another. -/
def Refers (vars : Variables) (name k : String) : Prop :=
  ∃ raw ps, vars[name]? = some raw ∧ Piece.Scan raw.toList ps ∧ .reference k ∈ ps

/-- One variable leads to another by references, or is it. -/
def Reaches (vars : Variables) : String → String → Prop := ReflTransGen vars.Refers

theorem refers_iff (h : vars[name]? = some raw) :
    vars.Refers name k ↔ .reference k ∈ Piece.ofText raw.toList := by
  constructor
  · rintro ⟨raw', ps, hraw, hs, hk⟩
    obtain rfl := Option.some.inj (h.symm.trans hraw)
    rwa [Piece.scan_iff.1 hs]
  · exact fun hk => ⟨raw, _, h, Piece.scan_iff.2 rfl, hk⟩

/-- Resolution, one variable further down the path. -/
theorem follow_induction (vars : Variables) {motive : List String → String → Prop}
    (step : ∀ path name, (name ∉ path → ∀ k, vars.Refers name k → motive (name :: path) k) →
      motive path name) (path : List String) (name : String) : motive path name := by
  induction hn : vars.unvisited path using Nat.strongRecOn generalizing path name with
  | _ n ih =>
    refine step path name fun hp k hk => ?_
    obtain ⟨raw, -, hraw, -⟩ := hk
    exact ih _ (hn ▸ unvisited_lt hp hraw) _ _ rfl

/-! ### One step -/

theorem follow_of_mem (h : name ∈ path) :
    follow vars path name = .error (.circularReference (cycle path name)) := by
  rw [follow, dif_pos h]

theorem follow_of_missing (hp : name ∉ path) (h : vars[name]? = none) :
    follow vars path name = .error (.missingVariable name) := by
  rw [follow, dif_neg hp]
  split
  · rfl
  · rename_i h'
    cases h.symm.trans h'

theorem follow_of_raw (hp : name ∉ path) (h : vars[name]? = some raw) :
    follow vars path name = expand vars (name :: path) (Piece.ofText raw.toList) := by
  rw [follow, dif_neg hp]
  split
  · rename_i h'
    cases h.symm.trans h'
  · rename_i h'
    rw [Option.some.inj (h.symm.trans h')]

/-- What pieces come to depends on nothing but what their references come to. -/
theorem expand_congr (h : ∀ k, .reference k ∈ ps → follow vars path k = follow vars' path' k) :
    expand vars path ps = expand vars' path' ps := by
  induction ps with
  | nil => simp [expand]
  | cons p ps ih =>
    have hrest := ih fun k hk => h k (List.mem_cons_of_mem _ hk)
    cases p with
    | plain c => rw [expand, expand, hrest]
    | reference k => rw [expand, expand, hrest, h k List.mem_cons_self]

/-- Pieces come to something when all their references do. -/
theorem expand_eq_ok : expand vars path ps = .ok w ↔ ∃ value : String → List Char,
    (∀ k, .reference k ∈ ps → follow vars path k = .ok (value k)) ∧
      w = ps.flatMap (Piece.valued value) := by
  constructor
  · intro h
    refine ⟨fun k => (follow vars path k).toOption.getD [], ?_⟩
    induction ps generalizing w with
    | nil =>
      rw [expand] at h
      exact ⟨by simp, (Except.ok.inj h).symm⟩
    | cons p ps ih =>
      cases p with
      | plain c =>
        rw [expand] at h
        obtain ⟨w', h', rfl⟩ := Except.map_eq_ok.1 h
        obtain ⟨hall, rfl⟩ := ih h'
        exact ⟨by simpa using hall, rfl⟩
      | reference k =>
        rw [expand] at h
        cases hk : follow vars path k with
        | error e => rw [hk] at h; cases h
        | ok v =>
          rw [hk] at h
          obtain ⟨w', h', rfl⟩ := Except.map_eq_ok.1 h
          obtain ⟨hall, rfl⟩ := ih h'
          refine ⟨fun j hj => ?_, by simp [Piece.valued, hk, Except.toOption]⟩
          rcases List.mem_cons.1 hj with hj | hj
          · obtain rfl := Piece.reference.inj hj
            simp [hk, Except.toOption]
          · exact hall j hj
  · rintro ⟨value, hall, rfl⟩
    induction ps with
    | nil => rw [expand]; rfl
    | cons p ps ih =>
      have hrest := ih fun k hk => hall k (List.mem_cons_of_mem _ hk)
      cases p with
      | plain c => rw [expand, hrest]; rfl
      | reference k => rw [expand, hall k List.mem_cons_self, hrest]; rfl

/-! ### Along a path -/

/-- A path that forbids less finds the same. -/
theorem follow_mono (h : follow vars path name = .ok w) (hsub : ∀ k ∈ path', k ∈ path) :
    follow vars path' name = .ok w := by
  induction path, name using follow_induction vars generalizing path' w with
  | step path name ih =>
    by_cases hp : name ∈ path
    · rw [follow_of_mem hp] at h
      cases h
    cases hraw : vars[name]? with
    | none =>
      rw [follow_of_missing hp hraw] at h
      cases h
    | some raw =>
      rw [follow_of_raw hp hraw] at h
      rw [follow_of_raw (fun hp' => hp (hsub _ hp')) hraw]
      obtain ⟨value, hall, rfl⟩ := expand_eq_ok.1 h
      refine expand_eq_ok.2 ⟨value, fun k hk => ?_, rfl⟩
      refine ih hp k ((refers_iff hraw).2 hk) (hall k hk) fun j hj => ?_
      rcases List.mem_cons.1 hj with rfl | hj
      · exact List.mem_cons_self
      · exact List.mem_cons_of_mem _ (hsub j hj)

/-- What is found along a path is made of what its references find. -/
theorem follow_eq_ok : follow vars path name = .ok w ↔ name ∉ path ∧ ∃ raw, vars[name]? = some raw ∧
    ∃ value : String → List Char,
      (∀ k, .reference k ∈ Piece.ofText raw.toList → follow vars (name :: path) k = .ok (value k)) ∧
      w = (Piece.ofText raw.toList).flatMap (Piece.valued value) := by
  by_cases hp : name ∈ path
  · simp [follow_of_mem hp, hp]
  cases hraw : vars[name]? with
  | none => simp [follow_of_missing hp hraw]
  | some raw => simp [follow_of_raw hp hraw, expand_eq_ok, hp]

/-- Where resolution succeeds, it does so for all that is reached, along a longer path. -/
theorem exists_follow_of_reaches (h : follow vars path name = .ok w) (hk : vars.Reaches name k) :
    ∃ path' w', (∀ j ∈ path, j ∈ path') ∧ follow vars path' k = .ok w' := by
  induction hk using ReflTransGen.head_induction_on generalizing path w with
  | refl => exact ⟨path, w, fun _ hj => hj, h⟩
  | head hstep _ ih =>
    obtain ⟨-, raw, hraw, value, hall, -⟩ := follow_eq_ok.1 h
    obtain ⟨path', w', hsub, h'⟩ := ih (hall _ ((refers_iff hraw).1 hstep))
    exact ⟨path', w', fun j hj => hsub j (List.mem_cons_of_mem _ hj), h'⟩

/-- A variable has all that it takes to have a value: what stands behind it is defined and runs in no
circle. -/
def Grounded (vars : Variables) (name : String) : Prop :=
  ∀ k, vars.Reaches name k → k ∈ vars ∧ ¬ TransGen vars.Refers k k

theorem grounded_of_follow (h : follow vars path name = .ok w) : vars.Grounded name := by
  intro k hk
  obtain ⟨path', w', -, h'⟩ := exists_follow_of_reaches h hk
  obtain ⟨-, raw, hraw, value, hall, -⟩ := follow_eq_ok.1 h'
  refine ⟨Std.ExtTreeMap.mem_iff_isSome_getElem?.2 (by simp [hraw]), fun hcycle => ?_⟩
  -- behind a variable of the circle it comes again, and then it is on the path
  obtain ⟨j, hstep, hback⟩ := TransGen.head'_iff.1 hcycle
  obtain ⟨path'', w'', hsub, h''⟩ :=
    exists_follow_of_reaches (hall j ((refers_iff hraw).1 hstep)) hback
  exact (follow_eq_ok.1 h'').1 (hsub k List.mem_cons_self)

theorem notMem_of_follow (h : follow vars path name = .ok w) (hk : vars.Reaches name k) :
    k ∉ path := by
  obtain ⟨path', w', hsub, h'⟩ := exists_follow_of_reaches h hk
  exact fun hp => (follow_eq_ok.1 h').1 (hsub k hp)

theorem exists_follow (hs : vars.Grounded name) (hpath : ∀ k ∈ path, ¬ vars.Reaches name k) :
    ∃ w, follow vars path name = .ok w := by
  induction path, name using follow_induction vars with
  | step path name ih =>
    have hp : name ∉ path := fun hp => hpath name hp .refl
    obtain ⟨hmem, hcycle⟩ := hs name .refl
    obtain ⟨raw, hraw⟩ :=
      Option.isSome_iff_exists.1 (Std.ExtTreeMap.mem_iff_isSome_getElem?.1 hmem)
    have hall (k : String) (hk : vars.Refers name k) :
        ∃ w, follow vars (name :: path) k = .ok w := by
      refine ih hp k hk (fun j hj => hs j (.head hk hj)) fun j hj hreach => ?_
      rcases List.mem_cons.1 hj with rfl | hj
      · exact hcycle (TransGen.head'_iff.2 ⟨k, hk, hreach⟩)
      · exact hpath j hj (.head hk hreach)
    choose! value hvalue using hall
    exact ⟨_, follow_eq_ok.2 ⟨hp, raw, hraw, value,
      fun k hk => hvalue k ((refers_iff hraw).2 hk), rfl⟩⟩

/-- **A path only forbids.** What is found along a path is the value, if nothing that is reached stands
on the path. -/
theorem follow_eq_ok_iff : follow vars path name = .ok w ↔
    vars.value name = .ok (String.ofList w) ∧ ∀ k ∈ path, ¬ vars.Reaches name k := by
  have hvalue : vars.value name = .ok (String.ofList w) ↔ follow vars [] name = .ok w := by
    simp [value, Except.map_eq_ok, String.ofList_inj]
  rw [hvalue]
  constructor
  · exact fun h => ⟨follow_mono h (by simp), fun k hk hreach => notMem_of_follow h hreach hk⟩
  · rintro ⟨h, hpath⟩
    obtain ⟨w', h'⟩ := exists_follow (grounded_of_follow h) hpath
    rwa [← Except.ok.inj ((follow_mono h' (by simp)).symm.trans h)]

/-- A variable has a value when what stands behind it is defined and runs in no circle. -/
theorem exists_value_iff : (∃ v, vars.value name = .ok v) ↔ vars.Grounded name := by
  constructor
  · rintro ⟨v, h⟩
    obtain ⟨w, hw, -⟩ := Except.map_eq_ok.1 h
    exact grounded_of_follow hw
  · intro hs
    have hpath : ∀ k ∈ ([] : List String), ¬ vars.Reaches name k := by simp
    obtain ⟨w, hw⟩ := exists_follow hs hpath
    exact ⟨String.ofList w, by rw [value, hw]; rfl⟩

/-- **Which variables have a value**, and what it is made of. A variable has one when all that stands
behind it is defined and runs in no circle. The value is the text of the variable with the value of the
variable that it refers to in the place of each reference, and it is the same along every path. -/
theorem value_resolved (vars : Variables) (name : String) :
    ((∃ v, vars.value name = .ok v) ↔
      (∀ k, vars.Reaches name k → k ∈ vars) ∧
        ∀ k, vars.Reaches name k → ¬ TransGen vars.Refers k k) ∧
    ∀ v, vars.value name = .ok v →
      (∃ raw ps values, vars[name]? = some raw ∧ Piece.Scan raw.toList ps ∧
        (∀ k, .reference k ∈ ps → vars.value k = .ok (String.ofList (values k))) ∧
        v = String.ofList (ps.flatMap (Piece.valued values))) ∧
      ∀ path w, follow vars path name = .ok w ↔
        w = v.toList ∧ ∀ k ∈ path, ¬ vars.Reaches name k := by
  refine ⟨exists_value_iff.trans ⟨fun h => ⟨fun k hk => (h k hk).1, fun k hk => (h k hk).2⟩,
    fun h k hk => ⟨h.1 k hk, h.2 k hk⟩⟩, fun v hv => ⟨?_, fun path w => ?_⟩⟩
  · obtain ⟨w, hw, rfl⟩ := Except.map_eq_ok.1 hv
    obtain ⟨-, raw, hraw, values, hall, rfl⟩ := follow_eq_ok.1 hw
    exact ⟨raw, _, values, hraw, Piece.scan_iff.2 rfl, fun k hk => (follow_eq_ok_iff.1 (hall k hk)).1,
      rfl⟩
  · rw [follow_eq_ok_iff, hv, Except.ok.injEq]
    constructor
    · rintro ⟨rfl, h⟩; exact ⟨by simp, h⟩
    · rintro ⟨rfl, h⟩; exact ⟨by simp, h⟩

/-! ### What a value depends on -/

theorem follow_congr (h : ∀ k, vars.Reaches name k → vars'[k]? = vars[k]?) :
    follow vars' path name = follow vars path name := by
  induction path, name using follow_induction vars with
  | step path name ih =>
    by_cases hp : name ∈ path
    · rw [follow_of_mem hp, follow_of_mem hp]
    have hname := h name .refl
    cases hraw : vars[name]? with
    | none => rw [follow_of_missing hp hraw, follow_of_missing hp (hname.trans hraw)]
    | some raw =>
      rw [follow_of_raw hp hraw, follow_of_raw hp (hname.trans hraw)]
      refine expand_congr fun k hk => ?_
      have hstep := (refers_iff hraw).2 hk
      exact ih hp k hstep fun j hj => h j (.head hstep hj)

/-- **The value depends on nothing but the variables that are reached.** -/
theorem value_congr (h : ∀ k, vars.Reaches name k → vars'[k]? = vars[k]?) :
    vars'.value name = vars.value name := by
  rw [value, value, follow_congr h]

end Variables

/-! ### Values without references -/

/-- A text in which no reference begins. -/
def NoReference (v : String) : Prop := ¬ ['$', '('] <:+: v.toList

instance (v : String) : Decidable (NoReference v) :=
  inferInstanceAs (Decidable (¬ ['$', '('] <:+: v.toList))

theorem Piece.scan_plain {s : List Char} (h : ¬ ['$', '('] <:+: s) : Scan s (s.map .plain) := by
  induction s with
  | nil => exact .nil
  | cons c s ih =>
    refine .plain (fun name r hopens => ?_) (ih fun hs => h (hs.trans (List.suffix_cons c s).isInfix))
    rw [hopens.2] at h
    exact h ⟨[], _, rfl⟩

section

variable {vars : Variables} {name v : String}

theorem Variables.follow_of_noReference {path : List String} (hp : name ∉ path) (h : vars[name]? = some v)
    (hv : NoReference v) : follow vars path name = .ok v.toList := by
  have hpieces : Piece.ofText v.toList = v.toList.map .plain := Piece.scan_iff.1 (Piece.scan_plain hv)
  rw [follow_of_raw hp h, hpieces, expand_eq_ok]
  exact ⟨fun _ => [], by simp, by simp [List.flatMap_map, Piece.valued]⟩

/-- A value without references is its own value. -/
theorem Variables.value_of_noReference (h : vars[name]? = some v) (hv : NoReference v) :
    vars.value name = .ok v := by
  have hfollow : follow vars [] name = .ok v.toList := follow_of_noReference (by simp) h hv
  simp [value, hfollow, Except.map]

/-- A value that ends in a reference to a value without references. -/
theorem Variables.value_of_reference {pre : List Char} {k w : String} (h : vars[name]? = some v)
    (hpieces : Piece.ofText v.toList = pre.map .plain ++ [.reference k]) (hne : k ≠ name)
    (hk : vars[k]? = some w) (hw : NoReference w) : vars.value name = .ok (String.ofList (pre ++ w.toList)) := by
  have hfollow : follow vars [name] k = .ok w.toList := follow_of_noReference (by simpa using hne) hk hw
  have hvalue : follow vars [] name = .ok (pre ++ w.toList) := by
    rw [follow_of_raw (by simp) h, hpieces, expand_eq_ok]
    exact ⟨fun _ => w.toList, by simp [hfollow], by simp [List.flatMap_map, Piece.valued]⟩
  simp [value, hvalue, Except.map]

end

/-- A value without references leads nowhere. -/
theorem Variables.eq_of_reaches {vars : Variables} {k j : String}
    (h : ∀ v, vars[k]? = some v → NoReference v) (hj : vars.Reaches k j) : j = k := by
  rcases Relation.ReflTransGen.cases_head hj with heq | ⟨i, ⟨raw, ps, hraw, hs, hi⟩, -⟩
  · exact heq.symm
  · rw [← Piece.scan_iff.1 hs, Piece.scan_iff.1 (Piece.scan_plain (h raw hraw))] at hi
    simp at hi

end Upkeep
