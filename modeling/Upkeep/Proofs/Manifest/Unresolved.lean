import Mathlib.Data.List.Chain
import Mathlib.Data.List.Lex
import Mathlib.Data.List.Nodup
import Upkeep.Proofs.Manifest.Resolution

/-!
# Why a variable has no value

A search for the value of a variable goes along references, depth first and from left to right, and ends where
it first comes to a name that is not defined or to one that it is busy with. Where that is can be said without the
search. The place of a reference is given by the numbers of the pieces that lead to it, and in the order of a
dictionary these stand for the order of the search.

* `Trail`: a way from a variable along references, with the places and the names that it comes by.
* `Fails`: the error that a trail ends in.
* `FailsFirst`: the error of the first trail that ends in one.
* `follow_eq_error_iff`: **a search ends in the first failure**, along any path.
* `value_eq_error`: **why a variable has no value**, and why a text cannot be resolved.
-/

namespace Upkeep.Variables

variable {vars : Variables} {path names names' : List String} {name raw : String}
  {ps : List Piece} {places : List Nat} {w : List Char} {e e' : Problem}

/-! ### Trails -/

/-- A way from a variable along references: the number of the piece that is followed in each text, and the
names that the way comes by, the variable itself first. -/
inductive Trail (vars : Variables) : String → List Nat → List String → Prop where
  | stop (name : String) : Trail vars name [] [name]
  | step {name k raw : String} {ps : List Piece} {i : Nat} {places : List Nat} {names : List String}
      (hraw : vars[name]? = some raw) (hs : Piece.Scan raw.toList ps) (hi : ps[i]? = some (.reference k))
      (h : Trail vars k places names) : Trail vars name (i :: places) (name :: names)

/-- The error in which the names of a trail end: the last one is not defined, or it is one of those before,
and no other came twice. -/
inductive Fails (vars : Variables) : List String → Problem → Prop where
  | missing {before : List String} {k : String} (hk : k ∉ before) (h : vars[k]? = none) :
      Fails vars (before ++ [k]) (.missingVariable k)
  | circular {before between : List String} {k : String} (h : (before ++ k :: between).Nodup) :
      Fails vars ((before ++ k :: between) ++ [k]) (.circularReference (k :: between ++ [k]))

/-- The error of the first trail from a variable that ends in one, when the search is busy with the names
`before` already. The first trail is the one whose places come first in the order of a dictionary: a name comes
before what stands behind it, and what stands behind a reference before the references to its right. -/
def FailsFirst (vars : Variables) (before : List String) (name : String) (e : Problem) : Prop :=
  ∃ places names, vars.Trail name places names ∧ vars.Fails (before ++ names) e ∧
    ∀ places' names' e', vars.Trail name places' names' → vars.Fails (before ++ names') e' →
      places' = places ∨ List.Lex (· < ·) places places'

theorem Trail.exists_cons (h : vars.Trail name places names) : ∃ tail, names = name :: tail := by
  cases h with
  | stop => exact ⟨[], rfl⟩
  | step => exact ⟨_, rfl⟩

/-- The places of a trail tell the names. -/
theorem Trail.unique (h : vars.Trail name places names) (h' : vars.Trail name places names') :
    names = names' := by
  induction h generalizing names' with
  | stop => cases h'; rfl
  | step hraw hs hi _ ih =>
    cases h' with
    | step hraw' hs' hi' h' =>
      obtain rfl := Option.some.inj (hraw.symm.trans hraw')
      obtain rfl := (Piece.scan_iff.1 hs).symm.trans (Piece.scan_iff.1 hs')
      obtain rfl := Piece.reference.inj (Option.some.inj (hi.symm.trans hi'))
      rw [ih h']

/-- Each name of a trail refers to the next. -/
theorem Trail.isChain (h : vars.Trail name places names) : names.IsChain vars.Refers := by
  induction h with
  | stop name => exact .singleton name
  | step hraw hs hi h ih =>
    obtain ⟨tail, rfl⟩ := h.exists_cons
    have hrefers : vars.Refers _ _ := ⟨_, _, hraw, hs, List.mem_of_getElem? hi⟩
    exact List.isChain_cons_cons.2 ⟨hrefers, ih⟩

theorem Trail.reaches (h : vars.Trail name places names) : ∀ j ∈ names, vars.Reaches name j := by
  induction h with
  | stop name => exact fun j hj => List.mem_singleton.1 hj ▸ .refl
  | step hraw hs hi _ ih =>
    intro j hj
    rcases List.mem_cons.1 hj with rfl | hj
    · exact .refl
    · exact .head ⟨_, _, hraw, hs, List.mem_of_getElem? hi⟩ (ih j hj)

/-- The names of a trail tell the error in which it ends. -/
theorem Fails.unique (h : vars.Fails names e) (h' : vars.Fails names e') : e = e' := by
  generalize hn : names = l at h'
  cases h with
  | @missing before k hk _ =>
    cases h' with
    | missing =>
      obtain ⟨-, hlast⟩ := List.append_inj' hn rfl
      rw [List.singleton_inj.1 hlast]
    | circular =>
      obtain ⟨rfl, hlast⟩ := List.append_inj' hn rfl
      exact absurd (by simp [List.singleton_inj.1 hlast]) hk
  | @circular before between k hnodup =>
    cases h' with
    | missing hk =>
      obtain ⟨rfl, hlast⟩ := List.append_inj' hn rfl
      exact absurd (by simp [← List.singleton_inj.1 hlast]) hk
    | @circular before' between' k' hnodup' =>
      obtain ⟨hinit, hlast⟩ := List.append_inj' hn rfl
      obtain rfl := List.singleton_inj.1 hlast
      -- the name stands in one place before the end, so it cuts both lists alike
      obtain ⟨-, htail, hapart⟩ := List.nodup_append.1 hnodup
      have hbefore : k ∉ before := fun hk => hapart k hk k List.mem_cons_self rfl
      have hbetween : k ∉ between := (List.nodup_cons.1 htail).1
      obtain ⟨-, -, rfl⟩ := (List.append_cons_inj_of_notMem hbefore hbetween).1 hinit
      rfl

/-! ### The search -/

/-- Pieces come to an error when a reference does, and those to its left come to something. -/
theorem expand_eq_error : expand vars path ps = .error e ↔ ∃ left k right,
    ps = left ++ .reference k :: right ∧
      (∀ j, .reference j ∈ left → ∃ w, follow vars path j = .ok w) ∧ follow vars path k = .error e := by
  constructor
  · intro h
    induction ps with
    | nil =>
      rw [expand] at h
      cases h
    | cons p ps ih =>
      cases p with
      | plain c =>
        rw [expand] at h
        obtain ⟨left, k, right, rfl, hleft, hk⟩ := ih (Except.map_eq_error.1 h)
        exact ⟨.plain c :: left, k, right, rfl, by simpa using hleft, hk⟩
      | reference k =>
        rw [expand] at h
        cases hk : follow vars path k with
        | error e' =>
          rw [hk] at h
          obtain rfl := Except.error.inj h
          exact ⟨[], k, ps, rfl, by simp, hk⟩
        | ok w =>
          rw [hk] at h
          obtain ⟨left, k', right, rfl, hleft, hk'⟩ := ih (Except.map_eq_error.1 h)
          refine ⟨.reference k :: left, k', right, rfl, fun j hj => ?_, hk'⟩
          rcases List.mem_cons.1 hj with hj | hj
          · obtain rfl := Piece.reference.inj hj
            exact ⟨w, hk⟩
          · exact hleft j hj
  · rintro ⟨left, k, right, rfl, hleft, hk⟩
    induction left with
    | nil =>
      rw [List.nil_append, expand, hk]
    | cons p left ih =>
      have hrest := ih fun j hj => hleft j (List.mem_cons_of_mem _ hj)
      cases p with
      | plain c =>
        rw [List.cons_append, expand, hrest]
        rfl
      | reference j =>
        obtain ⟨w, hw⟩ := hleft j List.mem_cons_self
        rw [List.cons_append, expand, hw, hrest]
        rfl

/-- Where a path comes back to one of its names, it closes the circle of the names since. -/
theorem exists_cycle (h : name ∈ path) : ∃ before between,
    path.reverse = before ++ name :: between ∧ cycle path name = name :: between ++ [name] := by
  obtain ⟨later, earlier, rfl, hlater⟩ := List.eq_append_cons_of_mem h
  have htake : (later ++ name :: earlier).takeWhile (· ≠ name) = later := by
    have hall : ∀ k ∈ later, (k ≠ name : Bool) = true :=
      fun k hk => decide_eq_true (ne_of_mem_of_not_mem hk hlater)
    rw [List.takeWhile_append_of_pos hall, List.takeWhile_cons_of_neg (by simp), List.append_nil]
  exact ⟨earlier.reverse, later.reverse, by simp, by rw [cycle, htake]⟩

/-- A variable that is defined and not on the path is no failure by itself. -/
theorem not_fails_stop (hp : name ∉ path) (hraw : vars[name]? = some raw) :
    ¬ vars.Fails (path.reverse ++ [name]) e := by
  intro h
  generalize hl : path.reverse ++ [name] = l at h
  cases h with
  | missing _ hmissing =>
    obtain ⟨-, hlast⟩ := List.append_inj' hl rfl
    rw [← List.singleton_inj.1 hlast, hraw] at hmissing
    cases hmissing
  | circular =>
    obtain ⟨hinit, hlast⟩ := List.append_inj' hl rfl
    have hmem : name ∈ path.reverse := by simp [hinit, List.singleton_inj.1 hlast]
    exact hp (List.mem_reverse.1 hmem)

/-- Behind a variable that comes to something no trail ends in an error. -/
theorem not_fails_of_follow (h : follow vars path name = .ok w) (ht : vars.Trail name places names) :
    ¬ vars.Fails (path.reverse ++ names) e := by
  induction ht generalizing path w with
  | stop name =>
    obtain ⟨hp, raw, hraw, -⟩ := follow_eq_ok.1 h
    exact not_fails_stop hp hraw
  | step hraw hs hi _ ih =>
    obtain ⟨-, raw, hraw', value, hall, -⟩ := follow_eq_ok.1 h
    obtain rfl := Option.some.inj (hraw.symm.trans hraw')
    rw [← Piece.scan_iff.1 hs] at hi
    have hnext := ih (hall _ (List.mem_of_getElem? hi))
    simpa using hnext

/-- **A search ends in the first failure**, along any path. -/
theorem failsFirst_of_follow (hpath : path.Nodup) (h : follow vars path name = .error e) :
    vars.FailsFirst path.reverse name e := by
  induction path, name using follow_induction vars with
  | step path name ih =>
    by_cases hp : name ∈ path
    · rw [follow_of_mem hp] at h
      obtain rfl := Except.error.inj h
      obtain ⟨before, between, hsplit, hcycle⟩ := exists_cycle hp
      have hnodup : (before ++ name :: between).Nodup := hsplit ▸ List.nodup_reverse.2 hpath
      refine ⟨[], [name], .stop name, ?_, fun places' _ _ _ _ => (List.lex_nil_or_eq_nil places').symm⟩
      rw [hsplit, hcycle]
      exact .circular hnodup
    cases hraw : vars[name]? with
    | none =>
      rw [follow_of_missing hp hraw] at h
      obtain rfl := Except.error.inj h
      have hreverse : name ∉ path.reverse := fun hmem => hp (List.mem_reverse.1 hmem)
      exact ⟨[], [name], .stop name, .missing hreverse hraw,
        fun places' _ _ _ _ => (List.lex_nil_or_eq_nil places').symm⟩
    | some raw =>
      rw [follow_of_raw hp hraw] at h
      obtain ⟨left, k, right, hpieces, hleft, hk⟩ := expand_eq_error.1 h
      have hscan : Piece.Scan raw.toList (left ++ .reference k :: right) := Piece.scan_iff.2 hpieces
      have hrefers : vars.Refers name k := ⟨raw, _, hraw, hscan, by simp⟩
      have hbefore (l : List String) : (name :: path).reverse ++ l = path.reverse ++ name :: l := by simp
      obtain ⟨places, names, htrail, hfails, hfirst⟩ := ih hp k hrefers (List.nodup_cons.2 ⟨hp, hpath⟩) hk
      rw [hbefore] at hfails
      refine ⟨left.length :: places, name :: names, .step hraw hscan (by simp) htrail, hfails, ?_⟩
      intro places' names' e' htrail' hfails'
      cases htrail' with
      | stop =>
        -- the variable itself is defined and not on the path
        exact absurd hfails' (not_fails_stop hp hraw)
      | @step _ k' raw' ps' i' places' names' hraw' hs' hi' htrail' =>
        obtain rfl := Option.some.inj (hraw.symm.trans hraw')
        obtain rfl : left ++ .reference k :: right = ps' :=
          (Piece.scan_iff.1 hscan).symm.trans (Piece.scan_iff.1 hs')
        rw [← hbefore] at hfails'
        rcases Nat.lt_trichotomy i' left.length with hlt | rfl | hgt
        · -- a reference to the left comes to something
          rw [List.getElem?_append_left hlt] at hi'
          obtain ⟨w, hw⟩ := hleft k' (List.mem_of_getElem? hi')
          exact absurd hfails' (not_fails_of_follow hw htrail')
        · rw [List.getElem?_append_right le_rfl, Nat.sub_self] at hi'
          obtain rfl := Piece.reference.inj (Option.some.inj hi')
          rcases hfirst places' names' e' htrail' hfails' with rfl | hlater
          · exact .inl rfl
          · exact .inr (.cons hlater)
        · exact .inr (.rel hgt)

/-- The error of a search is the one of its first failure, and no other. -/
theorem follow_eq_error_iff (hpath : path.Nodup) :
    follow vars path name = .error e ↔ vars.FailsFirst path.reverse name e := by
  refine ⟨failsFirst_of_follow hpath, fun ⟨places, names, htrail, hfails, hfirst⟩ => ?_⟩
  cases h : follow vars path name with
  | ok w => exact absurd hfails (not_fails_of_follow h htrail)
  | error e' =>
    obtain ⟨places', names', htrail', hfails', hfirst'⟩ := failsFirst_of_follow hpath h
    -- each of the two trails is the first
    obtain rfl : places' = places := by
      rcases hfirst _ _ _ htrail' hfails' with heq | hlex
      · exact heq
      · rcases hfirst' _ _ _ htrail hfails with heq | hlex'
        · exact heq.symm
        · exact absurd hlex' (Std.Asymm.asymm _ _ hlex)
    obtain rfl := htrail.unique htrail'
    rw [hfails.unique hfails']

/-! ### What the error says -/

/-- The error of a first failure names a variable that is missing, or the circle that the trail runs in. -/
theorem FailsFirst.cases (h : vars.FailsFirst [] name e) :
    (∃ k, e = .missingVariable k ∧ k ∉ vars ∧ vars.Reaches name k) ∨
      ∃ k between, e = .circularReference (k :: between ++ [k]) ∧ (k :: between).Nodup ∧
        (k :: between ++ [k]).IsChain vars.Refers ∧ ∀ j ∈ k :: between, vars.Reaches name j := by
  obtain ⟨places, names, htrail, hfails, -⟩ := h
  rw [List.nil_append] at hfails
  cases hfails with
  | @missing before k _ hmissing =>
    refine .inl ⟨k, rfl, ?_, htrail.reaches k (by simp)⟩
    rw [Std.ExtTreeMap.mem_iff_isSome_getElem?, hmissing]
    simp
  | @circular before between k hnodup =>
    have hsuffix : k :: between ++ [k] <:+ before ++ k :: between ++ [k] := ⟨before, by simp⟩
    refine .inr ⟨k, between, rfl, (List.nodup_append.1 hnodup).2.1, htrail.isChain.suffix hsuffix, ?_⟩
    exact fun j hj => htrail.reaches j (hsuffix.subset (List.mem_append_left _ hj))

/-- **Why a variable has no value**, and why a text cannot be resolved. The error of a variable names one behind
it that is missing, or a circle of references behind it, each name once and the first again at the end. It is the
error of the first failure in a search that goes depth first and from left to right. The error of a text is the one
of its leftmost reference to a variable without a value. -/
theorem value_eq_error (vars : Variables) :
    (∀ name e, vars.value name = .error e →
      (∃ k, e = .missingVariable k ∧ k ∉ vars ∧ vars.Reaches name k) ∨
        ∃ k between, e = .circularReference (k :: between ++ [k]) ∧
          e.text = "Circular variable reference: " ++ " -> ".intercalate (k :: between ++ [k]) ∧
          (k :: between).Nodup ∧ (k :: between ++ [k]).IsChain vars.Refers ∧
          ∀ j ∈ k :: between, vars.Reaches name j) ∧
    (∀ name e, vars.value name = .error e ↔ vars.FailsFirst [] name e) ∧
    ∀ text e, vars.resolve text = .error e ↔ ∃ left k right,
      Piece.Scan text.toList (left ++ .reference k :: right) ∧
        (∀ j, .reference j ∈ left → ∃ v, vars.value j = .ok v) ∧ vars.value k = .error e := by
  have hvalue (name : String) (e : Problem) : vars.value name = .error e ↔ follow vars [] name = .error e :=
    Except.map_eq_error
  have hfirst (name : String) (e : Problem) : vars.value name = .error e ↔ vars.FailsFirst [] name e :=
    (hvalue name e).trans (follow_eq_error_iff List.nodup_nil)
  refine ⟨fun name e h => ?_, hfirst, fun text e => ?_⟩
  · rcases ((hfirst name e).1 h).cases with hmissing | ⟨k, between, rfl, hcircle⟩
    · exact .inl hmissing
    · exact .inr ⟨k, between, rfl, rfl, hcircle⟩
  · have hok (j : String) : (∃ v, vars.value j = .ok v) ↔ ∃ w, follow vars [] j = .ok w := by
      constructor
      · rintro ⟨v, hv⟩
        obtain ⟨w, hw, -⟩ := Except.map_eq_ok.1 hv
        exact ⟨w, hw⟩
      · rintro ⟨w, hw⟩
        exact ⟨_, Except.map_eq_ok.2 ⟨w, hw, rfl⟩⟩
    rw [resolve, Except.map_eq_error, expand_eq_error]
    simp only [hok, hvalue, Piece.scan_iff]

end Upkeep.Variables
