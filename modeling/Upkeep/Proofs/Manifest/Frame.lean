import Upkeep.Proofs.Manifest.Rendered
import Upkeep.Proofs.Manifest.Resolution

/-!
# What a value depends on

What a variable is resolved to depends on the variables that it reaches by references, and on no others. Where
these have the same texts, and the same of them are missing, the search takes the same way and ends in the same
value or in the same error. So updates elsewhere leave it alone, however many there are. And a value depends on
each of them: the value of a variable behind it stands within it, so that a change there can be seen.

* `AlikeBehind`: other variables with the same texts behind a variable, which reaches the same of them.
* `alikeBehind_updates`: **a run of updates elsewhere** leaves all behind a variable as it was.
* `exists_infix_of_reaches`: a value holds the values of all that is reached.
* `value_frame`: **what a value depends on**.
-/

namespace Upkeep

namespace Variables

open Relation

variable {vars vars' vars'' : Variables} {name k v : String}

/-! ### The same behind a variable -/

/-- Other variables give the same text to a variable and to all that it reaches, or none where there is none. -/
def AlikeBehind (vars vars' : Variables) (name : String) : Prop :=
  ∀ k, vars.Reaches name k → vars'[k]? = vars[k]?

theorem refers_congr (h : vars'[name]? = vars[name]?) : vars'.Refers name k ↔ vars.Refers name k := by
  unfold Refers
  rw [h]

/-- Variables that are alike behind a variable reach the same from it. -/
theorem AlikeBehind.reaches_iff (h : vars.AlikeBehind vars' name) :
    vars'.Reaches name k ↔ vars.Reaches name k := by
  constructor
  · intro hk
    induction hk with
    | refl => exact .refl
    | tail _ hstep ih => exact .tail ih ((refers_congr (h _ ih)).1 hstep)
  · intro hk
    induction hk with
    | refl => exact .refl
    | tail hj hstep ih => exact .tail ih ((refers_congr (h _ hj)).2 hstep)

theorem AlikeBehind.refl (vars : Variables) (name : String) : vars.AlikeBehind vars name := fun _ _ => rfl

theorem AlikeBehind.trans (h : vars.AlikeBehind vars' name) (h' : vars'.AlikeBehind vars'' name) :
    vars.AlikeBehind vars'' name := by
  intro k hk
  have hk' : vars'.Reaches name k := h.reaches_iff.2 hk
  rw [h' k hk', h k hk]

theorem alikeBehind_insert (hk : ¬ vars.Reaches name k) (x : String) :
    vars.AlikeBehind (vars.insert k x) name := by
  intro j hj
  have hne : k ≠ j := by
    rintro rfl
    exact hk hj
  simp [Std.ExtTreeMap.getElem?_insert, hne]

end Variables

/-! ### Updates elsewhere -/

namespace Manifest

variable {m : Manifest} {name k : String} {us : List (String × String)}

theorem alikeBehind_attempt (hk : ¬ m.vars.Reaches name k) (value : String) :
    m.vars.AlikeBehind (m.attempt k value).vars name := by
  rcases attempt_cases m k value with heq | ⟨-, p, -, -, heq⟩
  · rw [heq]
    exact .refl m.vars name
  · rw [heq]
    exact Variables.alikeBehind_insert hk value

/-- **A run of updates elsewhere** leaves all behind a variable as it was. What the variable reaches need only be
known at the start, as it reaches the same all along. -/
theorem alikeBehind_updates (hus : ∀ u ∈ us, ¬ m.vars.Reaches name u.1) :
    m.vars.AlikeBehind (m.updates us).vars name := by
  induction us generalizing m with
  | nil => exact .refl m.vars name
  | cons u us ih =>
    have hstep := alikeBehind_attempt (hus u List.mem_cons_self) u.2
    have hrest : ∀ w ∈ us, ¬ (m.attempt u.1 u.2).vars.Reaches name w.1 := by
      intro w hw hreach
      exact hus w (List.mem_cons_of_mem _ hw) (hstep.reaches_iff.1 hreach)
    exact hstep.trans (ih hrest)

end Manifest

namespace Variables

open Relation

variable {vars : Variables} {name k v : String}

/-! ### All that is reached can be seen -/

/-- A value holds the values of all that is reached. -/
theorem exists_infix_of_reaches (h : vars.value name = .ok v) (hk : vars.Reaches name k) :
    ∃ w, vars.value k = .ok w ∧ w.toList <:+: v.toList := by
  induction hk using ReflTransGen.head_induction_on generalizing v with
  | refl => exact ⟨v, h, List.infix_rfl⟩
  | head hstep _ ih =>
    obtain ⟨_, hfollow, rfl⟩ := Except.map_eq_ok.1 h
    obtain ⟨-, raw, hraw, values, hall, rfl⟩ := follow_eq_ok.1 hfollow
    have hmem := (refers_iff hraw).1 hstep
    obtain ⟨w, hw, hin⟩ := ih (follow_eq_ok_iff.1 (hall _ hmem)).1
    rw [String.toList_ofList] at hin ⊢
    have hpiece : values _ ∈ (Piece.ofText raw.toList).map (Piece.valued values) := List.mem_map_of_mem hmem
    exact ⟨w, hw, hin.trans (List.infix_of_mem_flatten hpiece)⟩

/-- What leads to a variable does not go through its own text. -/
theorem Reaches.insert (hk : vars.Reaches name k) (x : String) :
    Reaches (vars.insert k x) name k := by
  induction hk using ReflTransGen.head_induction_on with
  | refl => exact .refl
  | @head j _ hstep _ ih =>
    by_cases hj : k = j
    · rw [hj]
      exact .refl
    · have hraw : (vars.insert k x)[j]? = vars[j]? := by simp [Std.ExtTreeMap.getElem?_insert, hj]
      exact .head ((refers_congr hraw).2 hstep) ih

/-- A variable that is reached can be set so that the value is another one. -/
theorem exists_insert_ne (hk : vars.Reaches name k) (v : String) :
    ∃ x, value (vars.insert k x) name ≠ .ok v := by
  -- a text that is longer than the value does not stand within it
  obtain ⟨x, hx⟩ : ∃ x : String, x.toList = List.replicate (v.toList.length + 1) '|' :=
    ⟨String.ofList _, String.toList_ofList⟩
  have hplain : NoReference x := by
    intro hin
    have hmem : '$' ∈ x.toList := hin.subset List.mem_cons_self
    rw [hx] at hmem
    exact absurd (List.eq_of_mem_replicate hmem) (by decide)
  refine ⟨x, fun hv => ?_⟩
  have hvalue : value (vars.insert k x) k = .ok x := value_of_noReference (by simp) hplain
  obtain ⟨w, hw, hin⟩ := exists_infix_of_reaches hv (hk.insert x)
  obtain rfl := Except.ok.inj (hvalue.symm.trans hw)
  have hle := hin.length_le
  rw [hx, List.length_replicate] at hle
  omega

/-- **What a value depends on.** Other variables that are alike behind a variable resolve it alike, to the same value
or to the same error. So nothing changes when a variable is set that it does not reach, nor in any run of updates
of such variables, be they made or refused. And a variable that has a value reaches exactly those that can be set
so that the value is another one. -/
theorem value_frame (vars : Variables) (name : String) :
    (∀ vars', vars.AlikeBehind vars' name → vars'.value name = vars.value name) ∧
    (∀ k x, ¬ vars.Reaches name k → value (vars.insert k x) name = vars.value name) ∧
    (∀ (m : Manifest) (us : List (String × String)), m.vars = vars → (∀ u ∈ us, ¬ vars.Reaches name u.1) →
      (m.updates us).vars.value name = vars.value name) ∧
    ∀ v, vars.value name = .ok v →
      ∀ k, vars.Reaches name k ↔ ∃ x, value (vars.insert k x) name ≠ .ok v := by
  refine ⟨fun vars' h => value_congr h, fun k x hk => value_congr (alikeBehind_insert hk x), ?_, ?_⟩
  · rintro m us rfl hus
    exact value_congr (Manifest.alikeBehind_updates hus)
  · intro v hv k
    constructor
    · exact fun hk => exists_insert_ne hk v
    · rintro ⟨x, hx⟩
      by_contra hk
      exact hx ((value_congr (alikeBehind_insert hk x)).trans hv)

/-- Variables of which two run in a circle, and the third has a value. -/
def circled : List (String × String) := [("a", "$(b)"), ("b", "-$(a)"), ("c", "1")]

theorem circled_pieces : Piece.ofText "$(b)".toList = [.reference "b"] ∧
    Piece.ofText "-$(a)".toList = [.plain '-', .reference "a"] := by decide +kernel

section

variable (ha : vars["a"]? = some "$(b)") (hb : vars["b"]? = some "-$(a)")

include ha hb

theorem reaches_circled (h : vars.Reaches "a" k) : k = "a" ∨ k = "b" := by
  induction h with
  | refl => exact .inl rfl
  | tail _ hstep ih =>
    rcases ih with rfl | rfl
    · have hmem := (refers_iff ha).1 hstep
      rw [circled_pieces.1] at hmem
      exact .inr (by simpa using hmem)
    · have hmem := (refers_iff hb).1 hstep
      rw [circled_pieces.2] at hmem
      exact .inl (by simpa using hmem)

theorem value_circled : vars.value "a" = .error (.circularReference ["a", "b", "a"]) := by
  have hcircle : follow vars ["b", "a"] "a" = .error (.circularReference ["a", "b", "a"]) :=
    follow_of_mem (by simp)
  have hfollow : follow vars ["a"] "b" = .error (.circularReference ["a", "b", "a"]) := by
    rw [follow_of_raw (by simp) hb, circled_pieces.2, expand, expand, hcircle]
    rfl
  rw [value, follow_of_raw (by simp) ha, circled_pieces.1, expand, hfollow]
  rfl

end

theorem value_frame_circled :
    let us := [("c", "$(a)"), ("d", "2")]
    let m := Manifest.updates (Manifest.rendered none (.ofList circled)) us
    (∀ u ∈ us, ¬ Reaches (.ofList circled) "a" u.1) ∧ m.vars["c"]? = some "$(a)" ∧
      m.vars.value "a" = .error (.circularReference ["a", "b", "a"]) ∧
      ∃ x, value ((ofList circled).insert "c" x) "c" ≠ .ok "1" := by
  intro us m
  have ha : (ofList circled)["a"]? = some "$(b)" := by decide +kernel
  have hb : (ofList circled)["b"]? = some "-$(a)" := by decide +kernel
  have hc : value (.ofList circled) "c" = .ok "1" :=
    value_of_noReference (by decide +kernel) (by decide +kernel)
  have hnames : Manifest.PlainNames (.ofList circled) := by
    intro k hk
    obtain ⟨q, hq, rfl⟩ := mem_ofList hk
    revert q
    simp [circled, Patch.Plain]
  have hm : m.vars = assigns (.ofList circled) us :=
    congrArg Manifest.vars (Manifest.updates_rendered hnames us)
  have hus : ∀ u ∈ us, ¬ Reaches (.ofList circled) "a" u.1 := by
    intro u hu hreach
    have hname := reaches_circled ha hb hreach
    revert u
    simp [us]
  obtain ⟨-, -, hrun, -⟩ := value_frame (.ofList circled) "a"
  obtain ⟨-, -, -, hseen⟩ := value_frame (.ofList circled) "c"
  refine ⟨hus, ?_, (hrun _ us rfl hus).trans (value_circled ha hb), (hseen "1" hc "c").1 .refl⟩
  rw [hm]
  decide +kernel

end Variables

end Upkeep
