import Upkeep.Proofs.Manifest.Edit

/-!
# Text and variables in step

A manifest is in step when its text, read again, gives the variables that it holds. An update goes to
the first match in the text, and it keeps the two in step only if this match is the member that the
variable is read from. Nothing else can go wrong, and this does go wrong: a match may stand in another
section, in a member that a later one of its name hides, or across two strings.

* `Anchored`: every match is the member that the variable is read from.
* `InStep.attempt_iff`: **the manifests that every update keeps in step**.
-/

namespace Upkeep

open Json Mode Patch

namespace Manifest

variable {m : Manifest} {path : Option String} {name text value : String} {p : Place} {S : Site}

/-- The text, read again, gives the manifest. -/
def InStep (m : Manifest) : Prop := ofText m.path m.text = .ok m

/-- The place is the value of a member, whatever string stands there. -/
def ValueAt (p : Place) (S : Site) : Prop :=
  (∃ prev : String, Json.parse (String.ofList p.text) = .ok (S.fill (.string prev))) ∧
    ∀ value : String, Json.parse (p.filled value) = .ok (S.fill (.string value))

/-- A match of the name of a variable is the member that the variable is read from. -/
def AnchoredAt (m : Manifest) (name : String) : Prop :=
  ∀ p, find? name.toList m.text.toList = some p → ∃ S, S.Holds name ∧ ValueAt p S

/-- Every match of a variable is the member that the variable is read from. -/
def Anchored (m : Manifest) : Prop := ∀ name ∈ m.vars, m.AnchoredAt name

/-- A manifest after an attempt to update it; a refused update changes nothing. -/
def attempt (m : Manifest) (name value : String) : Manifest :=
  match m.update name value with
  | .ok (some m') => m'
  | _ => m

/-- A manifest after a run of attempts. -/
def updates (m : Manifest) (us : List (String × String)) : Manifest :=
  us.foldl (fun m (name, value) => m.attempt name value) m

theorem updates_concat (m : Manifest) (us : List (String × String)) (name value : String) :
    m.updates (us ++ [(name, value)]) = (m.updates us).attempt name value := by
  simp [updates]

/-- An attempt changes nothing, or it writes the value to the place of the variable. -/
theorem attempt_cases (m : Manifest) (name value : String) :
    m.attempt name value = m ∨ name ∈ m.vars ∧ ∃ p, find? name.toList m.text.toList = some p ∧
      p.body ≠ encode value.toList ∧
      m.attempt name value = { m with text := p.filled value, vars := m.vars.insert name value } := by
  unfold attempt
  split
  · rename_i m' h
    obtain ⟨hname, p, hf, hr⟩ := update_eq_ok.1 h
    split_ifs at hr with hb
    exact .inr ⟨hname, p, hf, hb, Option.some.inj hr⟩
  · exact .inl rfl

theorem attempt_of_find? (hname : name ∈ m.vars) (hf : find? name.toList m.text.toList = some p)
    (hb : p.body ≠ encode value.toList) :
    m.attempt name value = { m with text := p.filled value, vars := m.vars.insert name value } := by
  rw [attempt, update_eq_ok.2 ⟨hname, p, hf, (if_neg hb).symm⟩]

theorem inStep_of_ofText (h : ofText path text = .ok m) : m.InStep := by
  obtain ⟨-, -, -, rfl, rfl⟩ := ofText_eq_ok.1 h
  exact h

/-- A site that the document of a manifest has at a place. -/
theorem ValueAt.ofJson (h : ValueAt p S) (hf : find? name.toList m.text.toList = some p)
    (hm : m.InStep) : ∃ prev : String,
      Variables.ofJson (m.path.getD unnamed) (S.fill (.string prev)) = .ok m.vars := by
  obtain ⟨document, hd, hvars, -, -⟩ := ofText_eq_ok.1 hm
  obtain ⟨prev, hprev⟩ := h.1
  rw [← text_eq_of_find? hf, hd] at hprev
  exact ⟨prev, Except.ok.inj hprev ▸ hvars⟩

/-- An update at the member of its variable keeps the manifest in step. -/
theorem InStep.filled (hm : m.InStep) (hf : find? name.toList m.text.toList = some p)
    (hS : S.Holds name) (hp : ValueAt p S) (value : String) :
    InStep { m with text := p.filled value, vars := m.vars.insert name value } := by
  obtain ⟨prev, hvars⟩ := hp.ofJson hf hm
  refine ofText_eq_ok.2 ⟨_, hp.2 value, ?_, rfl, rfl⟩
  rcases ofJson_fill hvars with ⟨k, hk, hnew⟩ | ⟨hnone, -⟩
  · rw [← hk.unique hS]
    exact hnew value
  · exact absurd hS (hnone name)

theorem length_le_encode (s : List Char) : s.length ≤ (encode s).length := by
  induction s with
  | nil => simp
  | cons c s ih =>
    have hc : 1 ≤ (encodeChar c).length := by unfold encodeChar; split_ifs <;> simp
    rw [encode_cons, List.length_append, List.length_cons]
    omega

/-- An update at another place brings the manifest out of step. The value that does it tells itself
from the old one, and it may not stand in the structure. -/
theorem InStep.exists_strayed (hm : m.InStep) (hname : name ∈ m.vars)
    (hf : find? name.toList m.text.toList = some p) (hno : ¬ ∃ S, S.Holds name ∧ ValueAt p S) :
    ∃ value, ¬ (m.attempt name value).InStep := by
  obtain ⟨old, hold⟩ : ∃ old, m.vars[name]? = some old :=
    Option.isSome_iff_exists.1 (Std.ExtTreeMap.mem_iff_isSome_getElem?.1 hname)
  obtain ⟨document, hd, hvars, -, -⟩ := ofText_eq_ok.1 hm
  obtain ⟨pre, b₁, b₂, hb₁, hb₂, hp, hl⟩ := before_of_find? hf
  obtain ⟨value, hvalue⟩ : ∃ value : String, value.toList = '|' :: (old.toList ++ p.body) :=
    ⟨String.ofList _, String.toList_ofList⟩
  have hb : p.body ≠ encode value.toList := by
    intro hb
    have := length_le_encode value.toList
    rw [← hb, hvalue, List.length_cons, List.length_append] at this
    omega
  have hne : old ≠ value := by
    rintro rfl
    have := congrArg List.length hvalue
    rw [List.length_cons, List.length_append] at this
    omega
  refine ⟨value, fun hstep => ?_⟩
  rw [attempt_of_find? hname hf hb] at hstep
  obtain ⟨document', hd', hvars', -, -⟩ := ofText_eq_ok.1 hstep
  cases hmode : run outside (pre ++ quoted name.toList) with
  | outside =>
    obtain ⟨S, -, -, prev, -, -, rfl, hnew⟩ := site_of_find? hd hf hb₁ hb₂ hp hl hmode
    obtain rfl := Except.ok.inj ((hnew value).symm.trans hd')
    have hat : ValueAt p S := ⟨⟨prev, by rw [← text_eq_of_find? hf]; exact hd⟩, hnew⟩
    -- the value is read for another variable or not at all, and the old one is read for this one
    obtain ⟨vars, hread, hkept⟩ : ∃ vars,
        Variables.ofJson (m.path.getD unnamed) (S.fill (.string value)) = .ok vars ∧
          vars[name]? = some old := by
      rcases ofJson_fill hvars with ⟨k, hk, hread⟩ | ⟨-, hread⟩
      · have hkn : k ≠ name := by rintro rfl; exact hno ⟨S, hk, hat⟩
        exact ⟨_, hread value, by simp [Std.ExtTreeMap.getElem?_insert, hkn, hold]⟩
      · exact ⟨_, hread value, hold⟩
    obtain rfl := Except.ok.inj (hread.symm.trans hvars')
    simp only [Std.ExtTreeMap.getElem?_insert_self] at hkept
    exact hne (Option.some.inj hkept).symm
  | inside =>
    have hv := parseChars_eq_ok.1 hd'
    rw [Place.filled, String.toList_ofList, List.append_assoc, hp, hvalue, encode_cons] at hv
    exact gap_of_lead hb₁ hb₂ hmode _ hv
  | escaped =>
    rw [quoted, ← List.append_assoc] at hmode
    exact run_quote_ne_escaped _ _ hmode
  | broken => exact quoted_ne_broken hd hf hp hmode

/-- **The manifests that every update keeps in step** are those that are anchored. -/
theorem InStep.attempt_iff (hm : m.InStep) :
    (∀ name value, (m.attempt name value).InStep) ↔ m.Anchored := by
  constructor
  · intro h name hname p hf
    by_contra hno
    obtain ⟨value, hvalue⟩ := hm.exists_strayed hname hf hno
    exact hvalue (h name value)
  · intro h name value
    rcases attempt_cases m name value with heq | ⟨hname, p, hf, -, heq⟩
    · rw [heq]; exact hm
    · obtain ⟨S, hS, hp⟩ := h name hname p hf
      rw [heq]
      exact hm.filled hf hS hp value

end Manifest

end Upkeep
