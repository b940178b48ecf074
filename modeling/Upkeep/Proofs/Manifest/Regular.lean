import Upkeep.Proofs.Manifest.InStep

/-!
# Regular manifests

A manifest is regular when its document is the section of the variables and nothing else, no name
stands in it twice, and no name has a quote. The text that is written for given variables is of this
kind. A match in a regular manifest cannot stray: there is one member that it can be.

* `regular_render`: **the text that is written for variables** is read as them.
* `Regular.update`: **an update of a regular manifest** gives the variable its value.
-/

namespace Upkeep

open Json Mode Patch

/-! ### The text that is written -/

namespace Json

variable {d n : Nat} {w : List Char}

theorem spaces_newLine (n : Nat) : Spaces (newLine n) := by
  intro c hc
  rcases List.mem_cons.1 hc with rfl | hc
  · rfl
  · rw [List.eq_of_mem_replicate hc]; rfl

theorem spells_quote (s : String) : Spells d .value (quote s) (.string s) := by
  simpa [quote] using Spells.string (d := d) (literal_encode s.toList)

/-- Members on lines of their own are a text of an object. -/
theorem spells_prettyMembers (hw : Spaces w) {ms : List (String × Json)} (hne : ms ≠ [])
    (h : ∀ m ∈ ms, Spells d .value (prettyChars n m.2) m.2) :
    Spells d .members (prettyMembers n ms ++ w) (.object ms) := by
  have hslot {m : String × Json} {w : List Char} (hw : Spaces w)
      (hm : Spells d .value (prettyChars n m.2) m.2) :
      Spells d .slot ([' '] ++ prettyChars n m.2 ++ w) m.2 := .slot (by simp [Spaces, isSpace]) hm hw
  induction ms with
  | nil => exact absurd rfl hne
  | cons m ms ih =>
    obtain ⟨name, v⟩ := m
    have hv := h (name, v) (by simp)
    have hname := literal_encode name.toList
    cases ms with
    | nil =>
      have := Spells.member (spaces_newLine n) hname spaces_nil (hslot hw hv)
      simpa [prettyMembers, label, quote] using this
    | cons m' ms =>
      have hrest := ih (by simp) fun m hm => h m (by simp [hm])
      have := Spells.members (spaces_newLine n) hname spaces_nil (hslot spaces_nil hv) hrest
      simpa [prettyMembers, label, quote] using this

theorem spells_prettyObject {ms : List (String × Json)}
    (h : ∀ m ∈ ms, Spells d .value (prettyChars (n + 1) m.2) m.2) :
    Spells (d + 1) .value (prettyChars n (.object ms)) (.object ms) := by
  cases ms with
  | nil => exact .noMembers spaces_nil
  | cons m ms =>
    have := Spells.object (spells_prettyMembers (spaces_newLine n) (by simp) h)
    simpa [prettyChars] using this

end Json

namespace Manifest

variable {m : Manifest} {path : Option String} {name value prev : String} {vars : Variables}
  {S : Site} {r : Option Manifest}

/-- A document that is the section of the variables and nothing else. -/
def sectionOf (ms : List (String × String)) : Json :=
  .object [(Variables.sectionName, .object (ms.map fun (name, s) => (name, .string s)))]

theorem parse_render (vars : Variables) :
    Json.parse (render vars) = .ok (sectionOf vars.toList) := by
  have hsection : Spells maxDepth .value (prettyChars 0 (document vars)) (document vars) := by
    refine spells_prettyObject (d := 126) fun p hp => ?_
    obtain rfl := List.mem_singleton.1 hp
    refine spells_prettyObject (d := 125) fun q hq => ?_
    obtain ⟨⟨name, s⟩, -, rfl⟩ := List.mem_map.1 hq
    exact spells_quote s
  have hend : Spaces ['\n'] := by simp [Spaces, isSpace]
  rw [Json.parse, render, Json.pretty, String.toList_append, String.toList_ofList]
  have hslot := Spells.slot spaces_nil hsection hend
  exact parseChars_eq_ok.2 hslot

theorem member?_strings (ms : List (String × String)) (k : String) :
    (object (ms.map fun (name, s) => (name, .string s))).member? k =
      (Variables.ofList ms)[k]?.map Json.string := by
  rw [Variables.ofList_getElem?, member?, ← List.map_reverse, List.find?_map, Option.map_map,
    Option.map_map]
  rfl

theorem ofJson_sectionOf (source : String) (ms : List (String × String)) :
    Variables.ofJson source (sectionOf ms) = .ok (.ofList ms) :=
  Variables.ofJson_eq_ok.2 ⟨_, by simp [sectionOf, member?], member?_strings ms⟩

/-- **The text that is written for variables** is read as them. -/
theorem ofText_render (path : Option String) (vars : Variables) :
    ofText path (render vars) = .ok ⟨path, render vars, vars⟩ := by
  refine ofText_eq_ok.2 ⟨_, parse_render vars, ?_, rfl, rfl⟩
  rw [ofJson_sectionOf, Variables.ofList_toList]

/-! ### Regular manifests -/

/-- The document of the manifest is the section of the variables, where each name stands once and
none has a quote or a backslash. -/
structure Regular (m : Manifest) : Prop where
  inStep : m.InStep
  document : ∃ ms : List (String × String), Json.parse m.text = .ok (sectionOf ms) ∧
    ms.Pairwise (·.1 ≠ ·.1) ∧ ∀ p ∈ ms, '"' ∉ p.1.toList ∧ '\\' ∉ p.1.toList

/-- **The text that is written for variables** makes a regular manifest. -/
theorem regular_render (path : Option String) (vars : Variables)
    (h : ∀ name ∈ vars, '"' ∉ name.toList ∧ '\\' ∉ name.toList) :
    Regular ⟨path, render vars, vars⟩ where
  inStep := ofText_render path vars
  document := by
    exact ⟨vars.toList, parse_render vars, Variables.pairwise_toList vars, fun p hp =>
      h p.1 (Variables.mem_of_mem_toList hp)⟩

/-- A site of a string in the section is one of its members. -/
theorem site_of_section {ms : List (String × String)} (h : S.fill (.string prev) = sectionOf ms) :
    ∃ l k r, ms = l ++ (k, prev) :: r ∧ S.name = k ∧
      ∀ value : String, S.fill (.string value) = sectionOf (l ++ (k, value) :: r) := by
  cases S with
  | item => simp [Site.fill, sectionOf] at h
  | here l k r =>
    have hl := Json.object.inj h
    cases l with
    | nil => simp at hl
    | cons => simp at hl
  | member l k S r =>
    have hl := Json.object.inj h
    -- the section is the only member of the document
    obtain ⟨rfl, rfl⟩ : l = [] ∧ r = [] := by
      cases l with
      | nil => exact ⟨rfl, (List.cons.inj hl).2⟩
      | cons => simp at hl
    simp only [List.nil_append, List.cons.injEq, Prod.mk.injEq, and_true] at hl
    obtain ⟨rfl, hfill⟩ := hl
    cases S with
    | item => simp [Site.fill] at hfill
    | here l' k r' =>
      obtain ⟨l, t, rfl, rfl, ht⟩ := List.append_eq_map_iff.1 (Json.object.inj hfill)
      obtain ⟨⟨k', s⟩, r, rfl, hs, rfl⟩ := List.map_eq_cons_iff.1 ht
      obtain ⟨rfl, hprev⟩ := Prod.mk.inj hs
      obtain rfl := Json.string.inj hprev
      exact ⟨l, k', r, rfl, rfl, fun value => by simp [Site.fill, sectionOf]⟩
    | member l' k S r' =>
      obtain ⟨l, t, rfl, rfl, ht⟩ := List.append_eq_map_iff.1 (Json.object.inj hfill)
      obtain ⟨⟨k', s⟩, r, rfl, hs, rfl⟩ := List.map_eq_cons_iff.1 ht
      exact absurd (Prod.mk.inj hs).2.symm (S.fill_ne_string _ _)

/-- Another value for one of several distinct names. -/
theorem ofList_replace {l r : List (String × String)} {k : String}
    (hd : (l ++ (k, prev) :: r).Pairwise (·.1 ≠ ·.1)) (value : String) :
    Variables.ofList (l ++ (k, value) :: r) =
      (Variables.ofList (l ++ (k, prev) :: r)).insert k value := by
  refine Std.ExtTreeMap.ext_getElem? fun j => ?_
  have hget (s : String) : (Variables.ofList (l ++ (k, s) :: r))[j]? =
      ((r.reverse.find? (·.1 = j)).or ((if k = j then some (k, s) else none).or
        (l.reverse.find? (·.1 = j)))).map (·.2) := by
    rw [Variables.ofList_getElem?, List.reverse_append, List.reverse_cons, List.find?_append,
      List.find?_append, Option.or_assoc]
    by_cases hk : k = j <;> simp [hk]
  rw [Std.ExtTreeMap.getElem?_insert, hget, hget]
  by_cases hk : k = j
  · have hr : r.reverse.find? (·.1 = j) = none := by
      rw [List.find?_eq_none]
      intro q hq
      have hpair := List.pairwise_cons.1 (List.pairwise_append.1 hd).2.1
      have := hpair.1 q (List.mem_reverse.1 hq)
      simpa [← hk] using this.symm
    simp [hr, hk]
  · simp [hk]

theorem pairwise_replace {l r : List (String × String)} {k : String}
    (hd : (l ++ (k, prev) :: r).Pairwise (·.1 ≠ ·.1)) (value : String) :
    (l ++ (k, value) :: r).Pairwise (·.1 ≠ ·.1) := by
  simpa [List.pairwise_append] using hd

/-- The variables of a regular manifest are those of its section. -/
theorem Regular.vars_eq {ms : List (String × String)} (h : m.Regular)
    (hd : Json.parse m.text = .ok (sectionOf ms)) : m.vars = .ofList ms := by
  obtain ⟨document, hd', hvars, -, -⟩ := ofText_eq_ok.1 h.inStep
  obtain rfl := Except.ok.inj (hd.symm.trans hd')
  exact (Except.ok.inj ((ofJson_sectionOf _ _).symm.trans hvars)).symm

/-- **An update of a regular manifest** gives the variable its value, and the manifest stays regular,
whether the text had to change or not. -/
theorem Regular.update (h : m.Regular) (hbar : '|' ∈ name.toList)
    (hu : m.update name value = .ok r) :
    (r.getD m).Regular ∧ (r.getD m).vars = m.vars.insert name value := by
  obtain ⟨ms, hd, hpair, hplain⟩ := h.document
  have hvars := h.vars_eq hd
  obtain ⟨hname, p, hf, hr⟩ := update_eq_ok.1 hu
  have hq : '"' ∉ name.toList ∧ '\\' ∉ name.toList := by
    rw [hvars] at hname
    obtain ⟨q, hq, rfl⟩ := Variables.mem_ofList hname
    exact hplain q hq
  obtain ⟨S, prev, hS, hnew, hkey⟩ := member_of_find? hd (ordinary_of_bar hbar hq.1 hq.2) hf
  obtain ⟨l, k, t, rfl, rfl, hfill⟩ := site_of_section hS.symm
  -- no name of the section has a quote, so the member is the one of the variable
  have hk : S.name = name := by
    refine hkey.resolve_right ?_
    rintro ⟨z, hz⟩
    exact (hplain (S.name, prev) (by simp)).1 (by simp [hz])
  subst hk
  have hdoc : Json.parse (r.getD m).text = .ok (sectionOf (l ++ (S.name, value) :: t)) := by
    rw [← hfill, text_of_update hf hu]
    exact hnew value
  have hset : (r.getD m).vars = m.vars.insert S.name value := by
    rw [hvars, ← ofList_replace hpair value]
    split_ifs at hr
    · -- the text holds the value already, so the section does
      subst hr
      have hsame := Except.ok.inj (hd.symm.trans hdoc)
      obtain rfl : prev = value := by simpa [sectionOf] using hsame
      exact hvars
    · subst hr
      rw [ofList_replace hpair value, ← hvars]
      rfl
  refine ⟨⟨?_, _, hdoc, pairwise_replace hpair value, fun q hq => ?_⟩, hset⟩
  · refine ofText_eq_ok.2 ⟨_, hdoc, ?_, rfl, rfl⟩
    rw [ofJson_sectionOf, hset, hvars, ofList_replace hpair]
  · rcases List.mem_append.1 hq with hq | hq
    · exact hplain q (by simp [hq])
    · rcases List.mem_cons.1 hq with rfl | hq
      · exact hplain (S.name, prev) (by simp)
      · exact hplain q (by simp [hq])

end Manifest

end Upkeep
