import Upkeep.Proofs.Manifest.Apart
import Upkeep.Proofs.Manifest.InStep

/-!
# Runs that keep a manifest in step

A run keeps a manifest in step if it finds the manifest anchored all along, and only then. For the
names that tracked variables have this can be told at the start: their places are apart, so an update
at one of them leaves the others where they are.

* `AnchoredAt.filled`: **an update leaves ordinary names anchored.**
* `inStep_updates_iff`: **the runs that keep a manifest in step**.
* `twice_strays`: a manifest that one update brings out of step.
-/

namespace Upkeep

open Json Mode Patch

namespace Manifest

variable {m : Manifest} {path : Option String} {name k text value : String} {p q : Place}
  {vars vars' : Variables}

/-- These are the variables that are read from a text. -/
def Reads (path : Option String) (text : String) (vars : Variables) : Prop :=
  ofText path text = .ok ⟨path, text, vars⟩

theorem Reads.unique (h : Reads path text vars) (h' : Reads path text vars') : vars = vars' :=
  congrArg Manifest.vars (Except.ok.inj (h.symm.trans h'))

/-- There is a string that is none of two others. -/
theorem exists_other (a b : String) : ∃ c : String, c ≠ a ∧ c ≠ b := by
  refine ⟨String.ofList ('|' :: (a.toList ++ b.toList)), ?_, ?_⟩
  · intro h
    have := congrArg (List.length ∘ String.toList) h
    simp at this
    omega
  · intro h
    have := congrArg (List.length ∘ String.toList) h
    simp at this
    omega

/-- **Two writes at different places.** If each write alone gives its variable the value, and either
reads as a write to some variable or to none when the other one has been made, then both together
give both variables their values. -/
theorem reads_two {D : String → String → String} {a b : String} (hne : name ≠ k)
    (ha : vars[name]? = some a) (hb : vars[k]? = some b)
    (h₁ : ∀ v, (∃ j, ∀ t, Reads path (D v t) ((vars.insert name v).insert j t)) ∨
      ∀ t, Reads path (D v t) (vars.insert name v))
    (h₂ : ∀ t, (∃ i, ∀ v, Reads path (D v t) ((vars.insert k t).insert i v)) ∨
      ∀ v, Reads path (D v t) (vars.insert k t)) (v t : String) :
    Reads path (D v t) ((vars.insert name v).insert k t) := by
  -- the second write is not lost
  have hkept (h : ∀ t, ∃ V, Reads path (D v t) V ∧ V[k]? = some b) : False := by
    obtain ⟨t, hta, htb⟩ := exists_other a b
    obtain ⟨V, hV, hVk⟩ := h t
    obtain ⟨i, hi⟩ | hconst := h₂ t
    · rw [hV.unique (hi v), Std.ExtTreeMap.getElem?_insert] at hVk
      by_cases hik : i = k
      · -- then the first write goes to the second variable, and the first one keeps its value
        obtain ⟨v', hva, -⟩ := exists_other a a
        have hv' : ((vars.insert k t).insert i v')[name]? = some a := by
          simp [Std.ExtTreeMap.getElem?_insert, hik, hne.symm, ha]
        obtain ⟨j, hj⟩ | hconst := h₁ v'
        · rw [(hi v').unique (hj t), Std.ExtTreeMap.getElem?_insert] at hv'
          by_cases hjn : j = name
          · simp [hjn, hta] at hv'
          · simp [hjn, hva] at hv'
        · rw [(hi v').unique (hconst t)] at hv'
          simp [hva] at hv'
      · simp [hik, htb] at hVk
    · rw [hV.unique (hconst v)] at hVk
      simp [htb] at hVk
  obtain ⟨j, hj⟩ | hconst := h₁ v
  · by_cases hjk : j = k
    · rw [← hjk]
      exact hj t
    · refine (hkept fun t => ⟨_, hj t, ?_⟩).elim
      simp [Std.ExtTreeMap.getElem?_insert, hjk, hne, hb]
  · refine (hkept fun t => ⟨_, hconst t, ?_⟩).elim
    simp [Std.ExtTreeMap.getElem?_insert, hne, hb]

/-! ### Anchored names -/

/-- What updates at a place of an ordinary name are read as. -/
theorem InStep.reads_of_find? (hm : m.InStep) (hk : Ordinary k.toList)
    (hf : find? k.toList m.text.toList = some q) : ∃ S, ValueAt q S ∧
      ((∃ j, S.Holds j ∧ ∀ t, Reads m.path (q.filled t) (m.vars.insert j t)) ∨
        ∀ t, Reads m.path (q.filled t) m.vars) := by
  obtain ⟨document, hd, hvars, -, -⟩ := ofText_eq_ok.1 hm
  obtain ⟨S, prev, rfl, hnew, -⟩ := member_of_find? hd hk hf
  refine ⟨S, ⟨⟨prev, by rw [← text_eq_of_find? hf]; exact hd⟩, hnew⟩, ?_⟩
  rcases ofJson_fill hvars with ⟨j, hj, hread⟩ | ⟨-, hread⟩
  · exact .inl ⟨j, hj, fun t => ofText_eq_ok.2 ⟨_, hnew t, hread t, rfl, rfl⟩⟩
  · exact .inr fun t => ofText_eq_ok.2 ⟨_, hnew t, hread t, rfl, rfl⟩

/-- An ordinary name is anchored if updates at its place are read as updates of its variable, and only
then. -/
theorem InStep.anchoredAt_iff (hm : m.InStep) (hk : Ordinary k.toList) (hmem : k ∈ m.vars)
    (hf : find? k.toList m.text.toList = some q) :
    m.AnchoredAt k ↔ ∀ t, Reads m.path (q.filled t) (m.vars.insert k t) := by
  constructor
  · intro h t
    obtain ⟨S, hS, hq⟩ := h q hf
    exact hm.filled hf hS hq t
  · intro h q' hf'
    obtain rfl := Option.some.inj (hf.symm.trans hf')
    obtain ⟨old, hold⟩ := Option.isSome_iff_exists.1 (Std.ExtTreeMap.mem_iff_isSome_getElem?.1 hmem)
    obtain ⟨t, ht, -⟩ := exists_other old old
    obtain ⟨S, hS, ⟨j, hj, hread⟩ | hread⟩ := hm.reads_of_find? hk hf
    · have hset := congrArg (·[k]?) ((hread t).unique (h t))
      by_cases hjk : j = k
      · exact ⟨S, hjk ▸ hj, hS⟩
      · simp [Std.ExtTreeMap.getElem?_insert, hjk, hold, ht.symm] at hset
    · have hset := congrArg (·[k]?) ((hread t).unique (h t))
      simp [hold, ht.symm] at hset

/-- A text that is read leads through strings and structure. -/
theorem run_ne_broken (h : Reads path text vars) : run outside text.toList ≠ broken := by
  obtain ⟨document, hd, -⟩ := ofText_eq_ok.1 h
  rw [(parseChars_eq_ok.1 hd).run_eq]
  decide

/-- The first place of another name, after an update that can be read. -/
theorem InStep.find?_shift (hm : m.InStep) (hn : Ordinary name.toList) (hk : Ordinary k.toList)
    (hne : name ≠ k) (hf : find? name.toList m.text.toList = some p)
    (hread : Reads path (p.filled value) vars) :
    (∀ q, find? k.toList m.text.toList = some q → ∃ q', Shifted p (encode value.toList) q q' ∧
      find? k.toList (p.filled value).toList = some q') ∧
    (find? k.toList m.text.toList = none → find? k.toList (p.filled value).toList = none) := by
  obtain ⟨document, hd, -⟩ := ofText_eq_ok.1 hm
  obtain ⟨pre, b₁, b₂, hb₁, hb₂, hp, hl⟩ := before_of_find? hf
  have hmode := hn.run_quoted (quoted_ne_broken hd hf hp)
  have hv := parseChars_eq_ok.1 hd
  rw [← text_of_find? hf, Place.text, List.append_assoc, hp] at hv
  have hafter (g z : List Char) (hg : '"' ∉ g) := after_ne_of_lead hb₁ hb₂ hl hv hmode (z := z) hg
  have hrun := run_ne_broken hread
  rw [Place.filled, String.toList_ofList] at hrun ⊢
  exact Patch.find?_shift hn hk (fun h => hne (String.toList_inj.1 h)) (run_ne_broken hm)
    (isPlace_of_find? hf) hafter (isBody_encode _) hrun

/-- **An update leaves ordinary names anchored**, its own and all others. -/
theorem AnchoredAt.filled (hkm : m.AnchoredAt k) (hm : m.InStep) (hn : Ordinary name.toList)
    (hk : Ordinary k.toList) (hnm : m.AnchoredAt name) (hname : name ∈ m.vars) (hmem : k ∈ m.vars)
    (hf : find? name.toList m.text.toList = some p) (value : String) :
    AnchoredAt { m with text := p.filled value, vars := m.vars.insert name value } k := by
  have hwrite := (hm.anchoredAt_iff hn hname hf).1 hnm
  by_cases hne : name = k
  · subst hne
    intro q hq
    obtain rfl := Option.some.inj ((find?_filled hf value).symm.trans hq)
    obtain ⟨S, hS, -, hnew⟩ := hnm p hf
    exact ⟨S, hS, ⟨value, hnew value⟩, hnew⟩
  cases hq : find? k.toList m.text.toList with
  | none =>
    intro q' hq'
    have hnone := (hm.find?_shift hn hk hne hf (hwrite value)).2 hq
    cases hnone.symm.trans hq'
  | some q =>
    have hwrite' := (hm.anchoredAt_iff hk hmem hq).1 hkm
    choose Q hQ hQf using fun v => (hm.find?_shift hn hk hne hf (hwrite v)).1 q hq
    choose P hP hPf using fun t => (hm.find?_shift hk hn (Ne.symm hne) hq (hwrite' t)).1 p hf
    have hcomm (v t : String) : (Q v).filled t = (P t).filled v :=
      congrArg String.ofList ((hQ v).filled_comm (hP t))
    obtain ⟨a, ha⟩ := Option.isSome_iff_exists.1 (Std.ExtTreeMap.mem_iff_isSome_getElem?.1 hname)
    obtain ⟨b, hb⟩ := Option.isSome_iff_exists.1 (Std.ExtTreeMap.mem_iff_isSome_getElem?.1 hmem)
    -- the two updates in either order lead to one text
    have hboth : ∀ v t, Reads m.path ((Q v).filled t) ((m.vars.insert name v).insert k t) := by
      refine reads_two hne ha hb (fun v => ?_) fun t => ?_
      · have hstep : InStep { m with text := p.filled v, vars := m.vars.insert name v } := hwrite v
        obtain ⟨-, -, ⟨j, -, hj⟩ | hconst⟩ := hstep.reads_of_find? hk (hQf v)
        · exact .inl ⟨j, hj⟩
        · exact .inr hconst
      · have hstep : InStep { m with text := q.filled t, vars := m.vars.insert k t } := hwrite' t
        simp only [hcomm]
        obtain ⟨-, -, ⟨i, -, hi⟩ | hconst⟩ := hstep.reads_of_find? hn (hPf t)
        · exact .inl ⟨i, hi⟩
        · exact .inr hconst
    have hstep : InStep { m with text := p.filled value, vars := m.vars.insert name value } :=
      hwrite value
    exact (hstep.anchoredAt_iff hk (by simp [hmem]) (hQf value)).2 (hboth value)

/-- A manifest whose ordinary names are anchored. -/
def OrdinaryAnchored (m : Manifest) : Prop :=
  ∀ name ∈ m.vars, Ordinary name.toList → m.AnchoredAt name

/-- **An update of an ordinary name** keeps a manifest in step and its ordinary names anchored. -/
theorem OrdinaryAnchored.attempt (h : m.OrdinaryAnchored) (hm : m.InStep)
    (hn : Ordinary name.toList) (value : String) :
    (m.attempt name value).InStep ∧ (m.attempt name value).OrdinaryAnchored := by
  rcases attempt_cases m name value with heq | ⟨hname, p, hf, -, heq⟩
  · rw [heq]
    exact ⟨hm, h⟩
  · have hnm := h name hname hn
    rw [heq]
    refine ⟨(hm.anchoredAt_iff hn hname hf).1 hnm value, fun k hk hko => ?_⟩
    have hmem : k ∈ m.vars := by
      rcases Std.ExtTreeMap.mem_insert.1 hk with heq | hk
      · obtain rfl : name = k := by simpa using heq
        exact hname
      · exact hk
    exact (h k hmem hko).filled hm hn hko hnm hname hmem hf value

theorem OrdinaryAnchored.updates (h : m.OrdinaryAnchored) (hm : m.InStep)
    {us : List (String × String)} (hus : ∀ u ∈ us, Ordinary u.1.toList) : (m.updates us).InStep := by
  induction us generalizing m with
  | nil => exact hm
  | cons u us ih =>
    obtain ⟨hstep, hanchored⟩ := h.attempt hm (hus u (by simp)) u.2
    exact ih hanchored hstep fun w hw => hus w (by simp [hw])

/-! ### Runs -/

/-- **The runs that keep a manifest in step.** All runs do, if the manifest stays anchored in all of
them, and only then. All runs over ordinary names do, if these are anchored in the beginning, and
only then. -/
theorem inStep_updates_iff (hm : ofText path text = .ok m) :
    ((∀ us, (m.updates us).InStep) ↔ ∀ us, (m.updates us).Anchored) ∧
    ((∀ us, (∀ u ∈ us, Ordinary u.1.toList) → (m.updates us).InStep) ↔
      ∀ name ∈ m.vars, Ordinary name.toList → m.AnchoredAt name) := by
  have hstep := inStep_of_ofText hm
  refine ⟨⟨fun h us => ?_, fun h us => ?_⟩, fun h name hname hn p hf => ?_, fun h us hus => ?_⟩
  · refine (h us).attempt_iff.1 fun name value => ?_
    rw [← updates_concat]
    exact h _
  · induction us using List.reverseRecOn with
    | nil => exact hstep
    | append_singleton us u ih =>
      obtain ⟨name, value⟩ := u
      rw [updates_concat]
      exact ih.attempt_iff.2 (h us) name value
  · by_contra hno
    obtain ⟨value, hvalue⟩ := hstep.exists_strayed hname hf hno
    exact hvalue (h [(name, value)] (by simpa using hn))
  · exact OrdinaryAnchored.updates h hstep hus

theorem parse_twiceWritten : Json.parse twiceWritten = .ok (.object [
    ("other", .object [("a|b", .string "z")]), ("variables", .object [("a|b", .string "y")])]) := by
  simp [twiceWritten, Json.parse, parseChars, Json.value, members, skipSpace, stringLiteral,
    stringBody, Except.map, isSpace, maxDepth]

/-- The update of the first match leaves the value that is read as it was. -/
theorem not_inStep_twiceWritten :
    ¬ InStep ⟨none, twiceWritten, twiceRead.vars.insert "a|b" "z"⟩ := by
  intro h
  obtain ⟨document, hd, hvars, -, -⟩ := ofText_eq_ok.1 h
  obtain rfl := Except.ok.inj (parse_twiceWritten.symm.trans hd)
  obtain ⟨ms, hms, hread⟩ := Variables.ofJson_eq_ok.1 hvars
  have hms' : ms = [("a|b", .string "y")] := by
    simpa [member?, Variables.sectionName, eq_comm] using hms
  have := hread "a|b"
  rw [hms', Std.ExtTreeMap.getElem?_insert_self] at this
  simp [member?] at this

theorem updates_twice : twiceRead.updates [("a|b", "z")] =
    ⟨none, twiceWritten, twiceRead.vars.insert "a|b" "z"⟩ := by
  simp only [updates, List.foldl_cons, List.foldl_nil, attempt, update_twice]

/-- Not every run keeps every manifest in step. -/
theorem twice_strays : ofText none twice = .ok twiceRead ∧
    ¬ (twiceRead.updates [("a|b", "z")]).InStep := by
  refine ⟨ofText_twice, ?_⟩
  rw [updates_twice]
  exact not_inStep_twiceWritten

theorem twice_not_anchored : ofText none twice = .ok twiceRead ∧
    (¬ ∀ us, (twiceRead.updates us).Anchored) ∧
    ¬ ∀ name ∈ twiceRead.vars, Ordinary name.toList → twiceRead.AnchoredAt name := by
  obtain ⟨hall, hordinary⟩ := inStep_updates_iff ofText_twice
  have hstrays : ¬ (twiceRead.updates [("a|b", "z")]).InStep := by
    rw [updates_twice]
    exact not_inStep_twiceWritten
  have hname : Ordinary "a|b".toList := ordinary_of_bar (by simp) (by simp) (by simp)
  exact ⟨ofText_twice, fun h => hstrays (hall.2 h _),
    fun h => hstrays (hordinary.2 h _ (by simpa using hname))⟩

end Manifest

end Upkeep
