import Upkeep.Proofs.Update.Run

/-!
# What a run reports

The changes that a run reports are the difference between the store before it and the store after it.
This needs nothing of the manifest: when the text declines a change, the store is left alone as well, and
nothing is listed.

* `Justified`: what a change rests on.
* `step_recorded`: one variable, and the change that is listed for it.
* `Recorded`: **what a run does to the store and lists**, variable by variable.
* `Difference`: the changes between two stores.
* `run_reports`: **the report of a run**.
-/

namespace Upkeep

namespace Update

open Inquiry

variable {R : (q : Question) → q.Answer → Prop} {ctx : Context} {finding : Finding}
  {o : DerivedValue} {d : Dependency}

/-! ### The dependencies behind a value -/

/-- A value comes from provided dependencies. -/
def Provided (ds : Dependencies) (used : List Dependency) : Prop :=
  ∀ d ∈ used, ds.get? d.name = some d ∧ d.isProvided

theorem provided_of_get? {ds : Dependencies} {name : String} (h : ds.get? name = some d) :
    Provided ds [d] := by
  intro d' hd'
  obtain rfl := List.mem_singleton.1 hd'
  obtain ⟨-, hname, hprovided⟩ := Dependencies.get?_eq_some_iff.1 h
  exact ⟨hname ▸ h, hprovided⟩

theorem used_firstDigest {name : String} {request : String → Checksum.Request} {urls : List String}
    (h : (firstDigest name request d urls).Yields R finding) (ho : finding.derived = .ok (some o)) :
    o.used = [d] := by
  induction urls generalizing finding with
  | nil =>
    obtain rfl := yields_pure.1 h
    cases ho
  | cons url rest ih =>
    obtain ⟨answer, -, hnext⟩ := yields_bind.1 h
    cases answer with
    | error e =>
      obtain rfl := yields_pure.1 hnext
      cases ho
    | ok digest =>
      cases digest with
      | some digest =>
        obtain rfl := yields_pure.1 hnext
        cases ho
        rfl
      | none =>
        obtain ⟨later, hlater, hdone⟩ := yields_bind.1 hnext
        obtain rfl := yields_pure.1 hdone
        exact ih hlater ho

theorem used_inRelease {tool : Tool} {arch : String} {field : AssetDetail} {r : Release}
    (ho : (inRelease tool arch field d r).derived = .ok (some o)) : o.used = [d] := by
  unfold inRelease at ho
  split at ho
  · cases ho
  · split at ho
    · cases ho
    · split at ho <;> cases ho
      rfl

theorem used_ofAsset {tool : Tool} {arch : String} {field : AssetDetail}
    (h : (ofAsset tool arch field d).Yields R finding) (ho : finding.derived = .ok (some o)) :
    o.used = [d] := by
  obtain ⟨r, -, hr⟩ := yields_ofAsset h ho
  exact used_inRelease hr

/-- A rule names the dependency whose version it used. -/
theorem provided_resolve {r : Resolver} (h : (r.resolve ctx).Yields R finding)
    (ho : finding.derived = .ok (some o)) : Provided ctx.dependencies o.used := by
  induction r with
  | buildVersion product | productVersion product =>
    obtain rfl := yields_pure.1 h
    cases hd : ctx.dependency? product with
    | none => rw [hd] at ho; cases ho
    | some d => rw [hd] at ho; cases ho; exact provided_of_get? hd
  | baseUrl =>
    obtain rfl := yields_pure.1 h
    obtain ⟨url, -, rfl⟩ := Option.map_eq_some_iff.1 (Except.ok.inj ho)
    simp [Provided]
  | checksum name product os arch =>
    rw [Resolver.resolve] at h
    cases hd : ctx.dependency? product with
    | none =>
      rw [hd] at h
      obtain rfl := yields_pure.1 h
      cases ho
    | some d =>
      rw [hd] at h
      rw [used_firstDigest h ho]
      exact provided_of_get? hd
  | toolRef tool =>
    obtain rfl := yields_pure.1 h
    cases hd : ctx.dependencies.get? tool.name with
    | none => rw [hd] at ho; cases ho
    | some d => rw [hd] at ho; cases ho; exact provided_of_get? hd
  | toolAsset tool arch field =>
    rw [Resolver.resolve] at h
    cases hd : ctx.dependencies.get? tool.name with
    | none =>
      rw [hd] at h
      obtain rfl := yields_pure.1 h
      cases ho
    | some d =>
      rw [hd] at h
      rw [used_ofAsset h ho]
      exact provided_of_get? hd
  | gated product inner ih =>
    rw [Resolver.resolve] at h
    split at h
    · exact ih h
    · obtain rfl := yields_pure.1 h
      cases ho

/-! ### One variable -/

variable {plan : Plan} {p p' : Progress} {u : Updater}

/-- What a change rests on: a value that is no reference, another value in its place, and provided
dependencies. -/
structure Justified (ds : Dependencies) (c : Change) : Prop where
  ne : c.oldValue ≠ c.newValue
  reference : ¬ isWholeReference c.oldValue
  provided : Provided ds c.dependencies

theorem justified_propose {notes : List Note} {proposal : Proposal}
    (h : (u.propose ctx).Yields R (notes, .ok proposal)) (ha : proposal.alters) :
    Justified ctx.dependencies proposal.change := by
  have hkeep {name current : String} (hk : (Proposal.keep name current).alters) : False := by
    simp [Proposal.alters, Proposal.keep] at hk
  unfold Updater.propose at h
  split at h
  · obtain ⟨-, h⟩ := Prod.mk.inj (yields_pure.1 h)
    cases h
  · rename_i current hcurrent
    split at h
    · obtain ⟨-, h⟩ := Prod.mk.inj (yields_pure.1 h)
      obtain rfl := Except.ok.inj h
      exact (hkeep ha).elim
    · rename_i hwhole
      obtain ⟨finding, hfinding, hdone⟩ := yields_bind.1 h
      obtain ⟨-, h⟩ := Prod.mk.inj (yields_pure.1 hdone)
      obtain ⟨o, ho, hproposal⟩ := Except.map_eq_ok.1 h.symm
      cases o with
      | none =>
        obtain rfl := hproposal
        exact (hkeep ha).elim
      | some r =>
        dsimp only at hproposal
        split_ifs at hproposal with hr
        · obtain rfl := hproposal
          exact (hkeep ha).elim
        · obtain rfl := hproposal
          exact ⟨fun heq => hr heq.symm, hwhole, provided_resolve hfinding ho⟩

/-- A variable and the change that is listed for it, in a store. -/
structure Records (ds : Dependencies) (vars : Variables) (u : Updater) (c : Change) : Prop where
  name : c.variableName = u.variableName
  current : vars[u.variableName]? = some c.oldValue
  justified : Justified ds c

/-- **One variable** is left as it is, or it is set and its change is listed. -/
theorem step_recorded (h : (p.step plan u).Yields R (p', .ok ())) :
    (p'.manifest.vars = p.manifest.vars ∧ p'.changes = p.changes) ∨
    ∃ c, Records plan.dependencies p.manifest.vars u c ∧
      p'.manifest.vars = p.manifest.vars.insert u.variableName c.newValue ∧
      p'.changes = p.changes ++ [c] := by
  obtain ⟨notes, proposal, hpropose, hcases⟩ := step_cases h
  obtain ⟨hcurrent, hname, -⟩ := yields_propose hpropose
  rcases hcases with ⟨-, rfl⟩ | ⟨m, halters, hm, rfl⟩
  · exact .inl ⟨rfl, rfl⟩
  · refine .inr ⟨proposal.change, ⟨hname, hcurrent, justified_propose hpropose halters⟩, ?_, rfl⟩
    rw [Manifest.vars_of_update hm, hname]
    rfl

/-! ### All variables -/

/-- **What a run does to the store and lists**, variable by variable. -/
inductive Recorded (ds : Dependencies) :
    List Updater → Variables → Variables → List Change → Prop where
  | nil (vars : Variables) : Recorded ds [] vars vars []
  | left {u : Updater} {us : List Updater} {vars vars' : Variables} {cs : List Change}
      (hrest : Recorded ds us vars vars' cs) : Recorded ds (u :: us) vars vars' cs
  | set {u : Updater} {us : List Updater} {vars vars' : Variables} {c : Change} {cs : List Change}
      (hc : Records ds vars u c)
      (hrest : Recorded ds us (vars.insert u.variableName c.newValue) vars' cs) :
      Recorded ds (u :: us) vars vars' (c :: cs)

theorem steps_recorded {us : List Updater} (h : (Progress.steps plan us p).Yields R (p', .ok ())) :
    ∃ cs, p'.changes = p.changes ++ cs ∧
      Recorded plan.dependencies us p.manifest.vars p'.manifest.vars cs := by
  induction us generalizing p with
  | nil =>
    obtain rfl := yields_steps_nil.1 h
    exact ⟨[], by simp, .nil _⟩
  | cons u us ih =>
    obtain ⟨mid, hstep, hnext⟩ := yields_steps_cons.1 h
    obtain ⟨cs, hcs, hrest⟩ := ih hnext
    rcases step_recorded hstep with ⟨hvars, hchanges⟩ | ⟨c, hc, hvars, hchanges⟩
    · exact ⟨cs, by rw [hcs, hchanges], .left (hvars ▸ hrest)⟩
    · exact ⟨c :: cs, by rw [hcs, hchanges]; simp, .set hc (hvars ▸ hrest)⟩

namespace Recorded

variable {ds : Dependencies} {us : List Updater} {vars vars' : Variables} {cs : List Change}
  {k : String}

/-- The changes are listed in the order in which their variables were taken. -/
theorem sublist (h : Recorded ds us vars vars' cs) :
    (cs.map (·.variableName)).Sublist (us.map (·.variableName)) := by
  induction h with
  | nil => simp
  | left _ ih => exact ih.cons _
  | set hc _ ih => rw [List.map_cons, List.map_cons, hc.name]; exact ih.cons_cons _

theorem justified (h : Recorded ds us vars vars' cs) : ∀ c ∈ cs, Justified ds c := by
  induction h with
  | nil => simp
  | left _ ih => exact ih
  | set hc _ ih => exact List.forall_mem_cons.2 ⟨hc.justified, ih⟩

/-- A variable without a change in the list keeps its value. -/
theorem frame (h : Recorded ds us vars vars' cs) (hk : ∀ c ∈ cs, c.variableName ≠ k) :
    vars'[k]? = vars[k]? := by
  induction h with
  | nil => rfl
  | left _ ih => exact ih hk
  | set hc _ ih =>
    rw [ih fun c hmem => hk c (by simp [hmem]), Std.ExtTreeMap.getElem?_insert]
    simp [hc.name ▸ hk _ List.mem_cons_self]

theorem mem_iff (h : Recorded ds us vars vars' cs) : k ∈ vars' ↔ k ∈ vars := by
  induction h with
  | nil => rfl
  | left _ ih => exact ih
  | @set u _ vars _ c _ hc _ ih =>
    have hmem : u.variableName ∈ vars :=
      Std.ExtTreeMap.mem_iff_isSome_getElem?.2 (by simp [hc.current])
    rw [ih, Std.ExtTreeMap.mem_insert]
    constructor
    · rintro (heq | hk)
      · obtain rfl : u.variableName = k := by simpa using heq
        exact hmem
      · exact hk
    · exact .inr

/-- If no variable is taken twice, a change tells the value before the run and the value after it. -/
theorem values (h : Recorded ds us vars vars' cs) (hd : us.Pairwise (·.variableName ≠ ·.variableName)) :
    ∀ c ∈ cs, vars[c.variableName]? = some c.oldValue ∧ vars'[c.variableName]? = some c.newValue := by
  induction h with
  | nil => simp
  | left _ ih => exact ih (List.pairwise_cons.1 hd).2
  | @set u us vars vars' c cs hc hrest ih =>
    obtain ⟨hu, hd⟩ := List.pairwise_cons.1 hd
    have hother : ∀ c' ∈ cs, u.variableName ≠ c'.variableName := by
      intro c' hc'
      obtain ⟨w, hw, hname⟩ := List.mem_map.1 (hrest.sublist.subset (List.mem_map_of_mem hc'))
      exact hname ▸ hu w hw
    refine List.forall_mem_cons.2 ⟨⟨hc.name ▸ hc.current, ?_⟩, fun c' hc' => ?_⟩
    · rw [hc.name, hrest.frame fun c' hc' => (hother c' hc').symm, Std.ExtTreeMap.getElem?_insert_self]
    · obtain ⟨hold, hnew⟩ := ih hd c' hc'
      rw [Std.ExtTreeMap.getElem?_insert] at hold
      exact ⟨by simpa [hother c' hc'] using hold, hnew⟩

end Recorded

/-! ### The report -/

variable {s : Settings} {ds : Dependencies} {dfv : String} {isTrial : Bool} {m m' : Manifest}
  {report : Report} {initial final : Variables} {cs : List Change}

/-- The updater of one name precedes the updater of another one. -/
def NamePrecedes (s : Settings) (dfv name name' : String) : Prop :=
  ∃ u u', updaterFor? s dfv name = some u ∧ updaterFor? s dfv name' = some u' ∧ u.Precedes u'

/-- **The changes between two stores.** Each variable with another value is listed once, with both values,
in the order of the stages and in a stage by name. -/
structure Difference (s : Settings) (ds : Dependencies) (dfv : String) (initial final : Variables)
    (cs : List Change) : Prop where
  names : ∀ k, k ∈ final ↔ k ∈ initial
  listed : ∀ k : String, (∃ c ∈ cs, c.variableName = k) ↔ initial[k]? ≠ final[k]?
  once : (cs.map (·.variableName)).Nodup
  values : ∀ c ∈ cs, initial[c.variableName]? = some c.oldValue ∧
    final[c.variableName]? = some c.newValue
  ordered : (cs.map (·.variableName)).Pairwise (NamePrecedes s dfv)
  version : ∀ c ∈ cs, (Key.segments c.variableName)[1]? = some dfv
  reference : ∀ c ∈ cs, ¬ isWholeReference c.oldValue
  provided : ∀ c ∈ cs, Provided ds c.dependencies

theorem Recorded.difference
    (h : Recorded ds (updaters s dfv initial) initial final cs) :
    Difference s ds dfv initial final cs := by
  have hvalues := h.values (pairwise_variableName_ne s dfv initial)
  have hupdater : ∀ c ∈ cs, ∃ u, updaterFor? s dfv c.variableName = some u := by
    intro c hc
    obtain ⟨u, hu, hname⟩ := List.mem_map.1 (h.sublist.subset (List.mem_map_of_mem hc))
    exact ⟨u, hname ▸ (mem_updaters.1 hu).2⟩
  refine ⟨fun k => h.mem_iff, fun k => ⟨?_, fun hne => ?_⟩, ?_, hvalues, ?_, fun c hc => ?_,
    fun c hc => (h.justified c hc).reference, fun c hc => (h.justified c hc).provided⟩
  · rintro ⟨c, hc, rfl⟩ heq
    obtain ⟨hold, hnew⟩ := hvalues c hc
    exact (h.justified c hc).ne (Option.some.inj (hold.symm.trans (heq.trans hnew)))
  · by_contra hno
    exact hne (h.frame fun c hc heq => hno ⟨c, hc, heq⟩).symm
  · have hne := pairwise_variableName_ne s dfv initial
    exact h.sublist.nodup (List.pairwise_map.2 hne)
  · refine List.Pairwise.sublist h.sublist (List.pairwise_map.2 ?_)
    exact (pairwise_updaters s dfv initial).imp_of_mem fun hu hu' hprec =>
      ⟨_, _, (mem_updaters.1 hu).2, (mem_updaters.1 hu').2, hprec⟩
  · obtain ⟨u, hu⟩ := hupdater c hc
    obtain ⟨-, first, rest, hs⟩ := updaterFor?_eq_some hu
    rw [hs]
    rfl

theorem run_recorded (h : (run s ds isTrial m).Yields R (m', .ok report)) :
    ∃ dfv, dockerfileVersion s ds = .ok dfv ∧
      Recorded ds (updaters s dfv m.vars) m.vars m'.vars report.changes := by
  obtain ⟨dfv, p, hdfv, hsteps, rfl, rfl⟩ := yields_run h
  obtain ⟨cs, hcs, hrecorded⟩ := steps_recorded hsteps
  refine ⟨dfv, hdfv, ?_⟩
  rw [Progress.report, hcs]
  exact hrecorded

/-- **The report of a run** of an engine that succeeds lists the changes between the store before the run
and the store after it, whatever the manifest is and whoever answers from the outside. -/
theorem run_reports {e e' : Engine}
    (h : (e.run ds isTrial m).Yields Any ((m', .ok report), e')) :
    ∃ dfv, dockerfileVersion e.settings ds = .ok dfv ∧
      Difference e.settings ds dfv m.vars m'.vars report.changes := by
  obtain ⟨dfv, hdfv, hrecorded⟩ := run_recorded (Engine.yields_perform h)
  exact ⟨dfv, hdfv, hrecorded.difference⟩

theorem run_reports_olderRuntime :
    let ds := Dependencies.ofList [⟨"runtime", "9.0.5"⟩]
    let m : Manifest := ⟨none, Manifest.render (.ofList olderRuntime), .ofList olderRuntime⟩
    ∃ m' report e', (freshEngine.run ds true m).Yields Any ((m', .ok report), e') ∧
      report.changes =
        [⟨"runtime|9.0|build-version", "9.0.4", "9.0.5", [⟨"runtime", "9.0.5"⟩]⟩] ∧
      Difference freshEngine.settings ds "9.0" m.vars m'.vars report.changes := by
  intro ds m
  have hdone : ((outcome? (freshEngine.run ds true m)).bind fun p => p.1.2.toOption.map (·.changes)) =
      some [⟨"runtime|9.0|build-version", "9.0.4", "9.0.5", [⟨"runtime", "9.0.5"⟩]⟩] := by
    decide +kernel
  obtain ⟨⟨⟨m', outcome⟩, e'⟩, hp, houtcome⟩ := Option.bind_eq_some_iff.1 hdone
  cases outcome with
  | error e => cases houtcome
  | ok report =>
    have hrun := yields_of_outcome? hp
    obtain ⟨dfv, hdfv, hdifference⟩ := run_reports hrun
    obtain rfl := Except.ok.inj hdfv
    exact ⟨m', report, e', hrun, Option.some.inj houtcome, hdifference⟩

end Update

end Upkeep
