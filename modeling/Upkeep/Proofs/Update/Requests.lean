import Upkeep.Proofs.Record
import Upkeep.Proofs.Update.Repeat

/-!
# The requests of a run

A run asks for digests in the middle of its work, while the store is still being rewritten. What a request
carries is read from the store as it is then. The stages before that of the digests are over by then, so if
the later ones leave alone what stands behind the base URL and the build version of the runtime, a request
carries what the store at the end of the run gives.

* `Requested`: a request for the digest of a tracked artifact, as a context makes it.
* `asks_propose`: one variable asks for digests only in the stage of the digests, and only so.
* `exists_step_of_asked`: what a run asked was asked at one of its variables.
* `value_eq_of_undisturbed`: **what is read in the middle of a run** is what is read at its end.
* `run_requests`: **the requests of a run** carry what its final store gives.
-/

namespace Upkeep.Update

open Inquiry

variable {R : (q : Question) → q.Answer → Prop} {s : Settings} {ds : Dependencies} {dfv : String}
  {isTrial : Bool} {ctx : Context} {u : Updater} {k : String}

/-! ### What one variable asks for -/

/-- A request for the digest of a tracked artifact, as a context makes it: it carries the base URL and the
version of the runtime, and its URL is one of the templates of the product, filled in with that base URL. -/
structure Requested (ctx : Context) (r : Checksum.Request) : Prop where
  baseUrl : r.baseUrl = some ctx.baseUrl
  runtimeVersion : r.runtimeVersion = ctx.runtimeVersion?
  artifact : ∃ name d os arch templates template,
    name ∈ ctx.baseline ∧
    Key.segments name = [r.product, ctx.dockerfileVersion, os, arch, Key.digest] ∧
    ctx.dependency? r.product = some d ∧ r.buildVersion = some d.version ∧
    ctx.settings.templates? r.product = some templates ∧ template ∈ templates ∧
    r.url = Filling.fill ⟨ctx.baseUrl, d.version, Version.tag d.version, os, arch⟩ template

/-- Contexts that agree on the base URL and on the version of the runtime make the same requests. -/
theorem Requested.congr {vars vars' baseline : Variables} {r : Checksum.Request}
    (hbase : Context.baseUrl ⟨s, ds, dfv, vars, baseline⟩ =
      Context.baseUrl ⟨s, ds, dfv, vars', baseline⟩)
    (hruntime : Context.runtimeVersion? ⟨s, ds, dfv, vars, baseline⟩ =
      Context.runtimeVersion? ⟨s, ds, dfv, vars', baseline⟩)
    (h : Requested ⟨s, ds, dfv, vars, baseline⟩ r) : Requested ⟨s, ds, dfv, vars', baseline⟩ r := by
  obtain ⟨name, d, os, arch, templates, template, hname, hs, hd, hbuild, ht, hmem, hurl⟩ := h.artifact
  refine ⟨hbase ▸ h.baseUrl, hruntime ▸ h.runtimeVersion, ?_⟩
  exact ⟨name, d, os, arch, templates, template, hname, hs, hd, hbuild, ht, hmem, hbase ▸ hurl⟩

/-- A question for a digest is asked in the stage of the digests, and for a request that a context
makes. -/
def DigestsOf (ctx : Context) (stage : Stage) (q : Question) : Prop :=
  ∀ r, q = .digest r → stage = .checksum ∧ Requested ctx r

theorem digestsOf_of_ne {stage : Stage} {q : Question} (h : ∀ r, q ≠ .digest r) :
    DigestsOf ctx stage q := fun r hr => absurd hr (h r)

theorem exists_template_of_mem_candidates {p os arch version url : String}
    (h : url ∈ candidates ctx p os arch version) : ∃ templates template,
      ctx.settings.templates? p = some templates ∧ template ∈ templates ∧
      url = (filling ctx os arch version).fill template := by
  rw [candidates, List.mem_eraseDups, List.mem_map] at h
  obtain ⟨template, hmem, rfl⟩ := h
  cases ht : ctx.settings.templates? p with
  | none => rw [ht] at hmem; cases hmem
  | some templates =>
    rw [ht] at hmem
    exact ⟨templates, template, rfl, hmem, rfl⟩

/-- A search through several artifacts asks for each of them, when none has a digest. -/
theorem asks_firstDigest {P : Question → Prop} {name : String} {request : String → Checksum.Request}
    {d : Dependency} {urls : List String} :
    (firstDigest name request d urls).Asks P ↔ ∀ url ∈ urls, P (.digest (request url)) := by
  induction urls with
  | nil => exact ⟨fun _ => by simp, fun _ => trivial⟩
  | cons url rest ih =>
    have hrest : (firstDigest name request d (url :: rest)).Asks P ↔
        P (.digest (request url)) ∧ (firstDigest name request d rest).Asks P := by
      constructor
      · rintro ⟨hq, hnext⟩
        have hmissed := hnext (.ok none : Except Failure (Option String))
        exact ⟨hq, (asks_bind_iff (x := firstDigest name request d rest).1 hmissed).1⟩
      · rintro ⟨hq, hrest⟩
        refine ⟨hq, fun (answer : Except Failure (Option String)) => ?_⟩
        rcases answer with e | _ | digest
        · trivial
        · exact Asks.bind (x := firstDigest name request d rest) hrest fun _ => trivial
        · trivial
    rw [hrest, ih, List.forall_mem_cons]

theorem asks_toolAsset {P : Question → Prop} {tool : Tool} {arch : String} {field : AssetDetail}
    (h : ∀ k, P (.release k)) : ((Resolver.toolAsset tool arch field).resolve ctx).Asks P := by
  rw [Resolver.resolve]
  cases ctx.dependencies.get? tool.name with
  | none => trivial
  | some d =>
    refine ⟨h _, fun (answer : Except Failure (Option Release)) => ?_⟩
    rcases answer with e | _ | r <;> trivial

theorem asks_gated {P : Question → Prop} {product : String} {r : Resolver}
    (h : (r.resolve ctx).Asks P) : ((Resolver.gated product r).resolve ctx).Asks P := by
  rw [Resolver.resolve]
  split_ifs
  · exact h
  · trivial

/-- A rule asks for digests only in the stage of the digests. -/
theorem asks_resolve {stage : Stage} {r : Resolver} {name : String} (hname : name ∈ ctx.baseline)
    (hrule : Rule s ctx.dockerfileVersion name stage r) :
    (r.resolve ctx).Asks (DigestsOf ctx stage) := by
  cases hrule with
  | buildVersion | productVersion | baseUrl => trivial
  | @checksum p os arch hs =>
    rw [Resolver.resolve]
    cases hd : ctx.dependency? p with
    | none => trivial
    | some d =>
      refine asks_firstDigest.2 fun url hurl r hr => ?_
      obtain rfl := Question.digest.inj hr
      obtain ⟨templates, template, ht, hmem, rfl⟩ := exists_template_of_mem_candidates hurl
      exact ⟨rfl, rfl, rfl, name, d, os, arch, templates, template, hname, hs, hd, rfl, ht, hmem, rfl⟩
  | toolRef => exact asks_gated trivial
  | toolUrl | toolChecksum => exact asks_gated (asks_toolAsset fun _ => digestsOf_of_ne (by simp))

theorem asks_propose (hname : u.variableName ∈ ctx.baseline)
    (hu : updaterFor? s ctx.dockerfileVersion u.variableName = some u) :
    (u.propose ctx).Asks (DigestsOf ctx u.stage) := by
  unfold Updater.propose
  split
  · trivial
  · split_ifs
    · trivial
    · exact (asks_resolve hname (rule_of_updaterFor? hu)).bind fun _ => trivial

/-! ### What a run asks for -/

variable {plan : Plan} {p p' : Progress} {asked : List Question} {q : Question}

theorem asks_apply {P : Question → Prop} {proposal : Proposal} (h : ∀ path text, P (.save path text)) :
    (p.apply plan proposal).Asks P := by
  unfold Progress.apply
  split
  · trivial
  · trivial
  · rename_i m hm
    dsimp only
    split_ifs
    · trivial
    · refine Asks.bind ?_ fun _ => trivial
      unfold save
      split
      · trivial
      · exact ⟨h _ _, fun _ => trivial⟩

theorem asks_step {P : Question → Prop} (hpropose : (u.propose (p.context plan)).Asks P)
    (hsave : ∀ path text, P (.save path text)) : (p.step plan u).Asks P := by
  refine hpropose.bind fun ⟨notes, outcome⟩ => ?_
  cases outcome with
  | error e => trivial
  | ok proposal =>
    dsimp only
    split_ifs
    · exact asks_apply hsave
    · trivial

/-- What a run asked was asked at one of its variables. -/
theorem exists_step_of_asked {us : List Updater}
    (h : (Progress.steps plan us p).recorded.Yields R ((p', .ok ()), asked)) (hq : q ∈ asked) :
    ∃ l u r mid next asked', us = l ++ u :: r ∧
      (Progress.steps plan l p).Yields R (mid, .ok ()) ∧
      (mid.step plan u).recorded.Yields R ((next, .ok ()), asked') ∧ q ∈ asked' ∧
      (Progress.steps plan r next).Yields R (p', .ok ()) := by
  induction us generalizing p asked with
  | nil =>
    obtain ⟨-, rfl⟩ := yields_recorded_pure.1 h
    cases hq
  | cons u us ih =>
    obtain ⟨⟨p₁, outcome⟩, asked₁, asked₂, hstep, hnext, rfl⟩ := yields_recorded_bind.1 h
    cases outcome with
    | error e =>
      obtain ⟨heq, -⟩ := yields_recorded_pure.1 hnext
      cases (Prod.mk.inj heq).2
    | ok _ =>
      rcases List.mem_append.1 hq with hq | hq
      · exact ⟨[], u, us, p, p₁, asked₁, rfl, .done _, hstep, hq, hnext.of_recorded⟩
      · obtain ⟨l, w, r, mid, next, asked', rfl, hl, hw, hmem, hr⟩ := ih hnext hq
        refine ⟨u :: l, w, r, mid, next, asked', rfl, ?_, hw, hmem, hr⟩
        exact yields_bind.2 ⟨(p₁, .ok ()), hstep.of_recorded, hl⟩

theorem yields_recorded_run {m m' : Manifest} {report : Report}
    (h : (run s ds isTrial m).recorded.Yields R ((m', .ok report), asked)) :
    ∃ dfv p, dockerfileVersion s ds = .ok dfv ∧
      (Progress.steps ⟨s, ds, dfv, m.vars, isTrial⟩ (updaters s dfv m.vars) ⟨m, [], []⟩).recorded.Yields R
        ((p, .ok ()), asked) ∧ m' = p.manifest ∧ report = p.report := by
  unfold run at h
  split at h
  · obtain ⟨h, -⟩ := yields_recorded_pure.1 h
    cases (Prod.mk.inj h).2
  · rename_i dfv hdfv
    obtain ⟨⟨p, outcome⟩, asked₁, asked₂, hsteps, hdone, rfl⟩ := yields_recorded_bind.1 h
    obtain ⟨heq, rfl⟩ := yields_recorded_pure.1 hdone
    obtain ⟨rfl, houtcome⟩ := Prod.mk.inj heq
    cases outcome with
    | error e => cases houtcome
    | ok _ => exact ⟨dfv, p, hdfv, by simpa using hsteps, rfl, Except.ok.inj houtcome⟩

/-! ### What is read in the middle of a run -/

/-- The stages from that of the digests on. -/
def lateStages : List Stage := [.checksum, .toolRef, .toolUrl, .toolChecksum]

/-- Nothing that stands behind a variable in the final store, the variable included, was changed in a late
stage. -/
def Undisturbed (s : Settings) (dfv : String) (initial final : Variables) (k : String) : Prop :=
  ∀ u ∈ updaters s dfv initial, u.stage ∈ lateStages → final.Reaches k u.variableName →
    final[u.variableName]? = initial[u.variableName]?

theorem mem_lateStages_of_rank {stage : Stage} (h : Stage.checksum.rank ≤ stage.rank) :
    stage ∈ lateStages := by
  cases stage <;> revert h <;> decide

/-- From a variable of the stage of the digests on, a run only works on late stages. -/
theorem late_of_mem {initial : Variables} {l r : List Updater} {w : Updater}
    (hlr : updaters s dfv initial = l ++ u :: r) (hu : u.stage = .checksum) (hw : w ∈ u :: r) :
    w.stage ∈ lateStages := by
  refine mem_lateStages_of_rank ?_
  have hp := pairwise_updaters s dfv initial
  rw [hlr, List.pairwise_append, List.pairwise_cons] at hp
  rcases List.mem_cons.1 hw with rfl | hw
  · rw [hu]
  · rcases hp.2.1.1 w hw with hlt | ⟨heq, -⟩
    · exact hu ▸ hlt.le
    · rw [← heq, hu]

section

variable {initial mid final : Variables} {l r : List Updater} {before after : List Change}

/-- A variable that is undisturbed has, from the stage of the digests on, the value that it ends with. -/
theorem getElem?_eq_of_undisturbed (hlr : updaters s dfv initial = l ++ u :: r)
    (hu : u.stage = .checksum) (hbefore : Recorded ds l initial mid before)
    (hafter : Recorded ds (u :: r) mid final after)
    (hk : Undisturbed s dfv initial final k) {j : String} (hj : final.Reaches k j) :
    mid[j]? = final[j]? := by
  by_contra hne
  -- otherwise it was changed, and by an updater of a late stage
  obtain ⟨c, hc, rfl⟩ : ∃ c ∈ after, c.variableName = j := by
    by_contra hno
    exact hne (hafter.frame fun c hc heq => hno ⟨c, hc, heq⟩).symm
  obtain ⟨w, hw, hname⟩ := List.mem_map.1 (hafter.sublist.subset (List.mem_map_of_mem hc))
  have hmem : w ∈ updaters s dfv initial := by rw [hlr]; exact List.mem_append_right l hw
  have hsame := hk w hmem (late_of_mem hlr hu hw) (hname ▸ hj)
  have hnames := pairwise_variableName_ne s dfv initial
  rw [hlr, List.pairwise_append] at hnames
  obtain ⟨-, hnext, hl⟩ := hnames
  -- it was not touched before, so the change has its first value and its last, which are the same
  have hfirst : mid[w.variableName]? = initial[w.variableName]? := by
    refine hbefore.frame fun c' hc' heq => ?_
    obtain ⟨w', hw', hname'⟩ := List.mem_map.1 (hbefore.sublist.subset (List.mem_map_of_mem hc'))
    exact hl w' hw' w hw (hname'.trans heq)
  rw [← hname] at hne
  exact hne (hfirst.trans hsame.symm)

/-- **What is read in the middle of a run** is what is read at its end. -/
theorem value_eq_of_undisturbed (hlr : updaters s dfv initial = l ++ u :: r)
    (hu : u.stage = .checksum) (hbefore : Recorded ds l initial mid before)
    (hafter : Recorded ds (u :: r) mid final after) (hk : Undisturbed s dfv initial final k) :
    mid.value k = final.value k :=
  Variables.value_congr fun _ hj => getElem?_eq_of_undisturbed hlr hu hbefore hafter hk hj

end

theorem baseUrl_congr {vars vars' baseline : Variables}
    (h : vars.value (baseUrlName s dfv) = vars'.value (baseUrlName s dfv)) :
    Context.baseUrl ⟨s, ds, dfv, vars, baseline⟩ = Context.baseUrl ⟨s, ds, dfv, vars', baseline⟩ := by
  rw [baseUrl_eq_value, baseUrl_eq_value, h]

theorem runtimeVersion?_congr {vars vars' baseline : Variables}
    (h : vars.value (runtimeName dfv) = vars'.value (runtimeName dfv)) :
    Context.runtimeVersion? ⟨s, ds, dfv, vars, baseline⟩ =
      Context.runtimeVersion? ⟨s, ds, dfv, vars', baseline⟩ := by
  have hkey (vars : Variables) :
      Context.buildVersionKey ⟨s, ds, dfv, vars, baseline⟩ "runtime" = runtimeName dfv := rfl
  rw [Context.runtimeVersion?, Context.runtimeVersion?, hkey, hkey]
  dsimp only
  rw [h]

/-- **The requests of a run** of an engine that succeeds, whatever the manifest is and whoever answers from
the outside. If nothing that stands behind the base URL or the build version of the runtime was changed in
a late stage, every request for a digest carries what the final store gives. -/
theorem run_requests {e e' : Engine} {m m' : Manifest} {report : Report}
    (h : (e.perform (run e.settings ds isTrial m).recorded).Yields Any
      (((m', .ok report), asked), e')) :
    ∃ dfv, dockerfileVersion e.settings ds = .ok dfv ∧
      ((∀ k ∈ [baseUrlName e.settings dfv, runtimeName dfv],
          Undisturbed e.settings dfv m.vars m'.vars k) →
        ∀ r, .digest r ∈ asked → Requested ⟨e.settings, ds, dfv, m'.vars, m.vars⟩ r) := by
  obtain ⟨dfv, p, hdfv, hsteps, rfl, -⟩ := yields_recorded_run (Engine.yields_perform h)
  refine ⟨dfv, hdfv, fun hundisturbed r hr => ?_⟩
  obtain ⟨l, u, rest, mid, next, asked', hlr, hl, hstep, hmem, hnext⟩ := exists_step_of_asked hsteps hr
  obtain ⟨hname, hu⟩ := mem_updaters.1 (show u ∈ updaters e.settings dfv m.vars by rw [hlr]; simp)
  -- the request was made at a variable of the stage of the digests, from the store as it was then
  have hpropose : (u.propose (mid.context ⟨e.settings, ds, dfv, m.vars, isTrial⟩)).Asks
      (DigestsOf ⟨e.settings, ds, dfv, mid.manifest.vars, m.vars⟩ u.stage) := asks_propose hname hu
  have hasks := (asks_step hpropose fun _ _ => digestsOf_of_ne (by simp)).of_recorded hstep
  obtain ⟨hstage, hrequested⟩ := hasks _ hmem r rfl
  obtain ⟨before, -, hbefore⟩ := steps_recorded hl
  have hlast : (Progress.steps ⟨e.settings, ds, dfv, m.vars, isTrial⟩ (u :: rest) mid).Yields _ _ :=
    yields_bind.2 ⟨(next, .ok ()), hstep.of_recorded, hnext⟩
  obtain ⟨after, -, hafter⟩ := steps_recorded hlast
  have hread (k : String) (hk : k ∈ [baseUrlName e.settings dfv, runtimeName dfv]) :
      mid.manifest.vars.value k = p.manifest.vars.value k :=
    value_eq_of_undisturbed hlr hstage hbefore hafter (hundisturbed k hk)
  exact hrequested.congr (baseUrl_congr (hread _ (by simp))) (runtimeVersion?_congr (hread _ (by simp)))

/-- Variables of an older runtime, with the digest of its artifact and a base URL that names a mirror. -/
def mirroredArtifact : List (String × String) :=
  ("base-url|9.0|nightly", "https://$(mirror)") :: ("mirror", "host") :: olderArtifact

/-- The usual manifest of these variables. -/
def mirrored : Manifest := ⟨none, Manifest.render (.ofList mirroredArtifact), .ofList mirroredArtifact⟩

theorem mirrored_pieces : Piece.ofText "https://$(mirror)".toList =
    "https://".toList.map .plain ++ [.reference "mirror"] := by decide +kernel

section

variable {vars : Variables} (hbase : vars["base-url|9.0|nightly"]? = some "https://$(mirror)")
  (hmirror : vars["mirror"]? = some "host")

include hbase hmirror

theorem mirrored_value : vars.value "base-url|9.0|nightly" = .ok "https://host" := by
  rw [Variables.value_of_reference hbase mirrored_pieces (by decide) hmirror (by decide)]
  rfl

theorem mirrored_reaches {j : String} (hj : vars.Reaches "base-url|9.0|nightly" j) :
    j = "base-url|9.0|nightly" ∨ j = "mirror" := by
  rcases Relation.ReflTransGen.cases_head hj with heq | ⟨i, hi, hij⟩
  · exact .inl heq.symm
  · have hmem := (Variables.refers_iff hbase).1 hi
    rw [mirrored_pieces] at hmem
    obtain rfl : i = "mirror" := by simpa using hmem
    refine .inr (Variables.eq_of_reaches (fun v hv => ?_) hij)
    obtain rfl := Option.some.inj (hmirror.symm.trans hv)
    decide +kernel

/-- A run of these settings does not work on the base URL, nor on what it names, from the stage of the
digests on; and the build version of the runtime is of an earlier stage. -/
theorem mirrored_undisturbed (hruntime : vars[runtimeName "9.0"]? = some "9.0.5") :
    ∀ k ∈ [baseUrlName listingEngine.settings "9.0", runtimeName "9.0"],
      Undisturbed listingEngine.settings "9.0" mirrored.vars vars k := by
  intro k hk u hu hlate hreach
  rcases List.mem_cons.1 hk with rfl | hk
  · have hfixed (k : String) (hk : k = "base-url|9.0|nightly" ∨ k = "mirror") :
        vars[k]? = mirrored.vars[k]? := by
      rcases hk with rfl | rfl
      · rw [hbase]
        decide +kernel
      · rw [hmirror]
        decide +kernel
    exact hfixed u.variableName (mirrored_reaches hbase hmirror hreach)
  · obtain rfl := List.mem_singleton.1 hk
    have hname : u.variableName = runtimeName "9.0" := by
      refine Variables.eq_of_reaches (fun v hv => ?_) hreach
      obtain rfl := Option.some.inj (hruntime.symm.trans hv)
      decide +kernel
    have hu' := (mem_updaters.1 hu).2
    rw [hname, updaterFor?_buildVersion (p := "runtime") (by decide +kernel) (by decide +kernel)
      (by decide +kernel)] at hu'
    obtain rfl := Option.some.inj hu'
    simp [lateStages] at hlate

end

/-- The request among questions for a digest. -/
def request? : Question → Option Checksum.Request
  | .digest r => some r
  | _ => none

theorem run_requests_mirrored :
    let ds := Dependencies.ofList [⟨"runtime", "9.0.5"⟩]
    ∃ m' report asked e',
      (listingEngine.perform (run listingEngine.settings ds true mirrored).recorded).Yields Any
        (((m', .ok report), asked), e') ∧
      asked.filterMap request? ≠ [] ∧
      ∀ r, .digest r ∈ asked → r.baseUrl = some "https://host" ∧ r.runtimeVersion = some "9.0.5" ∧
        Requested ⟨listingEngine.settings, ds, "9.0", m'.vars, mirrored.vars⟩ r := by
  intro ds
  have hanswers (q : Outside) : Any q (oneDigest q) := trivial
  have hrun := yields_result hanswers
    (listingEngine.perform (run listingEngine.settings ds true mirrored).recorded)
  have hdone : let x := (listingEngine.perform
      (run listingEngine.settings ds true mirrored).recorded).result oneDigest
      x.1.1.2.toOption.isSome ∧ x.1.2.filterMap request? ≠ [] ∧
        x.1.1.1.vars["base-url|9.0|nightly"]? = some "https://$(mirror)" ∧
        x.1.1.1.vars["mirror"]? = some "host" ∧ x.1.1.1.vars[runtimeName "9.0"]? = some "9.0.5" := by
    decide +kernel
  generalize Inquiry.result oneDigest _ = x at hrun hdone
  obtain ⟨⟨⟨m', outcome⟩, asked⟩, e'⟩ := x
  obtain ⟨hok, hasked, hbase, hmirror, hruntime⟩ := hdone
  cases outcome with
  | error e => cases hok
  | ok report =>
    obtain ⟨dfv, hdfv, hrequests⟩ := run_requests hrun
    obtain rfl := Except.ok.inj hdfv
    refine ⟨m', report, asked, e', hrun, hasked, fun r hr => ?_⟩
    have hr := hrequests (mirrored_undisturbed hbase hmirror hruntime) r hr
    refine ⟨hr.baseUrl.trans ?_, hr.runtimeVersion.trans rfl, hr⟩
    rw [baseUrl_eq_value, show baseUrlName listingEngine.settings "9.0" = "base-url|9.0|nightly" by
      decide +kernel, mirrored_value hbase hmirror]
    rfl

end Upkeep.Update
