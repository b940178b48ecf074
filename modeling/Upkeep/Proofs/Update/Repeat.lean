import Upkeep.Proofs.Update.Report
import Upkeep.Proofs.Update.Steady

/-!
# A run that is made again

When a run has succeeded, the same run finds nothing to do. Every rule comes to the value that it came to
before: what it reads of the store has not changed since, the digests are known, and the releases come from
a source that always gives the same answers. A gate may only have closed in the meantime.

* `findsAgain`: **a rule comes to the same value again**.
* `holds_run`: a run in which every variable is to keep its value.
* `run_again`: **a second run** changes nothing and asks for releases at most.
-/

namespace Upkeep.Update

open Inquiry Engine

variable {R : (q : Question) → q.Answer → Prop} {s : Settings} {ds : Dependencies} {dfv : String}
  {isTrial : Bool} {initial final seen : Variables} {u : Updater}

/-! ### What is found again -/

section Again

variable {known : String → Option (Option String)}
  {releases : Release.Key → Except Failure (Option Release)} {finding : Finding}
  {o : Option DerivedValue}

theorem fromKnown_told : FromKnown (Told known releases) known := fun _ o h => h o rfl

/-- A digest that was found is found again, by what is known of the artifacts. -/
theorem holds_firstDigest {name : String} {request : String → Checksum.Request}
    (hurl : ∀ url, (request url).url = url) {d : Dependency} {urls : List String} {v : Option String}
    (h : FirstDigest known urls v) :
    (firstDigest name request d urls).Holds (Recalled known releases) (Settled known) fun f =>
      ∃ o, f.derived = .ok o ∧ o.map (·.value) = v := by
  induction h with
  | none => exact ⟨_, rfl, rfl⟩
  | @found url digest rest hknown =>
    have hsettled : Settled known (.digest (request url)) := by simp [Settled, hurl, hknown]
    refine holds_bind ⟨hsettled, fun answer hanswer => ?_⟩
    obtain rfl : answer = .ok (some digest) := hanswer _ (by rw [hurl, hknown])
    exact ⟨_, rfl, rfl⟩
  | @missed url rest v hknown _ ih =>
    have hsettled : Settled known (.digest (request url)) := by simp [Settled, hurl, hknown]
    refine holds_bind ⟨hsettled, fun answer hanswer => ?_⟩
    obtain rfl : answer = .ok none := hanswer _ (by rw [hurl, hknown])
    exact holds_bind ih

theorem holds_ofAsset {tool : Tool} {arch : String} {field : AssetDetail} {d : Dependency}
    (h : (ofAsset tool arch field d).Yields (Told known releases) finding) :
    (ofAsset tool arch field d).Holds (Recalled known releases) (Settled known) (· = finding) := by
  obtain ⟨answer, hx, hnext⟩ := yields_ask_bind.1 h
  refine holds_bind ⟨trivial, fun again hagain => ?_⟩
  obtain rfl : again = answer := hagain.trans hx.symm
  -- the source is asked and nothing else, so the same answer leads to the same finding
  rcases again with e | _ | r <;> exact (yields_pure.1 hnext).symm

/-- By what is known, a rule comes to a value that was found before, or to none. -/
def FindsAgain (known : String → Option (Option String))
    (releases : Release.Key → Except Failure (Option Release)) (ctx : Context) (r : Resolver)
    (o : Option DerivedValue) : Prop :=
  (r.resolve ctx).Holds (Recalled known releases) (Settled known) fun f =>
    ∃ o', f.derived = .ok o' ∧ (o' = none ∨ o'.map (·.value) = o.map (·.value))

theorem findsAgain_of_pure {r : Resolver} {f : Finding} {ctx ctx' : Context}
    (hf : r.resolve ctx = pure f) (hf' : r.resolve ctx' = pure f)
    (h : (r.resolve ctx).Yields R finding) (ho : finding.derived = .ok o) :
    FindsAgain known releases ctx' r o := by
  rw [hf] at h
  obtain rfl := yields_pure.1 h
  rw [FindsAgain, hf']
  exact ⟨o, ho, .inr rfl⟩

theorem findsAgain_gated {product : String} {r : Resolver} {ctx ctx' : Context}
    (hopen : ctx'.renews product → ctx.renews product)
    (h : ((Resolver.gated product r).resolve ctx).Yields R finding)
    (hinner : (r.resolve ctx).Yields R finding → FindsAgain known releases ctx' r o) :
    FindsAgain known releases ctx' (.gated product r) o := by
  rw [Resolver.resolve] at h
  rw [FindsAgain, Resolver.resolve]
  split_ifs with hrenews
  · rw [if_pos (hopen hrenews)] at h
    exact hinner h
  · exact ⟨none, rfl, .inl rfl⟩

theorem findsAgain_toolAsset {tool : Tool} {arch : String} {field : AssetDetail} {ctx ctx' : Context}
    (hds : ctx.dependencies = ctx'.dependencies)
    (h : ((Resolver.toolAsset tool arch field).resolve ctx).Yields (Told known releases) finding)
    (ho : finding.derived = .ok o) :
    FindsAgain known releases ctx' (.toolAsset tool arch field) o := by
  rw [Resolver.resolve, hds] at h
  rw [FindsAgain, Resolver.resolve]
  cases hd : ctx'.dependencies.get? tool.name with
  | none => exact ⟨none, rfl, .inl rfl⟩
  | some d =>
    rw [hd] at h
    exact (holds_ofAsset h).mono fun f hf => ⟨o, hf ▸ ho, .inr rfl⟩

/-- A digest that was looked for under the same base URL is found again. -/
theorem findsAgain_checksum {name p os arch : String} (hR : FromKnown R known)
    (hbase : Context.baseUrl ⟨s, ds, dfv, seen, initial⟩ = Context.baseUrl ⟨s, ds, dfv, final, final⟩)
    (h : ((Resolver.checksum name p os arch).resolve ⟨s, ds, dfv, seen, initial⟩).Yields R finding)
    (ho : finding.derived = .ok o) :
    FindsAgain known releases ⟨s, ds, dfv, final, final⟩ (.checksum name p os arch) o := by
  have hcandidates (version : String) : candidates ⟨s, ds, dfv, seen, initial⟩ p os arch version =
      candidates ⟨s, ds, dfv, final, final⟩ p os arch version := by
    rw [candidates, candidates, filling, filling, hbase]
  have hdigest := yields_resolve_checksum hR h ho
  have hsame : Context.dependency? ⟨s, ds, dfv, seen, initial⟩ p =
      Context.dependency? ⟨s, ds, dfv, final, final⟩ p := rfl
  rw [FindsAgain, Resolver.resolve]
  rw [hsame] at hdigest
  cases hd : Context.dependency? ⟨s, ds, dfv, final, final⟩ p with
  | none => exact ⟨none, rfl, .inl rfl⟩
  | some d =>
    rw [hd] at hdigest
    dsimp only at hdigest
    rw [hcandidates] at hdigest
    refine (holds_firstDigest (fun _ => rfl) hdigest).mono ?_
    rintro f ⟨o', ho', hvalue⟩
    exact ⟨o', ho', .inr hvalue⟩

/-- **A rule comes to the value that it came to before**, or to none behind a gate that has closed. -/
theorem findsAgain {stage : Stage} {r : Resolver} {name : String}
    (hrule : Rule s dfv name stage r) (hgated : ∀ tool ∈ s.tools, tool.gatedOn = "runtime")
    (hopen : Context.renews ⟨s, ds, dfv, final, final⟩ "runtime" →
      Context.renews ⟨s, ds, dfv, seen, initial⟩ "runtime")
    (hbase : stage = .checksum →
      Context.baseUrl ⟨s, ds, dfv, seen, initial⟩ = Context.baseUrl ⟨s, ds, dfv, final, final⟩)
    (h : (r.resolve ⟨s, ds, dfv, seen, initial⟩).Yields (Told known releases) finding)
    (ho : finding.derived = .ok o) :
    FindsAgain known releases ⟨s, ds, dfv, final, final⟩ r o := by
  cases hrule with
  | buildVersion | productVersion | baseUrl => exact findsAgain_of_pure rfl rfl h ho
  | checksum => exact findsAgain_checksum fromKnown_told (hbase rfl) h ho
  | @toolRef tool ht =>
    exact findsAgain_gated (hgated tool ht ▸ hopen) h fun h => findsAgain_of_pure rfl rfl h ho
  | @toolUrl tool _ ht | @toolChecksum tool _ ht =>
    exact findsAgain_gated (hgated tool ht ▸ hopen) h fun h => findsAgain_toolAsset rfl h ho

end Again

/-! ### A run without changes -/

section Unchanged

variable {P : Question → Prop} {ctx : Context} {plan : Plan} {p : Progress} {m : Manifest}
  {w : String}

/-- A variable whose rule comes to the value that it has, or to none, is to keep it. -/
theorem holds_propose (hw : ctx.vars[u.variableName]? = some w)
    (h : ¬ isWholeReference w → (u.resolver.resolve ctx).Holds R P fun f =>
      ∃ o, f.derived = .ok o ∧ ∀ r, o = some r → r.value = w) :
    (u.propose ctx).Holds R P fun r => ∃ proposal, r.2 = .ok proposal ∧ ¬ proposal.alters := by
  have hkeep : ¬ (Proposal.keep u.variableName w).alters := by simp [Proposal.alters, Proposal.keep]
  unfold Updater.propose
  rw [hw]
  dsimp only
  split_ifs with hwhole
  · exact ⟨_, rfl, hkeep⟩
  · refine holds_bind ((h hwhole).mono ?_)
    rintro f ⟨o, ho, hvalue⟩
    rw [ho]
    refine ⟨_, rfl, ?_⟩
    cases o with
    | none => exact hkeep
    | some r =>
      dsimp only
      rw [if_pos (hvalue r rfl)]
      exact hkeep

/-- A variable that ended with what its rule came to is to keep it, if the rule comes to the same again. -/
theorem holds_propose_of_ends {known : String → Option (Option String)}
    {releases : Release.Key → Except Failure (Option Release)} {ctx' : Context} {v : String}
    (hw : ctx'.vars[u.variableName]? = some w) (hends : Ends R ctx u v w)
    (hfinds : ∀ finding o, (u.resolver.resolve ctx).Yields R finding → finding.derived = .ok o →
      FindsAgain known releases ctx' u.resolver o) :
    (u.propose ctx').Holds (Recalled known releases) (Settled known) fun r =>
      ∃ proposal, r.2 = .ok proposal ∧ ¬ proposal.alters := by
  refine holds_propose hw fun hwhole => ?_
  obtain ⟨hv, rfl⟩ | ⟨-, finding, o, hfinding, ho, rfl⟩ := hends
  · exact absurd hv hwhole
  refine (hfinds finding o hfinding ho).mono ?_
  rintro f ⟨o', ho', hnone | hsame⟩
  · exact ⟨o', ho', by simp [hnone]⟩
  · refine ⟨o', ho', fun r hr => ?_⟩
    rw [← hsame, hr]
    rfl

/-- The work on variables that changes nothing. -/
def Leaves (p : Progress) (r : Progress × Except Failure Unit) : Prop :=
  r.2 = .ok () ∧ r.1.manifest = p.manifest ∧ r.1.changes = p.changes

theorem holds_step (h : (u.propose (p.context plan)).Holds R P fun r =>
    ∃ proposal, r.2 = .ok proposal ∧ ¬ proposal.alters) :
    (p.step plan u).Holds R P (Leaves p) := by
  refine holds_bind (h.mono ?_)
  rintro ⟨notes, outcome⟩ ⟨proposal, hok, hkeep⟩
  obtain rfl : outcome = .ok proposal := hok
  dsimp only
  rw [if_neg hkeep]
  exact ⟨rfl, rfl, rfl⟩

theorem holds_steps {us : List Updater} (h : ∀ u ∈ us, (u.propose (p.context plan)).Holds R P fun r =>
    ∃ proposal, r.2 = .ok proposal ∧ ¬ proposal.alters) :
    (Progress.steps plan us p).Holds R P (Leaves p) := by
  induction us generalizing p with
  | nil => exact ⟨rfl, rfl, rfl⟩
  | cons u us ih =>
    refine holds_bind ((holds_step (h u (by simp))).mono ?_)
    rintro ⟨p', outcome⟩ ⟨hok, hmanifest, hchanges⟩
    obtain rfl : outcome = .ok () := hok
    have hcontext : p'.context plan = p.context plan := by
      rw [Progress.context, Progress.context, hmanifest]
    refine (ih fun u hu => by rw [hcontext]; exact h u (by simp [hu])).mono ?_
    rintro r ⟨hr, hrmanifest, hrchanges⟩
    exact ⟨hr, hrmanifest.trans hmanifest, hrchanges.trans hchanges⟩

/-- A run in which every variable is to keep its value. -/
theorem holds_run (hdfv : dockerfileVersion s ds = .ok dfv)
    (h : ∀ u ∈ updaters s dfv m.vars, (u.propose ⟨s, ds, dfv, m.vars, m.vars⟩).Holds R P fun r =>
      ∃ proposal, r.2 = .ok proposal ∧ ¬ proposal.alters) :
    (run s ds isTrial m).Holds R P fun r => r.1 = m ∧ ∃ report, r.2 = .ok report ∧
      report.changes = [] := by
  unfold run
  rw [hdfv]
  refine holds_bind ((holds_steps (p := ⟨m, [], []⟩) h).mono ?_)
  rintro ⟨p, outcome⟩ ⟨hok, hmanifest, hchanges⟩
  obtain rfl : outcome = .ok () := hok
  exact ⟨hmanifest, _, rfl, hchanges⟩

end Unchanged

/-! ### A second run -/

/-- After a run every rule comes to the value that its variable has. -/
theorem Taken.holds_propose {known : String → Option (Option String)}
    {releases : Release.Key → Except Failure (Option Release)}
    (h : Taken (Told known releases) ⟨s, ds, dfv, initial, isTrial⟩ (updaters s dfv initial) initial
      final)
    (hgated : ∀ tool ∈ s.tools, tool.gatedOn = "runtime")
    (halias : s.dependencyName "runtime" = "runtime")
    (hversion : ∀ d, ds.get? "runtime" = some d → NoReference d.version)
    (hurl : ∀ url, s.desiredBaseUrl? = some url → NoReference url)
    (hbase : Steady s dfv initial final (baseUrlName s dfv))
    (hruntime : Steady s dfv initial final (runtimeName dfv))
    (hu : u ∈ updaters s dfv initial) :
    (u.propose ⟨s, ds, dfv, final, final⟩).Holds (Recalled known releases) (Settled known) fun r =>
      ∃ proposal, r.2 = .ok proposal ∧ ¬ proposal.alters := by
  obtain ⟨v, seen, w, -, hseen, hends, hfinal⟩ := h.ends_of_mem hu
  exact holds_propose_of_ends hfinal hends fun finding o hfinding ho =>
    findsAgain (rule_of_updaterFor? (mem_updaters.1 hu).2) hgated (h.renews_runtime hruntime halias hversion)
      (fun hstage => h.baseUrl_eq hbase hurl hseen hstage) hfinding ho

theorem noReference_of_desiredBaseUrl?
    (hurls : ∀ url, s.baseUrl = some url ∨ s.internalBaseUrl = some url → NoReference url) {url : String}
    (h : s.desiredBaseUrl? = some url) : NoReference url := by
  unfold Settings.desiredBaseUrl? at h
  split at h
  · obtain rfl := Option.some.inj h
    exact hurls _ (.inr ‹_›)
  · obtain rfl := Option.some.inj h
    exact hurls _ (.inl ‹_›)
  · split_ifs at h
    obtain rfl := Option.some.inj h
    decide +kernel

/-- **A second run** over the manifest that a first run left. The manifest was written for given variables;
no text that is put into the base URL or the build version of the runtime has a reference, these two are
steady, and releases come from a source that always gives the same answers. Then the second run succeeds,
lists no change, leaves the manifest with its text as it is, and asks for releases at most. -/
theorem run_again (e : Engine) (ds : Dependencies) (isTrial : Bool) (path : Option String)
    (pairs : List (String × String)) (source : Release.Key → Except Failure (Option Release))
    (hnames : ∀ q ∈ pairs, '"' ∉ q.1.toList ∧ '\\' ∉ q.1.toList)
    (hgated : ∀ tool ∈ e.settings.tools, tool.gatedOn = "runtime")
    (halias : e.settings.productAliases["runtime"]? = none)
    (hversions : ∀ name d, ds.get? name = some d → NoReference d.version)
    (hurls : ∀ url, e.settings.baseUrl = some url ∨ e.settings.internalBaseUrl = some url →
      NoReference url) :
    ∃ m, Manifest.ofText path (Manifest.render (.ofList pairs)) = .ok m ∧ m.vars = .ofList pairs ∧
      ∀ m' report e', (e.run ds isTrial m).Yields (Released source) ((m', .ok report), e') →
        (∀ dfv, dockerfileVersion e.settings ds = .ok dfv →
          ∀ k ∈ [baseUrlName e.settings dfv, runtimeName dfv],
            Steady e.settings dfv m.vars m'.vars k) →
        (e'.run ds isTrial m').Holds (Released source) IsRelease fun again =>
          again.1.1 = m' ∧ ∃ report', again.1.2 = .ok report' ∧ report'.changes = [] := by
  refine ⟨_, Manifest.ofText_render path _, rfl, fun m' report e' h hsteady => ?_⟩
  have hreg := Manifest.regular_render path (.ofList pairs) fun name hname => by
    obtain ⟨q, hq, rfl⟩ := Variables.mem_ofList hname
    exact hnames q hq
  have hdependency : e.settings.dependencyName "runtime" = "runtime" := by
    rw [Settings.dependencyName, halias]
    rfl
  have htold := yields_perform_released h
  obtain ⟨dfv, hdfv, htaken⟩ := run_taken hreg htold
  obtain ⟨dfv', hdfv', hrecorded⟩ := run_recorded htold
  obtain rfl := Except.ok.inj (hdfv.symm.trans hdfv')
  have hbase := hsteady dfv hdfv (baseUrlName e.settings dfv) (by simp)
  have hruntime := hsteady dfv hdfv (runtimeName dfv) (by simp)
  rw [Engine.run, settings_of_perform h]
  refine holds_perform (holds_run hdfv fun u hu => ?_)
  obtain ⟨hmem, hu⟩ := mem_updaters.1 hu
  exact htaken.holds_propose hgated hdependency (hversions "runtime")
    (fun url hurl => noReference_of_desiredBaseUrl? hurls hurl) hbase hruntime
    (mem_updaters.2 ⟨hrecorded.mem_iff.1 hmem, hu⟩)

/-- An engine that finds digests in a local listing. -/
def listingEngine : Engine where
  settings :=
    { dockerfileVersion := some "9.0"
      checksumsFile := some "digests.txt"
      urlTemplates := .ofList [("runtime", ["https://host/runtime-$VERSION_FILE.zip"])] }

/-- Variables of an older runtime, with the digest of its artifact. -/
def olderArtifact : List (String × String) :=
  [("runtime|9.0|build-version", "9.0.4"), ("runtime|9.0|linux|x64|sha", "aa")]

/-- Answers from outside: a listing with one digest, and no release. -/
def oneDigest : (q : Outside) → q.Answer
  | .source (.text _) => (.ok none : Except Failure (Option String))
  | .source (.sha512 _) => (.ok none : Except Failure (Option String))
  | .source (.file _) => (.ok "ab12 runtime-9.0.5.zip" : Except FileError String)
  | .release _ => (.ok none : Except Failure (Option Release))
  | .save _ _ => (.ok () : Except Failure Unit)

theorem steady_olderArtifact (final : Variables) :
    ∀ k ∈ [baseUrlName listingEngine.settings "9.0", runtimeName "9.0"],
      Steady listingEngine.settings "9.0" (.ofList olderArtifact) final k := by
  have hapart {k : String} (hk : ∀ v, (Variables.ofList olderArtifact)[k]? = some v → NoReference v) :
      ∀ u ∈ updaters listingEngine.settings "9.0" (.ofList olderArtifact),
        (Variables.ofList olderArtifact).Reaches k u.variableName → u.variableName = k :=
    fun u _ hu => Variables.eq_of_reaches hk hu
  intro k hk
  rcases List.mem_cons.1 hk with rfl | hk
  · -- there is no such variable
    have hnone : (Variables.ofList olderArtifact)[baseUrlName listingEngine.settings "9.0"]? = none := by
      decide +kernel
    refine ⟨fun u hu hname _ => ?_, hapart fun v hv => by rw [hnone] at hv; cases hv⟩
    have hmem := (mem_updaters.1 hu).1
    rw [hname, Std.ExtTreeMap.mem_iff_isSome_getElem?, hnone] at hmem
    cases hmem
  · obtain rfl := List.mem_singleton.1 hk
    have hold : (Variables.ofList olderArtifact)[runtimeName "9.0"]? = some "9.0.4" := by
      decide +kernel
    refine ⟨fun u hu hname hlate => ?_, hapart fun v hv => ?_⟩
    · have hu' := (mem_updaters.1 hu).2
      rw [hname, updaterFor?_buildVersion (p := "runtime") (by decide +kernel) (by decide +kernel)
        (by decide +kernel)] at hu'
      obtain rfl := Option.some.inj hu'
      simp at hlate
    · obtain rfl := Option.some.inj (hold.symm.trans hv)
      decide +kernel

/-- A run that succeeds for some answers. -/
theorem exists_run {α : Type} {S : (q : Outside) → q.Answer → Prop} {answer : (q : Outside) → q.Answer}
    {x : Inquiry Outside Outside.Answer ((Manifest × Except Failure Report) × Engine)} {f : Report → α}
    {a : α} (h : ∀ q, S q (answer q)) (hdone : (x.result answer).1.2.toOption.map f = some a) :
    ∃ m' report e', x.Yields S ((m', .ok report), e') ∧ f report = a := by
  obtain ⟨report, hreport, rfl⟩ := Option.map_eq_some_iff.1 hdone
  have hx := yields_result h x
  generalize x.result answer = r at hx hreport
  obtain ⟨⟨m', outcome⟩, e'⟩ := r
  cases outcome with
  | error e => cases hreport
  | ok report' =>
    obtain rfl := Option.some.inj hreport
    exact ⟨m', report', e', hx, rfl⟩

theorem run_again_olderArtifact :
    let ds := Dependencies.ofList [⟨"runtime", "9.0.5"⟩]
    let source : Release.Key → Except Failure (Option Release) := fun _ => .ok none
    ∃ m m' report e', Manifest.ofText (some "manifest.json")
        (Manifest.render (.ofList olderArtifact)) = .ok m ∧
      (listingEngine.run ds false m).Yields (Released source) ((m', .ok report), e') ∧
      report.changes.map (·.newValue) = ["9.0.5", "ab12"] ∧
      (e'.run ds false m').Holds (Released source) IsRelease fun again =>
        again.1.1 = m' ∧ ∃ report', again.1.2 = .ok report' ∧ report'.changes = [] := by
  intro ds source
  have hnames : ∀ q ∈ olderArtifact, '"' ∉ q.1.toList ∧ '\\' ∉ q.1.toList := by simp [olderArtifact]
  have hgated : ∀ tool ∈ listingEngine.settings.tools, tool.gatedOn = "runtime" := by
    simp [listingEngine, Tool.chisel]
  have halias : listingEngine.settings.productAliases["runtime"]? = none := by decide +kernel
  have hversions : ∀ name d, ds.get? name = some d → NoReference d.version := by
    intro name d hd
    have hget : ds.get? name = if "runtime" = name then some ⟨"runtime", "9.0.5"⟩ else none :=
      Dependencies.get?_insert .empty ⟨"runtime", "9.0.5"⟩ name
    rw [hget] at hd
    split_ifs at hd
    obtain rfl := Option.some.inj hd
    decide +kernel
  have hurls : ∀ url, listingEngine.settings.baseUrl = some url ∨
      listingEngine.settings.internalBaseUrl = some url → NoReference url := by
    simp [listingEngine]
  obtain ⟨m, hm, hvars, hagain⟩ := run_again listingEngine ds false (some "manifest.json")
    olderArtifact source hnames hgated halias hversions hurls
  obtain rfl := Except.ok.inj ((Manifest.ofText_render _ _).symm.trans hm)
  have hanswers : ∀ q, Released source q (oneDigest q)
    | .source _ => True.intro
    | .release _ => rfl
    | .save _ _ => True.intro
  have hdone : ((listingEngine.run ds false ⟨some "manifest.json",
      Manifest.render (.ofList olderArtifact), .ofList olderArtifact⟩).result
        oneDigest).1.2.toOption.map (·.changes.map (·.newValue)) = some ["9.0.5", "ab12"] := by
    decide +kernel
  obtain ⟨m', report, e', hrun, hchanges⟩ := exists_run hanswers hdone
  refine ⟨_, m', report, e', hm, hrun, hchanges, hagain m' report e' hrun fun dfv hdfv => ?_⟩
  obtain rfl := Except.ok.inj hdfv
  exact steady_olderArtifact m'.vars

end Upkeep.Update
