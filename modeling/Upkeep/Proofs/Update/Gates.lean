import Upkeep.Proofs.Update.Requests
import Upkeep.Proofs.Update.Success

/-!
# The gates of tools

A tool is not updated for its own sake: it waits until the product that it is gated on gets another
version. Whether it does is read from the store at the start of the run, so a gate is the same at every
point of a run, whatever the stages before have made of that product by then.

* `Waits`: a tool behind a gate that is closed.
* `step_works`: **one variable**, in a manifest of any kind.
* `exists_gated`: every variable of a tool is behind the gate of the tool.
* `ComesTo`: the manifest with which a run comes to a variable.
* `run_gates`: **the gates of a run**.
-/

namespace Upkeep.Update

open Inquiry

variable {R : (q : Question) → q.Answer → Prop} {s : Settings} {ds : Dependencies} {dfv name k : String}
  {isTrial : Bool} {plan : Plan} {p p' : Progress} {u : Updater} {us l r : List Updater} {tool : Tool}
  {vars initial : Variables}

/-- A tool waits as long as the product that it is gated on gets no other version: none is provided for
it, or the one that it had at the start. -/
def Waits (ds : Dependencies) (dfv : String) (initial : Variables) (tool : Tool) : Prop :=
  ∀ d, ds.get? tool.gatedOn = some d →
    initial.value (Key.ofSegments [tool.gatedOn, dfv, Key.buildVersion]) = .ok d.version

/-- A gate is open when its tool does not wait, whatever the store is by then. -/
theorem renews_iff_not_waits :
    Context.renews ⟨s, ds, dfv, vars, initial⟩ tool.gatedOn = true ↔ ¬ Waits ds dfv initial tool := by
  rw [renews_eq_true_iff, Waits]
  push Not
  rfl

/-! ### One variable, in a manifest of any kind -/

/-- The manifest stays as it is when the variable has the value already or the text declines it;
otherwise it is updated. -/
def Works (m m' : Manifest) (name current final : String) : Prop :=
  (final = current ∨ m.update name final = .ok none) ∧ m' = m ∨ m.update name final = .ok (some m')

/-- **One variable** is worked on with the value that its rule comes to. -/
theorem step_works (h : (p.step plan u).Yields R (p', .ok ())) :
    ∃ current final, p.manifest.vars[u.variableName]? = some current ∧
      Ends R (plan.context p.manifest.vars) u current final ∧
      Works p.manifest p'.manifest u.variableName current final := by
  obtain ⟨notes, proposal, hpropose, hcases⟩ := step_cases h
  obtain ⟨hcurrent, hname, hends⟩ := yields_propose hpropose
  refine ⟨_, _, hcurrent, hends, ?_⟩
  rw [hname] at hcases
  rcases hcases with ⟨hkept, rfl⟩ | ⟨m, -, hm, rfl⟩
  · exact .inl ⟨hkept, rfl⟩
  · exact .inr hm

/-- One variable leaves all others as they are. -/
theorem Works.frame {m m' : Manifest} {current final : String} (h : Works m m' name current final)
    (hk : name ≠ k) : m'.vars[k]? = m.vars[k]? := by
  rcases h with ⟨-, rfl⟩ | h
  · rfl
  · rw [Manifest.vars_of_update h, Std.ExtTreeMap.getElem?_insert]
    simp [hk]

/-- A variable whose rule never comes to another value keeps its own. -/
theorem steps_keep (hk : ∀ u ∈ us, u.variableName = k → ∀ vars current final,
      Ends R (plan.context vars) u current final → final = current)
    (h : (Progress.steps plan us p).Yields R (p', .ok ())) :
    p'.manifest.vars[k]? = p.manifest.vars[k]? := by
  induction us generalizing p with
  | nil =>
    obtain rfl := yields_steps_nil.1 h
    rfl
  | cons u us ih =>
    obtain ⟨mid, hstep, hnext⟩ := yields_steps_cons.1 h
    obtain ⟨current, final, hcurrent, hends, hworks⟩ := step_works hstep
    refine (ih (fun w hw => hk w (by simp [hw])) hnext).trans ?_
    by_cases hname : u.variableName = k
    · -- it is worked on, with the value that it has
      obtain rfl := hk u (by simp) hname _ _ _ hends
      rcases hworks with ⟨-, hsame⟩ | hset
      · rw [hsame]
      · rw [Manifest.vars_of_update hset, Variables.insert_same hcurrent]
    · exact hworks.frame hname

/-! ### What is behind a gate -/

theorem exists_gated_of_toolUpdater? {rest : List String} (h : toolUpdater? tool name rest = some u) :
    ∃ inner, u.resolver = .gated tool.gatedOn inner := by
  unfold toolUpdater? at h
  split at h
  · split_ifs at h
    cases h
    exact ⟨_, rfl⟩
  · split_ifs at h <;> (cases h; exact ⟨_, rfl⟩)
  · cases h

/-- Every variable of a tool is behind the gate of the tool. -/
theorem exists_gated (ht : s.tool? tool.name = some tool)
    (hname : (Key.segments name).head? = some tool.name) (h : updaterFor? s dfv name = some u) :
    ∃ inner, u.resolver = .gated tool.gatedOn inner := by
  unfold updaterFor? at h
  split at h
  · rename_i first second rest hs
    rw [hs, List.head?_cons] at hname
    obtain rfl := Option.some.inj hname
    split_ifs at h
    rw [ht] at h
    exact exists_gated_of_toolUpdater? h
  · cases h

/-- Behind a closed gate a rule comes to no value. -/
theorem resolve_gated_of_waits (hwaits : Waits ds dfv initial tool) (inner : Resolver) :
    (Resolver.gated tool.gatedOn inner).resolve ⟨s, ds, dfv, vars, initial⟩ = pure .nothing := by
  rw [Resolver.resolve, if_neg]
  rw [renews_iff_not_waits]
  exact fun hnot => hnot hwaits

theorem resolve_gated_of_not_waits (hopen : ¬ Waits ds dfv initial tool) (inner : Resolver) :
    (Resolver.gated tool.gatedOn inner).resolve ⟨s, ds, dfv, vars, initial⟩ =
      inner.resolve ⟨s, ds, dfv, vars, initial⟩ := by
  rw [Resolver.resolve, if_pos (renews_iff_not_waits.2 hopen)]

/-- Behind a closed gate a variable is to keep its value. -/
theorem eq_of_ends_of_waits {inner : Resolver} {current final : String}
    (hwaits : Waits ds dfv initial tool) (hu : u.resolver = .gated tool.gatedOn inner)
    (h : Ends R ⟨s, ds, dfv, vars, initial⟩ u current final) : final = current := by
  obtain ⟨-, rfl⟩ | ⟨-, finding, o, hfinding, ho, rfl⟩ := h
  · rfl
  · rw [hu, resolve_gated_of_waits hwaits] at hfinding
    obtain rfl := yields_pure.1 hfinding
    obtain rfl := Except.ok.inj ho
    rfl

/-- Behind an open gate a reference to a version ends as the version that is provided. -/
theorem eq_of_ends_of_not_waits {current final : String} {d : Dependency}
    (hopen : ¬ Waits ds dfv initial tool) (hu : u.resolver = .gated tool.gatedOn (.toolRef tool))
    (hd : ds.get? tool.name = some d) (hreference : ¬ isWholeReference current)
    (h : Ends R ⟨s, ds, dfv, vars, initial⟩ u current final) : final = d.version := by
  obtain ⟨hwhole, -⟩ | ⟨-, finding, o, hfinding, ho, rfl⟩ := h
  · exact absurd hwhole hreference
  · rw [hu, resolve_gated_of_not_waits hopen, Resolver.resolve] at hfinding
    dsimp only at hfinding
    rw [hd] at hfinding
    obtain rfl := yields_pure.1 hfinding
    obtain rfl := Except.ok.inj ho
    rfl

/-- A question that is not for a release. -/
def NoRelease (q : Question) : Prop := ∀ k, q ≠ .release k

theorem asks_productUpdater? {product : String} {rest : List String} {ctx : Context}
    (h : productUpdater? s product name rest = some u) : (u.resolver.resolve ctx).Asks NoRelease := by
  unfold productUpdater? at h
  split at h
  · split_ifs at h <;> (cases h; trivial)
  · split_ifs at h
    cases h
    rw [Resolver.resolve]
    split
    · trivial
    · exact asks_firstDigest.2 fun _ _ _ => by simp
  · cases h

theorem name_of_tool? (h : s.tool? k = some tool) : tool.name = k := by
  unfold Settings.tool? at h
  simpa using List.find?_some h

/-- When all tools wait, no rule asks for a release. -/
theorem asks_of_waits
    (hwaits : ∀ tool, s.tool? tool.name = some tool → Waits ds dfv initial tool)
    (h : updaterFor? s dfv name = some u) :
    (u.resolver.resolve ⟨s, ds, dfv, vars, initial⟩).Asks NoRelease := by
  unfold updaterFor? at h
  split at h
  · split_ifs at h
    split at h
    · rename_i tool ht
      obtain rfl := name_of_tool? ht
      obtain ⟨inner, hu⟩ := exists_gated_of_toolUpdater? h
      rw [hu, resolve_gated_of_waits (hwaits tool ht)]
      trivial
    · exact asks_productUpdater? h
  · cases h

/-- When all tools wait, no proposal asks for a release. -/
theorem asks_propose_of_waits
    (hwaits : ∀ tool, s.tool? tool.name = some tool → Waits ds dfv initial tool)
    (h : updaterFor? s dfv name = some u) :
    (u.propose ⟨s, ds, dfv, vars, initial⟩).Asks NoRelease := by
  unfold Updater.propose
  split
  · trivial
  · split_ifs
    · trivial
    · exact (asks_of_waits hwaits h).bind fun _ => trivial

/-! ### The gates of a run -/

/-- The manifest with which a run may come to a variable, on its way from one manifest to another. -/
def ComesTo (R : (q : Question) → q.Answer → Prop) (plan : Plan) (m m' : Manifest) (name : String)
    (mid : Manifest) : Prop :=
  ∃ l u r p p', updaters plan.settings plan.dockerfileVersion m.vars = l ++ u :: r ∧
    u.variableName = name ∧ p.manifest = mid ∧ p'.manifest = m' ∧
    (Progress.steps plan l ⟨m, [], []⟩).Yields R (p, .ok ()) ∧
    (Progress.steps plan (u :: r) p).Yields R (p', .ok ())

/-- **The gates of a run** from one manifest to another. -/
structure Gated (R : (q : Question) → q.Answer → Prop) (plan : Plan) (m m' : Manifest)
    (asked : List Question) : Prop where
  /-- Behind a closed gate nothing changes. -/
  closed : ∀ tool name, plan.settings.tool? tool.name = some tool →
    Waits plan.dependencies plan.dockerfileVersion m.vars tool →
    (Key.segments name).head? = some tool.name → m'.vars[name]? = m.vars[name]?
  /-- When all gates are closed no release is asked for. -/
  silent : (∀ tool, plan.settings.tool? tool.name = some tool →
      Waits plan.dependencies plan.dockerfileVersion m.vars tool) → ∀ k, .release k ∉ asked
  /-- Behind an open gate a reference to a version ends as the version that is provided, unless the
  run comes to it with a text that declines that. -/
  opened : ∀ tool d name v, plan.settings.tool? tool.name = some tool →
    ¬ Waits plan.dependencies plan.dockerfileVersion m.vars tool →
    plan.dependencies.get? tool.name = some d →
    Key.segments name = [tool.name, plan.dockerfileVersion, Key.toolRef] →
    m.vars[name]? = some v → ¬ isWholeReference v →
    (∃ mid, ComesTo R plan m m' name mid) ∧
      ∀ mid, ComesTo R plan m m' name mid →
        (v ≠ d.version → mid.update name d.version ≠ .ok none) → m'.vars[name]? = some d.version

theorem updaterFor?_toolRef (ht : s.tool? tool.name = some tool)
    (hs : Key.segments name = [tool.name, dfv, Key.toolRef]) :
    updaterFor? s dfv name = some ⟨.toolRef, name, .gated tool.gatedOn (.toolRef tool)⟩ := by
  rw [updaterFor?, hs]
  simp [ht, toolUpdater?]

/-- A run comes to each of its variables. -/
theorem exists_comesTo {m : Manifest} (hu : u ∈ updaters plan.settings plan.dockerfileVersion m.vars)
    (h : (Progress.steps plan (updaters plan.settings plan.dockerfileVersion m.vars) ⟨m, [], []⟩).Yields
      R (p', .ok ())) : ∃ mid, ComesTo R plan m p'.manifest u.variableName mid := by
  obtain ⟨l, r, hlr⟩ := List.append_of_mem hu
  rw [hlr] at h
  obtain ⟨p, hl, hr⟩ := yields_steps_append.1 h
  exact ⟨p.manifest, l, u, r, p, p', hlr, rfl, rfl, rfl, hl, hr⟩

/-- A run comes to a variable once, with the value that it had at the start, and leaves it at the value
that it has then. -/
theorem ComesTo.works {m m' mid : Manifest} (h : ComesTo R plan m m' name mid)
    (hname : updaterFor? plan.settings plan.dockerfileVersion name = some u) :
    mid.vars[name]? = m.vars[name]? ∧ ∃ next current final, mid.vars[name]? = some current ∧
      Ends R (plan.context mid.vars) u current final ∧ Works mid next name current final ∧
      m'.vars[name]? = next.vars[name]? := by
  obtain ⟨l, w, r, p, p', hlr, rfl, rfl, rfl, hl, hr⟩ := h
  obtain ⟨next, hstep, hnext⟩ := yields_steps_cons.1 hr
  have hne := pairwise_variableName_ne plan.settings plan.dockerfileVersion m.vars
  rw [hlr, List.pairwise_append, List.pairwise_cons] at hne
  obtain ⟨-, ⟨hafter, -⟩, hbefore⟩ := hne
  obtain ⟨current, final, hcurrent, hends, hworks⟩ := step_works hstep
  have hw : w ∈ updaters plan.settings plan.dockerfileVersion m.vars := by rw [hlr]; simp
  obtain rfl := Option.some.inj ((mem_updaters.1 hw).2.symm.trans hname)
  refine ⟨steps_keep (fun v hv heq => absurd heq (hbefore v hv w (by simp))) hl,
    next.manifest, current, final, hcurrent, hends, hworks, ?_⟩
  exact steps_keep (fun v hv heq => absurd heq.symm (hafter v hv)) hnext

theorem steps_regular (hreg : p.manifest.Regular) (hbar : ∀ u ∈ us, '|' ∈ u.variableName.toList)
    (h : (Progress.steps plan us p).Yields R (p', .ok ())) : p'.manifest.Regular := by
  induction us generalizing p with
  | nil =>
    obtain rfl := yields_steps_nil.1 h
    exact hreg
  | cons u us ih =>
    obtain ⟨mid, hstep, hnext⟩ := yields_steps_cons.1 h
    have hmid := (step_ends hreg (hbar u (by simp)) hstep).1
    exact ih hmid (fun w hw => hbar w (by simp [hw])) hnext

/-- The text of a regular manifest declines no value but the one that the variable has. -/
theorem ComesTo.update_ne_none {m m' mid : Manifest} {v value : String} (hreg : m.Regular)
    (h : ComesTo R plan m m' name mid) (hv : m.vars[name]? = some v) (hne : v ≠ value) :
    mid.update name value ≠ .ok none := by
  intro hnone
  have hcomes := h
  obtain ⟨l, u, r, p, p', hlr, rfl, rfl, rfl, hl, -⟩ := h
  have hmem {w : Updater} (hw : w ∈ l ++ u :: r) :
      updaterFor? plan.settings plan.dockerfileVersion w.variableName = some w :=
    (mem_updaters.1 (hlr ▸ hw)).2
  have hmid := steps_regular hreg (fun w hw => bar_mem_of_updaterFor? (hmem (by simp [hw]))) hl
  have hvars := (hmid.update (bar_mem_of_updaterFor? (hmem (by simp))) hnone).2
  -- the value would be there already, but the variable still has its first one
  have hvalue : p.manifest.vars[u.variableName]? = some value := by
    rw [show p.manifest.vars = _ from hvars, Std.ExtTreeMap.getElem?_insert_self]
  rw [(hcomes.works (hmem (by simp))).1, hv] at hvalue
  exact hne (Option.some.inj hvalue)

theorem gated_of_steps {m : Manifest} {asked : List Question} (hbaseline : plan.baseline = m.vars)
    (h : (Progress.steps plan (updaters plan.settings plan.dockerfileVersion m.vars)
      ⟨m, [], []⟩).recorded.Yields R ((p', .ok ()), asked)) : Gated R plan m p'.manifest asked where
  closed tool name ht hwaits hname := by
    refine steps_keep (fun u hu hk vars current final hends => ?_) h.of_recorded
    obtain ⟨inner, hinner⟩ := exists_gated ht (hk ▸ hname) (mem_updaters.1 hu).2
    rw [Plan.context, hbaseline] at hends
    exact eq_of_ends_of_waits hwaits hinner hends
  silent hwaits k hk := by
    obtain ⟨l, u, r, mid, next, asked', hlr, -, hstep, hmem, -⟩ := exists_step_of_asked h hk
    have hu : u ∈ updaters plan.settings plan.dockerfileVersion m.vars := by rw [hlr]; simp
    refine (asks_step (P := NoRelease) ?_ fun _ _ _ => by simp).of_recorded hstep _ hmem k rfl
    rw [Progress.context, hbaseline]
    exact asks_propose_of_waits hwaits (mem_updaters.1 hu).2
  opened tool d name v ht hopen hd hs hv hreference := by
    have hu := updaterFor?_toolRef ht hs
    have hmem : name ∈ m.vars := Std.ExtTreeMap.mem_iff_isSome_getElem?.2 (by simp [hv])
    have htaken : (⟨.toolRef, name, .gated tool.gatedOn (.toolRef tool)⟩ : Updater) ∈
        updaters plan.settings plan.dockerfileVersion m.vars := mem_updaters.2 ⟨hmem, hu⟩
    refine ⟨exists_comesTo htaken h.of_recorded, fun mid hmid htext => ?_⟩
    obtain ⟨hcurrent, next, current, final, hcurrent', hends, hworks, hfinal⟩ := hmid.works hu
    obtain rfl := Option.some.inj (hv.symm.trans (hcurrent.symm.trans hcurrent'))
    rw [Plan.context, hbaseline] at hends
    obtain rfl := eq_of_ends_of_not_waits hopen rfl hd hreference hends
    rw [hfinal]
    rcases hworks with ⟨hsame | hnone, rfl⟩ | hset
    · rw [hcurrent', hsame]
    · by_cases hsame : v = d.version
      · rw [hcurrent', hsame]
      · exact absurd hnone (htext hsame)
    · rw [Manifest.vars_of_update hset, Std.ExtTreeMap.getElem?_insert_self]

/-- **The gates of a run** that succeeds, whatever the manifest is and whoever answers. -/
theorem run_gates {m m' : Manifest} {report : Report} {asked : List Question}
    (h : (run s ds isTrial m).recorded.Yields R ((m', .ok report), asked)) :
    ∃ dfv, dockerfileVersion s ds = .ok dfv ∧ Gated R ⟨s, ds, dfv, m.vars, isTrial⟩ m m' asked := by
  obtain ⟨dfv, p, hdfv, hsteps, rfl, -⟩ := yields_recorded_run h
  exact ⟨dfv, hdfv, gated_of_steps rfl hsteps⟩

/-- A tool that waits for another product than the runtime. -/
def signer : Tool where
  name := "signer"
  owner := "owner"
  repo := "signer"
  assetPattern := "^signer$"
  gatedOn := "aspnet"

/-- A tool that waits for the runtime, and one that waits for another product. -/
def toolSettings : Settings := { dockerfileVersion := some "9.0", tools := [.chisel, signer] }

/-- Variables of two tools, and of a runtime whose version is put together. -/
def olderTools : Variables :=
  .ofList [("patch", "4"), ("runtime|9.0|build-version", "9.0.$(patch)"), ("chisel|9.0|ref", "v1"),
    ("signer|9.0|ref", "v1")]

/-- The runtime is at its version already, the other product is not. -/
def toolVersions : Dependencies :=
  .ofList [⟨"runtime", "9.0.4"⟩, ⟨"aspnet", "9.0.4"⟩, ⟨"chisel", "v2"⟩, ⟨"signer", "v2"⟩]

theorem waits_chisel : Waits toolVersions "9.0" olderTools .chisel := by
  intro d hd
  obtain rfl : d = ⟨"runtime", "9.0.4"⟩ := by
    have hget : toolVersions.get? Tool.chisel.gatedOn = some ⟨"runtime", "9.0.4"⟩ := by decide +kernel
    exact Option.some.inj (hd.symm.trans hget)
  have hversion : olderTools["runtime|9.0|build-version"]? = some "9.0.$(patch)" := by decide +kernel
  have hpatch : olderTools["patch"]? = some "4" := by decide +kernel
  have hpieces : Piece.ofText "9.0.$(patch)".toList =
      "9.0.".toList.map .plain ++ [.reference "patch"] := by decide +kernel
  have hfour : Piece.ofText "4".toList = "4".toList.map .plain := by decide +kernel
  have hfollow : Variables.follow olderTools ["runtime|9.0|build-version"] "patch" =
      .ok "4".toList := by
    rw [Variables.follow_of_raw (by decide) hpatch, hfour]
    simp [Variables.expand, Except.map]
  have hname : Key.ofSegments [Tool.chisel.gatedOn, "9.0", Key.buildVersion] =
      "runtime|9.0|build-version" := by decide +kernel
  rw [hname, Variables.value, Variables.follow_of_raw (by simp) hversion, hpieces]
  simp [Variables.expand, hfollow]
  rfl

theorem not_waits_signer : ¬ Waits toolVersions "9.0" olderTools signer := by
  intro h
  have hvalue := h ⟨"aspnet", "9.0.4"⟩ (by decide +kernel)
  have hmissing : olderTools[Key.ofSegments [signer.gatedOn, "9.0", Key.buildVersion]]? = none := by
    decide +kernel
  rw [Variables.value, Variables.follow_of_missing (by simp) hmissing] at hvalue
  cases hvalue

/-- Answers by which nothing is found and nothing fails. -/
def nothingFound : (q : Question) → q.Answer
  | .digest _ => (.ok none : Except Failure (Option String))
  | .release _ => (.ok none : Except Failure (Option Release))
  | .save _ _ => (.ok () : Except Failure Unit)

theorem run_gates_olderTools :
    ∃ m' report asked, (run toolSettings toolVersions true (.rendered none olderTools)).recorded.Yields
        (fun q a => a = nothingFound q) ((m', .ok report), asked) ∧
      m'.vars["runtime|9.0|build-version"]? = some "9.0.4" ∧
      m'.vars["chisel|9.0|ref"]? = some "v1" ∧ m'.vars["signer|9.0|ref"]? = some "v2" := by
  have hR : Benign fun q a => a = nothingFound q := ⟨fun _ _ h => ⟨none, h⟩, fun _ _ _ h => h⟩
  have hnames : Manifest.PlainNames olderTools := by
    intro k hk
    obtain ⟨q, hq, rfl⟩ := Variables.mem_ofList hk
    clear hk
    revert q
    simp [Patch.Plain]
  have hreg := Manifest.regular_render none olderTools fun k hk =>
    ⟨fun hc => ((hnames k hk).1 _ hc).1 rfl, fun hc => ((hnames k hk).1 _ hc).2.1 rfl⟩
  have hrun := yields_result (R := fun q a => a = nothingFound q) (fun _ => rfl)
    (run toolSettings toolVersions true (.rendered none olderTools))
  obtain ⟨report, hreport⟩ := (holds_run_rendered hR hnames rfl).of_yields hrun
  generalize Inquiry.result nothingFound _ = x at hrun hreport
  obtain ⟨m', outcome⟩ := x
  obtain rfl : outcome = .ok report := hreport
  obtain ⟨asked, hasked⟩ := hrun.exists_recorded
  obtain ⟨dfv, hdfv, hgated⟩ := run_gates hasked
  obtain rfl := Except.ok.inj hdfv
  have hold (k : String) (hk : k ∈ ["chisel|9.0|ref", "signer|9.0|ref"]) :
      olderTools[k]? = some "v1" := by
    revert k
    decide +kernel
  refine ⟨m', report, asked, hasked, ?_, ?_, ?_⟩
  · obtain ⟨dfv, hdfv, htaken⟩ := run_taken hreg hrun
    obtain rfl := Except.ok.inj hdfv
    have hu : updaterFor? toolSettings "9.0" "runtime|9.0|build-version" =
        some ⟨.buildVersion, "runtime|9.0|build-version", .buildVersion "runtime"⟩ :=
      updaterFor?_buildVersion (by decide +kernel) (by decide +kernel) (by decide +kernel)
    obtain ⟨seen, finding, o, -, hfinding, ho, hfinal⟩ :=
      htaken.rule (v := "9.0.$(patch)") hu (by decide +kernel) (by decide +kernel)
    have hprovided : (toolVersions.get? (toolSettings.dependencyName "runtime")).map (·.version) =
        some "9.0.4" := by decide +kernel
    rw [hfinal, yields_resolve_buildVersion hfinding ho, Context.dependency?, hprovided]
    rfl
  · exact (hgated.closed .chisel "chisel|9.0|ref" rfl waits_chisel (by decide +kernel)).trans
      (hold _ (by simp))
  · obtain ⟨⟨mid, hmid⟩, hopened⟩ := hgated.opened signer ⟨"signer", "v2"⟩ "signer|9.0|ref" "v1"
      rfl not_waits_signer (by decide +kernel) (by decide +kernel) (hold _ (by simp))
      (by decide +kernel)
    exact hopened mid hmid fun hne => hmid.update_ne_none hreg (hold _ (by simp)) hne

end Upkeep.Update
