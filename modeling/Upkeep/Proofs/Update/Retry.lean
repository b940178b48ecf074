import Upkeep.Proofs.Update.Answers
import Upkeep.Proofs.Update.Outage
import Upkeep.Proofs.Update.Sought

/-!
# A run that is made again after an outage

A run that could look up no release is made again on the manifest that it left, and then every release can be
had. Variable by variable the second run leads to where one run with all releases would have led at once. There
are exceptions, and all of them come from what the first run has recorded. It records the versions of products,
and they may close the gate of a tool before anything was found out for the tool, or open one. And it records the
versions of tools after it has looked for the digests of artifacts, so that a base URL which leads through such a
version is another one when they are looked for again.

* `Retried`: **what is made up for**, and what is lost.
* `run_retried`: **a run that is made again** after an outage.
* `run_not_made_up`: the exceptions.
-/

namespace Upkeep.Update

open Once Inquiry Manifest

variable {s : Settings} {ds : Dependencies} {dfv k : String} {isTrial : Bool} {initial final : Variables}
  {path : Option String}

/-- **What is made up for**, and what is not, when a run that was interrupted is made again: the store at the
start, the one that the first run left, the one after the second run, and the one after a run at once. -/
structure Retried (e : Engine) (ds : Dependencies) (dfv : String) (initial first second clean : Variables) :
    Prop where
  /-- Behind the same gate a variable ends with what it would have ended with at once, and so does the digest of
  an artifact that is looked for under the same base URL. -/
  madeUp : ∀ name, SameGate e.settings ds dfv initial first name →
    (∀ u, updaterFor? e.settings dfv name = some u → u.stage = .checksum →
      Undisturbed e.settings dfv initial first (baseUrlName e.settings dfv)) →
    second[name]? = clean[name]?
  /-- Behind a gate that is closed after the first run, so does what needs no release, and what comes from a
  release that was known. -/
  recorded : ∀ tool name, e.settings.tool? tool.name = some tool → Waits ds dfv first tool →
    (Key.segments name).head? = some tool.name →
    (∀ k, lookedUp? e.settings ds dfv name = some k → e.findings.releases.get? k ≠ none) →
    second[name]? = clean[name]?
  /-- What comes from another release is lost. -/
  lost : ∀ tool name k, e.settings.tool? tool.name = some tool → Waits ds dfv first tool →
    (Key.segments name).head? = some tool.name →
    lookedUp? e.settings ds dfv name = some k → e.findings.releases.get? k = none →
    second[name]? = initial[name]?

section

variable {e e₁ e' e₂ : Engine} {m₁ m₂ clean : Manifest} {report report' report₂ : Report}
  {fetch fetch' : (q : Checksum.Source) → q.Answer} {source : Release.Key → Option Release}

/-- What a run with all releases does to the store. -/
theorem taken_of_result {m m' : Manifest} (hreg : m.Regular) (hdfv : dockerfileVersion e.settings ds = .ok dfv)
    (h : (e.run ds isTrial m).result (restored fetch source) = ((m', .ok report), e')) :
    Taken (Engine.Answered (e.releases fun k => .ok (source k))) ⟨e.settings, ds, dfv, m.vars, isTrial⟩
      (updaters e.settings dfv m.vars) m.vars m'.vars := by
  have hyields := yields_result (released_restored fetch source) (e.run ds isTrial m)
  rw [h] at hyields
  obtain ⟨dfv', hdfv', htaken⟩ := run_taken hreg (Engine.yields_perform_answered hyields)
  obtain rfl := Except.ok.inj (hdfv.symm.trans hdfv')
  exact htaken

/-- What is told of a release during an outage is what lookups come to, or a failure. -/
theorem eq_or_failed_of_remembered (source : Release.Key → Except Failure (Option Release)) (k : Release.Key)
    (a : Except Failure (Option Release)) (h : Engine.Remembered e.findings.releases (.release k) a) :
    a = e.releases source k ∨ ∃ f, a = .error f := by
  cases hk : e.findings.releases.get? k with
  | none => exact .inr ((Engine.remembered_of_unknown hk).1 h)
  | some r =>
    refine .inl (((Engine.remembered_of_known hk).1 h).trans ?_)
    rw [Engine.releases, Release.answer, hk]

/-- A lookup of a release that is known does not fail. -/
theorem not_failed_of_known {k : Release.Key} (hk : e.findings.releases.get? k ≠ none) (f : Failure)
    (h : Engine.Remembered e.findings.releases (.release k) (.error f : Except Failure (Option Release))) :
    False := by
  obtain ⟨r, hr⟩ := Option.ne_none_iff_exists'.1 hk
  cases (Engine.remembered_of_known hr).1 h

/-- With all releases no lookup fails. -/
theorem releases_ne_error (source : Release.Key → Option Release) (k : Release.Key) (f : Failure) :
    e.releases (fun k => .ok (source k)) k ≠ .error f := by
  rw [Engine.releases, Release.answer]
  cases e.findings.releases.get? k <;> (intro h; cases h)

theorem retried_of_results (hplain : Unescaped initial) (hdfv : dockerfileVersion e.settings ds = .ok dfv)
    (h : (e.run ds isTrial (rendered path initial)).Yields (Outage fetch) ((m₁, .ok report), e₁))
    (hsecond : (e₁.run ds isTrial m₁).result (restored fetch' source) = ((m₂, .ok report₂), e₂))
    (hclean : (e.run ds isTrial (rendered path initial)).result (restored fetch source) =
      ((clean, .ok report'), e')) :
    Retried e ds dfv initial m₁.vars m₂.vars clean.vars := by
  have hsettings : e₁.settings = e.settings := Engine.settings_of_perform h
  have hreg : (rendered path initial).Regular := regular_rendered hplain
  obtain ⟨hsame, htold⟩ := Engine.yields_perform_remembered h
  obtain ⟨dfv', hdfv', hfirst⟩ := run_taken hreg htold
  obtain rfl := Except.ok.inj (hdfv.symm.trans hdfv')
  obtain ⟨first, rfl, hplain', hmem⟩ := rendered_of_run hplain h
  have htaken₂ := taken_of_result (regular_rendered hplain') (hsettings ▸ hdfv) hsecond
  have htaken := taken_of_result hreg hdfv hclean
  -- what lookups come to is the same again
  rw [hsettings, Engine.releases, hsame] at htaken₂
  have hreleases := releases_ne_error (e := e) source
  have htools {tool : Tool} {name : String} (ht : e.settings.tool? tool.name = some tool)
      (hname : (Key.segments name).head? = some tool.name) (u : Updater)
      (hu : updaterFor? e.settings dfv name = some u) : u.stage ≠ .checksum := by
    obtain ⟨inner, hinner⟩ := exists_gated ht hname hu
    exact ne_checksum_of_rule (rule_of_updaterFor? hu) fun _ _ _ hr => by cases hinner.symm.trans hr
  refine ⟨fun name hgate hbase => ?_, fun tool name ht hwaits hname hknown => ?_,
    fun tool name k ht hwaits hname hk hunknown => ?_⟩
  · by_cases hchecksum : ∃ u, updaterFor? e.settings dfv name = some u ∧ u.stage = .checksum
    · -- digests are found in the first run as in the clean one, and kept in the second
      obtain ⟨u, hu, hstage⟩ := hchecksum
      obtain ⟨_, _, _, hagain, hkept⟩ := result_again fetch' source hplain h hdfv
        (hbase u hu hstage)
      obtain ⟨_, _, _, hatOnce, hfound⟩ := result_at_once source hplain h hdfv
      cases hagain.symm.trans hsecond
      cases hatOnce.symm.trans hclean
      rw [hkept name u hu hstage, hfound name u hu hstage]
    · exact hfirst.made_up hreleases (eq_or_failed_of_remembered _) htaken₂ htaken hgate
        fun u hu hstage => hchecksum ⟨u, hu, hstage⟩
  · rw [htaken₂.kept_of_waits ht hwaits hname]
    exact hfirst.recorded hreleases (eq_or_failed_of_remembered _) htaken (htools ht hname)
      fun k hk => not_failed_of_known (hknown k hk)
  · rw [htaken₂.kept_of_waits ht hwaits hname]
    exact hfirst.kept_of_failed (f := default) (eq_or_failed_of_remembered fun _ => .error default) hk
      (by rw [Engine.releases, Release.answer, hunknown])

end

/-- **A run that is made again** after an outage, over the manifest that is written for given variables, whoever
answers but for the releases. The manifest that the first run leaves reads as it is. With all releases that run
would have succeeded. The one that is made again succeeds unless the base URL was disturbed, and it makes up for
what the first one could not look up. -/
theorem run_retried (e : Engine) (ds : Dependencies) (isTrial : Bool) (path : Option String)
    (pairs : List (String × String)) (fetch fetch' : (q : Checksum.Source) → q.Answer)
    (source : Release.Key → Option Release)
    (hnames : ∀ q ∈ pairs, ∀ c ∈ q.1.toList, c ≠ '"' ∧ c ≠ '\\' ∧ 32 ≤ c.toNat) :
    ∃ m, Manifest.ofText path (Manifest.render (.ofList pairs)) = .ok m ∧ m.vars = .ofList pairs ∧
      ∀ m₁ report e₁, (e.run ds isTrial m).Yields (Outage fetch) ((m₁, .ok report), e₁) →
        Manifest.ofText path m₁.text = .ok m₁ ∧ ∃ dfv clean, dockerfileVersion e.settings ds = .ok dfv ∧
          (∃ report', ((e.run ds isTrial m).result (restored fetch source)).1 = (clean, .ok report')) ∧
          (Undisturbed e.settings dfv m.vars m₁.vars (baseUrlName e.settings dfv) →
            ∃ m₂ report', ((e₁.run ds isTrial m₁).result (restored fetch' source)).1 = (m₂, .ok report')) ∧
          ∀ m₂ report', ((e₁.run ds isTrial m₁).result (restored fetch' source)).1 = (m₂, .ok report') →
            Retried e ds dfv m.vars m₁.vars m₂.vars clean.vars := by
  refine ⟨_, ofText_render path _, rfl, fun m₁ report e₁ h => ?_⟩
  have hplain := unescaped_ofList hnames
  obtain ⟨dfv, -, hdfv, -⟩ := yields_run (Engine.yields_perform (h.mono fun _ _ _ => trivial))
  obtain ⟨clean, report', e', hclean, -⟩ := result_at_once source hplain h hdfv
  refine ⟨?_, dfv, clean, hdfv, ⟨report', congrArg Prod.fst hclean⟩, fun hbase => ?_,
    fun m₂ report₂ hsecond => ?_⟩
  · obtain ⟨first, rfl, -, -⟩ := rendered_of_run hplain h
    exact ofText_render path first
  · obtain ⟨m₂, report₂, e₂, hsecond, -⟩ :=
      result_again fetch' source hplain h hdfv hbase
    exact ⟨m₂, report₂, congrArg Prod.fst hsecond⟩
  · exact retried_of_results hplain hdfv h (Prod.ext hsecond rfl) hclean

/-! ### Runs for the packer -/

/-- Nothing but releases is to be had from outside. -/
def noSource : (q : Checksum.Source) → q.Answer
  | .text _ => (.ok none : Except Failure (Option String))
  | .sha512 _ => (.ok none : Except Failure (Option String))
  | .file _ => (.error default : Except FileError String)

/-- Answers from outside when no release can be looked up. -/
def offline (fetch : (q : Checksum.Source) → q.Answer) : (q : Outside) → q.Answer
  | .source q => fetch q
  | .release _ => (.error default : Except Failure (Option Release))
  | .save _ _ => (.ok () : Except Failure Unit)

theorem outage_offline (fetch : (q : Checksum.Source) → q.Answer) (q : Outside) :
    Outage fetch q (offline fetch q) := by
  cases q with
  | source q | save path text => rfl
  | release k => exact ⟨default, rfl⟩

/-- A release of the packer for every version. -/
def packerSource (k : Release.Key) : Option Release := some (packerRelease k.tag)

theorem undisturbed_of_missing (hinitial : initial[k]? = none) (hfinal : final[k]? = none) :
    Undisturbed s dfv initial final k := by
  intro u hu _ hreach
  obtain rfl : u.variableName = k := Variables.eq_of_reaches (fun v hv => by cases hfinal.symm.trans hv) hreach
  exact absurd (mem_updaters.1 hu).1 (by simpa using hinitial)

/-- What a run does that cannot fail, by what the engine knows then. -/
theorem taken_of_sought {e e' : Engine} {vars : Variables} {S : (q : Outside) → q.Answer → Prop}
    {R : (q : Checksum.Source) → q.Answer → Prop} {y : Manifest × Except Failure Report}
    (hsource : ∀ q a, S (.source q) a → R q a)
    (hsave : ∀ path text (a : Except Failure Unit), S (.save path text) a → a = .ok ())
    (hread : Engine.Readable (Engine.service e.settings) R)
    (hknown : (Checksum.sought (Engine.service e.settings) R).Fits e.findings.digests) (hplain : Unescaped vars)
    (hdfv : dockerfileVersion e.settings ds = .ok dfv)
    (h : (e.run ds isTrial (rendered path vars)).Yields S (y, e')) :
    ∃ final report, y = (rendered path final, .ok report) ∧ Unescaped final ∧
      (Checksum.sought (Engine.service e.settings) R).Fits e'.findings.digests ∧
      Taken (Engine.Known e'.cached?) ⟨e.settings, ds, dfv, vars, isTrial⟩
        (updaters e.settings dfv vars) vars final := by
  obtain ⟨⟨report, hok⟩, hfits⟩ :=
    (Engine.holds_run_sought hsource hsave hread hknown hplain hdfv).of_yields h
  obtain ⟨m, outcome⟩ := y
  obtain rfl : outcome = .ok report := hok
  obtain ⟨final, rfl, hplain', -⟩ := rendered_of_run hplain h
  obtain ⟨dfv', hdfv', htaken⟩ := run_taken (regular_rendered hplain)
    (Engine.yields_perform (h.mono fun _ _ _ => trivial))
  obtain rfl := Except.ok.inj (hdfv.symm.trans hdfv')
  exact ⟨final, report, rfl, hplain', hfits, htaken⟩

/-- A store without a base URL. -/
theorem undisturbed_packer (hinitial : initial["base-url|9|nightly"]? = none)
    (hfinal : final["base-url|9|nightly"]? = none) :
    Undisturbed packerEngine.settings "9" initial final (baseUrlName packerEngine.settings "9") := by
  rw [show baseUrlName packerEngine.settings "9" = "base-url|9|nightly" by rfl]
  exact undisturbed_of_missing hinitial hfinal

theorem tool_packer : packerEngine.settings.tool? packer.name = some packer := rfl

/-- When the packer waits. -/
theorem waits_packer_iff {vars : Variables} (hd : ds.get? "runtime" = some ⟨"runtime", "9.0.5"⟩) :
    Waits ds "9" vars packer ↔ vars.value "runtime|9|build-version" = .ok "9.0.5" := by
  have hname : Key.ofSegments [packer.gatedOn, "9", Key.buildVersion] = "runtime|9|build-version" := by
    rfl
  rw [Waits, hname]
  refine ⟨fun h => h _ hd, fun h d hd' => ?_⟩
  obtain rfl := Option.some.inj (hd.symm.trans hd')
  exact h

theorem packerVersions_runtime : packerVersions.get? "runtime" = some ⟨"runtime", "9.0.5"⟩ := rfl

theorem not_waits_of_missing {vars : Variables} (h : vars["runtime|9|build-version"]? = none) :
    ¬ Waits packerVersions "9" vars packer := by
  rw [waits_packer_iff packerVersions_runtime, Variables.value, Variables.follow_of_missing (by simp) h]
  intro hvalue
  cases hvalue

/-- There is a run during an outage. -/
theorem exists_offline_run (hplain : Unescaped initial)
    (hdfv : dockerfileVersion packerEngine.settings ds = .ok "9") :
    ∃ first report e₁, (packerEngine.run ds false (rendered none initial)).Yields (Outage noSource)
        ((rendered none first, .ok report), e₁) ∧ Unescaped first ∧
      Taken (Engine.Known e₁.cached?) ⟨packerEngine.settings, ds, "9", initial, false⟩
        (updaters packerEngine.settings "9" initial) initial first := by
  have hyields := yields_result (outage_offline noSource) (packerEngine.run ds false (rendered none initial))
  generalize Inquiry.result _ _ = x at hyields
  obtain ⟨y, e₁⟩ := x
  obtain ⟨first, report, rfl, hplain', -, htaken⟩ := taken_of_sought (R := fun q a => a = noSource q)
    (fun _ _ h => h) (fun _ _ _ h => h) (fun _ _ h => by cases h) (fun _ _ h => by cases h) hplain hdfv hyields
  exact ⟨first, report, e₁, hyields, hplain', htaken⟩

/-- With all releases the URL of the packer becomes that of its release. -/
theorem url_of_result {e' : Engine} {clean : Manifest} {report : Report} (hplain : Unescaped initial)
    (hopen : ¬ Waits packerVersions "9" initial packer) (hold : initial["pack|9|x64|url"]? = some "old")
    (h : (packerEngine.run packerVersions false (rendered none initial)).result (restored noSource packerSource) =
      ((clean, .ok report), e')) : clean.vars["pack|9|x64|url"]? = some "https://host/x64" := by
  have hdfv : dockerfileVersion packerEngine.settings packerVersions = .ok "9" := rfl
  have hpack : packerVersions.get? packer.name = some ⟨"pack", "v2"⟩ := rfl
  have hasset : assetText? packer "v2" "x64" .url (.ok (some (packerRelease "v2"))) = some "https://host/x64" := by
    rfl
  have hrenews : Context.renews ⟨packerEngine.settings, packerVersions, "9", initial, initial⟩ packer.gatedOn = true :=
    renews_iff_not_waits.2 hopen
  have hdesired : (Resolver.gated packer.gatedOn (.toolAsset packer "x64" .url)).desired?
      ⟨packerEngine.settings, packerVersions, "9", initial, initial⟩
      (packerEngine.releases fun k => .ok (packerSource k)) = some "https://host/x64" := by
    rw [Resolver.desired?, if_pos hrenews, Resolver.desired?, hpack, Option.bind_some]
    exact hasset
  have hu := updaterFor?_toolUrl tool_packer
    (show Key.segments "pack|9|x64|url" = [packer.name, "9", "x64", Key.toolUrl] from rfl)
  have htaken := taken_of_result (regular_rendered hplain) hdfv h
  have hfinal := htaken.settled (fun _ _ => .inl) hu (by decide) hold
    fun k _ f hf => releases_ne_error _ k f (Eq.symm hf)
  exact hfinal.trans (congrArg (fun o => some (settled "old" o)) hdesired)

theorem run_retried_olderPacker :
    ∃ m m₁ report e₁ m₂ report₂, Manifest.ofText none (Manifest.render olderPacker) = .ok m ∧
      (packerEngine.run packerVersions false m).Yields (Outage noSource) ((m₁, .ok report), e₁) ∧
      m₁.vars["pack|9|x64|url"]? = some "old" ∧
      ((e₁.run packerVersions false m₁).result (restored noSource packerSource)).1 = (m₂, .ok report₂) ∧
      m₂.vars["pack|9|x64|url"]? = some "https://host/x64" := by
  have hnames : ∀ q ∈ [("pack|9|x64|url", "old"), ("pack|9|x64|sha", "old")],
      ∀ c ∈ q.1.toList, c ≠ '"' ∧ c ≠ '\\' ∧ 32 ≤ c.toNat := by simp
  have hplain : Unescaped olderPacker := unescaped_ofList hnames
  have hdfv : dockerfileVersion packerEngine.settings packerVersions = .ok "9" := rfl
  have hold : olderPacker["pack|9|x64|url"]? = some "old" := rfl
  obtain ⟨m, hm, -, hretry⟩ :=
    run_retried packerEngine packerVersions false none _ noSource noSource packerSource hnames
  obtain rfl : Manifest.rendered none olderPacker = m :=
    Except.ok.inj ((ofText_render none olderPacker).symm.trans hm)
  obtain ⟨first, report, e₁, hyields, -, htaken⟩ := exists_offline_run hplain hdfv
  obtain ⟨-, dfv, clean, hdfv', ⟨report', hclean⟩, hagain, hretried⟩ := hretry _ report e₁ hyields
  obtain rfl : "9" = dfv := Except.ok.inj (hdfv.symm.trans hdfv')
  -- neither a base URL nor a version of the runtime is there, before the first run and after it
  have hmissing {k : String} (hk : olderPacker[k]? = none) : first[k]? = none :=
    (htaken.untracked (.inr hk)).trans hk
  have hnoBase : olderPacker["base-url|9|nightly"]? = none := rfl
  have hbase := undisturbed_packer hnoBase (hmissing hnoBase)
  have hgate : SameGate packerEngine.settings packerVersions "9" olderPacker first "pack|9|x64|url" := by
    intro tool ht _
    obtain rfl : tool = packer := List.mem_singleton.1 (List.mem_of_find?_eq_some ht)
    exact iff_of_false not_waits_packer (not_waits_of_missing (hmissing rfl))
  obtain ⟨m₂, report₂, hsecond⟩ := hagain hbase
  refine ⟨_, _, report, e₁, m₂, report₂, hm, hyields, ?_, hsecond, ?_⟩
  · obtain ⟨dfv, hdfv', htold⟩ := run_taken (regular_rendered hplain) (Engine.yields_perform_remembered hyields).2
    obtain rfl : "9" = dfv := Except.ok.inj (hdfv.symm.trans hdfv')
    exact (htold.kept_of_failed (f := default) (eq_or_failed_of_remembered fun _ => .error default)
      (show lookedUp? packerEngine.settings packerVersions "9" "pack|9|x64|url" = some ⟨"owner", "pack", "v2"⟩ by
        decide +kernel) rfl).trans hold
  · rw [(hretried m₂ report₂ hsecond).madeUp "pack|9|x64|url" hgate fun _ _ _ => hbase]
    exact url_of_result hplain not_waits_packer hold (Prod.ext hclean rfl)

/-- A run that is made again makes up for an outage: it leads to the store to which a run with all releases would
have led at once. -/
def MakesUp (e : Engine) (ds : Dependencies) (isTrial : Bool) (path : Option String)
    (pairs : List (String × String)) (fetch : (q : Checksum.Source) → q.Answer)
    (source : Release.Key → Option Release) : Prop :=
  ∀ m m₁ report e₁, Manifest.ofText path (Manifest.render (.ofList pairs)) = .ok m →
    (e.run ds isTrial m).Yields (Outage fetch) ((m₁, .ok report), e₁) →
    ((e₁.run ds isTrial m₁).result (restored fetch source)).1.1.vars =
      ((e.run ds isTrial m).result (restored fetch source)).1.1.vars

/-! #### A gate that is closed -/

/-- Variables of an older packer, beside an older runtime. -/
def gatedPacker : List (String × String) :=
  [("runtime|9|build-version", "9.0.4"), ("pack|9|x64|url", "old"), ("pack|9|x64|sha", "old")]

theorem not_waits_gatedPacker : ¬ Waits packerVersions "9" (.ofList gatedPacker) packer := by
  have hversion : (Variables.ofList gatedPacker)["runtime|9|build-version"]? = some "9.0.4" := rfl
  rw [waits_packer_iff packerVersions_runtime, Variables.value_of_noReference hversion (by decide)]
  decide

/-- The first run records the version of the runtime although the release of the packer could not be looked up,
and that closes the gate of the packer for the run that is made again. -/
theorem not_makesUp_gatedPacker :
    ¬ MakesUp packerEngine packerVersions false none gatedPacker noSource packerSource := by
  intro hmakes
  have hplain : Unescaped (.ofList gatedPacker) := unescaped_ofList (by simp [gatedPacker])
  have hdfv : dockerfileVersion packerEngine.settings packerVersions = .ok "9" := rfl
  have hold : (Variables.ofList gatedPacker)["pack|9|x64|url"]? = some "old" := rfl
  have hnoBase : (Variables.ofList gatedPacker)["base-url|9|nightly"]? = none := rfl
  obtain ⟨first, report, e₁, hyields, -, htaken⟩ := exists_offline_run hplain hdfv
  have hsettles := htaken.settles fun r o hknown => hknown o rfl
  have hversion : first["runtime|9|build-version"]? = some "9.0.5" :=
    (hsettles.buildVersion _ "runtime" "9.0.4" rfl rfl (by decide) rfl
      (by decide)).trans rfl
  have hwaits : Waits packerVersions "9" first packer :=
    (waits_packer_iff packerVersions_runtime).2 (Variables.value_of_noReference hversion (by decide))
  -- what the first run could not look up is lost to the second, and not to a run at once
  obtain ⟨m₂, report₂, e₂, hsecond, -⟩ := result_again noSource packerSource hplain hyields hdfv
    (undisturbed_packer hnoBase ((htaken.untracked (.inr hnoBase)).trans hnoBase))
  obtain ⟨clean, report', e', hclean, -⟩ := result_at_once packerSource hplain hyields hdfv
  have hlost : m₂.vars["pack|9|x64|url"]? = (Variables.ofList gatedPacker)["pack|9|x64|url"]? :=
    (retried_of_results hplain hdfv hyields hsecond hclean).lost packer "pack|9|x64|url"
      ⟨"owner", "pack", "v2"⟩ rfl hwaits rfl rfl rfl
  have hurl := url_of_result hplain not_waits_gatedPacker hold hclean
  have hsame := hmakes (.rendered none _) _ report e₁ (ofText_render none _) hyields
  rw [hsecond, hclean] at hsame
  rw [← show m₂.vars = clean.vars from hsame, hlost, hold] at hurl
  exact absurd hurl (by decide)

/-! #### A gate that is opened -/

/-- A runtime that goes with another product, and an older packer. -/
def pairedRuntime : List (String × String) :=
  [("aspnet|9|build-version", "9.0.5"), ("runtime|9|build-version", "$(aspnet|9|build-version)"),
    ("pack|9|ref", "v1")]

/-- Newer versions of the other product and of the packer. -/
def pairedVersions : Dependencies := .ofList [⟨"runtime", "9.0.5"⟩, ⟨"aspnet", "9.0.6"⟩, ⟨"pack", "v2"⟩]

theorem pairedVersions_runtime : pairedVersions.get? "runtime" = some ⟨"runtime", "9.0.5"⟩ := rfl

theorem paired_value {vars : Variables} {v : String}
    (hruntime : vars["runtime|9|build-version"]? = some "$(aspnet|9|build-version)")
    (haspnet : vars["aspnet|9|build-version"]? = some v) (hv : NoReference v) :
    vars.value "runtime|9|build-version" = .ok v := by
  have hpieces : Piece.ofText "$(aspnet|9|build-version)".toList =
      [].map .plain ++ [.reference "aspnet|9|build-version"] := by decide +kernel
  rw [Variables.value_of_reference hruntime hpieces (by decide) haspnet hv, List.nil_append, String.ofList_toList]

section

variable {known : String → Option (Option String)} {first : Variables}

theorem waits_pairedRuntime : Waits pairedVersions "9" (.ofList pairedRuntime) packer :=
  (waits_packer_iff pairedVersions_runtime).2
    (paired_value (v := "9.0.5") rfl rfl (by decide))

/-- The gate of the packer is open after a run. -/
theorem not_waits_of_taken (h : Taken (Engine.Known known) ⟨packerEngine.settings, pairedVersions, "9",
      .ofList pairedRuntime, isTrial⟩ (updaters packerEngine.settings "9" (.ofList pairedRuntime))
      (.ofList pairedRuntime) first) : ¬ Waits pairedVersions "9" first packer := by
  have hsettles := h.settles fun r o hknown => hknown o rfl
  have hruntime : first["runtime|9|build-version"]? = some "$(aspnet|9|build-version)" :=
    hsettles.reference _ _ rfl rfl
  have haspnet : first["aspnet|9|build-version"]? = some "9.0.6" :=
    (hsettles.buildVersion _ "aspnet" "9.0.5" rfl rfl (by decide) rfl
      (by decide)).trans rfl
  rw [waits_packer_iff pairedVersions_runtime, paired_value hruntime haspnet (by decide)]
  decide

end

/-- The first run records the version of the other product, and that opens the gate of the packer for the run that
is made again. -/
theorem not_makesUp_pairedRuntime :
    ¬ MakesUp packerEngine pairedVersions false none pairedRuntime noSource packerSource := by
  intro hmakes
  have hplain : Unescaped (.ofList pairedRuntime) := unescaped_ofList (by simp [pairedRuntime])
  have hdfv : dockerfileVersion packerEngine.settings pairedVersions = .ok "9" := rfl
  obtain ⟨first, report, e₁, hyields, hplain', htaken⟩ := exists_offline_run hplain hdfv
  have hsettings : e₁.settings = packerEngine.settings := Engine.settings_of_perform hyields
  have href : (Variables.ofList pairedRuntime)["pack|9|ref"]? = some "v1" := rfl
  have href₁ : first["pack|9|ref"]? = some "v1" :=
    (htaken.kept_of_waits tool_packer waits_pairedRuntime rfl).trans href
  have hmissing : (Variables.ofList pairedRuntime)["base-url|9|nightly"]? = none := rfl
  obtain ⟨m₂, report₂, e₂, hsecond, -⟩ := result_again noSource packerSource hplain
    hyields hdfv (undisturbed_packer hmissing ((htaken.untracked (.inr hmissing)).trans hmissing))
  obtain ⟨clean, report', e', hclean, -⟩ := result_at_once packerSource hplain hyields hdfv
  -- the run that is made again brings up to date what a run at once leaves alone
  have htaken₂ := taken_of_result (regular_rendered hplain') (hsettings ▸ hdfv) hsecond
  rw [hsettings] at htaken₂
  obtain ⟨_, value, -, hends, hvalue⟩ := htaken₂.ends (updaterFor?_toolRef tool_packer rfl) href₁
  obtain rfl := eq_of_ends_of_not_waits (not_waits_of_taken htaken) rfl
    (show pairedVersions.get? packer.name = some ⟨"pack", "v2"⟩ from rfl) (by decide) hends
  have hkept : clean.vars["pack|9|ref"]? = some "v1" :=
    ((taken_of_result (regular_rendered hplain) hdfv hclean).kept_of_waits tool_packer
      waits_pairedRuntime rfl).trans href
  have hsame := hmakes (.rendered none _) _ report e₁ (ofText_render none _) hyields
  rw [hsecond, hclean] at hsame
  rw [show m₂.vars = clean.vars from hsame, hkept] at hvalue
  exact absurd hvalue (by decide)

/-! #### A base URL that is disturbed -/

/-- An engine whose base URL may be put together from the version of a tool. -/
def mirrorEngine : Engine where
  settings :=
    { dockerfileVersion := some "9"
      tools := [packer]
      checksumsFile := some "digests.txt"
      urlTemplates := .ofList [("runtime", ["$DOTNET_BASE_URL.zip"])] }

theorem tool_mirror : mirrorEngine.settings.tool? packer.name = some packer := rfl

/-- Variables of an older packer, whose version names the host of the artifacts. -/
def mirroredRuntime : List (String × String) :=
  [("base-url|9|nightly", "https://$(pack|9|ref)"), ("pack|9|ref", "v1"), ("pack|9|x64|url", "old"),
    ("runtime|9|linux|x64|sha", "00")]

/-- The digests of the artifacts of two hosts. -/
def hostListing : String := "aa v1.zip\nbb v2.zip"

/-- That local listing, and nothing else. -/
def twoHosts : (q : Checksum.Source) → q.Answer
  | .text _ => (.ok none : Except Failure (Option String))
  | .sha512 _ => (.ok none : Except Failure (Option String))
  | .file _ => (.ok hostListing : Except FileError String)

/-- The address of the artifact at a host. -/
def mirrorUrl (host : String) : String :=
  Filling.fill ⟨"https://" ++ host, "9.0.5", Version.tag "9.0.5", "linux", "x64"⟩ "$DOTNET_BASE_URL.zip"

/-- The store names a host, by the version of the packer, whose gate is open. -/
structure NamesHost (vars : Variables) (host : String) : Prop where
  base : vars["base-url|9|nightly"]? = some "https://$(pack|9|ref)"
  ref : vars["pack|9|ref"]? = some host
  version : vars["runtime|9|build-version"]? = none

/-- **An engine between two runs** over a store that names a host. -/
structure Mirrored (e : Engine) (vars : Variables) (host : String) : Prop where
  settings : e.settings = mirrorEngine.settings
  known : (Checksum.sought (Engine.service e.settings) fun q a => a = twoHosts q).Fits e.findings.digests
  plain : Unescaped vars
  names : NamesHost vars host
  tracked : ∃ d, vars["runtime|9|linux|x64|sha"]? = some d ∧ ¬ isWholeReference d

section

variable {e e' : Engine} {vars baseline : Variables} {host digest : String}

theorem NamesHost.value (h : NamesHost vars host) (hhost : NoReference host) :
    vars.value "base-url|9|nightly" = .ok ("https://" ++ host) := by
  have hpieces : Piece.ofText "https://$(pack|9|ref)".toList =
      "https://".toList.map .plain ++ [.reference "pack|9|ref"] := by decide +kernel
  rw [Variables.value_of_reference h.base hpieces (by decide) h.ref hhost]
  exact congrArg Except.ok (String.toList_inj.1 (by simp))

theorem NamesHost.candidates (h : NamesHost vars host) (hhost : NoReference host) :
    candidates ⟨mirrorEngine.settings, packerVersions, "9", vars, baseline⟩ "runtime" "linux" "x64" "9.0.5" =
      [mirrorUrl host] := by
  have hbase : Context.baseUrl ⟨mirrorEngine.settings, packerVersions, "9", vars, baseline⟩ =
      "https://" ++ host := by
    rw [baseUrl_eq_value, show baseUrlName mirrorEngine.settings "9" = "base-url|9|nightly" by rfl,
      h.value hhost]
    have hne : "https://" ++ host ≠ "" := fun hempty => by simpa using congrArg String.toList hempty
    exact if_neg hne
  have htemplates : mirrorEngine.settings.templates? "runtime" = some ["$DOTNET_BASE_URL.zip"] := by
    rfl
  rw [Update.candidates, filling, hbase, htemplates]
  rfl

/-- The base URL stays as it is, and the reference to the packer is brought up to date. -/
theorem NamesHost.taken {R : (q : Question) → q.Answer → Prop} (h : NamesHost initial host)
    (hwhole : ¬ isWholeReference host)
    (htaken : Taken R ⟨mirrorEngine.settings, packerVersions, "9", initial, isTrial⟩
      (updaters mirrorEngine.settings "9" initial) initial final) : NamesHost final "v2" := by
  have hbase : updaterFor? mirrorEngine.settings "9" "base-url|9|nightly" =
      some ⟨.baseUrl, "base-url|9|nightly", .baseUrl⟩ := updaterFor?_baseUrl rfl rfl
  obtain ⟨_, finding, o, -, hfinding, ho, hfinal⟩ := htaken.rule hbase h.base (by decide)
  have hnone : o.map (·.value) = none := yields_resolve_baseUrl hfinding ho
  rw [hnone] at hfinal
  obtain ⟨_, value, -, hends, hvalue⟩ := htaken.ends (updaterFor?_toolRef tool_mirror rfl) h.ref
  obtain rfl := eq_of_ends_of_not_waits (not_waits_of_missing h.version) rfl
    (show packerVersions.get? packer.name = some ⟨"pack", "v2"⟩ from rfl) hwhole hends
  exact ⟨hfinal, hvalue, (htaken.untracked (.inr h.version)).trans h.version⟩

/-- When a run comes to the digests, the store names the host that it named at the start. -/
theorem NamesHost.of_seen {u : Updater} {seen : Variables} (h : NamesHost initial host)
    (h' : NamesHost final "v2") (hu : u.stage = .checksum)
    (hseen : Seen mirrorEngine.settings "9" initial final seen u) : NamesHost seen host := by
  refine ⟨(hseen.getElem?_eq _).elim (·.trans h'.base) (·.trans h.base), ?_,
    (hseen.getElem?_eq _).elim (·.trans h'.version) (·.trans h.version)⟩
  -- the reference to the packer waits for the stage of the tools
  refine (hseen.waiting _ fun w hw hprec hname => ?_).trans h.ref
  have href := updaterFor?_toolRef tool_mirror
    (show Key.segments "pack|9|ref" = [packer.name, "9", Key.toolRef] from rfl)
  have hstage : w.stage = .toolRef :=
    congrArg Updater.stage (Option.some.inj ((mem_updaters.1 hw).2.symm.trans (hname ▸ href)))
  rw [Updater.Precedes, hstage, hu] at hprec
  exact hprec.elim (absurd · (by decide)) (absurd ·.1 (by decide))

/-- What an engine knows of the artifact at a host is what the local listing has for it. -/
theorem cached_of_listed {o : Option String} (hsettings : e.settings = mirrorEngine.settings)
    (hknown : (Checksum.sought (Engine.service e.settings) fun q a => a = twoHosts q).Fits e.findings.digests)
    (hlisted : (Checksum.Listing.parse hostListing).get? (Checksum.fileName (mirrorUrl host)) = some digest)
    (ho : e.cached? (mirrorUrl host) = some o) : o = some digest := by
  obtain ⟨r, hr, hfind⟩ := hknown _ _ ho
  have hpath : (Engine.service e.settings).checksumsFile = some "digests.txt" := by rw [hsettings]; rfl
  have hurl : r.url = mirrorUrl host := hr
  rw [← hurl] at hlisted
  have hfile : ∀ x : Except FileError String, x = twoHosts (.file "digests.txt") → x = .ok hostListing :=
    fun _ hx => hx
  exact Except.ok.inj (hfind.eq_of_listed hpath hfile hlisted)

/-- **A run in the mirror**: the artifact is looked for at the host that is named at the start, and the store
names another one in the end. -/
theorem Mirrored.run {S : (q : Outside) → q.Answer → Prop} {y : Manifest × Except Failure Report}
    (h : Mirrored e vars host) (hsource : ∀ q a, S (.source q) a → a = twoHosts q)
    (hsave : ∀ path text (a : Except Failure Unit), S (.save path text) a → a = .ok ())
    (hhost : NoReference host ∧ ¬ isWholeReference host)
    (hlisted : (Checksum.Listing.parse hostListing).get? (Checksum.fileName (mirrorUrl host)) = some digest)
    (hdigest : ¬ isWholeReference digest)
    (hyields : (e.run packerVersions false (.rendered none vars)).Yields S (y, e')) :
    ∃ final report, y = (.rendered none final, .ok report) ∧ Mirrored e' final "v2" ∧
      final["runtime|9|linux|x64|sha"]? = some digest := by
  obtain ⟨hsettings, hknown, hplain, hnames, d, hd, hwhole⟩ := h
  have hdfv : dockerfileVersion e.settings packerVersions = .ok "9" := by rw [hsettings]; rfl
  obtain ⟨final, report, rfl, hplain', hfits, htaken⟩ := taken_of_sought hsource hsave
    (fun _ _ _ hx => by cases hx) hknown hplain hdfv hyields
  have hsame : e'.settings = e.settings := Engine.settings_of_perform hyields
  rw [hsettings] at htaken
  have hlast := hnames.taken hhost.2 htaken
  obtain ⟨seen, o, hseen, hfirst, hfinal⟩ := htaken.checksum (fun r o hknown => hknown o rfl)
    (show Key.segments "runtime|9|linux|x64|sha" = ["runtime", "9", "linux", "x64", Key.digest] from rfl)
    rfl rfl hd hwhole
  rw [show packerVersions.get? (mirrorEngine.settings.dependencyName "runtime") = some ⟨"runtime", "9.0.5"⟩ from
    packerVersions_runtime] at hfirst
  dsimp only at hfirst
  rw [(hnames.of_seen hlast rfl hseen).candidates hhost.1] at hfirst
  rw [← hsame] at hfits
  obtain rfl : o = some digest :=
    cached_of_listed (hsame.trans hsettings) hfits hlisted hfirst.known_of_single
  exact ⟨final, report, rfl, ⟨hsame.trans hsettings, hfits, hplain', hlast, digest, hfinal, hdigest⟩, hfinal⟩

end

/-- The base URL leads through the version of the packer, which is recorded after the digests were looked for. So
the run that is made again looks for them at another host. -/
theorem not_makesUp_mirroredRuntime :
    ¬ MakesUp mirrorEngine packerVersions false none mirroredRuntime twoHosts packerSource := by
  intro hmakes
  have hstart : Mirrored mirrorEngine (.ofList mirroredRuntime) "v1" :=
    { settings := rfl
      known := fun _ _ hc => by cases hc
      plain := unescaped_ofList (by simp [mirroredRuntime])
      names := ⟨rfl, rfl, rfl⟩
      tracked := ⟨"00", rfl, by decide⟩ }
  have hv1 : NoReference "v1" ∧ ¬ isWholeReference "v1" := by decide
  have hv2 : NoReference "v2" ∧ ¬ isWholeReference "v2" := by decide
  have hlisted : (Checksum.Listing.parse hostListing).get? (Checksum.fileName (mirrorUrl "v1")) = some "aa" := by
    rfl
  have hlisted' : (Checksum.Listing.parse hostListing).get? (Checksum.fileName (mirrorUrl "v2")) = some "bb" := by
    rfl
  have hfirst := yields_result (outage_offline twoHosts)
    (mirrorEngine.run packerVersions false (.rendered none (.ofList mirroredRuntime)))
  generalize Inquiry.result (offline twoHosts) _ = x at hfirst
  obtain ⟨y, e₁⟩ := x
  obtain ⟨first, report, rfl, hmid, -⟩ :=
    hstart.run (fun _ _ h => h) (fun _ _ _ h => h) hv1 hlisted (by decide) hfirst
  have hsame := hmakes (.rendered none _) _ report e₁ (ofText_render none _) hfirst
  -- the run that is made again begins with the host that the first run named in the end
  have hreleases (q : Outside) : restored twoHosts packerSource q = restored twoHosts packerSource q := rfl
  have hsecond := yields_result (R := fun q a => a = restored twoHosts packerSource q) hreleases
    (e₁.run packerVersions false (.rendered none first))
  have hclean := yields_result (R := fun q a => a = restored twoHosts packerSource q) hreleases
    (mirrorEngine.run packerVersions false (.rendered none (.ofList mirroredRuntime)))
  generalize Inquiry.result _ (e₁.run _ _ _) = x₂ at hsecond hsame
  generalize Inquiry.result _ (mirrorEngine.run _ _ _) = x at hclean hsame
  obtain ⟨y₂, e₂⟩ := x₂
  obtain ⟨y, e⟩ := x
  obtain ⟨second, _, rfl, -, hsha⟩ :=
    hmid.run (fun _ _ h => h) (fun _ _ _ h => h) hv2 hlisted' (by decide) hsecond
  obtain ⟨clean, _, rfl, -, hsha'⟩ :=
    hstart.run (fun _ _ h => h) (fun _ _ _ h => h) hv1 hlisted (by decide) hclean
  rw [show second = clean from hsame, hsha'] at hsha
  exact absurd hsha (by decide)

/-- **A run that is made again does not always make up for an outage**: not when the first run closes a gate or
opens one, nor when the base URL leads through a variable that it changes late. -/
theorem run_not_made_up :
    (∀ q ∈ gatedPacker ++ pairedRuntime ++ mirroredRuntime,
      ∀ c ∈ q.1.toList, c ≠ '"' ∧ c ≠ '\\' ∧ 32 ≤ c.toNat) ∧
      ¬ MakesUp packerEngine packerVersions false none gatedPacker noSource packerSource ∧
      ¬ MakesUp packerEngine pairedVersions false none pairedRuntime noSource packerSource ∧
      ¬ MakesUp mirrorEngine packerVersions false none mirroredRuntime twoHosts packerSource :=
  ⟨by simp [gatedPacker, pairedRuntime, mirroredRuntime], not_makesUp_gatedPacker,
    not_makesUp_pairedRuntime, not_makesUp_mirroredRuntime⟩

end Upkeep.Update
