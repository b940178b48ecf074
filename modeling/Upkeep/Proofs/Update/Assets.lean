import Upkeep.Proofs.Record
import Upkeep.Proofs.Update.Gates

/-!
# The assets of tools

The URL of a tool and its digest are two variables, worked on in two stages, and each looks up the release for
itself. What is found out about a release once is kept for the whole run, and a rule that got no release comes to no
value. So when both variables change, they come from one asset of one release.

* `Release.Grows`: what has been found out about releases is kept, and was answered.
* `Engine.yields_perform_found`: **what a run was told of a release** is what the engine knows in the end.
* `rule_of_changed`: a variable that a run changes has a value that its rule came to.
* `run_assets`: **the URL and the digest of a tool** are those of one asset.
-/

namespace Upkeep

open Update Once Inquiry Text

variable {R : (q : Outside) → q.Answer → Prop} {service : Checksum.Service} {known known' : Findings}
  {e e' : Engine}

/-! ### What is found out about releases -/

/-- What has been found out about releases is kept, and what is new was answered. -/
structure Release.Grows (R : (q : Outside) → q.Answer → Prop) (m m' : Release.Findings) : Prop where
  kept : ∀ k r, m.get? k = some r → m'.get? k = some r
  new : ∀ k r, m'.get? k = some r → m.get? k = some r ∨ R (.release k) (.ok r)

theorem Release.Grows.refl (m : Release.Findings) : Release.Grows R m m := ⟨fun _ _ h => h, fun _ _ => .inl⟩

theorem Release.Grows.trans {m m' m'' : Release.Findings} (h : Release.Grows R m m')
    (h' : Release.Grows R m' m'') : Release.Grows R m m'' where
  kept k r hr := h'.kept k r (h.kept k r hr)
  new k r hr := (h'.new k r hr).elim (h.new k r) .inr

/-- What a lookup finds out is in its slot from then on. -/
theorem Release.yields_lookup {m m' : Release.Findings} {k : Release.Key} {a : Except Failure (Option Release)}
    (h : (alone (Release.lookup k) m).Yields (fun k a => R (.release k) a) (a, m')) :
    Release.Grows R m m' ∧ ∀ r, a = .ok r → m'.get? k = some r := by
  cases hk : m.get? k with
  | some c =>
    rw [Release.lookup, alone_once_of_filled hk] at h
    obtain ⟨rfl, rfl⟩ := Prod.mk.inj (yields_done.1 h)
    refine ⟨.refl m', fun r hr => ?_⟩
    rw [hk, Except.ok.inj hr]
  | none =>
    rw [Release.alone_lookup_of_empty hk] at h
    obtain ⟨x, hx, hdone⟩ := yields_ask.1 h
    obtain ⟨rfl, rfl⟩ := Prod.mk.inj (yields_done.1 hdone)
    refine ⟨⟨fun j r hj => ?_, fun j r hj => ?_⟩, fun r hr => ?_⟩
    · have hne : j ≠ k := by
        rintro rfl
        cases hk.symm.trans hj
      rw [Memory.get_put_of_ne m hne, hj]
    · by_cases hne : j = k
      · subst hne
        rw [Memory.get_put_self] at hj
        cases a with
        | error e => cases hj
        | ok r' =>
          obtain rfl := Option.some.inj hj
          exact .inr hx
      · rw [Memory.get_put_of_ne m hne] at hj
        exact .inl hj
    · rw [Memory.get_put_self, hr]
      rfl

namespace Engine

/-- Answers on releases that have been found out. -/
def Found (m : Release.Findings) : (q : Question) → q.Answer → Prop
  | .release k, (a : Except Failure (Option Release)) => ∀ r, a = .ok r → m.get? k = some r
  | _, _ => True

theorem handle_found {q : Question} {a : q.Answer}
    (h : ((handle service q).run known).Yields R (a, known')) :
    Release.Grows R known.releases known'.releases ∧
      ∀ later, Release.Grows R known'.releases later → Found later q a := by
  cases handled_of_yields h with
  | @release k _ _ hlookup =>
    obtain ⟨hgrows, hfound⟩ := Release.yields_lookup hlookup
    exact ⟨hgrows, fun later hlater r hr => hlater.kept k r (hfound r hr)⟩
  | digest | save => exact ⟨.refl _, fun _ _ => trivial⟩

/-- **What a run was told of a release** is what the engine knows in the end, and that it knew before or was
answered. -/
theorem yields_perform_found {α : Type} {t : Job α} {a : α} (h : (e.perform t).Yields R (a, e')) :
    Release.Grows R e.findings.releases e'.findings.releases ∧ t.Yields (Found e'.findings.releases) a := by
  obtain ⟨findings, hx, rfl⟩ := exists_findings h
  exact hx.of_perform (L := fun f f' => Release.Grows R f.releases f'.releases) (K := fun f => Found f.releases)
    (fun _ => .refl _) (fun _ _ _ => .trans)
    (fun _ _ _ _ hy => ⟨(handle_found hy).1, fun later => (handle_found hy).2 later.releases⟩)

end Engine

namespace Update

variable {S : (q : Question) → q.Answer → Prop} {s : Settings} {ds : Dependencies} {dfv name : String}
  {isTrial : Bool} {m m' : Manifest} {report : Report} {tool : Tool} {arch : String} {field : AssetDetail}
  {ctx : Context} {finding : Finding} {v : DerivedValue}

/-! ### Variables that a run changes -/

/-- **A variable that a run changes** has a value that its rule came to. -/
theorem rule_of_changed (h : (run s ds isTrial m).Yields S (m', .ok report))
    (hchanged : m'.vars[name]? ≠ m.vars[name]?) : ∃ dfv u vars finding v,
      updaterFor? s dfv name = some u ∧ (u.resolver.resolve ⟨s, ds, dfv, vars, m.vars⟩).Yields S finding ∧
      finding.derived = .ok (some v) ∧ m'.vars[name]? = some v.value := by
  obtain ⟨dfv, p, -, hsteps, rfl, -⟩ := yields_run h
  obtain ⟨u, hu, rfl⟩ : ∃ u ∈ updaters s dfv m.vars, u.variableName = name := by
    by_contra hnone
    exact hchanged (steps_keep (fun u hu hname => absurd ⟨u, hu, hname⟩ hnone) hsteps)
  obtain ⟨mid, hmid⟩ : ∃ mid, ComesTo S ⟨s, ds, dfv, m.vars, isTrial⟩ m p.manifest u.variableName mid :=
    exists_comesTo hu hsteps
  obtain ⟨hsame, next, current, final, hcurrent, hends, hworks, hfinal⟩ := hmid.works (mem_updaters.1 hu).2
  have hne : final ≠ current := by
    rintro rfl
    refine hchanged ?_
    rw [hfinal, ← hsame]
    rcases hworks with ⟨-, rfl⟩ | hset
    · rfl
    · rw [Manifest.vars_of_update hset, Variables.insert_same hcurrent]
  rcases hworks with ⟨-, rfl⟩ | hset
  · exact absurd (hfinal.trans hsame) hchanged
  · rw [Manifest.vars_of_update hset, Std.ExtTreeMap.getElem?_insert_self] at hfinal
    rcases hends with ⟨-, heq⟩ | ⟨-, finding, o, hfinding, ho, rfl⟩
    · exact absurd heq hne
    · cases o with
      | none => exact absurd rfl hne
      | some v => exact ⟨dfv, u, _, finding, v, (mem_updaters.1 hu).2, hfinding, ho, hfinal⟩

/-! ### What the rules of a tool come to -/

theorem updaterFor?_toolUrl (ht : s.tool? tool.name = some tool)
    (hs : Key.segments name = [tool.name, dfv, arch, Key.toolUrl]) :
    updaterFor? s dfv name = some ⟨.toolUrl, name, .gated tool.gatedOn (.toolAsset tool arch .url)⟩ := by
  rw [updaterFor?, hs]
  simp [ht, toolUpdater?]

theorem updaterFor?_toolDigest (ht : s.tool? tool.name = some tool)
    (hs : Key.segments name = [tool.name, dfv, arch, Key.digest]) :
    updaterFor? s dfv name = some ⟨.toolChecksum, name, .gated tool.gatedOn (.toolAsset tool arch .digest)⟩ := by
  rw [updaterFor?, hs]
  simp [ht, toolUpdater?, Key.digest, Key.toolUrl]

/-- The asset of a release for a version of a tool and an architecture. -/
def asset? (tool : Tool) (version arch : String) (r : Release) : Option Asset :=
  (tool.pattern? version arch).bind r.findAsset?

theorem value_of_inRelease {d : Dependency} {r : Release}
    (h : (inRelease tool arch field d r).derived = .ok (some v)) :
    ∃ a, asset? tool d.version arch r = some a ∧ assetValue? r a field = some v.value := by
  unfold inRelease at h
  split at h
  · cases h
  · rename_i pattern hpattern
    split at h
    · cases h
    · rename_i a ha
      split at h
      · cases h
      · rename_i value hvalue
        cases h
        exact ⟨a, by rw [asset?, hpattern, Option.bind_some, ha], hvalue⟩

/-- A rule for an asset that comes to a value was told a release. -/
theorem yields_resolve_toolAsset (h : ((Resolver.toolAsset tool arch field).resolve ctx).Yields S finding)
    (hv : finding.derived = .ok (some v)) : ∃ d r a, ctx.dependencies.get? tool.name = some d ∧
      S (.release ⟨tool.owner, tool.repo, d.version⟩) (.ok (some r) : Except Failure (Option Release)) ∧
      asset? tool d.version arch r = some a ∧ assetValue? r a field = some v.value := by
  rw [Resolver.resolve] at h
  cases hd : ctx.dependencies.get? tool.name with
  | none =>
    rw [hd] at h
    obtain rfl := yields_pure.1 h
    cases hv
  | some d =>
    rw [hd] at h
    obtain ⟨r, hr, hv⟩ := yields_ofAsset h hv
    obtain ⟨a, ha, hvalue⟩ := value_of_inRelease hv
    exact ⟨d, r, a, rfl, hr, ha, hvalue⟩

/-- Behind a gate a rule comes to what it comes to. -/
theorem yields_of_gated {product : String} {inner : Resolver}
    (h : ((Resolver.gated product inner).resolve ctx).Yields S finding) (hv : finding.derived = .ok (some v)) :
    (inner.resolve ctx).Yields S finding := by
  rw [Resolver.resolve] at h
  split_ifs at h
  · exact h
  · obtain rfl := yields_pure.1 h
    cases hv

/-! ### The URL and the digest of an asset -/

/-- The digest of an asset stands on a line of the notes that names the asset. -/
theorem exists_line_of_checksum? {r : Release} {a : Asset} {digest : String} (h : r.checksum? a.name = some digest) :
    ∃ body line token, r.body = some body ∧ line ∈ lines body.toList ∧ a.name.toList ∈ Release.tokens line ∧
      token ∈ Release.tokens line ∧ Release.isDigest token = true ∧ digest = String.ofList (lowerAscii token) := by
  unfold Release.checksum? at h
  split at h
  · cases h
  · rename_i body hbody
    obtain ⟨d, hd, rfl⟩ := Option.map_eq_some_iff.1 h
    obtain ⟨line, hline, hchecksum⟩ := List.exists_of_findSome?_eq_some hd
    have hnamed : a.name.toList ∈ Release.tokens line := by
      unfold Release.lineChecksum? at hchecksum
      split at hchecksum
      · rename_i hcontains
        exact List.contains_iff_mem.1 hcontains
      · cases hchecksum
    obtain ⟨token, htoken, hdigest, rfl⟩ := Release.isDigest_of_lineChecksum? hchecksum
    exact ⟨body, line, token, hbody, hline, hnamed, htoken, hdigest, rfl⟩

/-- A URL and a digest are those of one asset of a release, for a version of a tool and an architecture. -/
structure OfAsset (tool : Tool) (version arch : String) (r : Release) (url digest : String) (a : Asset) :
    Prop where
  /-- It is the first asset whose name matches the pattern. -/
  first : ∃ pattern before after, tool.pattern? version arch = some pattern ∧ r.assets = before ++ a :: after ∧
    pattern.isMatch a.name = true ∧ ∀ b ∈ before, pattern.isMatch b.name = false
  url : url = a.url
  /-- The digest stands on a line of the notes that names the asset. -/
  digest : ∃ body line token, r.body = some body ∧ line ∈ lines body.toList ∧
    a.name.toList ∈ Release.tokens line ∧ token ∈ Release.tokens line ∧ 32 ≤ token.length ∧
    (∀ c ∈ token, isHexDigit c = true) ∧ digest = String.ofList (lowerAscii token)

theorem ofAsset_of_values {version url digest : String} {r : Release} {a : Asset}
    (ha : asset? tool version arch r = some a) (hurl : assetValue? r a .url = some url)
    (hdigest : assetValue? r a .digest = some digest) : OfAsset tool version arch r url digest a where
  first := by
    obtain ⟨pattern, hpattern, hfind⟩ := Option.bind_eq_some_iff.1 ha
    obtain ⟨hmatch, before, after, hassets, hbefore⟩ := List.find?_eq_some_iff_append.1 hfind
    exact ⟨pattern, before, after, hpattern, hassets, hmatch, by simpa using hbefore⟩
  url := (Option.some.inj hurl).symm
  digest := by
    obtain ⟨body, line, token, hbody, hline, hnamed, htoken, hhex, rfl⟩ := exists_line_of_checksum? hdigest
    rw [Release.isDigest, Bool.and_eq_true, decide_eq_true_eq, List.all_eq_true] at hhex
    exact ⟨body, line, token, hbody, hline, hnamed, htoken, hhex.1, hhex.2, rfl⟩

/-- A variable of an asset that a run changes has what the asset of a release has for it. -/
theorem asset_of_changed {kind : String} {stage : Stage} (h : (run s ds isTrial m).Yields S (m', .ok report))
    (hs : Key.segments name = [tool.name, dfv, arch, kind])
    (hu : updaterFor? s dfv name = some ⟨stage, name, .gated tool.gatedOn (.toolAsset tool arch field)⟩)
    (hchanged : m'.vars[name]? ≠ m.vars[name]?) : ∃ d r a value, ds.get? tool.name = some d ∧
      S (.release ⟨tool.owner, tool.repo, d.version⟩) (.ok (some r) : Except Failure (Option Release)) ∧
      asset? tool d.version arch r = some a ∧ assetValue? r a field = some value ∧
      m'.vars[name]? = some value := by
  obtain ⟨dfv', u, vars, finding, v, hu', hfinding, hv, hvalue⟩ := rule_of_changed h hchanged
  obtain ⟨-, first, rest, hs'⟩ := updaterFor?_eq_some hu'
  rw [hs] at hs'
  obtain rfl : dfv = dfv' := (List.cons.inj (List.cons.inj hs').2).1
  obtain rfl := Option.some.inj (hu.symm.trans hu')
  obtain ⟨d, r, a, hd, hr, ha, hfield⟩ := yields_resolve_toolAsset (yields_of_gated hfinding hv) hv
  exact ⟨d, r, a, v.value, hd, hr, ha, hfield, hvalue⟩

/-- **The URL and the digest of a tool** that a run changes are those of one asset, of a release that was answered
in the run or that the engine knew before. -/
theorem run_assets {log : List ((q : Outside) × q.Answer)} {arch urlName digestName dfv : String}
    (h : (e.run ds isTrial m).Runs log ((m', .ok report), e')) (ht : e.settings.tool? tool.name = some tool)
    (hurl : Key.segments urlName = [tool.name, dfv, arch, Key.toolUrl])
    (hdigest : Key.segments digestName = [tool.name, dfv, arch, Key.digest])
    (hurlChanged : m'.vars[urlName]? ≠ m.vars[urlName]?)
    (hdigestChanged : m'.vars[digestName]? ≠ m.vars[digestName]?) :
    ∃ d r a url digest, ds.get? tool.name = some d ∧
      (e.findings.releases.get? ⟨tool.owner, tool.repo, d.version⟩ = some (some r) ∨
        ⟨.release ⟨tool.owner, tool.repo, d.version⟩, (.ok (some r) : Except Failure (Option Release))⟩ ∈ log) ∧
      m'.vars[urlName]? = some url ∧ m'.vars[digestName]? = some digest ∧
      OfAsset tool d.version arch r url digest a := by
  have hyields : (e.run ds isTrial m).Yields (fun q a => ⟨q, a⟩ ∈ log) ((m', .ok report), e') :=
    yields_iff_runs.2 ⟨log, h, fun _ he => he⟩
  obtain ⟨hgrows, hrun⟩ := Engine.yields_perform_found hyields
  obtain ⟨d, r, a, url, hd, hr, ha, hfield, hvalue⟩ :=
    asset_of_changed hrun hurl (updaterFor?_toolUrl ht hurl) hurlChanged
  obtain ⟨d', r', a', digest, hd', hr', ha', hfield', hvalue'⟩ :=
    asset_of_changed hrun hdigest (updaterFor?_toolDigest ht hdigest) hdigestChanged
  -- both were told what the engine knows of the release in the end
  obtain rfl := Option.some.inj (hd.symm.trans hd')
  obtain rfl := Option.some.inj (Option.some.inj ((hr _ rfl).symm.trans (hr' _ rfl)))
  obtain rfl := Option.some.inj (ha.symm.trans ha')
  exact ⟨d, r, a, url, digest, hd, hgrows.new _ _ (hr _ rfl), hvalue, hvalue',
    ofAsset_of_values ha hfield hfield'⟩

/-! ### Runs with an open gate -/

/-- An updater without the gate of a product. -/
def Updater.freed (product : String) (u : Updater) : Updater :=
  match u.resolver with
  | .gated p inner => if p = product then { u with resolver := inner } else u
  | _ => u

/-- An open gate is as good as none. -/
theorem propose_freed {product : String} (u : Updater) (h : ctx.renews product = true) :
    (u.freed product).propose ctx = u.propose ctx := by
  unfold Updater.freed
  split
  · rename_i p inner hu
    split_ifs with hp
    · subst hp
      rw [Updater.propose, Updater.propose, hu, Resolver.resolve, if_pos h]
    · rfl
  · rfl

theorem steps_freed {product : String} {plan : Plan} {us : List Updater} {p : Progress}
    (h : ∀ p : Progress, (p.context plan).renews product = true) :
    Progress.steps plan (us.map (·.freed product)) p = Progress.steps plan us p := by
  induction us generalizing p with
  | nil => rfl
  | cons u us ih =>
    have hstep : p.step plan (u.freed product) = p.step plan u := by
      rw [Progress.step, Progress.step, propose_freed u (h p)]
    rw [List.map_cons, Progress.steps, Progress.steps, hstep]
    congr 1
    funext r
    obtain ⟨p', e | _⟩ := r
    · rfl
    · exact ih

/-- A run of an engine behind an open gate. -/
theorem run_freed (hdfv : dockerfileVersion e.settings ds = .ok dfv)
    (hopen : ¬ Waits ds dfv m.vars tool) : e.run ds isTrial m = e.perform (do
      let (p, outcome) ← Progress.steps ⟨e.settings, ds, dfv, m.vars, isTrial⟩
        ((updaters e.settings dfv m.vars).map (·.freed tool.gatedOn)) ⟨m, [], []⟩
      return (p.manifest, outcome.map fun _ => p.report)) := by
  rw [steps_freed fun p => renews_iff_not_waits.2 hopen, Engine.run, run, hdfv]

/-- A tool whose assets are named for their architectures only. -/
def packer : Tool where
  name := "pack"
  owner := "owner"
  repo := "pack"
  assetPattern := "\x7barch\x7d"

/-- A release of it, with the digest of one of its two assets. -/
def packerRelease (tag : String) : Release where
  tag
  body := some ("x64 " ++ String.ofList (List.replicate 32 'A'))
  assets := [⟨"arm", "https://host/arm"⟩, ⟨"x64", "https://host/x64"⟩]

/-- An engine that tracks it. -/
def packerEngine : Engine := { settings := { dockerfileVersion := some "9", tools := [packer] } }

/-- What an older version of it left. -/
def olderPacker : Variables := .ofList [("pack|9|x64|url", "old"), ("pack|9|x64|sha", "old")]

/-- A runtime, and a version of the tool. -/
def packerVersions : Dependencies := .ofList [⟨"runtime", "9.0.5"⟩, ⟨"pack", "v2"⟩]

/-- Every tag has a release. -/
def packerReleases : (q : Outside) → q.Answer
  | .source (.text _) => (.ok none : Except Failure (Option String))
  | .source (.sha512 _) => (.ok none : Except Failure (Option String))
  | .source (.file _) => (.error default : Except FileError String)
  | .release k => (.ok (some (packerRelease k.tag)) : Except Failure (Option Release))
  | .save _ _ => (.ok () : Except Failure Unit)

theorem not_waits_packer : ¬ Waits packerVersions "9" olderPacker packer := by
  intro h
  have hvalue := h ⟨"runtime", "9.0.5"⟩ (by decide +kernel)
  rw [Variables.value, Variables.follow_of_missing (by simp) (by decide +kernel)] at hvalue
  cases hvalue

theorem run_assets_packer :
    let digest := String.ofList (List.replicate 32 'a')
    ∃ m' report e' log a,
      (packerEngine.run packerVersions true (.rendered none olderPacker)).Runs log ((m', .ok report), e') ∧
      m'.vars["pack|9|x64|url"]? = some "https://host/x64" ∧ m'.vars["pack|9|x64|sha"]? = some digest ∧
      OfAsset packer "v2" "x64" (packerRelease "v2") "https://host/x64" digest a := by
  intro digest
  have hresult : (((packerEngine.run packerVersions true (.rendered none olderPacker)).result
      packerReleases).1.map (fun m => (m.vars["pack|9|x64|url"]?, m.vars["pack|9|x64|sha"]?))
        (·.toOption.isSome)) = ((some "https://host/x64", some digest), true) := by
    have hdfv : dockerfileVersion packerEngine.settings packerVersions = .ok "9" := rfl
    rw [run_freed hdfv not_waits_packer]
    decide +kernel
  have hyields := yields_result (R := fun q a => a = packerReleases q) (fun _ => rfl)
    (packerEngine.run packerVersions true (.rendered none olderPacker))
  generalize Inquiry.result packerReleases _ = x at hresult hyields
  obtain ⟨⟨m', outcome⟩, e'⟩ := x
  obtain ⟨hvars, hok⟩ := Prod.mk.inj hresult
  obtain ⟨hurl, hdigest⟩ := Prod.mk.inj hvars
  cases outcome with
  | error f => cases hok
  | ok report =>
    obtain ⟨log, hruns, hlog⟩ := yields_iff_runs.1 hyields
    have hold (k : String) (hk : k ∈ ["pack|9|x64|url", "pack|9|x64|sha"]) : olderPacker[k]? = some "old" := by
      revert k
      decide +kernel
    have hurlName : Key.segments "pack|9|x64|url" = [packer.name, "9", "x64", Key.toolUrl] := by decide +kernel
    have hdigestName : Key.segments "pack|9|x64|sha" = [packer.name, "9", "x64", Key.digest] := by decide +kernel
    have hurlChanged : m'.vars["pack|9|x64|url"]? ≠ olderPacker["pack|9|x64|url"]? := by
      rw [hurl, hold _ (by simp)]
      decide
    have hdigestChanged : m'.vars["pack|9|x64|sha"]? ≠ olderPacker["pack|9|x64|sha"]? := by
      rw [hdigest, hold _ (by simp)]
      decide
    obtain ⟨d, r, a, url', digest', hd, hr, hurl', hdigest', ha⟩ :=
      run_assets hruns rfl hurlName hdigestName hurlChanged hdigestChanged
    obtain rfl : d = ⟨"pack", "v2"⟩ := by
      have hget : packerVersions.get? packer.name = some ⟨"pack", "v2"⟩ := by decide +kernel
      exact Option.some.inj (hd.symm.trans hget)
    obtain rfl := Option.some.inj (hurl.symm.trans hurl')
    obtain rfl := Option.some.inj (hdigest.symm.trans hdigest')
    rcases hr with hknown | htold
    · cases hknown
    · -- it was answered in the run
      obtain rfl := Option.some.inj (Except.ok.inj (hlog _ htold))
      exact ⟨m', report, e', log, a, hruns, hurl, hdigest, ha⟩

end Update

end Upkeep
