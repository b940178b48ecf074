import Upkeep.Proofs.Update.Assets

/-!
# What the rules come to by the answers on releases

Only the digests of artifacts are looked for under an address that is read from the store. All other rules come to
a value by the dependencies, by their gates and by the answers on releases, whatever the store is by then. So two
runs are compared variable by variable: a rule that was refused its release comes to nothing, and applied again
it makes up for that.

* `Engine.yields_perform_answered`: **what a run is told of releases** is what lookups come to when it begins.
* `Resolver.desired?`: what a rule without digests comes to.
* `comesBy_of_rule`: **what a rule comes to** when a lookup may fail.
* `Taken.made_up`: **a variable that is worked on again** ends with what it would have ended with at once.
* `Taken.kept_of_waits`, `Taken.kept_of_failed`: what a run leaves as it is.
* `Taken.recorded`: what no lookup has failed for is the same in two runs.
-/

namespace Upkeep

open Update Once Inquiry

namespace Engine

variable {e e' : Engine} {α : Type} {t : Job α} {a : α}
  {source : Release.Key → Except Failure (Option Release)}

/-- Answers on releases are those of a source, and all else is left open. -/
def Answered (releases : Release.Key → Except Failure (Option Release)) : (q : Question) → q.Answer → Prop
  | .release k, (a : Except Failure (Option Release)) => a = releases k
  | _, _ => True

/-- **What a run is told of releases** is what lookups come to when it begins. -/
theorem yields_perform_answered (h : (e.perform t).Yields (Released source) (a, e')) :
    t.Yields (Answered (e.releases source)) a := by
  obtain ⟨findings, hx, rfl⟩ := exists_findings h
  have hhandle (q : Question) (f : Findings) (y : q.Answer) (f' : Findings)
      (hy : ((handle (service e.settings) q).run f).Yields (Released source) (y, f')) :
      Release.answer source f.releases = Release.answer source f'.releases ∧
        ∀ later : Findings, Release.answer source f'.releases = Release.answer source later.releases →
          Answered (Release.answer source later.releases) q y := by
    obtain ⟨hsame, htold⟩ := handle_told hy
    refine ⟨hsame.symm, fun later hlater => ?_⟩
    have hnow := htold f' (fun _ _ hc => hc) rfl
    cases q with
    | release k => exact hlater ▸ hnow
    | digest r | save path text => trivial
  obtain ⟨hsame, hanswered⟩ := hx.of_perform (K := fun f => Answered (Release.answer source f.releases))
    (L := (Release.answer source ·.releases = Release.answer source ·.releases)) (fun _ => rfl)
    (fun _ _ _ => .trans) hhandle
  rw [← hsame] at hanswered
  exact hanswered

end Engine

namespace Update

variable {R : (q : Question) → q.Answer → Prop} {s : Settings} {ds : Dependencies} {dfv name v : String}
  {isTrial : Bool} {u : Updater} {tool : Tool} {vars initial final seen : Variables} {stage : Stage}
  {r : Resolver} {ctx : Context}

/-! ### What the rules come to but for digests -/

/-- What the answer to a lookup gives for an asset. -/
def assetText? (tool : Tool) (version arch : String) (field : AssetDetail) :
    Except Failure (Option Release) → Option String
  | .ok (some r) => (asset? tool version arch r).bind (assetValue? r · field)
  | _ => none

/-- What a rule without digests comes to, by the answers on releases. -/
def Resolver.desired? (ctx : Context) (told : Release.Key → Except Failure (Option Release)) :
    Resolver → Option String
  | buildVersion p => (ctx.dependency? p).map (·.version)
  | productVersion p => (ctx.dependency? p).map fun d => Version.tag d.version
  | baseUrl => ctx.settings.desiredBaseUrl?
  | checksum _ _ _ _ => none
  | toolRef tool => (ctx.dependencies.get? tool.name).map (·.version)
  | toolAsset tool arch field => (ctx.dependencies.get? tool.name).bind fun d =>
      assetText? tool d.version arch field (told ⟨tool.owner, tool.repo, d.version⟩)
  | gated product inner => if ctx.renews product then inner.desired? ctx told else none

theorem value_inRelease {arch : String} {field : AssetDetail} {d : Dependency} {r : Release}
    {o : Option DerivedValue} (ho : (inRelease tool arch field d r).derived = .ok o) :
    o.map (·.value) = assetText? tool d.version arch field (.ok (some r)) := by
  unfold inRelease at ho
  rw [assetText?, asset?]
  cases hpattern : tool.pattern? d.version arch with
  | none =>
    rw [hpattern] at ho
    obtain rfl := Except.ok.inj ho
    rfl
  | some pattern =>
    rw [hpattern] at ho
    dsimp only at ho
    rw [Option.bind_some]
    cases ha : r.findAsset? pattern with
    | none =>
      rw [ha] at ho
      obtain rfl := Except.ok.inj ho
      rfl
    | some a =>
      rw [ha] at ho
      dsimp only at ho
      rw [Option.bind_some]
      cases hv : assetValue? r a field <;> (rw [hv] at ho; obtain rfl := Except.ok.inj ho; rfl)

/-- The value of an asset is that of the release that was answered. -/
theorem value_ofAsset {arch : String} {field : AssetDetail} {d : Dependency} {finding : Finding}
    {o : Option DerivedValue} (h : (ofAsset tool arch field d).Yields R finding) (ho : finding.derived = .ok o) :
    ∃ a, R (.release ⟨tool.owner, tool.repo, d.version⟩) a ∧
      o.map (·.value) = assetText? tool d.version arch field a := by
  obtain ⟨answer, hx, hnext⟩ := yields_ask_bind.1 h
  refine ⟨answer, hx, ?_⟩
  rcases answer with e | _ | r
  · obtain rfl := yields_pure.1 hnext
    obtain rfl := Except.ok.inj ho
    rfl
  · obtain rfl := yields_pure.1 hnext
    obtain rfl := Except.ok.inj ho
    rfl
  · obtain rfl := yields_pure.1 hnext
    exact value_inRelease ho

/-- The release that a rule looks up. -/
def Resolver.release? (ds : Dependencies) : Resolver → Option Release.Key
  | toolAsset tool _ _ => (ds.get? tool.name).map fun d => ⟨tool.owner, tool.repo, d.version⟩
  | gated _ inner => inner.release? ds
  | _ => none

/-- What a rule without digests may come to, when a lookup of its release may fail. -/
def ComesBy (R : (q : Question) → q.Answer → Prop) (ctx : Context)
    (releases : Release.Key → Except Failure (Option Release)) (r : Resolver) (value : Option String) : Prop :=
  value = r.desired? ctx releases ∨
    value = none ∧ ∃ k f, r.release? ctx.dependencies = some k ∧
      R (.release k) (.error f : Except Failure (Option Release))

section

variable {releases : Release.Key → Except Failure (Option Release)} {finding : Finding} {o : Option DerivedValue}

theorem comesBy_gated {product : String} {inner : Resolver}
    (hinner : (inner.resolve ctx).Yields R finding → ComesBy R ctx releases inner (o.map (·.value)))
    (h : ((Resolver.gated product inner).resolve ctx).Yields R finding) (ho : finding.derived = .ok o) :
    ComesBy R ctx releases (.gated product inner) (o.map (·.value)) := by
  rw [Resolver.resolve] at h
  rw [ComesBy, Resolver.desired?]
  split_ifs at h ⊢
  · exact hinner h
  · obtain rfl := yields_pure.1 h
    obtain rfl := Except.ok.inj ho
    exact .inl rfl

theorem comesBy_toolAsset {arch : String} {field : AssetDetail}
    (hR : ∀ k (a : Except Failure (Option Release)), R (.release k) a → a = releases k ∨ ∃ f, a = .error f)
    (h : ((Resolver.toolAsset tool arch field).resolve ctx).Yields R finding) (ho : finding.derived = .ok o) :
    ComesBy R ctx releases (.toolAsset tool arch field) (o.map (·.value)) := by
  rw [Resolver.resolve] at h
  rw [ComesBy, Resolver.desired?]
  cases hd : ctx.dependencies.get? tool.name with
  | none =>
    rw [hd] at h
    obtain rfl := yields_pure.1 h
    obtain rfl := Except.ok.inj ho
    exact .inl rfl
  | some d =>
    rw [hd] at h
    obtain ⟨a, ha, hvalue⟩ := value_ofAsset h ho
    rcases hR _ a ha with rfl | ⟨f, rfl⟩
    · exact .inl hvalue
    · refine .inr ⟨hvalue, _, f, ?_, ha⟩
      rw [Resolver.release?, hd, Option.map_some]

/-- **What a rule without digests comes to.** -/
theorem comesBy_of_rule
    (hR : ∀ k (a : Except Failure (Option Release)), R (.release k) a → a = releases k ∨ ∃ f, a = .error f)
    (hrule : Rule s dfv name stage r) (hstage : stage ≠ .checksum) (h : (r.resolve ctx).Yields R finding)
    (ho : finding.derived = .ok o) : ComesBy R ctx releases r (o.map (·.value)) := by
  cases hrule with
  | buildVersion => exact .inl (yields_resolve_buildVersion h ho)
  | productVersion => exact .inl (yields_resolve_productVersion h ho)
  | baseUrl => exact .inl (yields_resolve_baseUrl h ho)
  | checksum => exact absurd rfl hstage
  | @toolRef tool =>
    refine comesBy_gated (fun h => .inl ?_) h ho
    obtain rfl := yields_pure.1 h
    rw [Resolver.desired?]
    cases hd : ctx.dependencies.get? tool.name with
    | none | some => rw [hd] at ho; obtain rfl := Except.ok.inj ho; rfl
  | toolUrl | toolChecksum => exact comesBy_gated (fun h => comesBy_toolAsset hR h ho) h ho

end

theorem ne_checksum_of_rule (hrule : Rule s dfv name stage r) (hr : ∀ p os arch, r ≠ .checksum name p os arch) :
    stage ≠ .checksum := by
  rintro rfl
  cases hrule
  exact hr _ _ _ rfl

/-- What a variable ends with, when its rule comes to a value or to none. -/
def settled (v : String) (value : Option String) : String := if isWholeReference v then v else value.getD v

/-- A rule that came to no value, or to the same one, makes up for it when it is applied again. -/
theorem settled_again {value value' : Option String} (h : value' = value ∨ value' = none) :
    settled (settled v value') value = settled v value := by
  unfold settled
  by_cases hv : isWholeReference v
  · rw [if_pos hv, if_pos hv]
  · rw [if_neg hv, if_neg hv]
    rcases h with rfl | rfl
    · cases value' <;> simp
    · rw [Option.getD_none, if_neg hv]

theorem ends_settled {releases : Release.Key → Except Failure (Option Release)}
    (hR : ∀ k (a : Except Failure (Option Release)), R (.release k) a → a = releases k ∨ ∃ f, a = .error f)
    (hrule : Rule s dfv u.variableName u.stage u.resolver) (hstage : u.stage ≠ .checksum) {final : String}
    (h : Ends R ctx u v final) :
    ∃ value, ComesBy R ctx releases u.resolver value ∧ final = settled v value := by
  obtain ⟨hv, rfl⟩ | ⟨hv, finding, o, hfinding, ho, rfl⟩ := h
  · exact ⟨_, .inl rfl, (if_pos hv).symm⟩
  · exact ⟨_, comesBy_of_rule hR hrule hstage hfinding ho, (if_neg hv).symm⟩

/-- A release that is looked up is answered. -/
theorem desired?_of_comesBy {releases : Release.Key → Except Failure (Option Release)} {value : Option String}
    (hR : ∀ k, r.release? ctx.dependencies = some k →
      ∀ f, ¬ R (.release k) (.error f : Except Failure (Option Release)))
    (h : ComesBy R ctx releases r value) : value = r.desired? ctx releases :=
  h.resolve_right fun ⟨_, k, f, hk, hf⟩ => hR k hk f hf

/-- The gate of a tool was the same at the start of both runs. -/
def SameGate (s : Settings) (ds : Dependencies) (dfv : String) (initial first : Variables) (name : String) : Prop :=
  ∀ tool, s.tool? tool.name = some tool → (Key.segments name).head? = some tool.name →
    (Waits ds dfv initial tool ↔ Waits ds dfv first tool)

/-- Behind the same gate a rule without digests comes to the same. -/
theorem desired?_congr {first : Variables} (vars vars' : Variables)
    (releases : Release.Key → Except Failure (Option Release))
    (hgate : SameGate s ds dfv initial first name) (h : updaterFor? s dfv name = some u) :
    u.resolver.desired? ⟨s, ds, dfv, vars, initial⟩ releases =
      u.resolver.desired? ⟨s, ds, dfv, vars', first⟩ releases := by
  unfold updaterFor? at h
  split at h
  · rename_i hs
    split_ifs at h
    split at h
    · rename_i tool ht
      obtain rfl := name_of_tool? ht
      have hrenews : Context.renews ⟨s, ds, dfv, vars, initial⟩ tool.gatedOn =
          Context.renews ⟨s, ds, dfv, vars', first⟩ tool.gatedOn := by
        rw [Bool.eq_iff_iff, renews_iff_not_waits, renews_iff_not_waits]
        exact not_congr (hgate tool ht (by rw [hs, List.head?_cons]))
      unfold toolUpdater? at h
      split at h
      · split_ifs at h
        cases h
        simp only [Resolver.desired?, hrenews]
      · split_ifs at h <;> (cases h; simp only [Resolver.desired?, hrenews])
      · cases h
    · unfold productUpdater? at h
      split at h
      · split_ifs at h <;> (cases h; rfl)
      · split_ifs at h
        cases h
        rfl
      · cases h
  · cases h

/-- Without its release a rule comes to no value. -/
theorem desired?_of_failed {releases : Release.Key → Except Failure (Option Release)} {k : Release.Key}
    {f : Failure} (hk : r.release? ctx.dependencies = some k) (hf : releases k = .error f) :
    r.desired? ctx releases = none := by
  induction r with
  | buildVersion | productVersion | baseUrl | checksum | toolRef => cases hk
  | toolAsset tool arch field =>
    obtain ⟨d, hd, rfl⟩ := Option.map_eq_some_iff.1 hk
    rw [Resolver.desired?, hd, Option.bind_some, hf]
    rfl
  | gated product inner ih => rw [Resolver.desired?, ih hk, ite_self]

theorem settled_none (v : String) : settled v none = v := by
  unfold settled
  split_ifs <;> rfl

/-- The release that is looked up for a variable. -/
def lookedUp? (s : Settings) (ds : Dependencies) (dfv name : String) : Option Release.Key :=
  (updaterFor? s dfv name).bind (·.resolver.release? ds)

namespace Taken

section

variable {releases : Release.Key → Except Failure (Option Release)} {first second clean : Variables}

section

variable (hR : ∀ k (a : Except Failure (Option Release)), R (.release k) a → a = releases k ∨ ∃ f, a = .error f)
  (h : Taken R ⟨s, ds, dfv, initial, isTrial⟩ (updaters s dfv initial) initial final)

include hR h

/-- A variable without digests ends with what its rule may come to. -/
theorem comesBy (hu : updaterFor? s dfv name = some u) (hstage : u.stage ≠ .checksum)
    (hv : initial[name]? = some v) :
    ∃ value, ComesBy R ⟨s, ds, dfv, initial, initial⟩ releases u.resolver value ∧
      final[name]? = some (Update.settled v value) := by
  have hrule : Rule s dfv u.variableName u.stage u.resolver :=
    (updaterFor?_eq_some hu).1 ▸ rule_of_updaterFor? hu
  obtain ⟨seen, _, -, hends, hfinal⟩ := h.ends hu hv
  obtain ⟨value, hvalue, rfl⟩ := ends_settled hR hrule hstage hends
  -- a rule without digests does not read the store
  rw [ComesBy, desired?_congr seen initial releases (fun _ _ _ => Iff.rfl) hu] at hvalue
  exact ⟨value, hvalue, hfinal⟩

/-- If its lookup does not fail, a variable without digests ends with what its rule comes to by all releases. -/
theorem settled (hu : updaterFor? s dfv name = some u) (hstage : u.stage ≠ .checksum)
    (hv : initial[name]? = some v)
    (hanswered : ∀ k, u.resolver.release? ds = some k →
      ∀ f, ¬ R (.release k) (.error f : Except Failure (Option Release))) :
    final[name]? =
      some (Update.settled v (u.resolver.desired? ⟨s, ds, dfv, initial, initial⟩ releases)) := by
  obtain ⟨value, hvalue, hfinal⟩ := h.comesBy hR hu hstage hv
  rw [hfinal, desired?_of_comesBy hanswered hvalue]

end

/-- **A variable without digests** ends, when a run is made again, with what it would have ended with at once. -/
theorem made_up (hreleases : ∀ k f, releases k ≠ .error f)
    (hR : ∀ k (a : Except Failure (Option Release)), R (.release k) a → a = releases k ∨ ∃ f, a = .error f)
    (hfirst : Taken R ⟨s, ds, dfv, initial, isTrial⟩ (updaters s dfv initial) initial first)
    (hsecond : Taken (Engine.Answered releases) ⟨s, ds, dfv, first, isTrial⟩ (updaters s dfv first) first second)
    (hclean : Taken (Engine.Answered releases) ⟨s, ds, dfv, initial, isTrial⟩ (updaters s dfv initial) initial
      clean)
    (hgate : SameGate s ds dfv initial first name)
    (hstage : ∀ u, updaterFor? s dfv name = some u → u.stage ≠ .checksum) :
    second[name]? = clean[name]? := by
  cases hu : updaterFor? s dfv name with
  | none => rw [hsecond.untracked (.inl hu), hfirst.untracked (.inl hu), hclean.untracked (.inl hu)]
  | some u =>
    cases hv : initial[name]? with
    | none =>
      have hnone := hfirst.untracked (.inr hv)
      rw [hsecond.untracked (.inr (hnone.trans hv)), hnone, hclean.untracked (.inr hv)]
    | some v =>
      -- the first run came to the same value as the clean one, or to none
      obtain ⟨value, hvalue, hv₁⟩ := hfirst.comesBy hR hu (hstage u hu) hv
      have hanswered (k : Release.Key) (_ : u.resolver.release? ds = some k) (f : Failure) :
          ¬ Engine.Answered releases (.release k) (.error f : Except Failure (Option Release)) :=
        fun hf => hreleases k f (Eq.symm hf)
      rw [hsecond.settled (fun _ _ => .inl) hu (hstage u hu) hv₁ hanswered,
        hclean.settled (fun _ _ => .inl) hu (hstage u hu) hv hanswered,
        ← desired?_congr initial first releases hgate hu, settled_again (hvalue.imp_right And.left)]

/-! ### What is behind a closed gate -/

/-- Behind a closed gate a run leaves everything as it is. -/
theorem kept_of_waits (h : Taken R ⟨s, ds, dfv, initial, isTrial⟩ (updaters s dfv initial) initial final)
    (ht : s.tool? tool.name = some tool) (hwaits : Waits ds dfv initial tool)
    (hname : (Key.segments name).head? = some tool.name) : final[name]? = initial[name]? := by
  cases hu : updaterFor? s dfv name with
  | none => exact h.untracked (.inl hu)
  | some u =>
    cases hv : initial[name]? with
    | none => exact (h.untracked (.inr hv)).trans hv
    | some v =>
      obtain ⟨inner, hinner⟩ := exists_gated ht hname hu
      obtain ⟨_, _, -, hends, hfinal⟩ := h.ends hu hv
      rw [hfinal, eq_of_ends_of_waits hwaits hinner hends]

/-- What no lookup has failed for is the same in two runs. -/
theorem recorded (hreleases : ∀ k f, releases k ≠ .error f)
    (hR : ∀ k (a : Except Failure (Option Release)), R (.release k) a → a = releases k ∨ ∃ f, a = .error f)
    (hfirst : Taken R ⟨s, ds, dfv, initial, isTrial⟩ (updaters s dfv initial) initial first)
    (hclean : Taken (Engine.Answered releases) ⟨s, ds, dfv, initial, isTrial⟩ (updaters s dfv initial) initial
      clean)
    (hstage : ∀ u, updaterFor? s dfv name = some u → u.stage ≠ .checksum)
    (hanswered : ∀ k, lookedUp? s ds dfv name = some k →
      ∀ f, ¬ R (.release k) (.error f : Except Failure (Option Release))) :
    first[name]? = clean[name]? := by
  cases hu : updaterFor? s dfv name with
  | none => rw [hfirst.untracked (.inl hu), hclean.untracked (.inl hu)]
  | some u =>
    rw [lookedUp?, hu] at hanswered
    cases hv : initial[name]? with
    | none => rw [hfirst.untracked (.inr hv), hclean.untracked (.inr hv)]
    | some v =>
      rw [hfirst.settled hR hu (hstage u hu) hv hanswered,
        hclean.settled (fun _ _ => .inl) hu (hstage u hu) hv fun k _ f hf => hreleases k f (Eq.symm hf)]

/-- Without its release a run leaves a variable as it is. -/
theorem kept_of_failed {k : Release.Key} {f : Failure}
    (hR : ∀ k (a : Except Failure (Option Release)), R (.release k) a → a = releases k ∨ ∃ f, a = .error f)
    (h : Taken R ⟨s, ds, dfv, initial, isTrial⟩ (updaters s dfv initial) initial final)
    (hk : lookedUp? s ds dfv name = some k) (hf : releases k = .error f) : final[name]? = initial[name]? := by
  obtain ⟨u, hu, hrelease⟩ := Option.bind_eq_some_iff.1 hk
  have hstage : u.stage ≠ .checksum := ne_checksum_of_rule (rule_of_updaterFor? hu) fun _ _ _ hr => by
    rw [hr] at hrelease
    cases hrelease
  cases hv : initial[name]? with
  | none => exact (h.untracked (.inr hv)).trans hv
  | some v =>
    obtain ⟨value, hvalue, hfinal⟩ := h.comesBy hR hu hstage hv
    have hnone : value = none := hvalue.elim (·.trans (desired?_of_failed hrelease hf)) And.left
    rw [hfinal, hnone, settled_none]

end

end Taken

end Update

end Upkeep
