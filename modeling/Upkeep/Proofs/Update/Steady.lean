import Upkeep.Proofs.Manifest.Resolution
import Upkeep.Proofs.Update.Run

/-!
# Steady variables

A run reads two variables while it changes others: the base URL, under which the digests are looked for, and
the build version of the runtime, by which the tools are gated. If the late stages leave them alone, and they
refer to no other variable that is tracked, then what is read of them does not depend on how far the run has
come.

* `Steady`: a variable that the late stages leave alone, with all that it refers to.
* `Taken.baseUrl_eq`: **the base URL that a digest was looked for under** is the one after the run.
* `Taken.renews_runtime`: **a gate that is open after the run** was open before it.
-/

namespace Upkeep.Update

open Inquiry

variable {R : (q : Question) → q.Answer → Prop} {s : Settings} {ds : Dependencies} {dfv : String}
  {isTrial : Bool} {initial final seen : Variables} {u : Updater} {k : String}

/-! ### Steady variables -/

/-- The name of the base URL. -/
def baseUrlName (s : Settings) (dfv : String) : String := Key.ofSegments [Key.baseUrl, dfv, s.branch]

/-- The name of the build version of the runtime. -/
def runtimeName (dfv : String) : String := Key.ofSegments ["runtime", dfv, Key.buildVersion]

theorem baseUrl_eq_value (vars baseline : Variables) :
    Context.baseUrl ⟨s, ds, dfv, vars, baseline⟩ =
      let value := (vars.value (baseUrlName s dfv)).toOption.getD ""
      if value = "" then s.fallbackBaseUrl else value := rfl

/-- When a gate is open. -/
theorem renews_eq_true_iff {product : String} (vars baseline : Variables) :
    Context.renews ⟨s, ds, dfv, vars, baseline⟩ product = true ↔ ∃ d, ds.get? product = some d ∧
      baseline.value (Key.ofSegments [product, dfv, Key.buildVersion]) ≠ .ok d.version := by
  rw [Context.renews, Context.buildVersionKey]
  dsimp only
  cases ds.get? product with
  | none => simp
  | some d => cases baseline.value (Key.ofSegments [product, dfv, Key.buildVersion]) <;> simp

/-- When a gate of the runtime is open. -/
theorem renews_iff (vars baseline : Variables) :
    Context.renews ⟨s, ds, dfv, vars, baseline⟩ "runtime" = true ↔
      ∃ d, ds.get? "runtime" = some d ∧ baseline.value (runtimeName dfv) ≠ .ok d.version :=
  renews_eq_true_iff vars baseline

/-- A variable that is not updated in the stage of the digests or in one of the tools, and that refers to
no other tracked variable. -/
structure Steady (s : Settings) (dfv : String) (initial final : Variables) (k : String) : Prop where
  late : ∀ u ∈ updaters s dfv initial, u.variableName = k →
    u.stage ∈ [Stage.checksum, .toolRef, .toolUrl, .toolChecksum] → final[k]? = initial[k]?
  apart : ∀ u ∈ updaters s dfv initial, initial.Reaches k u.variableName → u.variableName = k

theorem Seen.getElem?_eq (h : Seen s dfv initial final seen u) (k : String) :
    seen[k]? = final[k]? ∨ seen[k]? = initial[k]? := by
  by_cases hk : ∃ u' ∈ updaters s dfv initial, u'.Precedes u ∧ u'.variableName = k
  · obtain ⟨u', hu', hprec, rfl⟩ := hk
    exact .inl (h.taken u' hu' hprec)
  · exact .inr (h.waiting k fun u' hu' hprec heq => hk ⟨u', hu', hprec, heq⟩)

namespace Taken

section

variable (h : Taken R ⟨s, ds, dfv, initial, isTrial⟩ (updaters s dfv initial) initial final)

include h

/-- A variable that has another value was taken. -/
theorem exists_updater (hk : final[k]? ≠ initial[k]?) :
    ∃ u ∈ updaters s dfv initial, u.variableName = k := by
  by_contra hno
  exact hk (h.frame fun u hu heq => hno ⟨u, hu, heq⟩)

/-- All that a steady variable refers to is left alone, if the variable is. -/
theorem getElem?_of_reaches (hs : Steady s dfv initial final k) (hk : final[k]? = initial[k]?)
    {j : String} (hj : initial.Reaches k j) : final[j]? = initial[j]? := by
  by_contra hne
  obtain ⟨u, hu, rfl⟩ := h.exists_updater hne
  exact hne (hs.apart u hu hj ▸ hk)

theorem value_eq (hs : Steady s dfv initial final k) (hk : final[k]? = initial[k]?) :
    final.value k = initial.value k :=
  Variables.value_congr fun _ hj => h.getElem?_of_reaches hs hk hj

theorem seen_value_eq (hs : Steady s dfv initial final k) (hk : final[k]? = initial[k]?)
    (hseen : Seen s dfv initial final seen u) : seen.value k = initial.value k :=
  Variables.value_congr fun j hj => by
    rcases hseen.getElem?_eq j with heq | heq
    · rw [heq, h.getElem?_of_reaches hs hk hj]
    · exact heq

/-- A variable with another value was taken, and has the value that its rule came to. -/
theorem rule_of_ne (hne : final[k]? ≠ initial[k]?) :
    ∃ stage r seen finding o, ⟨stage, k, r⟩ ∈ updaters s dfv initial ∧ Rule s dfv k stage r ∧
      (r.resolve ⟨s, ds, dfv, seen, initial⟩).Yields R finding ∧ finding.derived = .ok (some o) ∧
      final[k]? = some o.value := by
  obtain ⟨u, hmem, rfl⟩ := h.exists_updater hne
  have hu := (mem_updaters.1 hmem).2
  obtain ⟨v, hv⟩ := Option.isSome_iff_exists.1
    (Std.ExtTreeMap.mem_iff_isSome_getElem?.1 (mem_updaters.1 hmem).1)
  by_cases hw : isWholeReference v
  · exact absurd ((h.reference hv hw).trans hv.symm) hne
  obtain ⟨seen, finding, o, -, hfinding, ho, hfinal⟩ := h.rule hu hv hw
  cases o with
  | none => exact absurd (hfinal.trans hv.symm) hne
  | some o => exact ⟨u.stage, u.resolver, seen, finding, o, hmem, rule_of_updaterFor? hu, hfinding, ho, hfinal⟩

/-- **The base URL that a digest was looked for under** is the one after the run. -/
theorem baseUrl_eq (hs : Steady s dfv initial final (baseUrlName s dfv))
    (hurl : ∀ url, s.desiredBaseUrl? = some url → NoReference url)
    (hseen : Seen s dfv initial final seen u) (hu : u.stage = .checksum) :
    Context.baseUrl ⟨s, ds, dfv, seen, initial⟩ = Context.baseUrl ⟨s, ds, dfv, final, final⟩ := by
  suffices hvalue : seen.value (baseUrlName s dfv) = final.value (baseUrlName s dfv) by
    rw [baseUrl_eq_value, baseUrl_eq_value, hvalue]
  by_cases hk : final[baseUrlName s dfv]? = initial[baseUrlName s dfv]?
  · rw [h.seen_value_eq hs hk hseen, h.value_eq hs hk]
  obtain ⟨stage, r, seen', finding, o, hw, hrule, hfinding, ho, hfinal⟩ := h.rule_of_ne hk
  have hsegments : Key.segments (baseUrlName s dfv) =
      Key.baseUrl :: Key.segments (Key.ofSegments [dfv, s.branch]) :=
    Key.segments_ofSegments_cons (by decide +kernel)
  cases hrule with
  | buildVersion hs' hp | productVersion hs' hp =>
    exact absurd (List.cons.inj (hs'.symm.trans hsegments)).1 hp
  | baseUrl =>
    -- the variable was set before the digests were looked for, to a text without references
    have hdesired := yields_resolve_baseUrl hfinding ho
    have hplain := hurl o.value hdesired.symm
    have hrank : Stage.baseUrl.rank < Stage.checksum.rank := by decide
    have hbefore := hseen.taken _ hw (.inl (hu ▸ hrank))
    rw [Variables.value_of_noReference hfinal hplain,
      Variables.value_of_noReference (hbefore.trans hfinal) hplain]
  | checksum | toolRef | toolUrl | toolChecksum => exact absurd (hs.late _ hw rfl (by simp)) hk

/-- **A gate that is open after the run** was open before it. -/
theorem renews_runtime (hs : Steady s dfv initial final (runtimeName dfv))
    (halias : s.dependencyName "runtime" = "runtime")
    (hversion : ∀ d, ds.get? "runtime" = some d → NoReference d.version)
    (hopen : Context.renews ⟨s, ds, dfv, final, final⟩ "runtime") :
    Context.renews ⟨s, ds, dfv, seen, initial⟩ "runtime" := by
  rw [renews_iff] at hopen ⊢
  obtain ⟨d, hd, hne⟩ := hopen
  refine ⟨d, hd, ?_⟩
  by_cases hk : final[runtimeName dfv]? = initial[runtimeName dfv]?
  · rwa [← h.value_eq hs hk]
  obtain ⟨stage, r, seen', finding, o, hw, hrule, hfinding, ho, hfinal⟩ := h.rule_of_ne hk
  have hdfv : Key.separator ∉ dfv.toList := by
    obtain ⟨-, first, rest, hsegments⟩ := updaterFor?_eq_some (mem_updaters.1 hw).2
    have hmem : dfv ∈ Key.segments (runtimeName dfv) := by rw [hsegments]; simp
    exact Key.bar_notMem_of_mem_segments hmem
  have hsegments : Key.segments (runtimeName dfv) = ["runtime", dfv, Key.buildVersion] := by
    rw [runtimeName, Key.segments_ofSegments_cons (by decide),
      Key.segments_ofSegments_cons hdfv, Key.segments_ofSegments_singleton (by decide)]
  cases hrule with
  | @buildVersion p hs' hp =>
    -- the variable has the version that is provided, and then the gate is closed
    obtain rfl : "runtime" = p := (List.cons.inj (hsegments.symm.trans hs')).1
    have hdependency : Context.dependency? ⟨s, ds, dfv, seen', initial⟩ "runtime" = some d := by
      rw [Context.dependency?, halias]
      exact hd
    have hvalue := yields_resolve_buildVersion hfinding ho
    rw [hdependency] at hvalue
    rw [show o.value = d.version from Option.some.inj hvalue] at hfinal
    exact absurd (Variables.value_of_noReference hfinal (hversion d hd)) hne
  | productVersion hs' =>
    exact absurd (hsegments.symm.trans hs') (by simp [Key.buildVersion, Key.productVersion])
  | baseUrl hs' => exact absurd (List.cons.inj (hsegments.symm.trans hs')).1 (by decide)
  | checksum | toolRef | toolUrl | toolChecksum => exact absurd (hs.late _ hw rfl (by simp)) hk

end

end Taken

end Upkeep.Update
