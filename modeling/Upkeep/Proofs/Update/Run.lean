import Upkeep.Proofs.Engine
import Upkeep.Proofs.Manifest.Regular
import Upkeep.Proofs.Update.Order
import Upkeep.Proofs.Update.Outcome
import Upkeep.Proofs.Update.Step

/-!
# The store after a run

A run takes each tracked variable once and sets nothing else. What a variable ends with is decided when
it is taken, from a store in which those before it have their last values and all others their first.
In a regular manifest no update is lost, so the store after a run that succeeds is known in full.

* `step_ends`: one variable.
* `Taken`: **what a run does to the store**, variable by variable.
* `Seen`: the store that a run sees when it comes to a variable.
* `Settles`: what the store after a run holds, name by name.
* `run_settles`: **the store after a run** of an engine.
-/

namespace Upkeep.Update

open Inquiry

variable {R : (q : Question) → q.Answer → Prop} {plan : Plan} {p p' : Progress} {u : Updater}

/-- What a variable sees in a plan, when the store is this. -/
def Plan.context (plan : Plan) (vars : Variables) : Context :=
  ⟨plan.settings, plan.dependencies, plan.dockerfileVersion, vars, plan.baseline⟩

/-- **One variable** gets the value that its rule comes to, and nothing else changes. -/
theorem step_ends (hreg : p.manifest.Regular) (hbar : '|' ∈ u.variableName.toList)
    (h : (p.step plan u).Yields R (p', .ok ())) :
    p'.manifest.Regular ∧ ∃ current final, p.manifest.vars[u.variableName]? = some current ∧
      Ends R (plan.context p.manifest.vars) u current final ∧
      p'.manifest.vars = p.manifest.vars.insert u.variableName final := by
  obtain ⟨notes, proposal, hpropose, hcases⟩ := step_cases h
  obtain ⟨hcurrent, hname, hends⟩ := yields_propose hpropose
  rw [hname] at hcases
  suffices hset : p'.manifest.Regular ∧
      p'.manifest.vars = p.manifest.vars.insert u.variableName proposal.desired from
    ⟨hset.1, _, _, hcurrent, hends, hset.2⟩
  rcases hcases with ⟨hsame | hnone, rfl⟩ | ⟨m, -, hm, rfl⟩
  · exact ⟨hreg, hsame ▸ (Variables.insert_same hcurrent).symm⟩
  · -- the text holds the value already; in a regular manifest the variable has it then
    exact hreg.update hbar hnone
  · exact hreg.update hbar hm

/-- **What a run does to the store**, variable by variable. -/
inductive Taken (R : (q : Question) → q.Answer → Prop) (plan : Plan) :
    List Updater → Variables → Variables → Prop where
  | nil (vars : Variables) : Taken R plan [] vars vars
  | cons {u : Updater} {us : List Updater} {vars vars' : Variables} {current final : String}
      (hcurrent : vars[u.variableName]? = some current)
      (hends : Ends R (plan.context vars) u current final)
      (hrest : Taken R plan us (vars.insert u.variableName final) vars') :
      Taken R plan (u :: us) vars vars'

theorem steps_taken {us : List Updater} (hreg : p.manifest.Regular)
    (hbar : ∀ u ∈ us, '|' ∈ u.variableName.toList)
    (h : (Progress.steps plan us p).Yields R (p', .ok ())) :
    Taken R plan us p.manifest.vars p'.manifest.vars := by
  induction us generalizing p with
  | nil =>
    obtain rfl := yields_steps_nil.1 h
    exact .nil _
  | cons u us ih =>
    obtain ⟨mid, hstep, hnext⟩ := yields_steps_cons.1 h
    obtain ⟨hmid, current, final, hcurrent, hends, hvars⟩ :=
      step_ends hreg (hbar u (by simp)) hstep
    have hrest := ih hmid (fun w hw => hbar w (by simp [hw])) hnext
    rw [hvars] at hrest
    exact .cons hcurrent hends hrest

namespace Taken

variable {l r us : List Updater} {vars vars' : Variables} {k : String}

/-- A variable that is not taken keeps its value. -/
theorem frame (h : Taken R plan us vars vars') (hk : ∀ u ∈ us, u.variableName ≠ k) :
    vars'[k]? = vars[k]? := by
  induction h with
  | nil => rfl
  | cons _ _ _ ih =>
    rw [ih fun w hw => hk w (by simp [hw]), Std.ExtTreeMap.getElem?_insert]
    simp [hk _ (List.mem_cons_self)]

/-- The store when a run comes to one of the variables. -/
theorem split (h : Taken R plan (l ++ u :: r) vars vars') :
    ∃ seen current final, Taken R plan l vars seen ∧ seen[u.variableName]? = some current ∧
      Ends R (plan.context seen) u current final ∧
      Taken R plan r (seen.insert u.variableName final) vars' := by
  induction l generalizing vars with
  | nil =>
    cases h with
    | cons hcurrent hends hrest => exact ⟨_, _, _, .nil _, hcurrent, hends, hrest⟩
  | cons w l ih =>
    cases h with
    | cons hcurrent hends hrest =>
      obtain ⟨seen, c, f, hl, hs⟩ := ih hrest
      exact ⟨seen, c, f, .cons hcurrent hends hl, hs⟩

end Taken

/-! ### The store after a run -/

variable {s : Settings} {ds : Dependencies} {dfv name v : String} {isTrial : Bool}
  {initial final : Variables} {known : String → Option (Option String)}

/-- The store that a run sees when it comes to a variable: those that it has taken have their last
values, and all others their first. -/
structure Seen (s : Settings) (dfv : String) (initial final seen : Variables) (u : Updater) :
    Prop where
  taken : ∀ u' ∈ updaters s dfv initial, u'.Precedes u →
    seen[u'.variableName]? = final[u'.variableName]?
  waiting : ∀ k, (∀ u' ∈ updaters s dfv initial, u'.Precedes u → u'.variableName ≠ k) →
    seen[k]? = initial[k]?

/-- **How a run settles the store.** A reference stays, and so does what is not tracked or not there. A
product `p` is one whose name is not that of a tool. -/
structure Settles (s : Settings) (ds : Dependencies) (dfv : String)
    (known : String → Option (Option String)) (initial final : Variables) : Prop where
  untracked : ∀ name : String, updaterFor? s dfv name = none ∨ initial[name]? = none →
    final[name]? = initial[name]?
  reference : ∀ name v : String, initial[name]? = some v → isWholeReference v → final[name]? = some v
  buildVersion : ∀ name p v : String, Key.segments name = [p, dfv, Key.buildVersion] →
    s.tool? p = none → p ≠ Key.baseUrl → initial[name]? = some v → ¬ isWholeReference v →
    final[name]? = some (((ds.get? (s.dependencyName p)).map (·.version)).getD v)
  productVersion : ∀ name p v : String, Key.segments name = [p, dfv, Key.productVersion] →
    s.tool? p = none → p ≠ Key.baseUrl → initial[name]? = some v → ¬ isWholeReference v →
    final[name]? = some (((ds.get? (s.dependencyName p)).map fun d => Version.tag d.version).getD v)
  baseUrl : ∀ name v : String, Key.segments name = [Key.baseUrl, dfv, s.branch] →
    s.tool? Key.baseUrl = none → initial[name]? = some v → ¬ isWholeReference v →
    final[name]? = some (s.desiredBaseUrl?.getD v)
  /-- The digest of the first candidate that has one; the candidates are built from the store that
  the run sees. -/
  checksum : ∀ (name p os arch v : String) (d : Dependency),
    Key.segments name = [p, dfv, os, arch, Key.digest] →
    s.tool? p = none → (s.templates? p).isSome → initial[name]? = some v → ¬ isWholeReference v →
    ds.get? (s.dependencyName p) = some d →
    ∃ seen digest, Seen s dfv initial final seen ⟨.checksum, name, .checksum name p os arch⟩ ∧
      FirstDigest known (candidates ⟨s, ds, dfv, seen, initial⟩ p os arch d.version) digest ∧
      final[name]? = some (digest.getD v)
  /-- Without a dependency or without templates there is no digest to look for. -/
  noChecksum : ∀ name p os arch v : String, Key.segments name = [p, dfv, os, arch, Key.digest] →
    s.tool? p = none → initial[name]? = some v →
    (s.templates? p = none ∨ ds.get? (s.dependencyName p) = none) → final[name]? = some v

namespace Taken

section

variable (h : Taken R ⟨s, ds, dfv, initial, isTrial⟩ (updaters s dfv initial) initial final)

include h

/-- A variable ends with the value that its rule comes to from the store that the run sees then. -/
theorem ends (hu : updaterFor? s dfv name = some u) (hv : initial[name]? = some v) :
    ∃ seen value, Seen s dfv initial final seen u ∧ Ends R ⟨s, ds, dfv, seen, initial⟩ u v value ∧
      final[name]? = some value := by
  obtain rfl := (updaterFor?_eq_some hu).1
  have hmem : u.variableName ∈ initial := Std.ExtTreeMap.mem_iff_isSome_getElem?.2 (by simp [hv])
  obtain ⟨l, r, hlr⟩ := List.append_of_mem (mem_updaters.2 ⟨hmem, hu⟩)
  have hne := pairwise_variableName_ne s dfv initial
  rw [hlr, List.pairwise_append, List.pairwise_cons] at hne
  obtain ⟨-, ⟨hur, -⟩, hl⟩ := hne
  rw [hlr] at h
  obtain ⟨seen, current, value, hbefore, hcurrent, hends, hafter⟩ := h.split
  have hul : ∀ w ∈ l, w.variableName ≠ u.variableName := fun w hw => hl w hw u (by simp)
  -- those before it have not touched it yet
  rw [hbefore.frame hul, hv] at hcurrent
  obtain rfl := Option.some.inj hcurrent
  refine ⟨seen, value, ⟨fun w hw hprec => ?_, fun k hk => ?_⟩, hends, ?_⟩
  · have hwl := (mem_before hlr).2 ⟨hw, hprec⟩
    rw [hafter.frame fun w' hw' heq => hl w hwl w' (by simp [hw']) heq.symm,
      Std.ExtTreeMap.getElem?_insert]
    simp [(hul w hwl).symm]
  · exact hbefore.frame fun w hw => hk w (by rw [hlr]; simp [hw]) ((mem_before hlr).1 hw).2
  · rw [hafter.frame fun w hw => (hur w hw).symm, Std.ExtTreeMap.getElem?_insert_self]

/-- Each variable that is taken has a value to end with. -/
theorem ends_of_mem (hu : u ∈ updaters s dfv initial) :
    ∃ v seen value, initial[u.variableName]? = some v ∧ Seen s dfv initial final seen u ∧
      Ends R ⟨s, ds, dfv, seen, initial⟩ u v value ∧ final[u.variableName]? = some value := by
  obtain ⟨hmem, hu⟩ := mem_updaters.1 hu
  obtain ⟨v, hv⟩ := Option.isSome_iff_exists.1 (Std.ExtTreeMap.mem_iff_isSome_getElem?.1 hmem)
  obtain ⟨seen, value, hends⟩ := h.ends hu hv
  exact ⟨v, seen, value, hv, hends⟩

/-- What its rule comes to is the value of a variable that is no reference. -/
theorem rule (hu : updaterFor? s dfv name = some u) (hv : initial[name]? = some v)
    (hw : ¬ isWholeReference v) : ∃ seen finding o, Seen s dfv initial final seen u ∧
      (u.resolver.resolve ⟨s, ds, dfv, seen, initial⟩).Yields R finding ∧
      finding.derived = .ok o ∧ final[name]? = some ((o.map (·.value)).getD v) := by
  obtain ⟨seen, value, hseen, hvalue, hfinal⟩ := h.ends hu hv
  obtain ⟨hw', -⟩ | ⟨-, finding, o, hfinding, ho, rfl⟩ := hvalue
  · exact absurd hw' hw
  · exact ⟨seen, finding, o, hseen, hfinding, ho, hfinal⟩

theorem untracked (hnone : updaterFor? s dfv name = none ∨ initial[name]? = none) :
    final[name]? = initial[name]? := by
  refine h.frame fun u hu heq => ?_
  obtain ⟨hmem, hsome⟩ := mem_updaters.1 hu
  subst heq
  rcases hnone with hnone | hnone
  · cases hsome.symm.trans hnone
  · exact absurd hmem (by simpa using hnone)

theorem reference (hv : initial[name]? = some v) (hw : isWholeReference v) :
    final[name]? = some v := by
  cases hu : updaterFor? s dfv name with
  | none => rw [h.untracked (.inl hu), hv]
  | some u =>
    obtain ⟨seen, value, -, hvalue, hfinal⟩ := h.ends hu hv
    obtain ⟨-, rfl⟩ | ⟨hno, -⟩ := hvalue
    · exact hfinal
    · exact absurd hw hno

theorem checksum (hR : FromKnown R known) {p os arch : String}
    (hs : Key.segments name = [p, dfv, os, arch, Key.digest]) (ht : s.tool? p = none)
    (htemplates : (s.templates? p).isSome) (hv : initial[name]? = some v)
    (hw : ¬ isWholeReference v) : ∃ seen digest,
      Seen s dfv initial final seen ⟨.checksum, name, .checksum name p os arch⟩ ∧
      (match ds.get? (s.dependencyName p) with
        | none => digest = none
        | some d =>
          FirstDigest known (candidates ⟨s, ds, dfv, seen, initial⟩ p os arch d.version) digest) ∧
      final[name]? = some (digest.getD v) := by
  obtain ⟨seen, finding, o, hseen, hfinding, ho, hfinal⟩ :=
    h.rule (updaterFor?_checksum hs ht htemplates) hv hw
  refine ⟨seen, o.map (·.value), hseen, ?_, hfinal⟩
  have hdigest := yields_resolve_checksum hR hfinding ho
  show match Context.dependency? ⟨s, ds, dfv, seen, initial⟩ p with
    | none => o.map (·.value) = none
    | some d => FirstDigest known _ _
  cases hd : Context.dependency? ⟨s, ds, dfv, seen, initial⟩ p with
  | none => rw [hd] at hdigest; rw [hdigest]; rfl
  | some d => rw [hd] at hdigest; exact hdigest

theorem settles (hR : FromKnown R known) : Settles s ds dfv known initial final where
  untracked _ := h.untracked
  reference _ _ := h.reference
  buildVersion name p v hs ht hb hv hw := by
    obtain ⟨seen, finding, o, -, hfinding, ho, hfinal⟩ :=
      h.rule (updaterFor?_buildVersion hs ht hb) hv hw
    rw [hfinal, yields_resolve_buildVersion hfinding ho]
    rfl
  productVersion name p v hs ht hb hv hw := by
    obtain ⟨seen, finding, o, -, hfinding, ho, hfinal⟩ :=
      h.rule (updaterFor?_productVersion hs ht hb) hv hw
    rw [hfinal, yields_resolve_productVersion hfinding ho]
    rfl
  baseUrl name v hs ht hv hw := by
    obtain ⟨seen, finding, o, -, hfinding, ho, hfinal⟩ := h.rule (updaterFor?_baseUrl hs ht) hv hw
    rw [hfinal, yields_resolve_baseUrl hfinding ho]
  checksum name p os arch v d hs ht htemplates hv hw hd := by
    obtain ⟨seen, digest, hseen, hdigest, hfinal⟩ := h.checksum hR hs ht htemplates hv hw
    rw [hd] at hdigest
    exact ⟨seen, digest, hseen, hdigest, hfinal⟩
  noChecksum name p os arch v hs ht hv hno := by
    cases htemplates : s.templates? p with
    | none => rw [h.untracked (.inl (updaterFor?_noTemplates hs ht htemplates)), hv]
    | some l =>
      by_cases hw : isWholeReference v
      · exact h.reference hv hw
      obtain ⟨seen, digest, -, hdigest, hfinal⟩ :=
        h.checksum hR hs ht (by simp [htemplates]) hv hw
      rw [hno.resolve_left (by simp [htemplates])] at hdigest
      rw [hfinal, show digest = none from hdigest]
      rfl

end

end Taken

/-- A run that succeeds is one for a Dockerfile version, and all its steps succeed. -/
theorem yields_run {m m' : Manifest} {report : Report}
    (h : (run s ds isTrial m).Yields R (m', .ok report)) :
    ∃ dfv p, dockerfileVersion s ds = .ok dfv ∧
      (Progress.steps ⟨s, ds, dfv, m.vars, isTrial⟩ (updaters s dfv m.vars) ⟨m, [], []⟩).Yields R
        (p, .ok ()) ∧ m' = p.manifest ∧ report = p.report := by
  unfold run at h
  split at h
  · obtain ⟨-, h⟩ := Prod.mk.inj (yields_pure.1 h)
    cases h
  · rename_i dfv hdfv
    obtain ⟨⟨p, outcome⟩, hsteps, hdone⟩ := yields_bind.1 h
    obtain ⟨rfl, houtcome⟩ := Prod.mk.inj (yields_pure.1 hdone)
    cases outcome with
    | error e => cases houtcome
    | ok _ => exact ⟨dfv, p, hdfv, hsteps, rfl, Except.ok.inj houtcome⟩

/-- In a run that succeeds every updater was taken. -/
theorem run_taken {m m' : Manifest} {report : Report} (hreg : m.Regular)
    (h : (run s ds isTrial m).Yields R (m', .ok report)) : ∃ dfv, dockerfileVersion s ds = .ok dfv ∧
      Taken R ⟨s, ds, dfv, m.vars, isTrial⟩ (updaters s dfv m.vars) m.vars m'.vars := by
  obtain ⟨dfv, p, hdfv, hsteps, rfl, -⟩ := yields_run h
  refine ⟨dfv, hdfv, steps_taken (p := ⟨m, [], []⟩) hreg (fun u hu => ?_) hsteps⟩
  exact bar_mem_of_updaterFor? (mem_updaters.1 hu).2

/-- **The store after a run** of an engine over the manifest that is written for given variables. The
manifest is read, and whoever answers from the outside, a run that succeeds settles its store. -/
theorem run_settles (e : Engine) (ds : Dependencies) (isTrial : Bool) (path : Option String)
    (pairs : List (String × String))
    (hnames : ∀ q ∈ pairs, '"' ∉ q.1.toList ∧ '\\' ∉ q.1.toList) :
    ∃ m, Manifest.ofText path (Manifest.render (.ofList pairs)) = .ok m ∧
      m.vars = .ofList pairs ∧
      ∀ m' report e', (e.run ds isTrial m).Yields Any ((m', .ok report), e') →
        ∃ dfv, dockerfileVersion e.settings ds = .ok dfv ∧
          Settles e.settings ds dfv e'.cached? m.vars m'.vars := by
  refine ⟨_, Manifest.ofText_render path _, rfl, fun m' report e' h => ?_⟩
  have hreg := Manifest.regular_render path (.ofList pairs) fun name hname => by
    obtain ⟨q, hq, rfl⟩ := Variables.mem_ofList hname
    exact hnames q hq
  obtain ⟨dfv, hdfv, htaken⟩ := run_taken hreg (Engine.yields_perform h)
  exact ⟨dfv, hdfv, htaken.settles fun r o hknown => hknown o rfl⟩

/-- Variables of an older runtime, one of them not tracked. -/
def olderRuntime : List (String × String) := [("runtime|9.0|build-version", "9.0.4"), ("os", "linux")]

/-- An engine that has not found out anything yet. -/
def freshEngine : Engine := { settings := { dockerfileVersion := some "9.0" } }

/-- The outcome of a computation that asks nothing. -/
def outcome? {α : Type} : Inquiry Outside Outside.Answer α → Option α
  | .done a => some a
  | .ask _ _ => none

theorem yields_of_outcome? {α : Type} {x : Inquiry Outside Outside.Answer α} {a : α}
    (h : outcome? x = some a) : x.Yields Any a := by
  cases x with
  | done b => obtain rfl := Option.some.inj h; exact .done b
  | ask q next => cases h

theorem run_settles_olderRuntime :
    let ds := Dependencies.ofList [⟨"runtime", "9.0.5"⟩]
    ∃ m, Manifest.ofText none (Manifest.render (.ofList olderRuntime)) = .ok m ∧
      (∃ m' report e', (freshEngine.run ds true m).Yields Any ((m', .ok report), e')) ∧
      ∀ m' report e', (freshEngine.run ds true m).Yields Any ((m', .ok report), e') →
        m'.vars["runtime|9.0|build-version"]? = some "9.0.5" ∧ m'.vars["os"]? = some "linux" := by
  intro ds
  obtain ⟨m, hm, hvars, hrun⟩ := run_settles freshEngine ds true none olderRuntime
    (by simp [olderRuntime])
  refine ⟨m, hm, ?_, fun m' report e' h => ?_⟩
  · obtain rfl := Except.ok.inj ((Manifest.ofText_render none _).symm.trans hm)
    have hdone : ((outcome? (freshEngine.run ds true ⟨none, Manifest.render (.ofList olderRuntime),
        .ofList olderRuntime⟩)).bind fun p => p.1.2.toOption).isSome := by decide +kernel
    obtain ⟨report, hreport⟩ := Option.isSome_iff_exists.1 hdone
    obtain ⟨⟨⟨m', outcome⟩, e'⟩, hp, houtcome⟩ := Option.bind_eq_some_iff.1 hreport
    cases outcome with
    | error e => cases houtcome
    | ok report => exact ⟨m', report, e', yields_of_outcome? hp⟩
  · obtain ⟨dfv, hdfv, hsettles⟩ := hrun m' report e' h
    obtain rfl := Except.ok.inj hdfv
    constructor
    · rw [hsettles.buildVersion "runtime|9.0|build-version" "runtime" "9.0.4" (by decide +kernel)
        (by decide +kernel) (by decide +kernel) (by rw [hvars]; decide +kernel) (by decide +kernel)]
      decide +kernel
    · rw [hsettles.untracked "os" (.inl (by rfl)), hvars]
      decide +kernel

end Upkeep.Update
