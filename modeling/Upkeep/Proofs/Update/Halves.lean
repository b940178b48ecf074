import Upkeep.Proofs.Replay
import Upkeep.Proofs.Update.Gates

/-!
# A run in two halves

A run works on the variables of products first and on those of tools after that. In the first half no release is
asked for, and in the second one no digest. So the first half is the same whether releases can be had or not, and
the second one cannot fail by a digest.

* `updaters_eq_append`: the updaters of products, and then those of tools.
* `asks_steps_product`, `asks_steps_tool`: **what each half asks for**.
* `prospers_of_yields`: a manifest that was written for its variables stays one.
* `result_of_products`: **a run that has come to the tools** succeeds.
-/

namespace Upkeep.Update

open Inquiry Manifest

variable {R : (q : Question) → q.Answer → Prop} {s : Settings} {ds : Dependencies} {dfv name : String}
  {isTrial : Bool} {plan : Plan} {p p' : Progress} {u : Updater} {us : List Updater} {vars : Variables}
  {path : Option String} {stage : Stage} {r : Resolver} {ctx : Context}

/-! ### The stages of the products and those of the tools -/

/-- The stages of the variables of products. -/
def productStages : List Stage := [.buildVersion, .productVersion, .baseUrl, .checksum]

/-- The stages of the variables of tools. -/
def toolStages : List Stage := [.toolRef, .toolUrl, .toolChecksum]

/-- The updaters of some of the stages, in the order in which they run. -/
def ofStages (s : Settings) (dfv : String) (vars : Variables) (stages : List Stage) : List Updater :=
  stages.flatMap (atStage s dfv vars)

theorem updaters_eq_append : updaters s dfv vars =
    ofStages s dfv vars productStages ++ ofStages s dfv vars toolStages := by
  have hall : Stage.all = productStages ++ toolStages := rfl
  show Stage.all.flatMap (atStage s dfv vars) = _
  rw [hall, List.flatMap_append]
  rfl

theorem mem_ofStages {stages : List Stage} :
    u ∈ ofStages s dfv vars stages ↔ u ∈ updaters s dfv vars ∧ u.stage ∈ stages := by
  rw [ofStages, List.mem_flatMap, mem_updaters]
  constructor
  · rintro ⟨stage, hmem, hu⟩
    obtain ⟨hname, hu', rfl⟩ := mem_atStage.1 hu
    exact ⟨⟨hname, hu'⟩, hmem⟩
  · rintro ⟨⟨hname, hu⟩, hmem⟩
    exact ⟨u.stage, hmem, mem_atStage.2 ⟨hname, hu, rfl⟩⟩

theorem asks_steps {P : Question → Prop} (h : ∀ u ∈ us, ∀ vars, (u.propose (plan.context vars)).Asks P)
    (hsave : ∀ path text, P (.save path text)) : (Progress.steps plan us p).Asks P := by
  induction us generalizing p with
  | nil => trivial
  | cons u us ih =>
    refine Asks.bind (asks_step (h u (by simp) _) hsave) fun ⟨p', outcome⟩ => ?_
    cases outcome with
    | error e => trivial
    | ok _ => exact ih fun w hw => h w (by simp [hw])

theorem asks_propose_of_resolve {P : Question → Prop} (h : (u.resolver.resolve ctx).Asks P) :
    (u.propose ctx).Asks P := by
  unfold Updater.propose
  split
  · trivial
  · split_ifs
    · trivial
    · exact h.bind fun _ => trivial

/-- In the stages of the products no release is asked for. -/
theorem asks_resolve_product (hrule : Rule s dfv name stage r) (hstage : stage ∈ productStages) :
    (r.resolve ctx).Asks NoRelease := by
  cases hrule with
  | buildVersion | productVersion | baseUrl => trivial
  | @checksum p =>
    rw [Resolver.resolve]
    cases ctx.dependency? p with
    | none => trivial
    | some d => exact asks_firstDigest.2 fun _ _ _ => by simp
  | toolRef | toolUrl | toolChecksum => simp [productStages] at hstage

theorem asks_steps_product (plan : Plan) (vars : Variables) (p : Progress) :
    (Progress.steps plan (ofStages plan.settings plan.dockerfileVersion vars productStages) p).Asks NoRelease := by
  refine asks_steps (fun u hu vars => asks_propose_of_resolve ?_) fun _ _ _ => by simp
  obtain ⟨hu, hstage⟩ := mem_ofStages.1 hu
  exact asks_resolve_product (rule_of_updaterFor? (mem_updaters.1 hu).2) hstage

/-- A question that is not for a digest. -/
def NoDigest (q : Question) : Prop := ∀ r, q ≠ .digest r

/-- In the stages of the tools no digest is asked for. -/
theorem asks_resolve_tool (hrule : Rule s dfv name stage r) (hstage : stage ∈ toolStages) :
    (r.resolve ctx).Asks NoDigest := by
  cases hrule with
  | buildVersion | productVersion | baseUrl | checksum => simp [toolStages] at hstage
  | toolRef => exact asks_gated trivial
  | toolUrl | toolChecksum => exact asks_gated (asks_toolAsset fun _ _ => by simp)

theorem asks_steps_tool (plan : Plan) (vars : Variables) (p : Progress) :
    (Progress.steps plan (ofStages plan.settings plan.dockerfileVersion vars toolStages) p).Asks NoDigest := by
  refine asks_steps (fun u hu vars => asks_propose_of_resolve ?_) fun _ _ _ => by simp
  obtain ⟨hu, hstage⟩ := mem_ofStages.1 hu
  exact asks_resolve_tool (rule_of_updaterFor? (mem_updaters.1 hu).2) hstage

/-! ### Manifests that are written for their variables -/

theorem Works.rendered {m' : Manifest} {current final : String}
    (h : Works (rendered path vars) m' name current final) (hplain : Unescaped vars) (hname : name ∈ vars)
    (hcolon : name ≠ ": ") :
    ∃ vars', m' = Manifest.rendered path vars' ∧ Unescaped vars' ∧ ∀ k, k ∈ vars' ↔ k ∈ vars := by
  rcases h with ⟨-, rfl⟩ | hset
  · exact ⟨vars, rfl, hplain, fun _ => Iff.rfl⟩
  · rw [update_rendered_of_mem hplain hcolon hname] at hset
    split_ifs at hset
    · cases hset
    obtain rfl := Option.some.inj (Except.ok.inj hset)
    have hassigned := mem_insert_of_mem hname final
    exact ⟨_, rfl, fun k hk => hplain k ((hassigned k).1 hk), hassigned⟩

theorem prospers_of_yields (hplain : Unescaped vars) (hp : p.manifest = rendered path vars)
    (hus : ∀ u ∈ us, u.variableName ∈ vars ∧ u.variableName ≠ ": ")
    (h : (Progress.steps plan us p).Yields R (p', .ok ())) : Prospers path vars (p', .ok ()) := by
  induction us generalizing p vars with
  | nil =>
    obtain rfl := yields_steps_nil.1 h
    exact ⟨rfl, vars, hp, hplain, fun _ => Iff.rfl⟩
  | cons u us ih =>
    obtain ⟨mid, hstep, hnext⟩ := yields_steps_cons.1 h
    obtain ⟨current, final, -, -, hworks⟩ := step_works hstep
    rw [hp] at hworks
    obtain ⟨hu, hcolon⟩ := hus u (by simp)
    obtain ⟨vars₁, hmid, hplain₁, hmem⟩ := hworks.rendered hplain hu hcolon
    obtain ⟨-, vars', hp', hplain', hmem'⟩ := ih hplain₁ hmid
      (fun w hw => (hus w (by simp [hw])).imp_left (hmem _).2) hnext
    exact ⟨rfl, vars', hp', hplain', fun k => (hmem' k).trans (hmem k)⟩

section

variable {initial : Variables} (hplain : Unescaped initial)

include hplain

theorem regular_rendered : (rendered path initial).Regular := regular_render path initial fun k hk =>
  ⟨fun hc => (hplain k hk _ hc).1 rfl, fun hc => (hplain k hk _ hc).2.1 rfl⟩

/-- What a run leaves is written for its variables. -/
theorem rendered_of_run {e e₁ : Engine} {m₁ : Manifest} {report : Report} {S : (q : Outside) → q.Answer → Prop}
    (h : (e.run ds isTrial (rendered path initial)).Yields S ((m₁, .ok report), e₁)) :
    ∃ first, m₁ = rendered path first ∧ Unescaped first ∧ ∀ k, k ∈ first ↔ k ∈ initial := by
  obtain ⟨dfv', p, hdfv', hsteps, rfl, -⟩ := yields_run (Engine.yields_perform (h.mono fun _ _ _ => trivial))
  obtain ⟨-, first, hp, hplain', hmem⟩ := prospers_of_yields hplain rfl
    (fun u hu => (mem_updaters.1 hu).imp_right ne_colon_of_updaterFor?) hsteps
  exact ⟨first, hp, hplain', hmem⟩

end

/-- Answers by which no lookup of a digest and no write of a file fails. -/
def Granted : (q : Question) → q.Answer → Prop
  | .digest _, (a : Except Failure (Option String)) => ∃ o, a = .ok o
  | .release _, _ => True
  | .save _ _, (a : Except Failure Unit) => a = .ok ()

theorem benign_granted : Benign Granted := ⟨fun _ _ h => h, fun _ _ _ h => h⟩

section

variable {e : Engine} {S : (q : Outside) → q.Answer → Prop}
  (hS : ∀ path text (a : Except Failure Unit), S (.save path text) a → a = .ok ())

include hS

theorem handle_granted {service : Checksum.Service} {known : Findings} {q : Question} (hq : NoDigest q) :
    ((Engine.handle service q).run known).Holds S (fun _ => True) fun y => Granted q y.1 := by
  cases q with
  | digest r => exact absurd rfl (hq r)
  | release k =>
    exact holds_bind (x := Engine.ofReleases _) ((holds_true _).mono fun _ _ => trivial)
  | save path text => exact ⟨trivial, fun a ha => hS path text a ha⟩

/-- **The rest of a run, without digests**, succeeds if every write of the file does. -/
theorem holds_onward (hplain : Unescaped vars) (hp : p.manifest = rendered path vars)
    (hus : ∀ u ∈ us, u.variableName ∈ vars ∧ u.variableName ≠ ": ")
    (hasks : (Progress.steps plan us p).Asks NoDigest) :
    (e.perform (Progress.onward plan us (p, .ok ()))).Holds S (fun _ => True) fun y =>
      ∃ report, y.1.2 = .ok report := by
  have honward : (Progress.onward plan us (p, .ok ())).Holds Granted NoDigest fun y =>
      ∃ report, y.2 = .ok report := by
    refine holds_bind (((holds_steps_rendered benign_granted hplain hp hus).of_asks hasks).mono ?_)
    rintro ⟨p', outcome⟩ ⟨hok, -⟩
    obtain rfl : outcome = .ok () := hok
    exact ⟨_, rfl⟩
  exact holds_bind ((honward.of_perform (I := fun _ => True)
    (fun q known hq _ => (handle_granted hS hq).mono fun _ hy => ⟨hy, trivial⟩) trivial).mono fun _ hy => hy.1)

end

/-! ### The second half -/

section

variable {e e' ê : Engine} {m m' : Manifest} {report : Report} {answer : (q : Outside) → q.Answer}

theorem names_of_stages {stages : List Stage} (hu : u ∈ ofStages s dfv vars stages) :
    u.variableName ∈ vars ∧ u.variableName ≠ ": " :=
  (mem_updaters.1 (mem_ofStages.1 hu).1).imp_right ne_colon_of_updaterFor?

/-- The stages of the tools leave all other variables alone. -/
theorem onward_keeps {R : (q : Outside) → q.Answer → Prop}
    (h : (e.perform (Progress.onward plan (ofStages s dfv vars toolStages) (p, .ok ()))).Yields R
      ((m', .ok report), e')) (hu : updaterFor? s dfv name = some u) (hstage : u.stage ∉ toolStages) :
    m'.vars[name]? = p.manifest.vars[name]? := by
  obtain ⟨⟨p', outcome⟩, hsteps, hdone⟩ := yields_bind.1 (Engine.yields_perform (h.mono fun _ _ _ => trivial))
  obtain ⟨rfl, houtcome⟩ := Prod.mk.inj (yields_pure.1 hdone)
  cases outcome with
  | error f => cases houtcome
  | ok _ =>
    refine steps_keep (fun w hw hname => ?_) hsteps
    obtain ⟨hw, htool⟩ := mem_ofStages.1 hw
    obtain rfl := Option.some.inj ((hname ▸ (mem_updaters.1 hw).2).symm.trans hu)
    exact absurd htool hstage

/-- **A run that has come to the tools** succeeds, and leaves the digests of artifacts as they are by then. -/
theorem result_of_products (hsave : ∀ path text, answer (.save path text) = (.ok () : Except Failure Unit))
    (hdfv : dockerfileVersion e.settings ds = .ok dfv)
    (hproducts : (e.perform (Progress.steps ⟨e.settings, ds, dfv, m.vars, isTrial⟩
      (ofStages e.settings dfv m.vars productStages) ⟨m, [], []⟩)).result answer = ((p, .ok ()), ê))
    (hplain : Unescaped vars) (hp : p.manifest = rendered path vars) (hmem : ∀ k, k ∈ vars ↔ k ∈ m.vars) :
    ∃ m' report e', (e.run ds isTrial m).result answer = ((m', .ok report), e') ∧
      ∀ name u, updaterFor? e.settings dfv name = some u → u.stage = .checksum →
        m'.vars[name]? = p.manifest.vars[name]? := by
  let plan : Plan := ⟨e.settings, ds, dfv, m.vars, isTrial⟩
  have hrest : (ê.perform (Progress.onward plan (ofStages e.settings dfv m.vars toolStages)
      (p, .ok ()))).Holds (fun q a => a = answer q) (fun _ => True) fun y => ∃ report, y.1.2 = .ok report :=
    holds_onward (fun path text a ha => Eq.trans ha (hsave path text)) hplain hp
      (fun u hu => (names_of_stages hu).imp_left (hmem _).2) (asks_steps_tool plan m.vars p)
  rw [Engine.run_cut hdfv updaters_eq_append, result_bind, hproducts]
  obtain ⟨report, hreport⟩ := hrest.result fun _ => rfl
  have hyields := yields_result (R := fun q a => a = answer q) (fun _ => rfl)
    (ê.perform (Progress.onward plan (ofStages e.settings dfv m.vars toolStages) (p, .ok ())))
  generalize (ê.perform _).result answer = y at hreport hyields ⊢
  obtain ⟨⟨m', outcome⟩, e'⟩ := y
  obtain rfl : outcome = .ok report := hreport
  refine ⟨m', report, e', rfl, fun name u hu hstage => onward_keeps hyields hu ?_⟩
  rw [hstage]
  decide

end

end Upkeep.Update
