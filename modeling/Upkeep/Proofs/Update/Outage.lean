import Upkeep.Proofs.Update.Halves

/-!
# A run during an outage

When no release can be looked up a run still works on the variables of products, and in the order of the stages it
does that first. Up to the tools it is the run that it would have been with all releases, and what comes after
cannot fail. The digests of artifacts that it has found are known when it is made again, unless the base URL was
changed after they were found.

* `Outage`, `restored`: **what is answered** during an outage, and after it.
* `Engine.yields_perform_remembered`: during an outage an engine tells of releases what it knew of them.
* `Taken.holds_propose_product`: a variable of a product is to keep its value when the run is made again.
* `result_at_once`: **with all releases** the run would have succeeded, with the same digests of artifacts.
* `result_again`: **made again** it succeeds, and keeps the digests of artifacts.
-/

namespace Upkeep

open Update Once Inquiry Manifest

/-- Answers from outside as long as no release can be looked up. -/
def Outage (fetch : (q : Checksum.Source) → q.Answer) : (q : Outside) → q.Answer → Prop
  | .source q, (a : q.Answer) => a = fetch q
  | .release _, (a : Except Failure (Option Release)) => ∃ f, a = .error f
  | .save _ _, (a : Except Failure Unit) => a = .ok ()

/-- Answers from outside when every release can be looked up. -/
def restored (fetch : (q : Checksum.Source) → q.Answer) (source : Release.Key → Option Release) :
    (q : Outside) → q.Answer
  | .source q => fetch q
  | .release k => (.ok (source k) : Except Failure (Option Release))
  | .save _ _ => (.ok () : Except Failure Unit)

theorem released_restored (fetch : (q : Checksum.Source) → q.Answer) (source : Release.Key → Option Release)
    (q : Outside) : Released (fun k => .ok (source k)) q (restored fetch source q) := by
  cases q with
  | source q | save path text => trivial
  | release k => rfl

/-! ### What is told of releases -/

namespace Engine

/-- Answers on releases when none can be looked up: those that are known. -/
def Remembered (m : Release.Findings) : (q : Question) → q.Answer → Prop
  | .release k, (a : Except Failure (Option Release)) => (m.get? k).elim (∃ f, a = .error f) (a = .ok ·)
  | _, _ => True

variable {service : Checksum.Service} {known known' : Findings} {e e' : Engine} {m : Release.Findings}
  {k : Release.Key} {a : Except Failure (Option Release)} {fetch : (q : Checksum.Source) → q.Answer}

theorem remembered_of_known {r : Option Release} (hk : m.get? k = some r) :
    Remembered m (.release k) a ↔ a = .ok r := by
  show (m.get? k).elim _ _ ↔ _
  rw [hk, Option.elim_some]

theorem remembered_of_unknown (hk : m.get? k = none) : Remembered m (.release k) a ↔ ∃ f, a = .error f := by
  show (m.get? k).elim _ _ ↔ _
  rw [hk, Option.elim_none]

theorem handle_remembered {q : Question} {a : q.Answer}
    (h : ((handle service q).run known).Yields (Outage fetch) (a, known')) :
    known'.releases = known.releases ∧ Remembered known.releases q a := by
  cases handled_of_yields h with
  | @release k _ _ hlookup =>
    cases hk : known.releases.get? k with
    | some c =>
      rw [Release.lookup, alone_once_of_filled hk] at hlookup
      obtain ⟨rfl, rfl⟩ := Prod.mk.inj (yields_done.1 hlookup)
      exact ⟨rfl, (remembered_of_known hk).2 rfl⟩
    | none =>
      rw [Release.alone_lookup_of_empty hk] at hlookup
      obtain ⟨y, ⟨f, rfl⟩, hdone⟩ := yields_ask.1 hlookup
      obtain ⟨rfl, rfl⟩ := Prod.mk.inj (yields_done.1 hdone)
      exact ⟨Memory.put_none hk, (remembered_of_unknown hk).2 ⟨f, rfl⟩⟩
  | digest | save => exact ⟨rfl, trivial⟩

/-- **During an outage** an engine finds out nothing about releases, and tells what it knew of them. -/
theorem yields_perform_remembered {α : Type} {t : Job α} {a : α}
    (h : (e.perform t).Yields (Outage fetch) (a, e')) :
    e'.findings.releases = e.findings.releases ∧ t.Yields (Remembered e.findings.releases) a := by
  obtain ⟨findings, hx, rfl⟩ := exists_findings h
  have hhandle (q : Question) (f : Findings) (y : q.Answer) (f' : Findings)
      (hy : ((handle (service e.settings) q).run f).Yields (Outage fetch) (y, f')) :
      f.releases = f'.releases ∧
        ∀ later : Findings, f'.releases = later.releases → Remembered later.releases q y := by
    obtain ⟨hsame, htold⟩ := handle_remembered hy
    exact ⟨hsame.symm, fun later hlater => by rwa [← hlater, hsame]⟩
  obtain ⟨hsame, htold⟩ := hx.of_perform (K := fun f => Remembered f.releases)
    (L := (·.releases = ·.releases)) (fun _ => rfl) (fun _ _ _ => .trans) hhandle
  exact ⟨hsame.symm, hsame ▸ htold⟩

end Engine

namespace Update

variable {R : (q : Question) → q.Answer → Prop} {s : Settings} {ds : Dependencies} {dfv name k : String}
  {isTrial : Bool} {u : Updater} {initial final seen : Variables} {path : Option String} {stage : Stage}
  {r : Resolver}

/-! ### Digests that are looked for again -/

section

variable {known : String → Option (Option String)} {releases : Release.Key → Except Failure (Option Release)}

/-- In the stages of the products a rule comes to the value that it came to before, if it looks for a digest
under the same base URL. -/
theorem findsAgain_product (hR : FromKnown R known) (hrule : Rule s dfv name stage r)
    (hstage : stage ∈ productStages)
    (hbase : stage = .checksum →
      Context.baseUrl ⟨s, ds, dfv, seen, initial⟩ = Context.baseUrl ⟨s, ds, dfv, final, final⟩)
    {finding : Finding} {o : Option DerivedValue}
    (h : (r.resolve ⟨s, ds, dfv, seen, initial⟩).Yields R finding) (ho : finding.derived = .ok o) :
    FindsAgain known releases ⟨s, ds, dfv, final, final⟩ r o := by
  cases hrule with
  | buildVersion | productVersion | baseUrl => exact findsAgain_of_pure rfl rfl h ho
  | checksum => exact findsAgain_checksum hR (hbase rfl) h ho
  | toolRef | toolUrl | toolChecksum => simp [productStages] at hstage

namespace Taken

section

variable (h : Taken R ⟨s, ds, dfv, initial, isTrial⟩ (updaters s dfv initial) initial final)

include h

/-- What is read when a run comes to a digest is what is read in the end, unless it was disturbed. -/
theorem seen_value_eq_of_undisturbed (hseen : Seen s dfv initial final seen u) (hu : u.stage = .checksum)
    (hk : Undisturbed s dfv initial final k) : seen.value k = final.value k := by
  refine Variables.value_congr fun j hj => ?_
  by_cases hbefore : ∃ w ∈ updaters s dfv initial, w.Precedes u ∧ w.variableName = j
  · obtain ⟨w, hw, hprec, rfl⟩ := hbefore
    exact hseen.taken w hw hprec
  · rw [hseen.waiting j fun w hw hprec hname => hbefore ⟨w, hw, hprec, hname⟩]
    by_contra hne
    -- otherwise it was changed from the stage of the digests on
    obtain ⟨w, hw, rfl⟩ := h.exists_updater (Ne.symm hne)
    have hlate : w.stage ∈ lateStages := by
      refine mem_lateStages_of_rank (hu ▸ ?_)
      exact not_lt.1 fun hlt => hbefore ⟨w, hw, .inl hlt, rfl⟩
    exact hne (hk w hw hlate hj).symm

/-- A variable of a product is to keep its value in the run after. -/
theorem holds_propose_product (hR : FromKnown R known) (hu : u ∈ updaters s dfv initial)
    (hstage : u.stage ∈ productStages) (hk : Undisturbed s dfv initial final (baseUrlName s dfv)) :
    (u.propose ⟨s, ds, dfv, final, final⟩).Holds (Engine.Recalled known releases)
      (Engine.Settled known) fun r =>
      ∃ proposal, r.2 = .ok proposal ∧ ¬ proposal.alters := by
  obtain ⟨v, seen, w, -, hseen, hends, hfinal⟩ := h.ends_of_mem hu
  refine holds_propose_of_ends hfinal hends fun finding o hfinding ho =>
    findsAgain_product hR (rule_of_updaterFor? (mem_updaters.1 hu).2) hstage (fun hchecksum => ?_) hfinding ho
  rw [baseUrl_eq_value, baseUrl_eq_value, h.seen_value_eq_of_undisturbed hseen hchecksum hk]

end

end Taken

end

/-! ### The run that is interrupted, and the one after it -/

section

variable {e e₁ : Engine} {m₁ : Manifest} {report : Report} {fetch : (q : Checksum.Source) → q.Answer}
  (fetch' : (q : Checksum.Source) → q.Answer) (source : Release.Key → Option Release) (hplain : Unescaped initial)
  (h : (e.run ds isTrial (rendered path initial)).Yields (Outage fetch) ((m₁, .ok report), e₁))
  (hdfv : dockerfileVersion e.settings ds = .ok dfv)

include hplain h hdfv

/-- **At once**: with all releases the run succeeds, and finds the same digests of artifacts. -/
theorem result_at_once : ∃ clean report' e',
    (e.run ds isTrial (rendered path initial)).result (restored fetch source) = ((clean, .ok report'), e') ∧
      ∀ name u, updaterFor? e.settings dfv name = some u → u.stage = .checksum →
        clean.vars[name]? = m₁.vars[name]? := by
  obtain ⟨p, ê, hproducts, hrest⟩ := Engine.yields_run_cut hdfv updaters_eq_append h
  -- up to the tools nothing is asked that is answered in another way
  have hsame := hproducts.result_eq (restored fetch source)
    (Engine.asks_perform (asks_steps_product _ _ _)) fun q y hq hy => by
      cases q with
      | source q | save path text => exact hy
      | release k => exact absurd rfl (hq k)
  obtain ⟨-, vars, hp, hplain', hmem⟩ := prospers_of_yields hplain rfl (fun u hu => names_of_stages hu)
    (Engine.yields_perform (hproducts.mono fun _ _ _ => trivial))
  obtain ⟨clean, report', e', hclean, hkept⟩ := result_of_products (fun _ _ => rfl) hdfv hsame hplain' hp hmem
  refine ⟨clean, report', e', hclean, fun name u hu hstage => ?_⟩
  rw [hkept name u hu hstage, onward_keeps hrest hu (by rw [hstage]; decide)]

/-- **Again**: unless the base URL was disturbed, the run that is made again succeeds, and keeps the digests of
artifacts. -/
theorem result_again (hbase : Undisturbed e.settings dfv initial m₁.vars (baseUrlName e.settings dfv)) :
    ∃ m₂ report' e₂, (e₁.run ds isTrial m₁).result (restored fetch' source) = ((m₂, .ok report'), e₂) ∧
      ∀ name u, updaterFor? e.settings dfv name = some u → u.stage = .checksum →
        m₂.vars[name]? = m₁.vars[name]? := by
  obtain ⟨first, rfl, hplain', hmem⟩ := rendered_of_run hplain h
  have hsettings : e₁.settings = e.settings := Engine.settings_of_perform h
  obtain ⟨dfv', hdfv', htaken⟩ := run_taken (regular_rendered hplain)
    (Engine.yields_perform (h.mono fun _ _ _ => trivial))
  obtain rfl := Except.ok.inj (hdfv.symm.trans hdfv')
  -- the variables of the products are all to keep their values
  have hproducts : (e₁.perform (Progress.steps ⟨e₁.settings, ds, dfv, first, isTrial⟩
      (ofStages e₁.settings dfv first productStages) ⟨rendered path first, [], []⟩)).Holds
      (Released fun k => .ok (source k)) Engine.IsRelease fun y => Leaves ⟨rendered path first, [], []⟩ y.1 := by
    refine Engine.holds_perform (holds_steps fun u hu => ?_)
    rw [hsettings] at hu ⊢
    obtain ⟨hu, hstage⟩ := mem_ofStages.1 hu
    have hu' : u ∈ updaters e.settings dfv initial :=
      mem_updaters.2 ((mem_updaters.1 hu).imp_left (hmem _).1)
    exact htaken.holds_propose_product (fun _ o ho => ho o rfl) hu' hstage hbase
  obtain ⟨hok, hp, -⟩ := hproducts.result (released_restored fetch' source)
  generalize hy : Inquiry.result _ _ = y at hok hp
  obtain ⟨⟨p, outcome⟩, ê⟩ := y
  obtain rfl : outcome = .ok () := hok
  obtain ⟨m₂, report', e₂, hagain, hkept⟩ := result_of_products (m := rendered path first) (fun _ _ => rfl)
    (hsettings ▸ hdfv) hy hplain' hp fun _ => Iff.rfl
  refine ⟨m₂, report', e₂, hagain, fun name u hu hstage => ?_⟩
  rw [hkept name u (hsettings ▸ hu) hstage, hp]

end

end Update

end Upkeep
