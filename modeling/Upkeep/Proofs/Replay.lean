import Upkeep.Proofs.Engine

/-!
# The same work under other answers

Two runs that are told the same are the same. As long as a computation asks only what both worlds answer alike,
it does not matter in which of them it is done; so a run is cut where the answers begin to differ, and only what
comes after has to be compared.

* `Inquiry.Yields.result_eq`: **an outcome by the only answers** is what those answers come to.
* `Inquiry.Holds.of_asks`: what a computation does not ask need not be allowed.
* `Engine.perform_bind`: work in two parts, the second one with what the first has found out.
* `Engine.run_cut`: **a run that is cut** between two of its variables.
-/

namespace Upkeep

namespace Inquiry

variable {Q Q' : Type} {A : Q → Type} {A' : Q' → Type} {α β σ : Type} {R R' : (q : Q) → A q → Prop}
  {P P' : Q → Prop} {x : Inquiry Q A α} {post : α → Prop} {a : α}

theorem result_bind (answer : (q : Q) → A q) (x : Inquiry Q A α) (f : α → Inquiry Q A β) :
    (x >>= f).result answer = (f (x.result answer)).result answer := by
  show (x.bind f).result answer = _
  induction x with
  | done a => rfl
  | ask q next ih => exact ih _

/-- **An outcome by the only answers** that are allowed for what is asked is what those answers come to. -/
theorem Yields.result_eq (answer : (q : Q) → A q) (h : x.Yields R a) (hx : x.Asks P)
    (hR : ∀ q y, P q → R q y → y = answer q) : x.result answer = a := by
  induction h with
  | done a => rfl
  | ask hy _ ih =>
    obtain rfl := hR _ _ hx.1 hy
    exact ih (hx.2 _)

/-- What holds whatever allowed answers a computation gets holds of what one world comes to. -/
theorem Holds.result {answer : (q : Q) → A q} (h : x.Holds R P post) (hR : ∀ q, R q (answer q)) :
    post (x.result answer) := h.of_yields (yields_result hR x)

/-- What a computation does not ask need not be allowed. -/
theorem Holds.of_asks (h : x.Holds R (fun _ => True) post) (hx : x.Asks P) : x.Holds R P post := by
  induction x with
  | done a => exact h
  | ask q next ih => exact ⟨hx.1, fun y hy => ih y (h.2 y hy) (hx.2 y)⟩

/-- What a handler may ask at most bounds what a computation asks by it. -/
theorem Asks.of_perform {answer : (q : Q) → StateT σ (Inquiry Q' A') (A q)} {P' : Q' → Prop}
    (hanswer : ∀ q s, P q → ((answer q).run s).Asks P') (h : x.Asks P) (s : σ) :
    ((x.perform answer).run s).Asks P' := by
  induction x generalizing s with
  | done a => trivial
  | ask q next ih =>
    rw [perform, StateT.run_bind]
    exact (hanswer q s h.1).bind fun r => ih r.1 (h.2 r.1) r.2

end Inquiry

open Update Inquiry

/-! ### Runs that are cut -/

namespace Update

variable {s : Settings} {ds : Dependencies} {dfv : String} {isTrial : Bool} {plan : Plan} {m : Manifest}
  {l r : List Updater} {P : Question → Prop}

/-- The rest of a run, after a part of its variables. -/
def Progress.onward (plan : Plan) (rest : List Updater) :
    Progress × Except Failure Unit → Job (Manifest × Except Failure Report)
  | (p, .ok ()) => do
    let (p, outcome) ← Progress.steps plan rest p
    return (p.manifest, outcome.map fun _ => p.report)
  | (p, .error e) => return (p.manifest, .error e)

theorem steps_cut (l r : List Updater) (p : Progress) : Progress.onward plan (l ++ r) (p, .ok ()) =
    Progress.steps plan l p >>= Progress.onward plan r := by
  induction l generalizing p with
  | nil => rfl
  | cons u l ih =>
    simp only [Progress.onward, List.cons_append, Progress.steps, LawfulMonad.bind_assoc]
    congr 1
    funext x
    obtain ⟨p, e | _⟩ := x
    · rfl
    · exact ih p

/-- **A run that is cut** between two of its variables. -/
theorem run_cut (hdfv : dockerfileVersion s ds = .ok dfv) (hlr : updaters s dfv m.vars = l ++ r) :
    run s ds isTrial m = Progress.steps ⟨s, ds, dfv, m.vars, isTrial⟩ l ⟨m, [], []⟩ >>=
      Progress.onward ⟨s, ds, dfv, m.vars, isTrial⟩ r := by
  rw [← steps_cut, ← hlr, run, hdfv]
  rfl

end Update

namespace Engine

variable {e e' ê : Engine} {α β : Type} {ds : Dependencies} {dfv : String} {isTrial : Bool} {m m' : Manifest}
  {l r : List Updater} {R : (q : Outside) → q.Answer → Prop} {report : Report}

/-- Work in two parts: the second one is done with what the first one has found out. -/
theorem perform_bind (e : Engine) (x : Job α) (f : α → Job β) :
    e.perform (x >>= f) = e.perform x >>= fun y => y.2.perform (f y.1) := by
  simp only [perform, Inquiry.perform_bind, StateT.run_bind, LawfulMonad.bind_assoc, LawfulMonad.pure_bind]

/-- **A run that is cut** between two of its variables. -/
theorem run_cut (hdfv : dockerfileVersion e.settings ds = .ok dfv)
    (hlr : updaters e.settings dfv m.vars = l ++ r) : e.run ds isTrial m =
      e.perform (Progress.steps ⟨e.settings, ds, dfv, m.vars, isTrial⟩ l ⟨m, [], []⟩) >>= fun y =>
        y.2.perform (Progress.onward ⟨e.settings, ds, dfv, m.vars, isTrial⟩ r y.1) := by
  rw [run, Update.run_cut hdfv hlr, perform_bind]

/-- A run that succeeds has succeeded with a part of its variables, and goes on to succeed with the rest. -/
theorem yields_run_cut (hdfv : dockerfileVersion e.settings ds = .ok dfv)
    (hlr : updaters e.settings dfv m.vars = l ++ r)
    (h : (e.run ds isTrial m).Yields R ((m', .ok report), e')) : ∃ p ê,
      (e.perform (Progress.steps ⟨e.settings, ds, dfv, m.vars, isTrial⟩ l ⟨m, [], []⟩)).Yields R
        ((p, .ok ()), ê) ∧
      (ê.perform (Progress.onward ⟨e.settings, ds, dfv, m.vars, isTrial⟩ r (p, .ok ()))).Yields R
        ((m', .ok report), e') := by
  rw [run_cut hdfv hlr] at h
  obtain ⟨⟨⟨p, outcome⟩, ê⟩, hl, hr⟩ := yields_bind.1 h
  cases outcome with
  | error f =>
    obtain ⟨⟨x, findings⟩, hx, hdone⟩ := yields_bind.1 hr
    obtain ⟨hx, -⟩ := Prod.mk.inj (yields_pure.1 hx)
    obtain ⟨hfail, -⟩ := Prod.mk.inj (yields_pure.1 hdone)
    cases (Prod.mk.inj (hfail.trans hx)).2
  | ok _ => exact ⟨p, ê, hl, hr⟩

/-- Whatever is asked of an engine but a release, it asks for no release itself. -/
theorem asks_handle {service : Checksum.Service} {q : Question} (known : Findings)
    (hq : ∀ k, q ≠ .release k) : ((handle service q).run known).Asks fun q => ∀ k, q ≠ .release k := by
  cases q with
  | digest r =>
    refine Asks.bind (x := ofDigests _) ?_ fun _ => trivial
    exact (asks_true _).of_passed fun _ _ => ⟨fun _ => by simp, fun _ => trivial⟩
  | release k => exact absurd rfl (hq k)
  | save path text => exact ⟨fun _ => by simp, fun _ => trivial⟩

theorem asks_perform {t : Job α} (h : t.Asks fun q => ∀ k, q ≠ .release k) :
    (e.perform t).Asks fun q => ∀ k, q ≠ .release k :=
  Asks.bind (h.of_perform (fun _ known hq => asks_handle known hq) e.findings) fun _ => trivial

end Engine

end Upkeep
