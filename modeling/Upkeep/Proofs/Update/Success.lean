import Upkeep.Proofs.Inquiry
import Upkeep.Proofs.Manifest.Rendered
import Upkeep.Proofs.Update.Order
import Upkeep.Update.Run

/-!
# Runs that succeed

A run fails when the text refuses a change, when the lookup of a digest fails, or when the file cannot be
written. The text that is written for plain names refuses no change and stays such a text, so over it a run
fails by the other two only.

* `holds_resolve`: **only a lookup of a digest fails a rule**.
* `holds_step_rendered`: one variable of a manifest that was written for its variables.
* `holds_run_unescaped`: **a run over such a manifest** succeeds.
-/

namespace Upkeep.Update

open Inquiry Manifest

/-- Answers by which no lookup of a digest and no write of a file fails. -/
structure Benign (R : (q : Question) → q.Answer → Prop) : Prop where
  digest : ∀ r (a : Except Failure (Option String)), R (.digest r) a → ∃ o, a = .ok o
  save : ∀ path text (a : Except Failure Unit), R (.save path text) a → a = .ok ()

variable {R : (q : Question) → q.Answer → Prop} {s : Settings} {ds : Dependencies} {dfv : String}
  {isTrial : Bool} {ctx : Context} {plan : Plan} {p : Progress} {u : Updater} {path : Option String}
  {vars : Variables}

/-- A finding that is no failure. -/
def Comes (f : Finding) : Prop := ∃ o, f.derived = .ok o

theorem holds_firstDigest_benign (hR : Benign R) {name : String} {request : String → Checksum.Request}
    {d : Dependency} {urls : List String} :
    (firstDigest name request d urls).Holds R (fun _ => True) Comes := by
  induction urls with
  | nil => exact ⟨none, rfl⟩
  | cons url rest ih =>
    refine holds_bind ⟨trivial, fun answer hanswer => ?_⟩
    obtain ⟨o, rfl⟩ := hR.digest _ _ hanswer
    cases o with
    | some digest => exact ⟨_, rfl⟩
    | none => exact holds_bind ih

/-- **Only a lookup of a digest fails a rule.** -/
theorem holds_resolve (hR : Benign R) (r : Resolver) :
    (r.resolve ctx).Holds R (fun _ => True) Comes := by
  induction r with
  | buildVersion product | productVersion product =>
    rw [Resolver.resolve]
    cases ctx.dependency? product <;> exact ⟨_, rfl⟩
  | baseUrl => exact ⟨_, rfl⟩
  | checksum name product os arch =>
    rw [Resolver.resolve]
    cases ctx.dependency? product with
    | none => exact ⟨_, rfl⟩
    | some d => exact holds_firstDigest_benign hR
  | toolRef tool =>
    rw [Resolver.resolve]
    cases ctx.dependencies.get? tool.name <;> exact ⟨_, rfl⟩
  | toolAsset tool arch field =>
    rw [Resolver.resolve]
    cases ctx.dependencies.get? tool.name with
    | none => exact ⟨_, rfl⟩
    | some d =>
      refine holds_bind ⟨trivial, fun (answer : Except Failure (Option Release)) _ => ?_⟩
      rcases answer with e | _ | r
      · exact ⟨_, rfl⟩
      · exact ⟨_, rfl⟩
      · show Comes (inRelease tool arch field d r)
        unfold inRelease
        repeat' split
        all_goals exact ⟨_, rfl⟩
  | gated product inner ih =>
    rw [Resolver.resolve]
    split
    · exact ih
    · exact ⟨_, rfl⟩

theorem holds_propose_benign (hR : Benign R) (hu : u.variableName ∈ ctx.vars) :
    (u.propose ctx).Holds R (fun _ => True) fun r =>
      ∃ proposal, r.2 = .ok proposal ∧ proposal.variableName = u.variableName := by
  obtain ⟨current, hcurrent⟩ :=
    Option.isSome_iff_exists.1 (Std.ExtTreeMap.mem_iff_isSome_getElem?.1 hu)
  unfold Updater.propose
  rw [hcurrent]
  dsimp only
  split_ifs
  · exact ⟨_, rfl, rfl⟩
  · refine holds_bind ((holds_resolve hR u.resolver).mono ?_)
    rintro f ⟨o, ho⟩
    rw [ho]
    refine ⟨_, rfl, ?_⟩
    cases o with
    | none => rfl
    | some r =>
      dsimp only
      split_ifs <;> rfl

/-- Work that succeeds and leaves a manifest that was written for the same names. -/
def Prospers (path : Option String) (vars : Variables) (r : Progress × Except Failure Unit) : Prop :=
  r.2 = .ok () ∧ ∃ vars', r.1.manifest = rendered path vars' ∧ Unescaped vars' ∧
    ∀ k, k ∈ vars' ↔ k ∈ vars

theorem mem_insert_of_mem {name : String} (hname : name ∈ vars) (value k : String) :
    k ∈ vars.insert name value ↔ k ∈ vars := by
  rw [Std.ExtTreeMap.mem_insert]
  refine ⟨?_, .inr⟩
  rintro (heq | hk)
  · rwa [← show name = k by simpa using heq]
  · exact hk

theorem holds_apply_rendered (hR : Benign R) (hplain : Unescaped vars) (hp : p.manifest = rendered path vars)
    {proposal : Proposal} (hname : proposal.variableName ∈ vars) (hcolon : proposal.variableName ≠ ": ") :
    (p.apply plan proposal).Holds R (fun _ => True) (Prospers path vars) := by
  have hassigned := mem_insert_of_mem hname proposal.desired
  have hplain' : Unescaped (vars.insert proposal.variableName proposal.desired) := fun k hk =>
    hplain k ((hassigned k).1 hk)
  unfold Progress.apply
  rw [hp, update_rendered_of_mem hplain hcolon hname]
  by_cases hsame : vars[proposal.variableName]? = some proposal.desired
  · rw [if_pos hsame]
    exact ⟨rfl, vars, hp, hplain, fun _ => Iff.rfl⟩
  · rw [if_neg hsame]
    dsimp only
    split_ifs
    · exact ⟨rfl, _, rfl, hplain', hassigned⟩
    · refine holds_bind ?_
      have hprospers : Prospers path vars (⟨rendered path _, p.changes ++ [proposal.change], p.notes⟩,
          .ok ()) := ⟨rfl, _, rfl, hplain', hassigned⟩
      cases path with
      | none => exact hprospers
      | some file =>
        refine ⟨trivial, fun (answer : Except Failure Unit) hanswer => ?_⟩
        obtain rfl := hR.save _ _ _ hanswer
        exact hprospers

/-- One variable of a manifest that was written for its variables. -/
theorem holds_step_rendered (hR : Benign R) (hplain : Unescaped vars) (hp : p.manifest = rendered path vars)
    (hu : u.variableName ∈ vars) (hcolon : u.variableName ≠ ": ") :
    (p.step plan u).Holds R (fun _ => True) (Prospers path vars) := by
  have hmem : u.variableName ∈ (p.context plan).vars := by
    rw [Progress.context, hp]
    exact hu
  refine holds_bind ((holds_propose_benign hR hmem).mono ?_)
  rintro ⟨notes, outcome⟩ ⟨proposal, hok, hname⟩
  obtain rfl : outcome = .ok proposal := hok
  dsimp only
  split_ifs
  · exact holds_apply_rendered (p := { p with notes := p.notes ++ notes }) hR hplain hp (hname ▸ hu)
      (hname ▸ hcolon)
  · exact ⟨rfl, vars, hp, hplain, fun _ => Iff.rfl⟩

theorem holds_steps_rendered (hR : Benign R) {us : List Updater} (hplain : Unescaped vars)
    (hp : p.manifest = rendered path vars)
    (hus : ∀ u ∈ us, u.variableName ∈ vars ∧ u.variableName ≠ ": ") :
    (Progress.steps plan us p).Holds R (fun _ => True) (Prospers path vars) := by
  induction us generalizing p vars with
  | nil => exact ⟨rfl, vars, hp, hplain, fun _ => Iff.rfl⟩
  | cons u us ih =>
    obtain ⟨hu, hcolon⟩ := hus u (by simp)
    refine holds_bind ((holds_step_rendered hR hplain hp hu hcolon).mono ?_)
    rintro ⟨p', outcome⟩ ⟨hok, vars', hp', hplain', hmem⟩
    obtain rfl : outcome = .ok () := hok
    refine (ih hplain' hp' fun u hu => ?_).mono ?_
    · exact (hus u (by simp [hu])).imp_left (hmem _).2
    rintro r ⟨hr, vars'', hp'', hplain'', hmem'⟩
    exact ⟨hr, vars'', hp'', hplain'', fun k => (hmem' k).trans (hmem k)⟩

/-- No tracked name is what stands between the name and the value of a member. -/
theorem ne_colon_of_updaterFor? {name : String} (h : updaterFor? s dfv name = some u) : name ≠ ": " := by
  rintro rfl
  exact absurd (bar_mem_of_updaterFor? h) (by decide)

/-- **A run over a manifest that was written for its variables** succeeds, unless a lookup of a digest or a
write of the file fails. -/
theorem holds_run_unescaped (hR : Benign R) (hplain : Unescaped vars)
    (hdfv : dockerfileVersion s ds = .ok dfv) :
    (run s ds isTrial (rendered path vars)).Holds R (fun _ => True) fun r =>
      ∃ report, r.2 = .ok report := by
  unfold run
  rw [hdfv]
  have hsteps : (Progress.steps ⟨s, ds, dfv, vars, isTrial⟩ (updaters s dfv vars)
      ⟨rendered path vars, [], []⟩).Holds R (fun _ => True) (Prospers path vars) :=
    holds_steps_rendered hR hplain rfl fun u hu =>
      (mem_updaters.1 hu).imp_right ne_colon_of_updaterFor?
  refine holds_bind (hsteps.mono ?_)
  rintro ⟨p, outcome⟩ ⟨hok, -⟩
  obtain rfl : outcome = .ok () := hok
  exact ⟨_, rfl⟩

theorem holds_run_rendered (hR : Benign R) (hplain : PlainNames vars)
    (hdfv : dockerfileVersion s ds = .ok dfv) :
    (run s ds isTrial (rendered path vars)).Holds R (fun _ => True) fun r =>
      ∃ report, r.2 = .ok report := holds_run_unescaped hR hplain.unescaped hdfv

end Upkeep.Update
