import Upkeep.Proofs.Inquiry
import Upkeep.Update.Run

/-!
# One variable of a run

All that a run can do at a variable when it does not fail there. What holds along a whole run is shown from
this, one variable after the other.

* `step_cases`: **one variable**.
* `yields_steps_cons`, `yields_steps_append`: a run over a part of its variables, then over the rest.
-/

namespace Upkeep.Update

open Inquiry

variable {R : (q : Question) → q.Answer → Prop} {plan : Plan} {p p' : Progress} {u : Updater}
  {us l r : List Updater}

/-- A change is declined by the text and all stays as it is, or it is made and listed. -/
theorem apply_cases {proposal : Proposal} (h : (p.apply plan proposal).Yields R (p', .ok ())) :
    p.manifest.update proposal.variableName proposal.desired = .ok none ∧ p' = p ∨
      ∃ m, p.manifest.update proposal.variableName proposal.desired = .ok (some m) ∧
        p' = { p with manifest := m, changes := p.changes ++ [proposal.change] } := by
  unfold Progress.apply at h
  split at h
  · cases (Prod.mk.inj (yields_pure.1 h)).2
  · rename_i hnone
    exact .inl ⟨hnone, (Prod.mk.inj (yields_pure.1 h)).1⟩
  · rename_i m hm
    refine .inr ⟨m, hm, ?_⟩
    dsimp only at h
    split at h
    · exact (Prod.mk.inj (yields_pure.1 h)).1
    · -- whether the file is written tells nothing of the progress
      obtain ⟨saved, -, hdone⟩ := yields_bind.1 h
      exact (Prod.mk.inj (yields_pure.1 hdone)).1

/-- **One variable.** The notes of its rule are kept. It has the value already or the text declines the
change, and nothing else happens; or it is updated, and the change is listed. -/
theorem step_cases (h : (p.step plan u).Yields R (p', .ok ())) :
    ∃ notes proposal, (u.propose (p.context plan)).Yields R (notes, .ok proposal) ∧
      ((proposal.desired = proposal.current ∨
          p.manifest.update proposal.variableName proposal.desired = .ok none) ∧
        p' = { p with notes := p.notes ++ notes } ∨
      ∃ m, proposal.alters ∧
        p.manifest.update proposal.variableName proposal.desired = .ok (some m) ∧
        p' = ⟨m, p.changes ++ [proposal.change], p.notes ++ notes⟩) := by
  obtain ⟨⟨notes, outcome⟩, hpropose, hnext⟩ := yields_bind.1 h
  cases outcome with
  | error e => cases (Prod.mk.inj (yields_pure.1 hnext)).2
  | ok proposal =>
    refine ⟨notes, proposal, hpropose, ?_⟩
    dsimp only at hnext
    split at hnext
    · rename_i halters
      rcases apply_cases hnext with ⟨hnone, hp⟩ | ⟨m, hm, hp⟩
      · exact .inl ⟨.inr hnone, hp⟩
      · exact .inr ⟨m, halters, hm, hp⟩
    · rename_i halters
      have hsame : proposal.desired = proposal.current := by
        simpa [Proposal.alters] using halters
      exact .inl ⟨.inl hsame, (Prod.mk.inj (yields_pure.1 hnext)).1⟩

theorem yields_steps_nil : (Progress.steps plan [] p).Yields R (p', .ok ()) ↔ p' = p := by
  simp [Progress.steps]

theorem yields_steps_cons : (Progress.steps plan (u :: us) p).Yields R (p', .ok ()) ↔
    ∃ mid, (p.step plan u).Yields R (mid, .ok ()) ∧
      (Progress.steps plan us mid).Yields R (p', .ok ()) := by
  rw [Progress.steps, yields_bind]
  constructor
  · rintro ⟨⟨mid, outcome⟩, hstep, hnext⟩
    cases outcome with
    | error e => cases (Prod.mk.inj (yields_pure.1 hnext)).2
    | ok _ => exact ⟨mid, hstep, hnext⟩
  · rintro ⟨mid, hstep, hnext⟩
    exact ⟨(mid, .ok ()), hstep, hnext⟩

theorem yields_steps_append : (Progress.steps plan (l ++ r) p).Yields R (p', .ok ()) ↔
    ∃ mid, (Progress.steps plan l p).Yields R (mid, .ok ()) ∧
      (Progress.steps plan r mid).Yields R (p', .ok ()) := by
  induction l generalizing p with
  | nil => simp [yields_steps_nil]
  | cons u l ih =>
    simp only [List.cons_append, yields_steps_cons, ih]
    constructor
    · rintro ⟨next, hstep, mid, hl, hr⟩
      exact ⟨mid, ⟨next, hstep, hl⟩, hr⟩
    · rintro ⟨mid, ⟨next, hstep, hl⟩, hr⟩
      exact ⟨next, hstep, mid, hl, hr⟩

end Upkeep.Update
