import Mathlib.Tactic.Choose
import Upkeep.Proofs.Once.Lead
import Upkeep.Proofs.Once.Protocol
import Upkeep.Proofs.Record

/-!
# A call on its own

When one call goes on and no other, the slots are a memory for it, except for those that it is in. So the call
asks what a computation asks that runs alone, and comes to what that comes to: what can happen to one
computation can happen in some schedule.

* `solo`: one call, with a memory.
* `exists_run_solo`: **what a computation does alone, a call does on its own**.
-/

namespace Upkeep.Once

open Inquiry

variable {L Slot : Type} {Content : Slot → Type} {Q : Type} {A : Q → Type} {α : Type}

/-- What a slot is to the call that goes on: it is in it, or it finds what is remembered. -/
def Cell.of {C : Type} (inside : Bool) (content : Option C) : Cell C :=
  if inside then .busy 0 else content.elim .empty .full

variable [DecidableEq Slot] {P : Protocol L Slot Content Q A α} {body : L → Work Slot Content Q A α} {l : L}
  {R : (q : Q) → A q → Prop} {m m' : Memory Slot Content} {a : α}

/-- One call, with the slots that it is in and a memory. -/
def solo (l : L) (w : Work Slot Content Q A α) (held : List (Slot × List Q)) (m : Memory Slot Content)
    (log : List (Option Slot × Q)) : System L Slot Content Q A α :=
  ⟨fun s => .of (s ∈ held.map (·.1)) (m.get? s), [⟨l, held, .working w⟩], log⟩

section

variable {held rest : List (Slot × List Q)} {log : List (Option Slot × Q)} {s : Slot} {asked : List Q}

omit [DecidableEq Slot] in
theorem mem_held_iff {t : Slot} (hts : t ≠ s) :
    t ∈ ((s, asked) :: rest).map (·.1) ↔ t ∈ rest.map (·.1) := by
  simp [hts]

/-- A call that comes to a slot that it is not in finds what is remembered. -/
theorem step_solo_enter {next : Option (Content s) → Work Slot Content Q A α} (hs : s ∉ held.map (·.1)) :
    (solo l (.ask (.enter s) next) held m log).step body (.work 0) =
      some (solo l (next (m.get? s)) ((m.get? s).elim ((s, []) :: held) fun _ => held) m log) := by
  have hcell : (solo l (.ask (.enter s) next) held m log).cells s = .of false (m.get? s) := by simp [solo, hs]
  have hstep : (solo l (.ask (.enter s) next) held m log).step body (.work 0) =
      (solo l (.ask (.enter s) next) held m log).work 0 ⟨l, held, .working (.ask (.enter s) next)⟩
        (.enter s) next := rfl
  rw [hstep]
  cases hm : m.get? s with
  | some c =>
    rw [hm] at hcell
    simp only [System.work, hcell]
    rfl
  | none =>
    rw [hm] at hcell
    simp only [System.work, hcell]
    show some (System.mk (Function.update _ s (.busy 0)) _ _) = some (System.mk _ _ _)
    congr 2
    funext t
    by_cases hts : t = s
    · subst hts
      simp [Cell.of]
    · rw [Function.update_of_ne hts]
      simp only [solo, Option.elim_none, mem_held_iff hts]

/-- A call that leaves a slot has it remembered. -/
theorem step_solo_leave {content : Option (Content s)} {next : Unit → Work Slot Content Q A α}
    (hs : s ∉ rest.map (·.1)) :
    (solo l (.ask (.leave s content) next) ((s, asked) :: rest) m log).step body (.work 0) =
      some (solo l (next ()) rest (m.put s content) log) := by
  show some (System.mk (Function.update _ s _) _ _) = some (System.mk _ _ _)
  congr 2
  funext t
  by_cases hts : t = s
  · subst hts
    cases content <;> simp [Cell.of, hs]
  · rw [Function.update_of_ne hts, Memory.get_put_of_ne m hts]
    simp only [solo, mem_held_iff hts]

/-- A call that asks from the outside is told. -/
theorem run_solo_ask {q : Q} {next : A q → Work Slot Content Q A α} (x : (q : Q) → A q)
    (moves : List (Move L Q A)) :
    (solo l (.ask (.outside q) next) held m log).run body (.work 0 :: .receive 0 x :: moves) =
      (solo l (next (x q)) (noted q held) m (log ++ [(held.head?.map (·.1), q)])).run body moves := by
  have hnoted : (noted q held).map (·.1) = held.map (·.1) := by cases held <;> rfl
  have hsame : solo l (next (x q)) (noted q held) m (log ++ [(held.head?.map (·.1), q)]) =
      ⟨fun s => .of (s ∈ held.map (·.1)) (m.get? s), [⟨l, noted q held, .working (next (x q))⟩],
        log ++ [(held.head?.map (·.1), q)]⟩ := by
    simp only [solo, hnoted]
  rw [hsame]
  rfl

omit [DecidableEq Slot] in
/-- A slot below those that a call is in is not one of them. -/
theorem notMem_of_rank_lt (h : ∀ h' ∈ held, P.rank s < P.rank h'.1) : s ∉ held.map (·.1) := by
  intro hmem
  obtain ⟨h', hh', rfl⟩ := List.mem_map.1 hmem
  exact Nat.lt_irrefl _ (h h' hh')

/-- Where every question has an answer, one answer can be chosen. -/
theorem exists_answers [DecidableEq Q] (hanswers : ∀ q, ∃ x, R q x) {q : Q} {y : A q} (hy : R q y) :
    ∃ x : (q : Q) → A q, (∀ q', R q' (x q')) ∧ x q = y := by
  choose x hx using hanswers
  refine ⟨Function.update x q y, fun q' => ?_, Function.update_self ..⟩
  by_cases hqq : q' = q
  · subst hqq
    rwa [Function.update_self]
  · rw [Function.update_of_ne hqq]
    exact hx q'

end

/-- **What a computation does alone, a call does on its own.** -/
theorem exists_run_solo [DecidableEq Q] (hfits : ∀ s c, P.fits s c) (hallowed : ∀ q x, P.allowed q x)
    (hanswers : ∀ q, ∃ x, R q x) {post : Post Slot Content Q α} {w : Work Slot Content Q A α}
    {held : List (Slot × List Q)} {seen : List ((s : Slot) × Content s)} {log : List (Option Slot × Q)}
    {exchanges : List ((q : Q) × A q)} (hobeys : P.Obeys l post w held seen)
    (hheld : held.Pairwise fun h h' => P.rank h.1 < P.rank h'.1)
    (hruns : (alone w m).Runs exchanges (a, m')) (hR : ∀ e ∈ exchanges, R e.1 e.2) :
    ∃ moves held' log', (∀ i x, .receive i x ∈ moves → ∀ q, R q (x q)) ∧
      (solo l w held m log).run body moves = some (solo l (.done a) held' m' log') := by
  -- on the computation; the protocol has it enter slots in their order, so it never finds one that it is in
  induction w generalizing held seen log m exchanges with
  | done b =>
    obtain ⟨rfl, heq⟩ := runs_done.1 hruns
    obtain ⟨rfl, rfl⟩ := Prod.mk.inj heq
    exact ⟨[], held, log, by simp, rfl⟩
  | ask q next ih =>
    cases q with
    | enter s =>
      have hs : s ∉ held.map (·.1) := notMem_of_rank_lt hobeys.1
      have hheld' : ((m.get? s).elim ((s, []) :: held) fun _ => held).Pairwise
          fun h h' => P.rank h.1 < P.rank h'.1 := by
        cases m.get? s with
        | none => exact List.pairwise_cons.2 ⟨hobeys.1, hheld⟩
        | some c => exact hheld
      have hnext : ∃ seen', P.Obeys l post (next (m.get? s)) ((m.get? s).elim ((s, []) :: held) fun _ => held)
          seen' := by
        cases m.get? s with
        | none => exact ⟨seen, hobeys.2.2⟩
        | some c => exact ⟨_, hobeys.2.1 c (hfits s c)⟩
      obtain ⟨seen', hobeys'⟩ := hnext
      obtain ⟨moves, held', log', hmoves, hrun⟩ := ih (m.get? s) hobeys' hheld' hruns hR
      refine ⟨.work 0 :: moves, held', log', by simpa using hmoves, ?_⟩
      exact (run_of_step (step_solo_enter hs)).trans hrun
    | leave s content =>
      obtain ⟨asked, rest, rfl, -, -, hnext⟩ := hobeys
      obtain ⟨hrank, hrest⟩ := List.pairwise_cons.1 hheld
      have hs : s ∉ rest.map (·.1) := notMem_of_rank_lt hrank
      obtain ⟨moves, held', log', hmoves, hrun⟩ := ih () hnext hrest hruns hR
      refine ⟨.work 0 :: moves, held', log', by simpa using hmoves, ?_⟩
      exact (run_of_step (step_solo_leave hs)).trans hrun
    | outside q =>
      obtain ⟨s, asked, rest, rfl, -, hnext⟩ := hobeys
      obtain ⟨y, later, rfl, hlater⟩ := runs_ask.1 hruns
      obtain ⟨hy, hthen⟩ := List.forall_mem_cons.1 hR
      obtain ⟨x, hx, rfl⟩ := exists_answers (q := q) (y := y) hanswers hy
      obtain ⟨moves, held', log', hmoves, hrun⟩ := ih (x q) (hnext _ (hallowed q _))
        (List.pairwise_cons.2 (List.pairwise_cons.1 hheld)) hlater hthen
      refine ⟨.work 0 :: .receive 0 x :: moves, held', log', ?_, (run_solo_ask x moves).trans hrun⟩
      intro i x' hmem
      obtain ⟨-, rfl⟩ | hmem : (i = 0 ∧ x' = x) ∨ .receive i x' ∈ moves := by
        simpa using hmem
      · exact hx
      · exact hmoves i x' hmem

/-- What a computation comes to alone, some call comes to in some schedule. -/
theorem exists_run_of_runs [DecidableEq Q] (hbody : P.Governs body) (hfits : ∀ s c, P.fits s c)
    (hallowed : ∀ q x, P.allowed q x) (hanswers : ∀ q, ∃ x, R q x) {exchanges : List ((q : Q) × A q)}
    (hruns : (alone (body l) .empty).Runs exchanges (a, m')) (hR : ∀ e ∈ exchanges, R e.1 e.2) :
    ∃ moves st, (∀ i x, .receive i x ∈ moves → ∀ q, R q (x q)) ∧
      System.run body .start moves = some st ∧ ∃ c ∈ st.calls, c.label = l ∧ c.result? = some a := by
  obtain ⟨moves, held, log, hmoves, hrun⟩ :
      ∃ moves held log, (∀ i x, .receive i x ∈ moves → ∀ q, R q (x q)) ∧
        (solo l (body l) [] .empty []).run body moves = some (solo l (.done a) held m' log) :=
    exists_run_solo hfits hallowed hanswers (hbody l) .nil hruns hR
  have hcall : System.start.step body (.call l) = some (solo l (body l) [] .empty []) := by
    show some (System.mk _ _ _) = some (System.mk _ _ _)
    simp [Cell.of, Memory.empty, System.start]
  refine ⟨.call l :: moves, solo l (.done a) held m' log, ?_, (run_of_step hcall).trans hrun, ?_⟩
  · simpa using hmoves
  · exact ⟨_, List.mem_singleton_self _, rfl, rfl⟩

end Upkeep.Once
