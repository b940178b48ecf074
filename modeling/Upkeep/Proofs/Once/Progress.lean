import Mathlib.Data.List.Perm.Basic
import Mathlib.Logic.Hydra
import Upkeep.Proofs.Once.Protocol

/-!
# Calls that share slots come to an end

A call that waits for a slot waits for the call that is in it, which in turn may wait for another one. Slots
are entered in an order, so these waits lead to a call that can go on. And no call goes on forever. So when no
more calls begin, and all answers arrive, all calls come to an end, whichever goes on next.

* `Inevitably`: a goal that is reached whatever happens.
* `before_wellFounded`: a call gets ahead by all that it does.
* `Inv.exists_continues`: **there is no deadlock**.
* `Inv.inevitably_over`: **all calls come to an end**.
-/

namespace Upkeep.Once

/-- Whatever happens, a goal is reached, and until then something can happen. -/
inductive Inevitably {σ : Type} (next : σ → σ → Prop) (goal : σ → Prop) : σ → Prop where
  | here {x : σ} (h : goal x) : Inevitably next goal x
  | later {x : σ} (hsome : ∃ y, next x y) (h : ∀ y, next x y → Inevitably next goal y) :
      Inevitably next goal x

theorem Inevitably.mono {σ : Type} {next : σ → σ → Prop} {goal goal' : σ → Prop} {x : σ}
    (h : Inevitably next goal x) (hgoal : ∀ y, goal y → goal' y) : Inevitably next goal' x := by
  induction h with
  | here h => exact .here (hgoal _ h)
  | later hsome _ ih => exact .later hsome ih

/-- A goal is reached inevitably when something can happen as long as it is not, and everything that can
happen leads downwards. -/
theorem Inevitably.of_wellFounded {σ : Type} {next below : σ → σ → Prop} {goal I : σ → Prop}
    (hbelow : WellFounded below) (hsome : ∀ x, I x → goal x ∨ ∃ y, next x y)
    (hnext : ∀ x y, I x → next x y → I y ∧ below y x) {x : σ} (hx : I x) :
    Inevitably next (fun y => I y ∧ goal y) x := by
  induction x using hbelow.induction with
  | _ x ih =>
    rcases hsome x hx with hgoal | hy
    · exact .here ⟨hx, hgoal⟩
    · refine .later hy fun y hxy => ?_
      obtain ⟨hI, hlt⟩ := hnext x y hx hxy
      exact ih y hlt hI

variable {L Slot : Type} {Content : Slot → Type} {Q : Type} {A : Q → Type} {α : Type}

/-! ### What a call has still to do -/

/-- What is left of a call after something that it can do. -/
inductive Before : Activity Slot Content Q A α → Activity Slot Content Q A α → Prop where
  | goesOn {q : Question Slot Content Q} {next : Answer A q → Work Slot Content Q A α} (x : Answer A q) :
      Before (.working (next x)) (.working (.ask q next))
  | asks {q : Q} {next : A q → Work Slot Content Q A α} :
      Before (.waiting q next) (.working (.ask (.outside q) next))
  | isTold {q : Q} {next : A q → Work Slot Content Q A α} (x : A q) :
      Before (.working (next x)) (.waiting q next)

/-- **A call gets ahead by all that it does**, since each answer leads into a part of what was left. -/
theorem before_wellFounded :
    WellFounded (Before : Activity Slot Content Q A α → Activity Slot Content Q A α → Prop) := by
  have hworking (w : Work Slot Content Q A α) : Acc Before (Activity.working w) := by
    induction w with
    | done a => exact ⟨_, fun y h => nomatch h⟩
    | ask q next ih =>
      refine ⟨_, fun y h => ?_⟩
      cases h with
      | goesOn x => exact ih x
      | asks =>
        refine ⟨_, fun y h => ?_⟩
        cases h with
        | isTold x => exact ih x
  refine ⟨fun a => ?_⟩
  cases a with
  | working w => exact hworking w
  | waiting q next =>
    refine ⟨_, fun y h => ?_⟩
    cases h with
    | isTold x => exact hworking _

namespace System

variable [DecidableEq Slot] {body : L → Work Slot Content Q A α} {st st' : System L Slot Content Q A α}
  {R : (q : Q) → A q → Prop}

/-- A move by which some call goes on, with answers that a relation allows. -/
def GoesOn (R : (q : Q) → A q → Prop) : Move L Q A → Prop
  | .call _ => False
  | .work _ => True
  | .receive _ answer => ∀ q, R q (answer q)

/-- Some call goes on, and none begins. -/
def Continues (R : (q : Q) → A q → Prop) (body : L → Work Slot Content Q A α)
    (st st' : System L Slot Content Q A α) : Prop :=
  ∃ m, GoesOn R m ∧ st.step body m = some st'

/-- What all calls have still to do. -/
def activities (st : System L Slot Content Q A α) : Multiset (Activity Slot Content Q A α) :=
  ↑(st.calls.map (·.activity))

/-- One call gets ahead, and the others stay where they are. -/
theorem Continues.exists_before (h : st.Continues R body st') :
    ∃ (i : Nat) (c c' : Call L Slot Content Q A α), st.calls[i]? = some c ∧
      st'.calls = st.calls.set i c' ∧ c'.label = c.label ∧ Before c'.activity c.activity := by
  obtain ⟨m, hm, hstep⟩ := h
  cases advance_of_step hstep with
  | call l => exact hm.elim
  | enter hc hw =>
    refine ⟨_, _, _, hc, rfl, rfl, ?_⟩
    rw [hw]
    exact .goesOn (q := .enter _) none
  | @take _ _ _ content _ hc hw =>
    refine ⟨_, _, _, hc, rfl, rfl, ?_⟩
    rw [hw]
    exact .goesOn (q := .enter _) (some content)
  | leave hc hw =>
    refine ⟨_, _, _, hc, rfl, rfl, ?_⟩
    rw [hw]
    exact .goesOn (q := .leave _ _) ()
  | ask hc hw =>
    refine ⟨_, _, _, hc, rfl, rfl, ?_⟩
    rw [hw]
    exact .asks
  | receive answer hc hw =>
    refine ⟨_, _, _, hc, rfl, rfl, ?_⟩
    rw [hw]
    exact .isTold _

theorem Continues.cutExpand (h : st.Continues R body st') :
    Relation.CutExpand Before st'.activities st.activities := by
  obtain ⟨i, c, c', hc, hcalls, -, hbefore⟩ := h.exists_before
  obtain ⟨hi, rfl⟩ := List.getElem?_eq_some_iff.1 hc
  let rest : Multiset (Activity Slot Content Q A α) := ↑((st.calls.eraseIdx i).map (·.activity))
  have hthis : st.activities = {st.calls[i].activity} + rest :=
    Multiset.coe_eq_coe.2 ((List.getElem_cons_eraseIdx_perm hi).symm.map _)
  have hthat : st'.activities = {c'.activity} + rest := by
    rw [activities, hcalls]
    exact Multiset.coe_eq_coe.2 ((List.set_perm_cons_eraseIdx hi c').map _)
  rw [hthis, hthat]
  exact Relation.cutExpand_single_add hbefore rest

theorem Continues.labels (h : st.Continues R body st') :
    st'.calls.map (·.label) = st.calls.map (·.label) := by
  obtain ⟨i, c, c', hc, hcalls, hlabel, -⟩ := h.exists_before
  rw [hcalls, labels_set hc hlabel]

end System

/-! ### Some call can go on -/

namespace Protocol

variable [DecidableEq Slot] {P : Protocol L Slot Content Q A α} {body : L → Work Slot Content Q A α}
  {st st' : System L Slot Content Q A α} {i : Nat} {c : Call L Slot Content Q A α} {s : Slot}

/-- A call that is not over can go on, unless it comes to a slot that another call is in. -/
theorem Inv.continues_or_blocked (h : P.Inv st) (hanswers : ∀ q, ∃ a, P.allowed q a)
    (hc : st.calls[i]? = some c) (hover : c.result? = none) :
    (∃ st', st.Continues P.allowed body st') ∨
      ∃ s j, st.cells s = .busy j ∧ ∀ x ∈ c.held, P.rank s < P.rank x.1 := by
  obtain ⟨seen, hfollows, -⟩ := (h.calls i c hc).follows
  rw [Follows] at hfollows
  have hgo {m : Move L Q A} (hm : System.GoesOn P.allowed m) (hsome : (st.step body m).isSome) :
      ∃ st', st.Continues P.allowed body st' :=
    (Option.isSome_iff_exists.1 hsome).imp fun _ hstep => ⟨m, hm, hstep⟩
  cases hw : c.activity with
  | waiting q next =>
    choose answer hanswer using hanswers
    have hm : System.GoesOn P.allowed (.receive i answer : Move L Q A) := hanswer
    exact .inl (hgo hm (by simp [System.step, hc, hw]))
  | working w =>
    have hm : System.GoesOn P.allowed (.work i : Move L Q A) := trivial
    rw [hw] at hfollows
    cases w with
    | done a => simp [Call.result?, hw] at hover
    | ask q next =>
      cases q with
      | enter s =>
        cases hs : st.cells s with
        | busy j => exact .inr ⟨s, j, hs, hfollows.1⟩
        | empty | full content => exact .inl (hgo hm (by simp [System.step, hc, hw, System.work, hs]))
      | leave s content | outside q => exact .inl (hgo hm (by simp [System.step, hc, hw, System.work]))

/-- When a slot is busy, some call can go on: the one that is in it, or one that it waits for. -/
theorem Inv.continues_of_busy (h : P.Inv st) (hanswers : ∀ q, ∃ a, P.allowed q a)
    (hs : st.cells s = .busy i) : ∃ st', st.Continues P.allowed body st' := by
  induction hn : P.rank s using Nat.strong_induction_on generalizing s i with
  | _ n ih =>
    obtain ⟨c, hc, hmem⟩ := (sound_of_busy hs).1 (h.slots s)
    obtain ⟨x, hx, rfl⟩ := List.mem_map.1 hmem
    have hover : c.result? = none := by
      by_contra hsome
      obtain ⟨a, ha⟩ := Option.ne_none_iff_exists'.1 hsome
      rw [(h.result (List.mem_of_getElem? hc) ha).1] at hx
      cases hx
    rcases h.continues_or_blocked hanswers hc hover with hgo | ⟨t, j, ht, hrank⟩
    · exact hgo
    · exact ih (P.rank t) (hn ▸ hrank x hx) ht rfl

/-- **There is no deadlock**: as long as a call is not over, some call can go on. -/
theorem Inv.exists_continues (h : P.Inv st) (hanswers : ∀ q, ∃ a, P.allowed q a) (hc : c ∈ st.calls)
    (hover : c.result? = none) : ∃ st', st.Continues P.allowed body st' := by
  obtain ⟨i, hi⟩ := List.getElem?_of_mem hc
  rcases h.continues_or_blocked hanswers hi hover with hgo | ⟨s, j, hs, -⟩
  · exact hgo
  · exact h.continues_of_busy hanswers hs

/-- **All calls come to an end**, when no more of them begin. -/
theorem Inv.inevitably_over (h : P.Inv st) (hbody : P.Governs body) (hanswers : ∀ q, ∃ a, P.allowed q a) :
    Inevitably (System.Continues P.allowed body)
      (fun st' => (P.Inv st' ∧ st'.calls.map (·.label) = st.calls.map (·.label)) ∧
        ∀ c ∈ st'.calls, ∃ a, c.result? = some a) st := by
  refine Inevitably.of_wellFounded (InvImage.wf System.activities before_wellFounded.cutExpand)
    (fun st₁ h₁ => ?_) (fun st₁ st₂ h₁ hnext => ?_) ⟨h, rfl⟩
  · by_cases hall : ∀ c ∈ st₁.calls, ∃ a, c.result? = some a
    · exact .inl hall
    · obtain ⟨c, hc, hover⟩ : ∃ c ∈ st₁.calls, c.result? = none := by
        simpa [Option.eq_none_iff_forall_ne_some] using hall
      exact .inr (h₁.1.exists_continues hanswers hc hover)
  · obtain ⟨m, hm, hstep⟩ := id hnext
    have hallows : P.Allows m := by
      cases m with
      | call l | work i => trivial
      | receive i answer => exact hm
    exact ⟨⟨h₁.1.step hbody hallows hstep, hnext.labels.trans h₁.2⟩, hnext.cutExpand⟩

end Protocol

end Upkeep.Once
