import Upkeep.Proofs.Once.Apart
import Upkeep.Proofs.Once.Progress
import Upkeep.Release.Lookup

/-!
# Releases that are looked up side by side

Any number of calls ask for the releases of any keys, in any schedule. The source is asked anew each time, and may
answer or fail as it likes. What it answers once is kept, and a failure is only for the call that asked.

* `Goes`: **what one move does**.
* `Known`: where the calls are, and what they were told.
* `Settled`: what follows once a release has been found out.
* `lookups_shared`: **one lookup of a key at a time, one answer for good, and failures that stay with their calls**;
  and keys that do not matter to one another.
-/

namespace Upkeep.Release

open Once

/-- Calls that share what is found out about releases. -/
abbrev Lookups := System Key Key Content Source Source.Answer (Except Failure (Option Release))

/-- A schedule of such calls. -/
abbrev Moves := List (Move Key Source Source.Answer)

/-- What a call does with the answer to its lookup: it leaves a failure to itself. -/
def settle (k : Key) (a : Source.Answer k) : Lookup (Except Failure (Option Release)) :=
  .ask (.leave k a.toOption) fun _ => .done a

theorem lookup_eq (k : Key) : lookup k = .ask (.enter k) fun
    | some r => .done (.ok r)
    | none => .ask (.outside k) (settle k) := by
  show Inquiry.ask _ _ = Inquiry.ask _ _
  congr 1
  funext x
  cases x with
  | some r => rfl
  | none =>
    show Inquiry.ask _ _ = Inquiry.ask _ _
    congr 1
    funext a
    cases a <;> rfl

variable {moves before : Moves} {st st' st₁ : Lookups} {m : Move Key Source Source.Answer} {k : Key} {i j : Nat}
  {a : Source.Answer k} {r : Option Release}

/-! ### Where a call is -/

/-- A call of a key, by the slots that it is in and what is left of it. -/
abbrev call (k : Key) (held : List (Key × List Key))
    (activity : Activity Key Content Source Source.Answer (Except Failure (Option Release))) :
    Call Key Key Content Source Source.Answer (Except Failure (Option Release)) :=
  ⟨k, held, activity⟩

/-- Where a call is, and what it was told. -/
inductive Stage (told : Nat → (k : Key) → Source.Answer k → Prop) (st : Lookups) (i : Nat) :
    Call Key Key Content Source Source.Answer (Except Failure (Option Release)) → Prop where
  | comes (k : Key) : Stage told st i (call k [] (.working (lookup k)))
  | asks (k : Key) (hs : st.cells k = .busy i) :
      Stage told st i (call k [(k, [])] (.working (.ask (.outside k) (settle k))))
  | waits (k : Key) (hs : st.cells k = .busy i) : Stage told st i (call k [(k, [k])] (.waiting k (settle k)))
  | leaves (k : Key) (a : Source.Answer k) (hs : st.cells k = .busy i) (htold : told i k a) :
      Stage told st i (call k [(k, [k])] (.working (settle k a)))
  | ended (k : Key) (a : Source.Answer k) (hok : ∀ r, a = .ok r → st.cells k = .full r)
      (herror : ∀ e, a = .error e → told i k (.error e)) : Stage told st i (call k [] (.working (.done a)))

/-- Where all calls are, and how what is in the slots was found out. -/
structure Known (told : Nat → (k : Key) → Source.Answer k → Prop) (st : Lookups) : Prop where
  calls : ∀ (i : Nat) c, st.calls[i]? = some c → Stage told st i c
  slots : ∀ k r, st.cells k = .full r → ∃ i, told i k (.ok r)

/-- **What one move does.** -/
inductive Goes (told : Nat → (k : Key) → Source.Answer k → Prop) (st : Lookups) :
    Move Key Source Source.Answer → Lookups → Prop where
  | begins (k : Key) :
      Goes told st (.call k) { st with calls := st.calls ++ [call k [] (.working (lookup k))] }
  | enters {i : Nat} {k : Key} (hc : st.calls[i]? = some (call k [] (.working (lookup k))))
      (hs : st.cells k = .empty) :
      Goes told st (.work i) { st with
        cells := Function.update st.cells k (.busy i)
        calls := st.calls.set i (call k [(k, [])] (.working (.ask (.outside k) (settle k)))) }
  | takes {i : Nat} {k : Key} {r : Option Release}
      (hc : st.calls[i]? = some (call k [] (.working (lookup k)))) (hs : st.cells k = .full r) :
      Goes told st (.work i) { st with calls := st.calls.set i (call k [] (.working (.done (.ok r)))) }
  | asks {i : Nat} {k : Key}
      (hc : st.calls[i]? = some (call k [(k, [])] (.working (.ask (.outside k) (settle k)))))
      (hs : st.cells k = .busy i) :
      Goes told st (.work i) { st with
        calls := st.calls.set i (call k [(k, [k])] (.waiting k (settle k)))
        log := st.log ++ [(some k, k)] }
  | isTold {i : Nat} {k : Key} (answer : (k : Key) → Source.Answer k)
      (hc : st.calls[i]? = some (call k [(k, [k])] (.waiting k (settle k)))) (hs : st.cells k = .busy i) :
      Goes told st (.receive i answer) { st with
        calls := st.calls.set i (call k [(k, [k])] (.working (settle k (answer k)))) }
  | leaves {i : Nat} {k : Key} {a : Source.Answer k}
      (hc : st.calls[i]? = some (call k [(k, [k])] (.working (settle k a)))) (hs : st.cells k = .busy i)
      (htold : told i k a) :
      Goes told st (.work i) { st with
        cells := Function.update st.cells k (a.toOption.elim .empty .full)
        calls := st.calls.set i (call k [] (.working (.done a))) }

theorem goes_of_step {told : Nat → (k : Key) → Source.Answer k → Prop} (h : Known told st)
    (hstep : st.step lookup m = some st') : Goes told st m st' := by
  cases advance_of_step hstep with
  | call k => exact .begins k
  | enter hc hw hs =>
    cases h.calls _ _ hc with
    | comes k =>
      rw [lookup_eq] at hw
      cases hw
      exact .enters hc hs
    | asks | waits | leaves | ended => cases hw
  | take hc hw hs =>
    cases h.calls _ _ hc with
    | comes k =>
      rw [lookup_eq] at hw
      cases hw
      exact .takes hc hs
    | asks | waits | leaves | ended => cases hw
  | leave hc hw =>
    cases h.calls _ _ hc with
    | leaves k a hs htold =>
      cases hw
      exact .leaves hc hs htold
    | comes | asks | waits | ended => cases hw
  | ask hc hw =>
    cases h.calls _ _ hc with
    | asks k hs =>
      cases hw
      exact .asks hc hs
    | comes | waits | leaves | ended => cases hw
  | receive answer hc hw =>
    cases h.calls _ _ hc with
    | waits k hs =>
      cases hw
      exact .isTold answer hc hs
    | comes | asks | leaves | ended => cases hw

/-! ### What calls were told -/

/-- A call waits for the answer to its lookup of a key. -/
def Awaits (st : Lookups) (i : Nat) (k : Key) : Prop :=
  ∃ c next, st.calls[i]? = some c ∧ c.activity = .waiting k next

/-- In a schedule, a call is told the answer to its lookup of a key, in the state `st₁`. -/
def Told (moves : Moves) (st₁ : Lookups) (i : Nat) (k : Key) (a : Source.Answer k) : Prop :=
  Awaits st₁ i k ∧ ∃ before answer after, moves = before ++ .receive i answer :: after ∧
    System.run lookup .start before = some st₁ ∧ answer k = a

theorem Told.append (h : Told moves st₁ i k a) (later : Moves) : Told (moves ++ later) st₁ i k a := by
  obtain ⟨hawaits, before, answer, after, rfl, hrun, ha⟩ := h
  exact ⟨hawaits, before, answer, after ++ later, by simp, hrun, ha⟩

section

variable {told told' : Nat → (k : Key) → Source.Answer k → Prop}
  {c : Call Key Key Content Source Source.Answer (Except Failure (Option Release))}

/-- A call stays where it is while another one goes on. -/
theorem Stage.keep (h : Stage told st j c) (hij : j ≠ i)
    (hframe : ∀ t, st'.cells t = st.cells t ∨ st.cells t = .empty ∨ st.cells t = .busy i)
    (htold : ∀ i k a, told i k a → told' i k a) : Stage told' st' j c := by
  have hbusy {k : Key} (hs : st.cells k = .busy j) : st'.cells k = .busy j := by
    rcases hframe k with hsame | hempty | hother
    · rw [hsame, hs]
    · cases hs.symm.trans hempty
    · cases hs.symm.trans hother
      exact absurd rfl hij
  cases h with
  | comes k => exact .comes k
  | asks k hs => exact .asks k (hbusy hs)
  | waits k hs => exact .waits k (hbusy hs)
  | leaves k a hs ha => exact .leaves k a (hbusy hs) (htold _ _ _ ha)
  | ended k a hok herror =>
    refine .ended k a (fun r hr => ?_) fun e he => htold _ _ _ (herror e he)
    have hfull := hok r hr
    rcases hframe k with hsame | hempty | hother
    · rw [hsame, hfull]
    · cases hfull.symm.trans hempty
    · cases hfull.symm.trans hother

/-- When one call goes on, the others stay where they are. -/
theorem Known.advance (h : Known told st) (htold : ∀ i k a, told i k a → told' i k a)
    {c' : Call Key Key Content Source Source.Answer (Except Failure (Option Release))}
    (hc : st.calls[i]? = some c) (hcalls : st'.calls = st.calls.set i c') (hcall : Stage told' st' i c')
    (hframe : ∀ t, st'.cells t = st.cells t ∨ st.cells t = .empty ∨ st.cells t = .busy i)
    (hslots : ∀ t r, st'.cells t = .full r → st.cells t = .full r ∨ ∃ j, told' j t (.ok r)) :
    Known told' st' where
  calls j d hd := by
    rw [hcalls, Protocol.getElem?_set_iff hc] at hd
    rcases hd with ⟨rfl, rfl⟩ | ⟨hij, hd⟩
    · exact hcall
    · exact (h.calls j d hd).keep (Ne.symm hij) hframe htold
  slots t r hfull := by
    rcases hslots t r hfull with hbefore | hnow
    · obtain ⟨j, hj⟩ := h.slots t r hbefore
      exact ⟨j, htold _ _ _ hj⟩
    · exact hnow

/-- **One move keeps what is known.** -/
theorem Known.step (h : Known told st) (hgoes : Goes told st m st') (htold : ∀ i k a, told i k a → told' i k a)
    (hnow : ∀ i k answer, m = .receive i answer → Awaits st i k → told' i k (answer k)) : Known told' st' := by
  have hupdate {i : Nat} {k : Key} (x : Cell (Option Release)) (hs : st.cells k = .empty ∨ st.cells k = .busy i)
      (t : Key) : Function.update st.cells k x t = st.cells t ∨ st.cells t = .empty ∨ st.cells t = .busy i := by
    by_cases htk : t = k
    · subst htk
      exact .inr hs
    · exact .inl (Function.update_of_ne htk _ _)
  cases hgoes with
  | begins k =>
    refine ⟨fun j d hd => ?_, fun t r hfull => (h.slots t r hfull).imp fun j => htold _ _ _⟩
    rw [List.getElem?_append] at hd
    split_ifs at hd
    · exact (h.calls j d hd).keep (i := j + 1) (by omega) (fun _ => .inl rfl) htold
    · obtain rfl := List.mem_singleton.1 (List.mem_of_getElem? hd)
      exact .comes k
  | @enters i k hc hs =>
    refine h.advance htold hc rfl (.asks k (Function.update_self ..)) (hupdate _ (.inl hs)) fun t r hfull => ?_
    by_cases htk : t = k
    · subst htk
      cases hfull.symm.trans (Function.update_self ..)
    · exact .inl ((Function.update_of_ne htk _ _).symm.trans hfull)
  | @takes i k r hc hs =>
    refine h.advance htold hc rfl (.ended k (.ok r) (fun r' hr' => ?_) nofun) (fun _ => .inl rfl) fun _ _ => .inl
    obtain rfl := Except.ok.inj hr'
    exact hs
  | @asks i k hc hs =>
    exact h.advance htold hc rfl (.waits k hs) (fun _ => .inl rfl) fun _ _ => .inl
  | @isTold i k answer hc hs =>
    have hanswer : told' i k (answer k) := hnow i k answer rfl ⟨_, _, hc, rfl⟩
    exact h.advance htold hc rfl (.leaves k _ hs hanswer) (fun _ => .inl rfl) fun _ _ => .inl
  | @leaves i k a hc hs ha =>
    have hanswer : told' i k a := htold _ _ _ ha
    refine h.advance htold hc rfl (.ended k a (fun r hr => ?_) fun e he => he ▸ hanswer) (hupdate _ (.inr hs))
      fun t r hfull => ?_
    · subst hr
      exact Function.update_self ..
    · by_cases htk : t = k
      · subst htk
        have hfull := (Function.update_self ..).symm.trans hfull
        cases a with
        | error e => cases hfull
        | ok r' =>
          obtain rfl := Cell.full.inj hfull
          exact .inr ⟨i, hanswer⟩
      · exact .inl ((Function.update_of_ne htk _ _).symm.trans hfull)

end

/-- A call that waits has the slot of its key for itself. -/
theorem Known.busy_of_awaits {told : Nat → (k : Key) → Source.Answer k → Prop} (h : Known told st)
    (hi : Awaits st i k) : st.cells k = .busy i := by
  obtain ⟨c, next, hc, hw⟩ := hi
  cases h.calls i c hc with
  | waits l hs =>
    cases hw
    exact hs
  | comes | asks | leaves | ended => cases hw

/-- **What is known after a schedule.** -/
theorem known_run (hrun : System.run lookup .start moves = some st) :
    Known (fun i k a => ∃ st₁, Told moves st₁ i k a) st := by
  induction moves using List.reverseRecOn generalizing st with
  | nil =>
    obtain rfl := Option.some.inj hrun
    constructor <;> simp [System.start]
  | append_singleton moves m ih =>
    rw [run_append] at hrun
    obtain ⟨st₁, hbefore, hlast⟩ := Option.bind_eq_some_iff.1 hrun
    obtain ⟨st₂, hstep, hend⟩ := Option.bind_eq_some_iff.1 hlast
    obtain rfl := Option.some.inj hend
    have hknown := ih hbefore
    refine hknown.step (goes_of_step hknown hstep) (fun i k a htold => htold.imp fun _ h => h.append [m]) ?_
    rintro i k answer rfl hawaits
    exact ⟨st₁, hawaits, moves, answer, [], rfl, hbefore, rfl⟩

/-! ### After a release has been found out -/

/-- A call is over. -/
def Over (st : Lookups) (i : Nat) : Prop := ∃ c a, st.calls[i]? = some c ∧ c.result? = some a

/-- How often the source was asked for a key. -/
def lookups (st : Lookups) (k : Key) : Nat := st.log.countP fun e => e.2 = k

/-- What has been found out about a key is in its slot, or about to be put there. -/
def Found (st : Lookups) (k : Key) (r : Option Release) : Prop :=
  st.cells k = .full r ∨ ∃ i, st.cells k = .busy i ∧
    st.calls[i]? = some (call k [(k, [k])] (.working (settle k (.ok r))))

/-- What follows once a release has been found out, in the state `st₁`: calls of its key that were not over have
that release, and the source is not asked for it again. -/
structure Settled (st₁ : Lookups) (k : Key) (r : Option Release) (st : Lookups) : Prop where
  found : Found st k r
  results : ∀ j c a, st.calls[j]? = some c → c.label = k → c.result? = some a → a = .ok r ∨ Over st₁ j
  lookups : lookups st k = lookups st₁ k

section

variable {told : Nat → (k : Key) → Source.Answer k → Prop}
  {c c' : Call Key Key Content Source Source.Answer (Except Failure (Option Release))}

/-- What has been found out stays when a call goes on that is not about to put it there. -/
theorem Found.keep (h : Found st k r) (hc : st.calls[i]? = some c)
    (hne : c ≠ call k [(k, [k])] (.working (settle k (.ok r)))) (hcalls : st'.calls = st.calls.set i c')
    (hcell : st'.cells k = st.cells k) : Found st' k r := by
  refine h.imp hcell.trans fun ⟨j, hs, hj⟩ => ⟨j, hcell.trans hs, ?_⟩
  rw [hcalls, Protocol.getElem?_set_iff hc]
  refine .inr ⟨?_, hj⟩
  rintro rfl
  exact hne (Option.some.inj (hc.symm.trans hj))

/-- The results stay what they are when one call goes on that is not over, or has the release. -/
theorem Settled.results_set {st₁ : Lookups} (h : Settled st₁ k r st) (hc : st.calls[i]? = some c)
    (hcalls : st'.calls = st.calls.set i c') (hresult : ∀ a, c'.label = k → c'.result? = some a → a = .ok r) :
    ∀ j d a, st'.calls[j]? = some d → d.label = k → d.result? = some a → a = .ok r ∨ Over st₁ j := by
  intro j d a hd hlabel ha
  rw [hcalls, Protocol.getElem?_set_iff hc] at hd
  rcases hd with ⟨-, rfl⟩ | ⟨-, hd⟩
  · exact .inl (hresult a hlabel ha)
  · exact h.results j d a hd hlabel ha

theorem eq_ok_of_settle (h : settle k a = settle k (.ok r)) : a = .ok r := by
  have hleave := (Inquiry.ask.inj h).1
  cases a with
  | error e => cases hleave
  | ok x =>
    cases hleave
    rfl

/-- The slot of the key is not empty. -/
theorem Found.ne_empty (h : Found st k r) : st.cells k ≠ .empty := by
  rcases h with hs | ⟨j, hs, -⟩ <;> simp [hs]

/-- When the slot of the key is busy, this is not with a call that has still to ask. -/
theorem Found.eq_of_busy (h : Found st k r) (hs : st.cells k = .busy i) (hc : st.calls[i]? = some c) :
    c = call k [(k, [k])] (.working (settle k (.ok r))) := by
  rcases h with hfull | ⟨j, hs', hj⟩
  · cases hs.symm.trans hfull
  · obtain rfl := Cell.busy.inj (hs.symm.trans hs')
    exact Option.some.inj (hc.symm.trans hj)

/-- **One move keeps what has been found out.** -/
theorem Settled.step {st₁ : Lookups} (h : Settled st₁ k r st) (hgoes : Goes told st m st') :
    Settled st₁ k r st' := by
  cases hgoes with
  | begins l =>
    refine ⟨?_, fun j d a hd hlabel ha => ?_, h.lookups⟩
    · rcases h.found with hs | ⟨j, hs, hj⟩
      · exact .inl hs
      · refine .inr ⟨j, hs, ?_⟩
        rw [List.getElem?_append_left (List.getElem?_eq_some_iff.1 hj).1, hj]
    · rw [List.getElem?_append] at hd
      split_ifs at hd
      · exact h.results j d a hd hlabel ha
      · obtain rfl := List.mem_singleton.1 (List.mem_of_getElem? hd)
        cases ha
  | @enters i l hc hs =>
    have hlk : k ≠ l := by
      rintro rfl
      exact h.found.ne_empty hs
    exact ⟨h.found.keep hc nofun rfl (Function.update_of_ne hlk _ _), h.results_set hc rfl nofun, h.lookups⟩
  | @takes i l x hc hs =>
    refine ⟨h.found.keep hc nofun rfl rfl, h.results_set hc rfl fun a hlabel ha => ?_, h.lookups⟩
    obtain rfl : l = k := hlabel
    rcases h.found with hfull | ⟨j, hs', -⟩
    · obtain rfl := Cell.full.inj (hs.symm.trans hfull)
      exact (Option.some.inj ha).symm
    · cases hs.symm.trans hs'
  | @asks i l hc hs =>
    have hlk : l ≠ k := by
      rintro rfl
      cases h.found.eq_of_busy hs hc
    refine ⟨h.found.keep hc nofun rfl rfl, h.results_set hc rfl nofun, ?_⟩
    rw [← h.lookups]
    simp [Release.lookups, hlk]
  | @isTold i l answer hc hs =>
    exact ⟨h.found.keep hc nofun rfl rfl, h.results_set hc rfl nofun, h.lookups⟩
  | @leaves i l x hc hs hx =>
    by_cases hlk : l = k
    · subst hlk
      have hcall := h.found.eq_of_busy hs hc
      injection hcall with _ _ hactivity
      injection hactivity with hwork
      obtain rfl := eq_ok_of_settle hwork
      refine ⟨.inl (Function.update_self ..), h.results_set hc rfl fun a _ ha => ?_, h.lookups⟩
      exact (Option.some.inj ha).symm
    · refine ⟨h.found.keep hc ?_ rfl (Function.update_of_ne (Ne.symm hlk) _ _), h.results_set hc rfl ?_, h.lookups⟩
      · intro heq
        exact hlk (congrArg Call.label heq)
      · exact fun a hlabel _ => absurd hlabel hlk

end

/-- **Once a release has been found out**, it stays so. -/
theorem settled_of_told (hrun : System.run lookup .start moves = some st) (htold : Told moves st₁ i k (.ok r)) :
    Settled st₁ k r st := by
  obtain ⟨⟨c, next, hc, hw⟩, before, answer, after, rfl, hbefore, hanswer⟩ := htold
  rw [run_append, hbefore, Option.bind_some] at hrun
  obtain ⟨st₂, hstep, hafter⟩ := Option.bind_eq_some_iff.1 hrun
  have hknown := known_run hbefore
  have hfirst : Settled st₁ k r st₂ := by
    cases goes_of_step hknown hstep with
    | @isTold _ l _ hl hs =>
      obtain rfl := Option.some.inj (hc.symm.trans hl)
      cases hw
      rw [hanswer]
      refine ⟨.inr ⟨i, hs, (Protocol.getElem?_set_iff hc).2 (.inl ⟨rfl, rfl⟩)⟩, fun j d a hd _ ha => ?_, rfl⟩
      rcases (Protocol.getElem?_set_iff hc).1 hd with ⟨rfl, rfl⟩ | ⟨-, hd⟩
      · cases ha
      · exact .inr ⟨d, a, hd, ha⟩
  -- from there on, move by move
  have hlast (after done : Moves) (st₂ : Lookups) (hdone : System.run lookup .start done = some st₂)
      (hsettled : Settled st₁ k r st₂) (hrun : st₂.run lookup after = some st) : Settled st₁ k r st := by
    induction after generalizing done st₂ with
    | nil =>
      obtain rfl := Option.some.inj hrun
      exact hsettled
    | cons m after ih =>
      obtain ⟨st₃, hstep, hrest⟩ := Option.bind_eq_some_iff.1 hrun
      exact ih (done ++ [m]) st₃ (run_concat hdone hstep)
        (hsettled.step (goes_of_step (known_run hdone) hstep)) hrest
  exact hlast after (before ++ [.receive i answer]) st₂ (run_concat hbefore hstep) hfirst hafter

/-! ### All lookups together -/

/-- What a lookup keeps to: in the slot of a key the source is asked for that key. -/
def fetching : Protocol Key Key Content Source Source.Answer (Except Failure (Option Release)) where
  allowed _ _ := True
  fits _ _ := True
  script _ k := [k]
  fallible _ := True
  rank _ := 0
  result _ _ _ := True

theorem governs_fetching : fetching.Governs lookup := by
  intro k
  refine Protocol.obeys_once (by simp) ⟨k, [], [], rfl, List.prefix_rfl, fun a _ => ?_⟩ fun _ _ _ => ⟨rfl, trivial⟩
  exact ⟨[k], rfl, fun _ _ => ⟨.inr trivial, rfl, trivial⟩, fun _ _ => trivial⟩

theorem inv_fetching (hrun : System.run lookup .start moves = some st) : fetching.Inv st :=
  (Protocol.inv_start fetching).run governs_fetching (Protocol.forall_allows fun _ _ _ _ => trivial) hrun

theorem within_lookup (k : Key) : Work.Within (id · = id k) (lookup k) := by
  refine within_once ?_ fun _ => trivial
  rfl

/-- What was asked in the slot of a key are all lookups of that key. -/
theorem lookups_eq (h : fetching.Inv st) (k : Key) : lookups st k = (st.asked k).length := by
  rw [lookups, System.asked, List.length_map, ← List.countP_eq_length_filter]
  refine List.countP_congr fun e he => ?_
  obtain ⟨s, l, hs, hq⟩ := h.log e he
  rw [hs, List.mem_singleton.1 hq]
  simp

/-- What holds of calls that share what is found out, after a schedule. -/
structure Shared (moves : Moves) (st : Lookups) : Prop where
  /-- There are never two lookups of a key in flight. -/
  single : ∀ k i j, Awaits st i k → Awaits st j k → i = j
  /-- When a call has been told whether there is a release, all calls of its key that end later end with that, and
  the source is not asked for the key again. -/
  settled : ∀ st₁ i k r, Told moves st₁ i k (.ok r) → lookups st k = lookups st₁ k ∧
    ∀ j c a, st.calls[j]? = some c → c.label = k → c.result? = some a → ¬ Over st₁ j → a = .ok r
  /-- What a call ends with was told for its key, and a failure was told to the call itself. -/
  told : ∀ (i : Nat) c a, st.calls[i]? = some c → c.result? = some a →
    ∃ j st₁, Told moves st₁ j c.label a ∧ ∀ e, a = .error e → j = i
  /-- The calls of a key end as they do when there are no others, and the source is asked as often for the key. -/
  apart : ∀ k, ∃ stk, System.run lookup .start (only id k [] moves) = some stk ∧
    stk.calls = st.calls.filter (·.label = k) ∧ lookups stk k = lookups st k
  /-- No call waits forever. -/
  ends : Inevitably (System.Continues (fun _ _ => True) lookup)
    (fun st' => st'.calls.map (·.label) = st.calls.map (·.label) ∧
      ∀ c ∈ st'.calls, ∃ a, c.result? = some a) st

/-- **Releases that are looked up side by side**, in any schedule and whatever the source answers: there is one
lookup of a key at a time, what was found out once is the answer for good, a failure is only for the call whose
lookup failed, and the keys do not matter to one another. -/
theorem lookups_shared (hrun : System.run lookup .start moves = some st) : Shared moves st where
  single k i j hi hj := by
    have hi := (known_run hrun).busy_of_awaits hi
    have hj := (known_run hrun).busy_of_awaits hj
    exact Cell.busy.inj (hi.symm.trans hj)
  settled st₁ i k r htold := by
    have hsettled := settled_of_told hrun htold
    exact ⟨hsettled.lookups, fun j c a hc hlabel ha hover =>
      (hsettled.results j c a hc hlabel ha).resolve_right hover⟩
  told i c a hc ha := by
    have hknown := known_run hrun
    cases hknown.calls i c hc with
    | comes | asks | waits | leaves => cases ha
    | ended k a' hok herror =>
      obtain rfl := Option.some.inj ha
      cases a' with
      | error e =>
        obtain ⟨st₁, htold⟩ := herror e rfl
        exact ⟨i, st₁, htold, fun _ _ => rfl⟩
      | ok r =>
        obtain ⟨j, st₁, htold⟩ := hknown.slots k r (hok r rfl)
        exact ⟨j, st₁, htold, nofun⟩
  apart k := by
    obtain ⟨stk, hrunk, hpart⟩ := run_only within_lookup hrun k
    refine ⟨stk, hrunk, hpart.calls, ?_⟩
    rw [lookups_eq (inv_fetching hrunk), lookups_eq (inv_fetching hrun), hpart.asked k rfl]
  ends := ((inv_fetching hrun).inevitably_over governs_fetching fun _ => ⟨.ok none, trivial⟩).mono
    fun _ h => ⟨h.1.2, h.2⟩

/-- A key of some tool. -/
def tagged (tag : String) : Key := ⟨"canonical", "chisel", tag⟩

/-- Two calls of one key and one of another: the first lookup fails, the call that waits takes over, and a later
call finds what it was told. -/
def takenOver : Moves :=
  [.call (tagged "v1.1.0"), .call (tagged "v1.1.0"), .call (tagged "v9.9.9"), .work 0, .work 0, .work 2, .work 2,
    .receive 0 fun _ => .error default, .work 0, .work 1, .work 1, .receive 2 fun _ => .ok none,
    .receive 1 fun _ => .ok (some default), .work 1, .work 2, .call (tagged "v1.1.0"), .work 3]

theorem lookups_shared_takenOver :
    ∃ st, System.run lookup .start takenOver = some st ∧ st.log.length = 3 ∧
      st.calls.map (·.result?) =
        [some (.error default), some (.ok (some default)), some (.ok none), some (.ok (some default))] ∧
      Shared takenOver st := by
  have hrun : (System.run lookup .start takenOver).map (fun st => (st.log.length, st.calls.map (·.result?))) =
      some (3, [some (.error default), some (.ok (some default)), some (.ok none), some (.ok (some default))]) := by
    rfl
  obtain ⟨st, hst, hends⟩ := Option.map_eq_some_iff.1 hrun
  obtain ⟨hlog, hresults⟩ := Prod.mk.inj hends
  exact ⟨st, hst, hlog, hresults, lookups_shared hst⟩

end Upkeep.Release
