import Upkeep.Proofs.Once.Pact

/-!
# The call that leads

Calls that are about the same thing begin with the same slot. The first of them that goes on finds it empty and
is to fill it; as long as such a slot is never left empty, no other call ever finds it empty again. So one call
leads, and the others take what it found.

* `worked`: the calls in the order in which they go on.
* `lead?`: **the call that leads**.
* `Led.step`: what is known of the calls that have gone on.
* `Kept.run_led`: **only the call that leads comes to the empty slot**.
-/

namespace Upkeep.Once

variable {L Slot K : Type} {Content : Slot → Type} {Q : Type} {A : Q → Type} {α : Type}

/-- The calls that begin. -/
def begun (moves : List (Move L Q A)) : List L :=
  moves.filterMap fun
    | .call l => some l
    | _ => none

/-- The calls in the order in which they go on, each time that they do; `ls` have begun before. -/
def worked (ls : List L) : List (Move L Q A) → List L
  | [] => []
  | .call l :: moves => worked (ls ++ [l]) moves
  | .work i :: moves => ls[i]?.toList ++ worked ls moves
  | .receive _ _ :: moves => worked ls moves

/-- **The call that leads**: the first of its kind that goes on. -/
def lead? [DecidableEq K] (key : L → K) (moves : List (Move L Q A)) (k : K) : Option L :=
  (worked [] moves).find? (key · = k)

theorem begun_append (moves moves' : List (Move L Q A)) :
    begun (moves ++ moves') = begun moves ++ begun moves' :=
  List.filterMap_append

theorem worked_append (ls : List L) (moves moves' : List (Move L Q A)) :
    worked ls (moves ++ moves') = worked ls moves ++ worked (ls ++ begun moves) moves' := by
  induction moves generalizing ls with
  | nil => simp [worked, begun]
  | cons m moves ih =>
    cases m with
    | call l => simp [worked, begun, ih]
    | work i => simp [worked, begun, ih]
    | receive i answer => simp [worked, begun, ih]

/-- Only calls that have begun go on. -/
theorem mem_begun_of_mem_worked {ls : List L} {moves : List (Move L Q A)} {l : L}
    (h : l ∈ worked ls moves) : l ∈ ls ++ begun moves := by
  induction moves generalizing ls with
  | nil => cases h
  | cons m moves ih =>
    cases m with
    | call l' => simpa [worked, begun] using ih h
    | receive i answer => simpa [worked, begun] using ih h
    | work i =>
      rcases List.mem_append.1 h with h | h
      · exact List.mem_append_left _ (List.mem_of_getElem? (Option.mem_toList.1 h))
      · simpa [begun] using ih h

variable [DecidableEq Slot] {body : L → Work Slot Content Q A α} {st st' : System L Slot Content Q A α}
  {m : Move L Q A} {moves moves' : List (Move L Q A)}

theorem run_append : st.run body (moves ++ moves') = (st.run body moves).bind (·.run body moves') := by
  induction moves generalizing st with
  | nil => rfl
  | cons m moves ih =>
    rw [List.cons_append, System.run, System.run, Option.bind_assoc]
    congr 1
    funext st₁
    exact ih

theorem run_of_step {st₁ : System L Slot Content Q A α} (h : st.step body m = some st₁) :
    st.run body (m :: moves) = st₁.run body moves := by
  rw [System.run, h, Option.bind_some]

theorem run_concat {st₁ st₂ : System L Slot Content Q A α} (h : st.run body moves = some st₁)
    (hstep : st₁.step body m = some st₂) : st.run body (moves ++ [m]) = some st₂ := by
  rw [run_append, h, Option.bind_some, run_of_step hstep, System.run]

/-- A call keeps its label. -/
theorem labels_of_step (h : st.step body m = some st') :
    st'.calls.map (·.label) = st.calls.map (·.label) ++ begun [m] := by
  cases advance_of_step h with
  | call l => simp [begun]
  | enter hc | take hc | leave hc | ask hc => simpa [begun] using labels_set hc rfl
  | receive answer hc => simpa [begun] using labels_set hc rfl

theorem labels_of_run (h : st.run body moves = some st') :
    st'.calls.map (·.label) = st.calls.map (·.label) ++ begun moves := by
  induction moves generalizing st with
  | nil =>
    obtain rfl := Option.some.inj h
    simp [begun]
  | cons m moves ih =>
    obtain ⟨st₁, hstep, hrest⟩ := Option.bind_eq_some_iff.1 h
    rw [ih hrest, labels_of_step hstep, List.append_assoc, ← begun_append, List.singleton_append]

theorem labels_of_run_start (h : System.run body .start moves = some st) :
    st.calls.map (·.label) = begun moves :=
  labels_of_run h

/-- Every call begins with the slot of its kind. -/
def Begins (body : L → Work Slot Content Q A α) (key : L → K) (slot : K → Slot) : Prop :=
  ∀ l, ∃ next, body l = .ask (.enter (slot (key l))) next

/-- What is known of the calls that have gone on: all others have everything before them, and the slot of one
that has gone on is not empty. -/
structure Led (body : L → Work Slot Content Q A α) (key : L → K) (slot : K → Slot) (past : List L)
    (st : System L Slot Content Q A α) : Prop where
  calls : ∀ c ∈ st.calls, c.activity = .working (body c.label) ∨ c.label ∈ past
  cells : ∀ l ∈ past, st.cells (slot (key l)) ≠ .empty

variable {key : L → K} {slot : K → Slot} {past : List L} {P : Pact L Slot Content Q A α}

omit [DecidableEq Slot] in
/-- A call has gone on. -/
theorem Led.advance (h : Led body key slot past st) {past' : List L} (hpast : past ⊆ past') {i : Nat}
    {c : Call L Slot Content Q A α} (hc : c.label ∈ past') {cells : (s : Slot) → Cell (Content s)}
    {log : List (Option Slot × Q)} (hcells : ∀ l ∈ past', cells (slot (key l)) ≠ .empty) :
    Led body key slot past' ⟨cells, st.calls.set i c, log⟩ where
  calls d hd := by
    rcases List.mem_or_eq_of_mem_set hd with hd | rfl
    · exact (h.calls d hd).imp_right (@hpast _)
    · exact .inr hc
  cells := hcells

omit [DecidableEq Slot] in
/-- A call that goes on with anything but a slot to enter has gone on before. -/
theorem Led.mem_past (h : Led body key slot past st) (hbegins : Begins body key slot) {i : Nat}
    {c : Call L Slot Content Q A α} (hc : st.calls[i]? = some c)
    (hactivity : ∀ s next, c.activity ≠ .working (.ask (.enter s) next)) : c.label ∈ past := by
  refine (h.calls c (List.mem_of_getElem? hc)).resolve_left fun hfirst => ?_
  obtain ⟨next, hbody⟩ := hbegins c.label
  exact hactivity _ next (hfirst.trans (congrArg _ hbody))

omit [DecidableEq Slot] in
/-- A call that enters a slot has gone on before, or this is the slot of its kind. -/
theorem Led.enters (h : Led body key slot past st) (hbegins : Begins body key slot) {i : Nat}
    {c : Call L Slot Content Q A α} {s : Slot} {next : Option (Content s) → Work Slot Content Q A α}
    (hc : st.calls[i]? = some c) (hw : c.activity = .working (.ask (.enter s) next)) :
    s = slot (key c.label) ∨ c.label ∈ past := by
  refine (h.calls c (List.mem_of_getElem? hc)).imp_left fun hfirst => ?_
  obtain ⟨next', hbody⟩ := hbegins c.label
  rw [hw, hbody] at hfirst
  injections

/-- **What is known of the calls that have gone on** is kept by every move, as long as no call leaves the slot of
its kind empty. -/
theorem Led.step (h : Led body key slot past st) (hkept : P.Kept st) (hbegins : Begins body key slot)
    (hfails : ∀ k, ¬ P.fails (slot k)) (hstep : st.step body m = some st') :
    Led body key slot (past ++ worked (st.calls.map (·.label)) [m]) st' := by
  have hworked {i : Nat} {c : Call L Slot Content Q A α} (hc : st.calls[i]? = some c) :
      worked (st.calls.map (·.label)) [(.work i : Move L Q A)] = [c.label] := by
    simp [worked, hc]
  cases advance_of_step hstep with
  | call l =>
    refine ⟨fun d hd => ?_, fun l' hl' => h.cells l' (by simpa [worked] using hl')⟩
    rcases List.mem_append.1 hd with hd | hd
    · exact (h.calls d hd).imp_right (List.mem_append_left _)
    · rw [List.mem_singleton.1 hd]
      exact .inl rfl
  | @enter i c s next hc hw hs =>
    rw [hworked hc]
    refine h.advance (List.subset_append_left ..) (by simp) fun l hl => ?_
    by_cases hls : slot (key l) = s
    · rw [hls, Function.update_self]
      simp
    · rw [Function.update_of_ne hls]
      rcases List.mem_append.1 hl with hl | hl
      · exact h.cells l hl
      · obtain rfl := List.mem_singleton.1 hl
        exact h.cells _ ((h.enters hbegins hc hw).resolve_left (Ne.symm hls))
  | @take i c s content next hc hw hs =>
    rw [hworked hc]
    refine h.advance (List.subset_append_left ..) (by simp) ?_
    refine List.forall_mem_append.2 ⟨h.cells, List.forall_mem_singleton.2 ?_⟩
    rcases h.enters hbegins hc hw with rfl | hpast
    · rw [hs]
      simp
    · exact h.cells _ hpast
  | @leave i c s content next hc hw =>
    have hpast := h.mem_past hbegins hc fun _ _ heq => by cases hw.symm.trans heq
    have hgrants : P.Grants (.leave s content : Question Slot Content Q) := by
      have habides := hkept.calls c (List.mem_of_getElem? hc)
      rw [Pact.Abides, hw] at habides
      exact habides.1
    rw [hworked hc]
    refine h.advance (List.subset_append_left ..) (by simp) fun l hl => ?_
    have hl : l ∈ past := by
      rcases List.mem_append.1 hl with hl | hl
      · exact hl
      · rwa [List.mem_singleton.1 hl]
    by_cases hls : slot (key l) = s
    · subst hls
      rw [Function.update_self]
      cases content with
      | none => exact absurd hgrants (hfails _)
      | some x => simp
    · rw [Function.update_of_ne hls]
      exact h.cells l hl
  | @ask i c q next hc hw =>
    have hpast := h.mem_past hbegins hc fun _ _ heq => by cases hw.symm.trans heq
    rw [hworked hc]
    refine h.advance (List.subset_append_left ..) (by simp) ?_
    exact List.forall_mem_append.2 ⟨h.cells, List.forall_mem_singleton.2 (h.cells _ hpast)⟩
  | @receive i c q next answer hc hw =>
    have hpast := h.mem_past hbegins hc fun _ _ heq => by cases hw.symm.trans heq
    rw [show worked (st.calls.map (·.label)) [(.receive i answer : Move L Q A)] = [] from rfl, List.append_nil]
    refine h.advance (List.Subset.refl _) ?_ h.cells
    exact hpast

/-- **Only the call that leads comes to the empty slot.** So when that is all that a pact asks of the calls that
come to empty slots, it is kept in all schedules. -/
theorem Pact.Kept.run_led [DecidableEq K] (hbody : P.Governs body) (hbegins : Begins body key slot)
    (hfails : ∀ k, ¬ P.fails (slot k))
    (hopens : ∀ l s, (s = slot (key l) → lead? key moves (key l) = some l) → P.opens l s)
    (hmoves : ∀ m ∈ moves, P.Allows m) (hrun : System.run body .start moves = some st) : P.Kept st := by
  -- the invariant along the schedule, by what has gone on before
  have hrest (moves' : List (Move L Q A)) (past : List L) (st₀ : System L Slot Content Q A α)
      (hled : Led body key slot past st₀) (hkept : P.Kept st₀) (hmoves' : ∀ m ∈ moves', P.Allows m)
      (hpast : past ++ worked (st₀.calls.map (·.label)) moves' = worked [] moves)
      (hrun' : st₀.run body moves' = some st) : P.Kept st := by
    induction moves' generalizing past st₀ with
    | nil =>
      obtain rfl := Option.some.inj hrun'
      exact hkept
    | cons m ms ih =>
      obtain ⟨st₁, hstep, hrun₁⟩ := Option.bind_eq_some_iff.1 hrun'
      have hsplit : worked (st₀.calls.map (·.label)) (m :: ms) =
          worked (st₀.calls.map (·.label)) [m] ++ worked (st₁.calls.map (·.label)) ms := by
        rw [← List.singleton_append, worked_append, labels_of_step hstep]
      rw [hsplit, ← List.append_assoc] at hpast
      have hopens' : P.Opens st₀ m := by
        cases m with
        | call l | receive i answer => trivial
        | work i =>
          rintro c s next hc hw hs
          refine hopens c.label s fun hslot => ?_
          have hnew : ∀ l ∈ past, key l ≠ key c.label := by
            intro l hl hkey
            exact hled.cells l hl (by rw [hkey, ← hslot]; exact hs)
          have hfirst : past.find? (key · = key c.label) = none := by simpa using hnew
          rw [lead?, ← hpast, List.append_assoc, List.find?_append, hfirst]
          simp [worked, hc]
      exact ih _ st₁ (hled.step hkept hbegins hfails hstep)
        (hkept.step hbody (hmoves' m (by simp)) hopens' hstep) (fun m hm => hmoves' m (by simp [hm])) hpast hrun₁
  exact hrest moves [] .start ⟨by simp [System.start], by simp⟩ P.kept_start hmoves rfl hrun

end Upkeep.Once
