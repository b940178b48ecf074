import Mathlib.Tactic.SplitIfs
import Upkeep.Proofs.Once.Lead
import Upkeep.Proofs.Once.Protocol

/-!
# Calls that have no slot in common

Where every call stays with the slots of its own kind, calls of one kind do not matter to those of another. A
schedule of all calls, with the moves of one kind left alone, is a schedule of the calls of that kind, and they
come to the same in it.

* `Work.Within`, `Call.Stays`: a computation, and a call, that stays with some slots.
* `only`: the moves of the calls of one kind.
* `Part`: **what the calls of one kind have in a state of all calls**.
* `run_only`: **calls of other kinds do not matter**.
-/

namespace Upkeep.Once

variable {L Slot K : Type} {Content : Slot → Type} {Q : Type} {A : Q → Type} {α β ε : Type}

/-- The computation enters and leaves no other slots. -/
def Work.Within (here : Slot → Prop) : Work Slot Content Q A α → Prop
  | .done _ => True
  | .ask (.enter s) next => here s ∧ ∀ x, Within here (next x)
  | .ask (.leave s _) next => here s ∧ Within here (next ())
  | .ask (.outside _) next => ∀ a, Within here (next a)

theorem within_bind {here : Slot → Prop} {w : Work Slot Content Q A α} {f : α → Work Slot Content Q A β}
    (hw : Work.Within here w) (hf : ∀ a, Work.Within here (f a)) : Work.Within here (w.bind f) := by
  induction w with
  | done a => exact hf a
  | ask q next ih =>
    cases q with
    | enter s => exact ⟨hw.1, fun x => ih x (hw.2 x)⟩
    | leave s content => exact ⟨hw.1, ih () hw.2⟩
    | outside q => exact fun a => ih a (hw a)

theorem within_once {here : Slot → Prop} {s : Slot} (hs : here s)
    {fill : Work Slot Content Q A (Except ε (Content s))} (hfill : Work.Within here fill) :
    Work.Within here (once s fill) := by
  refine ⟨hs, fun x => ?_⟩
  cases x with
  | some content => trivial
  | none =>
    refine within_bind hfill fun r => ?_
    cases r with
    | ok content | error e => exact ⟨hs, trivial⟩

/-- The call is only in slots of its own kind, and enters and leaves no others. -/
def Call.Stays (place : Slot → K) (key : L → K) (c : Call L Slot Content Q A α) : Prop :=
  (∀ h ∈ c.held, place h.1 = key c.label) ∧
  match c.activity with
  | .working w => Work.Within (place · = key c.label) w
  | .waiting _ next => ∀ a, Work.Within (place · = key c.label) (next a)

/-- What a call is told that comes to a slot, unless it has to wait. -/
def Cell.told? {C : Type} : Cell C → Option (Option C)
  | empty => some none
  | busy _ => none
  | full content => some (some content)

theorem Cell.told?_empty_iff {C : Type} {x : Cell C} : x.told? = some none ↔ x = empty := by
  cases x <;> simp [told?]

theorem Cell.told?_full_iff {C : Type} {x : Cell C} {content : C} :
    x.told? = some (some content) ↔ x = full content := by
  cases x <;> simp [told?]

/-! ### The moves of some calls -/

section

variable [DecidableEq K] (key : L → K) (k : K)

/-- A move, when it is one of a call of some kind; the calls of that kind are numbered on their own. `ls` have
begun before. -/
def own? (ls : List L) : Move L Q A → Option (Move L Q A)
  | .call l => if key l = k then some (.call l) else none
  | .work i => if ls[i]?.map key = some k then some (.work ((ls.take i).countP (key · = k))) else none
  | .receive i answer =>
    if ls[i]?.map key = some k then some (.receive ((ls.take i).countP (key · = k)) answer) else none

/-- The moves of the calls of some kind. -/
def only (ls : List L) : List (Move L Q A) → List (Move L Q A)
  | [] => []
  | m :: moves => (own? key k ls m).toList ++ only (ls ++ begun [m]) moves

end

/-! ### Some entries of a list -/

section

variable {γ : Type} {l : List γ} {i : Nat} {x y : γ} {p : γ → Bool}

theorem exists_split_of_getElem? (h : l[i]? = some x) :
    ∃ before after, l = before ++ x :: after ∧ before.length = i := by
  obtain ⟨hi, rfl⟩ := List.getElem?_eq_some_iff.1 h
  exact ⟨l.take i, l.drop (i + 1), by simp, by simp [Nat.le_of_lt hi]⟩

theorem getElem?_filter_of_pos (h : l[i]? = some x) (hx : p x = true) :
    (l.filter p)[(l.take i).countP p]? = some x := by
  obtain ⟨before, after, rfl, rfl⟩ := exists_split_of_getElem? h
  simp [List.countP_eq_length_filter, hx]

theorem filter_set_of_pos (h : l[i]? = some x) (hx : p x = true) (hy : p y = true) :
    (l.set i y).filter p = (l.filter p).set ((l.take i).countP p) y := by
  obtain ⟨before, after, rfl, rfl⟩ := exists_split_of_getElem? h
  simp [List.countP_eq_length_filter, hx, hy]

theorem filter_set_of_neg (h : l[i]? = some x) (hx : p x = false) (hy : p y = false) :
    (l.set i y).filter p = l.filter p := by
  obtain ⟨before, after, rfl, rfl⟩ := exists_split_of_getElem? h
  simp [hx, hy]

end

variable [DecidableEq Slot] {body : L → Work Slot Content Q A α} {st st' stk : System L Slot Content Q A α}
  {m : Move L Q A} {moves : List (Move L Q A)} {place : Slot → K} {key : L → K} {k : K}

/-! ### Every call stays with the slots of its kind -/

theorem stays_of_step (hbody : ∀ l, Work.Within (place · = key l) (body l))
    (h : ∀ c ∈ st.calls, c.Stays place key) (hstep : st.step body m = some st') :
    ∀ c ∈ st'.calls, c.Stays place key := by
  have hset {i : Nat} {c : Call L Slot Content Q A α} (hc : c.Stays place key) :
      ∀ d ∈ st.calls.set i c, d.Stays place key := by
    intro d hd
    rcases List.mem_or_eq_of_mem_set hd with hd | rfl
    · exact h d hd
    · exact hc
  cases advance_of_step hstep with
  | call l =>
    intro d hd
    rcases List.mem_append.1 hd with hd | hd
    · exact h d hd
    · rw [List.mem_singleton.1 hd]
      exact ⟨by simp, hbody l⟩
  | enter hc hw hs =>
    obtain ⟨hheld, hwithin⟩ := h _ (List.mem_of_getElem? hc)
    rw [hw] at hwithin
    exact hset ⟨List.forall_mem_cons.2 ⟨hwithin.1, hheld⟩, hwithin.2 none⟩
  | take hc hw hs =>
    obtain ⟨hheld, hwithin⟩ := h _ (List.mem_of_getElem? hc)
    rw [hw] at hwithin
    exact hset ⟨hheld, hwithin.2 _⟩
  | leave hc hw =>
    obtain ⟨hheld, hwithin⟩ := h _ (List.mem_of_getElem? hc)
    rw [hw] at hwithin
    exact hset ⟨fun x hx => hheld x (List.mem_of_mem_tail hx), hwithin.2⟩
  | @ask i c q next hc hw =>
    obtain ⟨hheld, hwithin⟩ := h _ (List.mem_of_getElem? hc)
    rw [hw] at hwithin
    refine hset ⟨fun x hx => ?_, hwithin⟩
    cases heq : c.held with
    | nil => simp [heq, noted] at hx
    | cons y rest =>
      simp only [heq, noted, List.mem_cons] at hx hheld
      rcases hx with rfl | hx
      · exact hheld y (.inl rfl)
      · exact hheld x (.inr hx)
  | receive answer hc hw =>
    obtain ⟨hheld, hwithin⟩ := h _ (List.mem_of_getElem? hc)
    rw [hw] at hwithin
    exact hset ⟨hheld, hwithin _⟩

/-! ### What the calls of one kind have -/

variable [DecidableEq K]

/-- **What the calls of one kind have in a state of all calls**: themselves, and the slots of that kind, but for
the number of the call that a slot is waiting for. -/
structure Part (place : Slot → K) (key : L → K) (k : K) (st stk : System L Slot Content Q A α) : Prop where
  calls : stk.calls = st.calls.filter fun c => key c.label = k
  cells : ∀ s, place s = k → (stk.cells s).told? = (st.cells s).told?
  asked : ∀ s, place s = k → stk.asked s = st.asked s

omit [DecidableEq K] in
theorem asked_append (st : System L Slot Content Q A α) (calls : List (Call L Slot Content Q A α))
    (e : Option Slot × Q) (s : Slot) : System.asked ⟨st.cells, calls, st.log ++ [e]⟩ s =
      st.asked s ++ if e.1 = some s then [e.2] else [] := by
  unfold System.asked
  split_ifs with he <;> simp [he]

section

variable {i : Nat} {c c' : Call L Slot Content Q A α} {cells cellsk : (s : Slot) → Cell (Content s)}
  {log logk : List (Option Slot × Q)}

/-- A call of another kind goes on. -/
theorem Part.other (h : Part place key k st stk) (hc : st.calls[i]? = some c) (hlabel : c'.label = c.label)
    (hkey : key c.label ≠ k) (hcells : ∀ s, place s = k → cells s = st.cells s)
    (hasked : ∀ s, place s = k →
      System.asked (⟨cells, st.calls.set i c', log⟩ : System L Slot Content Q A α) s = st.asked s) :
    Part place key k ⟨cells, st.calls.set i c', log⟩ stk where
  calls := by
    rw [filter_set_of_neg hc (by simpa using hkey) (by simpa [hlabel] using hkey)]
    exact h.calls
  cells s hs := by
    rw [h.cells s hs]
    exact congrArg _ (hcells s hs).symm
  asked s hs := (h.asked s hs).trans (hasked s hs).symm

/-- A call of the kind goes on, in all and on its own. -/
theorem Part.same (h : Part place key k st stk) (hc : st.calls[i]? = some c) (hlabel : c'.label = c.label)
    (hkey : key c.label = k) (hcells : ∀ s, place s = k → (cellsk s).told? = (cells s).told?)
    (hasked : ∀ s, place s = k →
      System.asked (⟨cellsk, stk.calls, logk⟩ : System L Slot Content Q A α) s =
        System.asked (⟨cells, st.calls, log⟩ : System L Slot Content Q A α) s) :
    Part place key k ⟨cells, st.calls.set i c', log⟩
      ⟨cellsk, stk.calls.set ((st.calls.take i).countP fun c => key c.label = k) c', logk⟩ where
  calls := by
    rw [filter_set_of_pos hc (by simpa using hkey) (by simpa [hlabel] using hkey)]
    dsimp only
    rw [h.calls]
  cells := hcells
  asked := hasked

theorem Part.getElem? (h : Part place key k st stk) (hc : st.calls[i]? = some c) (hkey : key c.label = k) :
    stk.calls[(st.calls.take i).countP fun c => key c.label = k]? = some c := by
  rw [h.calls]
  exact getElem?_filter_of_pos hc (by simpa using hkey)

end

/-! ### Calls of other kinds do not matter -/

omit [DecidableEq Slot] in
theorem own?_work {i : Nat} {c : Call L Slot Content Q A α} (hc : st.calls[i]? = some c) :
    (own? key k (st.calls.map (·.label)) (.work i) : Option (Move L Q A)) =
      if key c.label = k then some (.work ((st.calls.take i).countP fun c => key c.label = k)) else none := by
  simp only [own?, List.getElem?_map, hc, Option.map_some, Option.some.injEq, ← List.map_take, List.countP_map]
  rfl

omit [DecidableEq Slot] in
theorem own?_receive {i : Nat} {c : Call L Slot Content Q A α} (hc : st.calls[i]? = some c)
    (answer : (q : Q) → A q) : own? key k (st.calls.map (·.label)) (.receive i answer) =
      if key c.label = k then some (.receive ((st.calls.take i).countP fun c => key c.label = k) answer)
      else none := by
  simp only [own?, List.getElem?_map, hc, Option.map_some, Option.some.injEq, ← List.map_take, List.countP_map]
  rfl

/-- **One move of all calls is at most one of the calls of some kind.** -/
theorem Part.step (h : Part place key k st stk) (hstays : ∀ c ∈ st.calls, c.Stays place key)
    (hstep : st.step body m = some st') :
    ∃ stk', stk.run body (own? key k (st.calls.map (·.label)) m).toList = some stk' ∧
      Part place key k st' stk' := by
  have hmoved {m' : Move L Q A} {stk' : System L Slot Content Q A α} (hadvance : Advance body stk m' stk') :
      stk.run body (some m').toList = some stk' := run_of_step (step_of_advance hadvance)
  -- slots of another kind are not those of the kind
  have hother {c : Call L Slot Content Q A α} {s : Slot} (hs : place s = key c.label) (hkey : key c.label ≠ k)
      (x : Cell (Content s)) (t : Slot) (ht : place t = k) : Function.update st.cells s x t = st.cells t := by
    refine Function.update_of_ne (fun heq => hkey ?_) _ _
    rw [← hs, ← heq, ht]
  have hsame {s : Slot} {x y : Cell (Content s)} (hxy : x.told? = y.told?) (t : Slot) (ht : place t = k) :
      (Function.update stk.cells s x t).told? = (Function.update st.cells s y t).told? := by
    by_cases hts : t = s
    · subst hts
      rw [Function.update_self, Function.update_self, hxy]
    · rw [Function.update_of_ne hts, Function.update_of_ne hts, h.cells t ht]
  cases advance_of_step hstep with
  | call l =>
    rw [own?]
    split_ifs with hkey
    · refine ⟨_, hmoved (.call l), ?_, h.cells, h.asked⟩
      rw [List.filter_append, ← h.calls, List.filter_cons_of_pos (by simpa using hkey), List.filter_nil]
    · refine ⟨stk, rfl, ?_, h.cells, h.asked⟩
      rw [List.filter_append, ← h.calls, List.filter_cons_of_neg (by simpa using hkey), List.filter_nil,
        List.append_nil]
  | @enter i c s next hc hw hs =>
    obtain ⟨-, hwithin⟩ := hstays _ (List.mem_of_getElem? hc)
    rw [hw] at hwithin
    rw [own?_work hc]
    split_ifs with hkey
    · have hs' : stk.cells s = .empty := by
        rw [← Cell.told?_empty_iff, h.cells s (hwithin.1.trans hkey), hs]
        rfl
      exact ⟨_, hmoved (.enter (h.getElem? hc hkey) hw hs'), h.same hc rfl hkey (hsame rfl) h.asked⟩
    · exact ⟨stk, rfl, h.other hc rfl hkey (hother hwithin.1 hkey _) fun _ _ => rfl⟩
  | @take i c s content next hc hw hs =>
    obtain ⟨-, hwithin⟩ := hstays _ (List.mem_of_getElem? hc)
    rw [hw] at hwithin
    rw [own?_work hc]
    split_ifs with hkey
    · have hs' : stk.cells s = .full content := by
        rw [← Cell.told?_full_iff, h.cells s (hwithin.1.trans hkey), hs]
        rfl
      exact ⟨_, hmoved (.take (h.getElem? hc hkey) hw hs'), h.same hc rfl hkey h.cells h.asked⟩
    · exact ⟨stk, rfl, h.other hc rfl hkey (fun _ _ => rfl) fun _ _ => rfl⟩
  | @leave i c s content next hc hw =>
    obtain ⟨-, hwithin⟩ := hstays _ (List.mem_of_getElem? hc)
    rw [hw] at hwithin
    rw [own?_work hc]
    split_ifs with hkey
    · exact ⟨_, hmoved (.leave (h.getElem? hc hkey) hw), h.same hc rfl hkey (hsame rfl) h.asked⟩
    · exact ⟨stk, rfl, h.other hc rfl hkey (hother hwithin.1 hkey _) fun _ _ => rfl⟩
  | @ask i c q next hc hw =>
    obtain ⟨hheld, -⟩ := hstays _ (List.mem_of_getElem? hc)
    rw [own?_work hc]
    split_ifs with hkey
    · refine ⟨_, hmoved (.ask (h.getElem? hc hkey) hw), h.same hc rfl hkey h.cells fun t ht => ?_⟩
      rw [asked_append, asked_append, h.asked t ht]
    · refine ⟨stk, rfl, h.other hc rfl hkey (fun _ _ => rfl) fun t ht => ?_⟩
      rw [asked_append, if_neg, List.append_nil]
      intro heq
      obtain ⟨x, hx, rfl⟩ := Option.map_eq_some_iff.1 heq
      exact hkey ((hheld x (List.mem_of_mem_head? hx)).symm.trans ht)
  | @receive i c q next answer hc hw =>
    rw [own?_receive hc]
    split_ifs with hkey
    · exact ⟨_, hmoved (.receive answer (h.getElem? hc hkey) hw), h.same hc rfl hkey h.cells h.asked⟩
    · exact ⟨stk, rfl, h.other hc rfl hkey (fun _ _ => rfl) fun _ _ => rfl⟩

/-- **Calls of other kinds do not matter**: those of one kind do the same in a schedule that has only their
moves. -/
theorem run_only (hbody : ∀ l, Work.Within (place · = key l) (body l))
    (hrun : System.run body .start moves = some st) (k : K) :
    ∃ stk, System.run body .start (only key k [] moves) = some stk ∧ Part place key k st stk := by
  have hrest (moves : List (Move L Q A)) (st₀ stk₀ : System L Slot Content Q A α)
      (hpart : Part place key k st₀ stk₀) (hstays : ∀ c ∈ st₀.calls, c.Stays place key)
      (hrun : st₀.run body moves = some st) :
      ∃ stk, stk₀.run body (only key k (st₀.calls.map (·.label)) moves) = some stk ∧
        Part place key k st stk := by
    induction moves generalizing st₀ stk₀ with
    | nil =>
      obtain rfl := Option.some.inj hrun
      exact ⟨stk₀, rfl, hpart⟩
    | cons m moves ih =>
      obtain ⟨st₁, hstep, hlater⟩ := Option.bind_eq_some_iff.1 hrun
      obtain ⟨stk₁, hstep', hpart₁⟩ := hpart.step hstays hstep
      obtain ⟨stk, hlater', hpart'⟩ := ih st₁ stk₁ hpart₁ (stays_of_step hbody hstays hstep) hlater
      refine ⟨stk, ?_, hpart'⟩
      rw [only, run_append, hstep', ← labels_of_step hstep]
      exact hlater'
  exact hrest moves .start .start ⟨rfl, fun _ _ => rfl, fun _ _ => rfl⟩ (by simp [System.start]) hrun

end Upkeep.Once
