import Upkeep.Proofs.Inquiry
import Upkeep.Proofs.Once.Concurrent

/-!
# Pacts of calls that share slots

A pact says what slots are filled with. A call relies on the slots that it finds full, and on the answers from
the outside; in return it grants what it fills slots with itself. So what one call grants is what the others
rely on, and each of them can be looked at on its own.

* `Pact.Relies`, `Pact.Grants`: what a call relies on, and what it grants.
* `holds_once`: the rule for work that is done once.
* `Kept`: **what holds in all schedules** when every call keeps to the pact.
* `holds_alone`: a computation that runs alone keeps to it too.
-/

namespace Upkeep.Once

open Inquiry

variable {L Slot : Type} {Content : Slot → Type} {Q : Type} {A : Q → Type} {α β ε : Type}

/-- What calls agree on: which answers there are, what a slot is filled with, which call may come to a slot
that is empty, which slots may be left empty, and what a call comes to. -/
structure Pact (L Slot : Type) (Content : Slot → Type) (Q : Type) (A : Q → Type) (α : Type) where
  answers : (q : Q) → A q → Prop
  fits : (s : Slot) → Content s → Prop
  opens : L → Slot → Prop
  fails : Slot → Prop
  result : L → α → Prop

namespace Pact

/-- What a call relies on when it goes on with what it is told. -/
def Relies (P : Pact L Slot Content Q A α) (l : L) : (q : Question Slot Content Q) → Answer A q → Prop
  | .enter s, (x : Option (Content s)) => x.elim (P.opens l s) (P.fits s)
  | .leave _ _, _ => True
  | .outside q, x => P.answers q x

/-- What a call grants: what it leaves in a slot. -/
def Grants (P : Pact L Slot Content Q A α) : Question Slot Content Q → Prop
  | .leave s x => x.elim (P.fails s) (P.fits s)
  | _ => True

variable {P : Pact L Slot Content Q A α} {l : L} {s : Slot}

/-- Work that is done once keeps to a pact if the work that fills the slot does. -/
theorem holds_once {fill : Work Slot Content Q A (Except ε (Content s))}
    {post : Except ε (Content s) → Prop} (hpost : ∀ c, P.fits s c → post (.ok c))
    (hfill : P.opens l s → fill.Holds (P.Relies l) P.Grants fun r =>
      (∀ c, r = .ok c → P.fits s c) ∧ ∀ e, r = .error e → P.fails s ∧ post (.error e)) :
    (once s fill).Holds (P.Relies l) P.Grants post := by
  refine ⟨trivial, fun (x : Option (Content s)) hx => ?_⟩
  cases x with
  | some c => exact hpost c hx
  | none =>
    refine holds_bind ((hfill hx).mono fun r hr => ?_)
    cases r with
    | ok c => exact ⟨hr.1 c rfl, fun _ _ => hpost c (hr.1 c rfl)⟩
    | error e => exact ⟨(hr.2 e rfl).1, fun _ _ => (hr.2 e rfl).2⟩

theorem holds_once' {fill : Work Slot Content Q A (Content s)} {post : Content s → Prop}
    (hpost : ∀ c, P.fits s c → post c)
    (hfill : P.opens l s → fill.Holds (P.Relies l) P.Grants (P.fits s)) :
    (once' s fill).Holds (P.Relies l) P.Grants post := by
  refine ⟨trivial, fun (x : Option (Content s)) hx => ?_⟩
  cases x with
  | some c => exact hpost c hx
  | none => exact holds_bind ((hfill hx).mono fun c hc => ⟨hc, fun _ _ => hpost c hc⟩)

/-- What every call starts with keeps to a pact. -/
def Governs (P : Pact L Slot Content Q A α) (body : L → Work Slot Content Q A α) : Prop :=
  ∀ l, (body l).Holds (P.Relies l) P.Grants (P.result l)

/-- What is left of a call keeps to a pact. -/
def Abides (P : Pact L Slot Content Q A α) (c : Call L Slot Content Q A α) : Prop :=
  match c.activity with
  | .working w => w.Holds (P.Relies c.label) P.Grants (P.result c.label)
  | .waiting q next => ∀ x, P.answers q x → (next x).Holds (P.Relies c.label) P.Grants (P.result c.label)

/-- The answer of a move is one that calls may rely on. -/
def Allows (P : Pact L Slot Content Q A α) : Move L Q A → Prop
  | .receive _ answer => ∀ q, P.answers q (answer q)
  | _ => True

theorem forall_allows {moves : List (Move L Q A)}
    (h : ∀ i answer, .receive i answer ∈ moves → ∀ q, P.answers q (answer q)) : ∀ m ∈ moves, P.Allows m := by
  intro m hm
  cases m with
  | call l | work i => trivial
  | receive i answer => exact h i answer hm

/-- **What holds in all schedules.** -/
structure Kept (P : Pact L Slot Content Q A α) (st : System L Slot Content Q A α) : Prop where
  calls : ∀ c ∈ st.calls, P.Abides c
  cells : ∀ s c, st.cells s = .full c → P.fits s c

theorem kept_start (P : Pact L Slot Content Q A α) : P.Kept .start := by
  constructor <;> simp [System.start]

variable {st st' : System L Slot Content Q A α} {i : Nat} {c c' : Call L Slot Content Q A α} {a : α}

/-- What a call that is over came to. -/
theorem Kept.result (h : P.Kept st) (hc : c ∈ st.calls) (ha : c.result? = some a) : P.result c.label a := by
  have habides := h.calls c hc
  unfold Call.result? at ha
  split at ha
  · rename_i hw
    rw [Abides, hw] at habides
    obtain rfl := Option.some.inj ha
    exact habides
  · cases ha

/-- A call that goes on, while some slots change. -/
theorem Kept.advance (h : P.Kept st) (hcall : P.Abides c') {cells : (s : Slot) → Cell (Content s)}
    {log : List (Option Slot × Q)} (hcells : ∀ s c, cells s = .full c → P.fits s c) :
    P.Kept ⟨cells, st.calls.set i c', log⟩ where
  calls d hd := by
    rcases List.mem_or_eq_of_mem_set hd with hd | rfl
    · exact h.calls d hd
    · exact hcall
  cells := hcells

variable [DecidableEq Slot] {body : L → Work Slot Content Q A α} {m : Move L Q A}

/-- What is left in a slot. -/
theorem Kept.update (h : P.Kept st) {x : Cell (Content s)} (hx : ∀ c, x = .full c → P.fits s c) :
    ∀ t c, Function.update st.cells s x t = .full c → P.fits t c := by
  intro t c hc
  by_cases hts : t = s
  · subst hts
    rw [Function.update_self] at hc
    exact hx c hc
  · rw [Function.update_of_ne hts] at hc
    exact h.cells t c hc

/-- A call comes to an empty slot only if the pact has it. -/
def Opens (P : Pact L Slot Content Q A α) (st : System L Slot Content Q A α) : Move L Q A → Prop
  | .work i => ∀ c s next, st.calls[i]? = some c → c.activity = .working (.ask (.enter s) next) →
      st.cells s = .empty → P.opens c.label s
  | _ => True

/-- **One move keeps what holds in all schedules.** -/
theorem Kept.step (h : P.Kept st) (hbody : P.Governs body) (hm : P.Allows m) (hopens : P.Opens st m)
    (hstep : st.step body m = some st') : P.Kept st' := by
  have hwork {i : Nat} {c : Call L Slot Content Q A α} {w : Work Slot Content Q A α}
      (hc : st.calls[i]? = some c) (hw : c.activity = .working w) :
      w.Holds (P.Relies c.label) P.Grants (P.result c.label) := by
    have habides := h.calls c (List.mem_of_getElem? hc)
    rwa [Abides, hw] at habides
  -- a call relies on what it is told, which the others have granted, and grants what it leaves
  cases advance_of_step hstep with
  | call l =>
    refine ⟨fun d hd => ?_, h.cells⟩
    rcases List.mem_append.1 hd with hd | hd
    · exact h.calls d hd
    · rw [List.mem_singleton.1 hd]
      exact hbody l
  | @enter i c s next hc hw hs =>
    have hnext := (hwork hc hw).2 (none : Option (Content s)) (hopens c s next hc hw hs)
    refine h.advance ?_ (h.update nofun)
    exact hnext
  | @take i c s content next hc hw hs =>
    have hnext := (hwork hc hw).2 (some content : Option (Content s)) (h.cells s content hs)
    refine h.advance ?_ h.cells
    exact hnext
  | @leave i c s content next hc hw =>
    obtain ⟨hgrants, hnext⟩ := hwork hc hw
    refine h.advance ?_ (h.update fun x hx => ?_)
    · exact hnext () trivial
    · cases content with
      | none => cases hx
      | some y =>
        obtain rfl := Cell.full.inj hx
        exact hgrants
  | @ask i c q next hc hw =>
    refine h.advance ?_ h.cells
    exact (hwork hc hw).2
  | @receive i c q next answer hc hw =>
    have habides := h.calls c (List.mem_of_getElem? hc)
    rw [Abides, hw] at habides
    refine h.advance ?_ h.cells
    exact habides (answer q) (hm q)

/-- **What holds in all schedules**, when any call may come to any empty slot. -/
theorem Kept.run {moves : List (Move L Q A)} (h : P.Kept st) (hbody : P.Governs body)
    (hopens : ∀ l s, P.opens l s) (hmoves : ∀ m ∈ moves, P.Allows m) (hrun : st.run body moves = some st') :
    P.Kept st' := by
  induction moves generalizing st with
  | nil =>
    obtain rfl := Option.some.inj hrun
    exact h
  | cons m ms ih =>
    obtain ⟨st₁, hstep, hrest⟩ := Option.bind_eq_some_iff.1 hrun
    have hopens' : P.Opens st m := by
      cases m with
      | work i => exact fun c s _ _ _ _ => hopens c.label s
      | call l | receive i answer => trivial
    exact ih (h.step hbody (hmoves m (by simp)) hopens' hstep) (fun m hm => hmoves m (by simp [hm])) hrest

/-! ### A computation that runs alone -/

/-- What a memory holds is what the pact has it hold. -/
def Fits (P : Pact L Slot Content Q A α) (m : Memory Slot Content) : Prop :=
  ∀ s c, m.get? s = some c → P.fits s c

/-- A computation that runs alone keeps to the pact. -/
theorem holds_alone {w : Work Slot Content Q A β} {post : β → Prop} {m : Memory Slot Content}
    (hopens : ∀ s, P.opens l s) (hm : P.Fits m) (h : w.Holds (P.Relies l) P.Grants post) :
    (alone w m).Holds P.answers (fun _ => True) fun p => post p.1 ∧ P.Fits p.2 := by
  refine Holds.of_perform (fun q m hq hm => ?_) hm h
  cases q with
  | enter s =>
    refine ⟨?_, hm⟩
    cases hs : m.get? s with
    | none => exact hopens s
    | some c => exact hm s c hs
  | leave s x =>
    refine ⟨trivial, fun t c hc => ?_⟩
    by_cases hts : t = s
    · subst hts
      rw [Memory.get_put_self] at hc
      obtain rfl := hc
      exact hq
    · exact hm t c ((Memory.get_put_of_ne m hts x).symm.trans hc)
  | outside q => exact ⟨trivial, fun x hx => ⟨hx, hm⟩⟩

end Pact

end Upkeep.Once
