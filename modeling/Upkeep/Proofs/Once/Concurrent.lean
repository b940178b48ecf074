import Mathlib.Logic.Function.Basic
import Upkeep.Once

/-!
# Calls that share slots

Several calls work side by side on the same slots. Who enters an empty slot has it for itself until it leaves
it; all others that come to it wait. A slot that was left filled stays filled, and one that was left empty is
for the next call that comes to it. Calls can begin at any time, and nothing is said about which call goes on
next, nor when an answer from the outside arrives.

* `System.step`, `System.run`: what happens in one move, and in a schedule of moves.
* `Advance`: **what one move does**.
-/

namespace Upkeep.Once

/-- A slot that several calls share: it holds nothing, the mark of the call that is to fill it, or its
content. -/
inductive Cell (C : Type) where
  | empty
  | busy (owner : Nat)
  | full (content : C)

/-- What a slot holds. -/
def Cell.content? {C : Type} : Cell C → Option C
  | full content => some content
  | _ => none

theorem Cell.content?_eq_some {C : Type} {x : Cell C} {content : C} :
    x.content? = some content ↔ x = full content := by
  cases x <;> simp [content?]

/-- What is left of a call: the work to go on with, or a question that waits for its answer. -/
inductive Activity (Slot : Type) (Content : Slot → Type) (Q : Type) (A : Q → Type) (α : Type) where
  | working (w : Work Slot Content Q A α)
  | waiting (q : Q) (next : A q → Work Slot Content Q A α)

/-- A call on its way: the slots that it has entered and not left, the last one first, with what it asked
from the outside in each; and what is left of it. -/
structure Call (L Slot : Type) (Content : Slot → Type) (Q : Type) (A : Q → Type) (α : Type) where
  label : L
  held : List (Slot × List Q) := []
  activity : Activity Slot Content Q A α

/-- The slots, the calls in the order in which they began, and what was asked from the outside, with the
slot in which it was asked. -/
structure System (L Slot : Type) (Content : Slot → Type) (Q : Type) (A : Q → Type) (α : Type) where
  cells : (s : Slot) → Cell (Content s)
  calls : List (Call L Slot Content Q A α)
  log : List (Option Slot × Q)

/-- What can happen next: a call begins, a call goes on, or a call receives an answer. -/
inductive Move (L Q : Type) (A : Q → Type) where
  | call (l : L)
  | work (i : Nat)
  | receive (i : Nat) (answer : (q : Q) → A q)

variable {L Slot : Type} {Content : Slot → Type} {Q : Type} {A : Q → Type} {α β ε : Type}

/-- What a call comes to, when it is over. -/
def Call.result? (c : Call L Slot Content Q A α) : Option α :=
  match c.activity with
  | .working (.done a) => some a
  | _ => none

/-- Notes a question at the slot that was entered last. -/
def noted (q : Q) : List (Slot × List Q) → List (Slot × List Q)
  | [] => []
  | (s, asked) :: rest => (s, asked ++ [q]) :: rest

namespace System

/-- No call has begun. -/
def start : System L Slot Content Q A α := ⟨fun _ => .empty, [], []⟩

/-- What the slots hold, for a computation that runs alone. -/
def memory (st : System L Slot Content Q A α) : Memory Slot Content := ⟨fun s => (st.cells s).content?⟩

theorem memory_get? {st : System L Slot Content Q A α} {s : Slot} {content : Content s} :
    st.memory.get? s = some content ↔ st.cells s = .full content :=
  Cell.content?_eq_some

variable [DecidableEq Slot]

/-- What was asked in a slot. -/
def asked (st : System L Slot Content Q A α) (s : Slot) : List Q :=
  (st.log.filter (·.1 = some s)).map (·.2)

/-- The call of a number goes on with what it asks. It has to wait for a slot that another call is to
fill. -/
def work (st : System L Slot Content Q A α) (i : Nat) (c : Call L Slot Content Q A α) :
    (q : Question Slot Content Q) → (Answer A q → Work Slot Content Q A α) →
      Option (System L Slot Content Q A α)
  | .enter s, next =>
    match st.cells s with
    | .empty => some { st with
        cells := Function.update st.cells s (.busy i)
        calls := st.calls.set i ⟨c.label, (s, []) :: c.held, .working (next none)⟩ }
    | .busy _ => none
    | .full content => some { st with
        calls := st.calls.set i ⟨c.label, c.held, .working (next (some content))⟩ }
  | .leave s content, next => some { st with
      cells := Function.update st.cells s (content.elim .empty .full)
      calls := st.calls.set i ⟨c.label, c.held.tail, .working (next ())⟩ }
  | .outside q, next => some { st with
      calls := st.calls.set i ⟨c.label, noted q c.held, .waiting q next⟩
      log := st.log ++ [(c.held.head?.map (·.1), q)] }

/-- One move, if it is possible. -/
def step (body : L → Work Slot Content Q A α) (st : System L Slot Content Q A α) :
    Move L Q A → Option (System L Slot Content Q A α)
  | .call l => some { st with calls := st.calls ++ [{ label := l, activity := .working (body l) }] }
  | .work i =>
    match st.calls[i]? with
    | none => none
    | some c =>
      match c.activity with
      | .working (.ask q next) => st.work i c q next
      | _ => none
  | .receive i answer =>
    match st.calls[i]? with
    | none => none
    | some c =>
      match c.activity with
      | .waiting q next => some { st with
          calls := st.calls.set i ⟨c.label, c.held, .working (next (answer q))⟩ }
      | .working _ => none

/-- A schedule of moves. -/
def run (body : L → Work Slot Content Q A α) (st : System L Slot Content Q A α) :
    List (Move L Q A) → Option (System L Slot Content Q A α)
  | [] => some st
  | m :: ms => (st.step body m).bind (run body · ms)

end System

/-- A call that goes on keeps its label. -/
theorem labels_set {calls : List (Call L Slot Content Q A α)} {i : Nat} {c c' : Call L Slot Content Q A α}
    (hc : calls[i]? = some c) (hlabel : c'.label = c.label) :
    (calls.set i c').map (·.label) = calls.map (·.label) := by
  obtain ⟨hi, rfl⟩ := List.getElem?_eq_some_iff.1 hc
  have hi' : i < (calls.map (·.label)).length := by rwa [List.length_map]
  have hsame : calls[i].label = (calls.map (·.label))[i] := by rw [List.getElem_map]
  rw [List.map_set, hlabel, hsame, List.set_getElem_self]

section

variable [DecidableEq Slot] {body : L → Work Slot Content Q A α} {st st' : System L Slot Content Q A α}
  {m : Move L Q A}

/-- **What one move does.** -/
inductive Advance (body : L → Work Slot Content Q A α) (st : System L Slot Content Q A α) :
    Move L Q A → System L Slot Content Q A α → Prop where
  | call (l : L) :
      Advance body st (.call l)
        { st with calls := st.calls ++ [{ label := l, activity := .working (body l) }] }
  | enter {i : Nat} {c : Call L Slot Content Q A α} {s : Slot}
      {next : Option (Content s) → Work Slot Content Q A α} (hc : st.calls[i]? = some c)
      (hw : c.activity = .working (.ask (.enter s) next)) (hs : st.cells s = .empty) :
      Advance body st (.work i) { st with
        cells := Function.update st.cells s (.busy i)
        calls := st.calls.set i ⟨c.label, (s, []) :: c.held, .working (next none)⟩ }
  | take {i : Nat} {c : Call L Slot Content Q A α} {s : Slot} {content : Content s}
      {next : Option (Content s) → Work Slot Content Q A α} (hc : st.calls[i]? = some c)
      (hw : c.activity = .working (.ask (.enter s) next)) (hs : st.cells s = .full content) :
      Advance body st (.work i) { st with
        calls := st.calls.set i ⟨c.label, c.held, .working (next (some content))⟩ }
  | leave {i : Nat} {c : Call L Slot Content Q A α} {s : Slot} {content : Option (Content s)}
      {next : Unit → Work Slot Content Q A α} (hc : st.calls[i]? = some c)
      (hw : c.activity = .working (.ask (.leave s content) next)) :
      Advance body st (.work i) { st with
        cells := Function.update st.cells s (content.elim .empty .full)
        calls := st.calls.set i ⟨c.label, c.held.tail, .working (next ())⟩ }
  | ask {i : Nat} {c : Call L Slot Content Q A α} {q : Q} {next : A q → Work Slot Content Q A α}
      (hc : st.calls[i]? = some c) (hw : c.activity = .working (.ask (.outside q) next)) :
      Advance body st (.work i) { st with
        calls := st.calls.set i ⟨c.label, noted q c.held, .waiting q next⟩
        log := st.log ++ [(c.held.head?.map (·.1), q)] }
  | receive {i : Nat} {c : Call L Slot Content Q A α} {q : Q} {next : A q → Work Slot Content Q A α}
      (answer : (q : Q) → A q) (hc : st.calls[i]? = some c) (hw : c.activity = .waiting q next) :
      Advance body st (.receive i answer) { st with
        calls := st.calls.set i ⟨c.label, c.held, .working (next (answer q))⟩ }

theorem advance_of_step (h : st.step body m = some st') : Advance body st m st' := by
  unfold System.step at h
  cases m with
  | call l =>
    obtain rfl := Option.some.inj h
    exact .call l
  | work i =>
    dsimp only at h
    split at h
    · cases h
    · rename_i c hc
      split at h
      · rename_i q next hw
        cases q with
        | enter s =>
          simp only [System.work] at h
          split at h
          · obtain rfl := Option.some.inj h
            exact .enter hc hw ‹_›
          · cases h
          · obtain rfl := Option.some.inj h
            exact .take hc hw ‹_›
        | leave s content =>
          obtain rfl := Option.some.inj h
          exact .leave hc hw
        | outside q =>
          obtain rfl := Option.some.inj h
          exact .ask hc hw
      · cases h
  | receive i answer =>
    dsimp only at h
    split at h
    · cases h
    · rename_i c hc
      split at h
      · obtain rfl := Option.some.inj h
        exact .receive answer hc ‹_›
      · cases h

/-- All that a move may do, it can do. -/
theorem step_of_advance (h : Advance body st m st') : st.step body m = some st' := by
  cases h with
  | call l => rfl
  | enter hc hw hs | take hc hw hs => simp [System.step, hc, hw, System.work, hs]
  | leave hc hw | ask hc hw => simp [System.step, hc, hw, System.work]
  | receive answer hc hw => simp [System.step, hc, hw]

end

end Upkeep.Once
