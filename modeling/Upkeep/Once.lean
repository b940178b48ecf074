import Upkeep.Inquiry

/-!
# Work that is done once

Several computations may need the same thing. Each kind of thing has a slot; the first computation
that needs it finds the slot empty and fills it, and those that come later take what it holds. A
computation that fails leaves the slot empty, so that the next one tries again.

* `Once.once`: takes what a slot holds, or fills it.
* `Once.remember`: answers for one computation at a time, from a memory of what the slots hold.
* `Memory.get_put_self`, `Memory.get_put_of_ne`: what a slot holds after a slot was filled.
-/

namespace Upkeep.Once

/-- What a computation asks for: to enter a slot, to leave it filled or empty, or something from the
outside. -/
inductive Question (Slot : Type) (Content : Slot → Type) (Q : Type) where
  | enter (s : Slot)
  | leave (s : Slot) (content : Option (Content s))
  | outside (q : Q)

variable {Slot : Type} {Content : Slot → Type} {Q : Type} {A : Q → Type} {ε α : Type}

/-- What a computation is told. Who enters an empty slot has to fill it or leave it empty. -/
def Answer (A : Q → Type) : Question Slot Content Q → Type
  | .enter s => Option (Content s)
  | .leave _ _ => Unit
  | .outside q => A q

/-- A computation over slots. -/
abbrev Work (Slot : Type) (Content : Slot → Type) (Q : Type) (A : Q → Type) (α : Type) :=
  Inquiry (Question Slot Content Q) (Answer A) α

/-- Asks for something from the outside. -/
def outside (q : Q) : Work Slot Content Q A (A q) :=
  Inquiry.ask (Question.outside q) Inquiry.done

/-- Takes what a slot holds; if it holds nothing, does the work that fills it. -/
def once (s : Slot) (fill : Work Slot Content Q A (Except ε (Content s))) :
    Work Slot Content Q A (Except ε (Content s)) :=
  .ask (.enter s) fun
    | some content => .done (.ok content)
    | none => fill.bind fun
      | .ok content => .ask (.leave s (some content)) fun _ => .done (.ok content)
      | .error e => .ask (.leave s none) fun _ => .done (.error e)

/-- Takes what a slot holds, or fills it by work that cannot fail. -/
def once' (s : Slot) (fill : Work Slot Content Q A (Content s)) : Work Slot Content Q A (Content s) :=
  .ask (.enter s) fun
    | some content => .done content
    | none => fill.bind fun content => .ask (.leave s (some content)) fun _ => .done content

/-- What the slots hold. -/
structure Memory (Slot : Type) (Content : Slot → Type) where
  get? : (s : Slot) → Option (Content s)

namespace Memory

/-- Nothing in any slot. -/
def empty : Memory Slot Content := ⟨fun _ => none⟩

instance : Inhabited (Memory Slot Content) := ⟨empty⟩

/-- Puts something into a slot, or empties it. -/
def put [DecidableEq Slot] (m : Memory Slot Content) (s : Slot) (content : Option (Content s)) :
    Memory Slot Content :=
  ⟨fun t => if h : t = s then h ▸ content else m.get? t⟩

@[simp] theorem get_put_self [DecidableEq Slot] (m : Memory Slot Content) (s : Slot)
    (content : Option (Content s)) : (m.put s content).get? s = content := by
  simp [put]

theorem get_put_of_ne [DecidableEq Slot] (m : Memory Slot Content) {s t : Slot} (h : t ≠ s)
    (content : Option (Content s)) : (m.put s content).get? t = m.get? t := by
  simp [put, h]

/-- An empty slot may be emptied. -/
theorem put_none [DecidableEq Slot] {m : Memory Slot Content} {s : Slot} (h : m.get? s = none) :
    m.put s none = m := by
  refine congrArg Memory.mk (funext fun t => ?_)
  split
  · subst_vars
    exact h.symm
  · rfl

end Memory

/-- Answers a computation that runs alone: slots are looked up in the memory, and only what comes
from the outside is asked. -/
def remember [DecidableEq Slot] (q : Question Slot Content Q) :
    StateT (Memory Slot Content) (Inquiry Q A) (Answer A q) :=
  match q with
  | .enter s => fun m => .done (m.get? s, m)
  | .leave s content => fun m => .done ((), m.put s content)
  | .outside q => fun m => .ask q fun a => .done (a, m)

/-- A computation that runs alone, from a memory to a memory. -/
def alone [DecidableEq Slot] (w : Work Slot Content Q A α) (m : Memory Slot Content) :
    Inquiry Q A (α × Memory Slot Content) :=
  (w.perform remember).run m

end Upkeep.Once
