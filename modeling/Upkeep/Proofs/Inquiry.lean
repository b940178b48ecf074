import Upkeep.Once

/-!
# Outcomes of inquiries

Who answers an inquiry is left open, so a statement about it is one about every outcome that some
answers lead to. A relation may narrow the answers down; when the answers come from a state that is
carried along, it may speak of the state at the end, as long as nothing that was found out is lost.

* `Yields`: a result that a computation comes to.
* `Yields.of_perform`: **what the answers of a handler had in common** holds along the outcome.
* `Asks`: what a computation may ask at most.
* `Holds`: what a computation asks and comes to at most, as long as the answers are allowed.
* `Holds.of_perform`: **what a handler guarantees** of its answers holds along every run.
* `alone_frame`: a slot that is never left keeps what it holds.
* `yields_once`: a slot is filled by the first that finds it empty.
-/

namespace Upkeep

namespace Inquiry

variable {Q Q' : Type} {A : Q → Type} {A' : Q' → Type} {α β σ : Type}

/-- A result that a computation comes to by answers that a relation allows. -/
inductive Yields (R : (q : Q) → A q → Prop) : Inquiry Q A α → α → Prop where
  | done (a : α) : Yields R (done a) a
  | ask {q : Q} {next : A q → Inquiry Q A α} {x : A q} {a : α} (hx : R q x)
      (h : Yields R (next x) a) : Yields R (ask q next) a

/-- All answers are allowed. -/
def Any (q : Q) (_ : A q) : Prop := True

variable {R R₁ R₂ : (q : Q) → A q → Prop} {R' : (q : Q') → A' q → Prop} {x : Inquiry Q A α} {a : α}
  {b : β}

@[simp] theorem yields_done {b : α} : (Inquiry.done a : Inquiry Q A α).Yields R b ↔ b = a := by
  constructor
  · rintro ⟨⟩; rfl
  · rintro rfl; exact .done b

@[simp] theorem yields_pure {b : α} : (pure a : Inquiry Q A α).Yields R b ↔ b = a := yields_done

@[simp] theorem yields_ask {q : Q} {next : A q → Inquiry Q A α} :
    (Inquiry.ask q next).Yields R a ↔ ∃ x, R q x ∧ (next x).Yields R a := by
  constructor
  · rintro ⟨⟩; exact ⟨_, ‹_›, ‹_›⟩
  · rintro ⟨x, hx, h⟩; exact .ask hx h

theorem yields_bind {f : α → Inquiry Q A β} :
    (x >>= f).Yields R b ↔ ∃ a, x.Yields R a ∧ (f a).Yields R b := by
  show (x.bind f).Yields R b ↔ _
  induction x with
  | done a => simp [bind]
  | ask q next ih =>
    simp only [bind, yields_ask, ih]
    constructor
    · rintro ⟨y, hy, a, ha, hb⟩; exact ⟨a, ⟨y, hy, ha⟩, hb⟩
    · rintro ⟨a, ⟨y, hy, ha⟩, hb⟩; exact ⟨y, hy, a, ha, hb⟩

/-- A question, and what is done with its answer. -/
theorem yields_ask_bind {q : Q} {f : A q → Inquiry Q A β} :
    ((Inquiry.ask q Inquiry.done : Inquiry Q A (A q)) >>= f).Yields R b ↔ ∃ x, R q x ∧ (f x).Yields R b :=
  yields_ask

theorem Yields.mono (h : x.Yields R₁ a) (hR : ∀ q y, R₁ q y → R₂ q y) : x.Yields R₂ a := by
  induction h with
  | done a => exact .done a
  | ask hy _ ih => exact .ask (hR _ _ hy) ih

/-- An outcome of a computation whose questions are passed on as others. -/
theorem Yields.of_passed {pass : (q : Q) → Inquiry Q' A' (A q)}
    (hpass : ∀ q y, (pass q).Yields R' y → R q y) (h : (x.perform pass).Yields R' a) :
    x.Yields R a := by
  induction x with
  | done b => simpa [perform] using h
  | ask q next ih =>
    obtain ⟨y, hy, hnext⟩ := yields_bind.1 h
    exact .ask (hpass q y hy) (ih y hnext)

/-- **What the answers of a handler had in common** holds along the outcome. The state may only grow;
what an answer says of the state when it was given must hold of every later one. -/
theorem Yields.of_perform {answer : (q : Q) → StateT σ (Inquiry Q' A') (A q)} {L : σ → σ → Prop}
    {K : σ → (q : Q) → A q → Prop} (hrefl : ∀ s, L s s)
    (htrans : ∀ s₁ s₂ s₃, L s₁ s₂ → L s₂ s₃ → L s₁ s₃)
    (hanswer : ∀ q s y s₁, ((answer q).run s).Yields R' (y, s₁) →
      L s s₁ ∧ ∀ s₂, L s₁ s₂ → K s₂ q y)
    {s s' : σ} (h : ((x.perform answer).run s).Yields R' (a, s')) :
    L s s' ∧ x.Yields (K s') a := by
  induction x generalizing s with
  | done b =>
    obtain ⟨rfl, rfl⟩ := Prod.mk.inj (yields_pure.1 h)
    exact ⟨hrefl s', .done a⟩
  | ask q next ih =>
    rw [perform, StateT.run_bind] at h
    obtain ⟨⟨y, s₁⟩, hy, hnext⟩ := yields_bind.1 h
    obtain ⟨hle, hR⟩ := hanswer q s y s₁ hy
    obtain ⟨hle', hx⟩ := ih y hnext
    exact ⟨htrans _ _ _ hle hle', .ask (hR s' hle') hx⟩

/-- What a computation comes to when each question has one answer. -/
def result (answer : (q : Q) → A q) : Inquiry Q A α → α
  | done a => a
  | ask q next => (next (answer q)).result answer

theorem yields_result {answer : (q : Q) → A q} (h : ∀ q, R q (answer q)) (x : Inquiry Q A α) :
    x.Yields R (x.result answer) := by
  induction x with
  | done a => exact .done a
  | ask q next ih => exact .ask (h q) (ih _)

/-- Answers that depend on the question alone leave one outcome. -/
theorem Yields.eq_result {answer : (q : Q) → A q} (h : x.Yields (fun q y => y = answer q) a) :
    a = x.result answer := by
  induction h with
  | done a => rfl
  | ask hy _ ih =>
    subst hy
    exact ih

/-- All questions that a computation can come to satisfy a predicate. -/
def Asks (P : Q → Prop) : Inquiry Q A α → Prop
  | done _ => True
  | ask q next => P q ∧ ∀ y, (next y).Asks P

variable {P : Q → Prop}

theorem Asks.mono {P' : Q → Prop} (h : x.Asks P) (hP : ∀ q, P q → P' q) : x.Asks P' := by
  induction x with
  | done a => trivial
  | ask q next ih => exact ⟨hP q h.1, fun y => ih y (h.2 y)⟩

/-- A computation in two parts asks what the first one asks, and what the second one does after any outcome. -/
theorem asks_bind_iff {f : α → Inquiry Q A β} :
    (x >>= f).Asks P ↔ x.Asks P ∧ ∀ a, x.Yields Any a → (f a).Asks P := by
  show (x.bind f).Asks P ↔ _
  induction x with
  | done a => simp [bind, Asks]
  | ask q next ih =>
    simp only [bind, Asks, ih, yields_ask]
    constructor
    · rintro ⟨hq, h⟩
      refine ⟨⟨hq, fun y => (h y).1⟩, ?_⟩
      rintro a ⟨y, -, ha⟩
      exact (h y).2 a ha
    · rintro ⟨⟨hq, h⟩, hnext⟩
      exact ⟨hq, fun y => ⟨h y, fun a ha => hnext a ⟨y, trivial, ha⟩⟩⟩

theorem Asks.bind {f : α → Inquiry Q A β} (hx : x.Asks P) (hf : ∀ a, (f a).Asks P) :
    (x >>= f).Asks P := asks_bind_iff.2 ⟨hx, fun a _ => hf a⟩

theorem asks_true (x : Inquiry Q A α) : x.Asks fun _ => True := by
  induction x with
  | done a => trivial
  | ask q next ih => exact ⟨trivial, ih⟩

/-- What a computation asks whose questions are passed on as others. -/
theorem Asks.of_passed {P' : Q' → Prop} {pass : (q : Q) → Inquiry Q' A' (A q)}
    (hpass : ∀ q, P q → (pass q).Asks P') (h : x.Asks P) : (x.perform pass).Asks P' := by
  induction x with
  | done a => trivial
  | ask q next ih => exact (hpass q h.1).bind fun y => ih y (h.2 y)

/-- Whatever allowed answers a computation gets, all that it asks satisfies a predicate, and so does what
it comes to. Every computation comes to an end, so this is total correctness. -/
def Holds (R : (q : Q) → A q → Prop) (P : Q → Prop) (post : α → Prop) : Inquiry Q A α → Prop
  | done a => post a
  | ask q next => P q ∧ ∀ y, R q y → (next y).Holds R P post

variable {P' : Q' → Prop} {post : α → Prop}

theorem Holds.mono {post' : α → Prop} (h : x.Holds R P post) (hpost : ∀ a, post a → post' a) :
    x.Holds R P post' := by
  induction x with
  | done a => exact hpost a h
  | ask q next ih => exact ⟨h.1, fun y hy => ih y (h.2 y hy)⟩

theorem Asks.holds (h : x.Asks P) : x.Holds R P fun _ => True := by
  induction x with
  | done a => trivial
  | ask q next ih => exact ⟨h.1, fun y _ => ih y (h.2 y)⟩

theorem Holds.asks (h : x.Holds Any P post) : x.Asks P := by
  induction x with
  | done a => trivial
  | ask q next ih => exact ⟨h.1, fun y => ih y (h.2 y trivial)⟩

theorem holds_true (x : Inquiry Q A α) : x.Holds R (fun _ => True) fun _ => True :=
  (asks_true x).holds

theorem holds_bind {f : α → Inquiry Q A β} {post : β → Prop}
    (h : x.Holds R P fun a => (f a).Holds R P post) : (x >>= f).Holds R P post := by
  show (x.bind f).Holds R P post
  induction x with
  | done a => exact h
  | ask q next ih => exact ⟨h.1, fun y hy => ih y (h.2 y hy)⟩

theorem Holds.of_yields (h : x.Holds R P post) (ha : x.Yields R a) : post a := by
  induction ha with
  | done a => exact h
  | ask hy _ ih => exact ih (h.2 _ hy)

/-- **What a handler guarantees** of its answers holds along every run, as long as its state is as
required. -/
theorem Holds.of_perform {answer : (q : Q) → StateT σ (Inquiry Q' A') (A q)} {I : σ → Prop}
    (hanswer : ∀ q s, P q → I s →
      ((answer q).run s).Holds R' P' fun p => R q p.1 ∧ I p.2)
    {s : σ} (hs : I s) (h : x.Holds R P post) :
    ((x.perform answer).run s).Holds R' P' fun p => post p.1 ∧ I p.2 := by
  induction x generalizing s with
  | done a => exact ⟨h, hs⟩
  | ask q next ih =>
    rw [perform, StateT.run_bind]
    exact holds_bind ((hanswer q s h.1 hs).mono fun p hp => ih p.1 hp.2 (h.2 p.1 hp.1))

/-- What holds of a computation whose questions are passed on as others. -/
theorem Holds.of_passed {pass : (q : Q) → Inquiry Q' A' (A q)}
    (hpass : ∀ q, P q → (pass q).Holds R' P' (R q)) (h : x.Holds R P post) :
    (x.perform pass).Holds R' P' post := by
  induction x with
  | done a => exact h
  | ask q next ih => exact holds_bind ((hpass q h.1).mono fun y hy => ih y (h.2 y hy))

end Inquiry

namespace Once

open Inquiry

variable {Slot : Type} [DecidableEq Slot] {Content : Slot → Type} {Q : Type} {A : Q → Type}
  {ε α : Type} {R : (q : Q) → A q → Prop} {m m' : Memory Slot Content} {a : α}

/-- A slot that is never left keeps what it holds. -/
theorem alone_frame {w : Work Slot Content Q A α} {s : Slot}
    (hw : w.Asks fun q => ∀ c, q ≠ .leave s c) (h : (alone w m).Yields R (a, m')) :
    m'.get? s = m.get? s := by
  unfold alone at h
  -- only a question that leaves a slot changes the memory, and it changes that slot
  induction w generalizing m with
  | done b =>
    obtain ⟨-, rfl⟩ := Prod.mk.inj (yields_pure.1 h)
    rfl
  | ask q next ih =>
    rw [perform, StateT.run_bind] at h
    obtain ⟨⟨y, m₁⟩, hy, hnext⟩ := yields_bind.1 h
    rw [ih y (hw.2 y) hnext]
    cases q with
    | enter t =>
      obtain ⟨-, rfl⟩ := Prod.mk.inj (yields_done.1 hy)
      rfl
    | leave t c =>
      obtain ⟨-, rfl⟩ := Prod.mk.inj (yields_done.1 hy)
      refine Memory.get_put_of_ne m ?_ c
      rintro rfl
      exact hw.1 c rfl
    | outside q =>
      obtain ⟨z, -, hz⟩ := yields_ask.1 hy
      obtain ⟨-, rfl⟩ := Prod.mk.inj (yields_done.1 hz)
      rfl

/-- A computation in two parts that runs alone: the second part has the memory that the first one left. -/
theorem alone_bind {β : Type} {x : Work Slot Content Q A α} {f : α → Work Slot Content Q A β} :
    alone (x.bind f) m = (alone x m).bind fun p => alone (f p.1) p.2 := by
  show ((x >>= f).perform remember).run m = _
  rw [perform_bind, StateT.run_bind]
  rfl

theorem yields_alone_bind {β : Type} {x : Work Slot Content Q A α}
    {f : α → Work Slot Content Q A β} {b : β} : (alone (x.bind f) m).Yields R (b, m') ↔
      ∃ a m₁, (alone x m).Yields R (a, m₁) ∧ (alone (f a) m₁).Yields R (b, m') := by
  have hbind : alone (x.bind f) m = alone x m >>= fun p => alone (f p.1) p.2 := alone_bind
  rw [hbind, yields_bind]
  constructor
  · rintro ⟨⟨a, m₁⟩, h⟩; exact ⟨a, m₁, h⟩
  · rintro ⟨a, m₁, h⟩; exact ⟨(a, m₁), h⟩

/-- **A slot is filled by the first that finds it empty**, unless its work fails. -/
theorem yields_once {s : Slot} {fill : Work Slot Content Q A (Except ε (Content s))}
    {a : Except ε (Content s)} (h : (alone (once s fill) m).Yields R (a, m')) :
    (∃ c, m.get? s = some c ∧ a = .ok c ∧ m' = m) ∨
      (m.get? s = none ∧ ∃ m₁, (alone fill m).Yields R (a, m₁) ∧ m' = m₁.put s a.toOption) := by
  rw [alone, once, perform, StateT.run_bind] at h
  obtain ⟨⟨x, m₀⟩, henter, hnext⟩ := yields_bind.1 h
  obtain ⟨hx, rfl⟩ := Prod.mk.inj (yields_done.1 henter)
  cases hs : m₀.get? s with
  | some c =>
    rw [hx, hs] at hnext
    obtain ⟨rfl, rfl⟩ := Prod.mk.inj (yields_done.1 hnext)
    exact .inl ⟨c, rfl, rfl, rfl⟩
  | none =>
    rw [hx, hs] at hnext
    obtain ⟨y, m₁, hy, hleave⟩ := yields_alone_bind.1 hnext
    refine .inr ⟨rfl, m₁, ?_⟩
    cases y with
    | ok c | error e =>
      obtain ⟨rfl, rfl⟩ := Prod.mk.inj (yields_done.1 hleave)
      exact ⟨hy, rfl⟩

/-- From a slot that is filled its content is taken, and nothing is asked. -/
theorem alone_once_of_filled {s : Slot} {fill : Work Slot Content Q A (Except ε (Content s))}
    {c : Content s} (h : m.get? s = some c) : alone (once s fill) m = .done (.ok c, m) := by
  rw [alone, once, perform, StateT.run_bind]
  show StateT.run (Inquiry.perform remember _) m = _
  rw [h]
  rfl

/-- A slot that is empty is filled, unless its work fails. -/
theorem alone_once_of_empty {s : Slot} {fill : Work Slot Content Q A (Except ε (Content s))}
    (h : m.get? s = none) :
    alone (once s fill) m = (alone fill m).bind fun p => .done (p.1, p.2.put s p.1.toOption) := by
  rw [alone, once, perform, StateT.run_bind]
  show StateT.run (Inquiry.perform remember _) m = _
  rw [h]
  show alone (fill.bind _) m = _
  rw [alone_bind]
  congr 1
  funext p
  rcases p with ⟨x | x, m₁⟩ <;> rfl

theorem alone_once'_of_empty {s : Slot} {fill : Work Slot Content Q A (Content s)}
    (h : m.get? s = none) :
    alone (once' s fill) m = (alone fill m).bind fun p => .done (p.1, p.2.put s (some p.1)) := by
  rw [alone, once', perform, StateT.run_bind]
  show StateT.run (Inquiry.perform remember _) m = _
  rw [h]
  show alone (fill.bind _) m = _
  rw [alone_bind]
  rfl

/-- What is asked from the outside by a computation that runs alone. -/
theorem asks_alone {w : Work Slot Content Q A α} {P : Q → Prop}
    (hw : w.Asks fun q => ∀ q', q = .outside q' → P q') : (alone w m).Asks P := by
  unfold alone
  induction w generalizing m with
  | done a => trivial
  | ask q next ih =>
    rw [perform, StateT.run_bind]
    refine Asks.bind ?_ fun p => ih p.1 (hw.2 p.1)
    cases q with
    | enter s | leave s c => trivial
    | outside q => exact ⟨hw.1 q rfl, fun _ => trivial⟩

variable {P : Question Slot Content Q → Prop}

omit [DecidableEq Slot] in
theorem asks_once {s : Slot} {fill : Work Slot Content Q A (Except ε (Content s))}
    (henter : P (.enter s)) (hleave : ∀ c, P (.leave s c)) (hfill : fill.Asks P) :
    (once s fill).Asks P := by
  refine ⟨henter, fun x => ?_⟩
  cases x with
  | some c => trivial
  | none =>
    refine hfill.bind fun y => ?_
    cases y with
    | ok c | error e => exact ⟨hleave _, fun _ => trivial⟩

omit [DecidableEq Slot] in
theorem asks_once' {s : Slot} {fill : Work Slot Content Q A (Content s)}
    (henter : P (.enter s)) (hleave : ∀ c, P (.leave s c)) (hfill : fill.Asks P) :
    (once' s fill).Asks P := by
  refine ⟨henter, fun x => ?_⟩
  cases x with
  | some c => trivial
  | none => exact hfill.bind fun y => ⟨hleave _, fun _ => trivial⟩

end Once

end Upkeep
