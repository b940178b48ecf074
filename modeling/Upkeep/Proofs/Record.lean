import Upkeep.Proofs.Inquiry

/-!
# What a computation asked

A computation can keep a record of its questions. The record changes nothing in what is asked and in what
the computation comes to; it only tells afterwards what was asked on the way to an outcome.

* `Inquiry.recorded`: the computation, with a record of what it asks.
* `Inquiry.recorded_fst`: the record changes nothing.
* `Inquiry.yields_recorded_bind`: what was asked in two parts was asked in one or the other.
* `Inquiry.Asks.of_recorded`: what a computation may ask at most bounds what it asked.
* `Inquiry.Runs`: what a computation asked, what it was told, and what it came to.
* `Inquiry.yields_iff_runs`: an outcome is what some run comes to.
-/

namespace Upkeep.Inquiry

variable {Q : Type} {A : Q → Type} {α β : Type} {R : (q : Q) → A q → Prop} {x : Inquiry Q A α}
  {a : α} {b : β} {asked : List Q}

/-- The computation, with a record of what it asks. -/
def recorded : Inquiry Q A α → Inquiry Q A (α × List Q)
  | done a => done (a, [])
  | ask q next => ask q fun y => (next y).recorded.bind fun p => done (p.1, q :: p.2)

/-- The record changes nothing. -/
theorem recorded_fst (x : Inquiry Q A α) : (x.recorded >>= fun p => pure p.1) = x := by
  show x.recorded.bind (fun p => done p.1) = x
  induction x with
  | done a => rfl
  | ask q next ih =>
    simp only [recorded, bind, ask.injEq, heq_eq_eq, true_and]
    funext y
    rw [bind_assoc]
    exact ih y

@[simp] theorem yields_recorded_done {a' : α} :
    (Inquiry.done a : Inquiry Q A α).recorded.Yields R (a', asked) ↔ a' = a ∧ asked = [] := by
  simp [recorded]

@[simp] theorem yields_recorded_pure {a' : α} :
    (pure a : Inquiry Q A α).recorded.Yields R (a', asked) ↔ a' = a ∧ asked = [] :=
  yields_recorded_done

theorem yields_recorded_ask {q : Q} {next : A q → Inquiry Q A α} :
    (Inquiry.ask q next).recorded.Yields R (a, asked) ↔
      ∃ y later, R q y ∧ (next y).recorded.Yields R (a, later) ∧ asked = q :: later := by
  rw [recorded, yields_ask]
  constructor
  · rintro ⟨y, hy, h⟩
    obtain ⟨⟨a', later⟩, hlater, hdone⟩ := yields_bind.1 h
    obtain ⟨rfl, rfl⟩ := Prod.mk.inj (yields_done.1 hdone)
    exact ⟨y, later, hy, hlater, rfl⟩
  · rintro ⟨y, later, hy, hlater, rfl⟩
    exact ⟨y, hy, yields_bind.2 ⟨(a, later), hlater, yields_done.2 rfl⟩⟩

/-- What was asked in two parts was asked in one or the other. -/
theorem yields_recorded_bind {f : α → Inquiry Q A β} : (x >>= f).recorded.Yields R (b, asked) ↔
    ∃ a l₁ l₂, x.recorded.Yields R (a, l₁) ∧ (f a).recorded.Yields R (b, l₂) ∧ asked = l₁ ++ l₂ := by
  show (x.bind f).recorded.Yields R (b, asked) ↔ _
  induction x generalizing asked with
  | done a =>
    constructor
    · exact fun h => ⟨a, [], asked, yields_recorded_done.2 ⟨rfl, rfl⟩, h, rfl⟩
    · rintro ⟨a', l₁, l₂, hdone, h, rfl⟩
      obtain ⟨rfl, rfl⟩ := yields_recorded_done.1 hdone
      exact h
  | ask q next ih =>
    simp only [bind, yields_recorded_ask, ih]
    constructor
    · rintro ⟨y, _, hy, ⟨a, l₁, l₂, h₁, h₂, rfl⟩, rfl⟩
      exact ⟨a, q :: l₁, l₂, ⟨y, l₁, hy, h₁, rfl⟩, h₂, rfl⟩
    · rintro ⟨a, _, l₂, ⟨y, l₁, hy, h₁, rfl⟩, h₂, rfl⟩
      exact ⟨y, l₁ ++ l₂, hy, ⟨a, l₁, l₂, h₁, h₂, rfl⟩, rfl⟩

theorem Yields.of_recorded (h : x.recorded.Yields R (a, asked)) : x.Yields R a := by
  have hfst : (x.recorded >>= fun p => pure p.1).Yields R a :=
    yields_bind.2 ⟨(a, asked), h, yields_pure.2 rfl⟩
  rwa [recorded_fst] at hfst

/-- Every outcome has its record. -/
theorem Yields.exists_recorded (h : x.Yields R a) : ∃ asked, x.recorded.Yields R (a, asked) := by
  rw [← recorded_fst x] at h
  obtain ⟨⟨a', asked⟩, hx, hdone⟩ := yields_bind.1 h
  obtain rfl := yields_pure.1 hdone
  exact ⟨asked, hx⟩

/-- What a computation may ask at most bounds what it asked. -/
theorem Asks.of_recorded {P : Q → Prop} (hx : x.Asks P) (h : x.recorded.Yields R (a, asked)) :
    ∀ q ∈ asked, P q := by
  induction x generalizing asked with
  | done a' =>
    obtain ⟨-, rfl⟩ := yields_recorded_done.1 h
    simp
  | ask q next ih =>
    obtain ⟨y, later, -, hlater, rfl⟩ := yields_recorded_ask.1 h
    exact List.forall_mem_cons.2 ⟨hx.1, ih y (hx.2 y) hlater⟩

/-! ### Questions with their answers -/

variable {log : List ((q : Q) × A q)}

/-- A computation that asks, is told, and comes to something. -/
inductive Runs : Inquiry Q A α → List ((q : Q) × A q) → α → Prop where
  | done (a : α) : Runs (done a) [] a
  | ask {q : Q} {next : A q → Inquiry Q A α} {y : A q} {log : List ((q : Q) × A q)} {a : α}
      (h : Runs (next y) log a) : Runs (ask q next) (⟨q, y⟩ :: log) a

@[simp] theorem runs_done {a' : α} : (Inquiry.done a : Inquiry Q A α).Runs log a' ↔ log = [] ∧ a' = a := by
  constructor
  · rintro ⟨⟩; exact ⟨rfl, rfl⟩
  · rintro ⟨rfl, rfl⟩; exact .done a'

@[simp] theorem runs_ask {q : Q} {next : A q → Inquiry Q A α} :
    (Inquiry.ask q next).Runs log a ↔ ∃ y later, log = ⟨q, y⟩ :: later ∧ (next y).Runs later a := by
  constructor
  · rintro ⟨⟩; exact ⟨_, _, rfl, ‹_›⟩
  · rintro ⟨y, later, rfl, h⟩; exact .ask h

theorem runs_bind {f : α → Inquiry Q A β} : (x.bind f).Runs log b ↔
    ∃ a l₁ l₂, x.Runs l₁ a ∧ (f a).Runs l₂ b ∧ log = l₁ ++ l₂ := by
  induction x generalizing log with
  | done a =>
    constructor
    · exact fun h => ⟨a, [], log, .done a, h, rfl⟩
    · rintro ⟨a', l₁, l₂, hdone, h, rfl⟩
      obtain ⟨rfl, rfl⟩ := runs_done.1 hdone
      exact h
  | ask q next ih =>
    simp only [bind, runs_ask, ih]
    constructor
    · rintro ⟨y, _, rfl, a, l₁, l₂, h₁, h₂, rfl⟩
      exact ⟨a, ⟨q, y⟩ :: l₁, l₂, ⟨y, l₁, rfl, h₁⟩, h₂, rfl⟩
    · rintro ⟨a, _, l₂, ⟨y, l₁, rfl, h₁⟩, h₂, rfl⟩
      exact ⟨y, l₁ ++ l₂, rfl, a, l₁, l₂, h₁, h₂, rfl⟩

/-- An outcome that a computation comes to by allowed answers, with what it asked and was told. -/
theorem yields_iff_runs : x.Yields R a ↔ ∃ log, x.Runs log a ∧ ∀ e ∈ log, R e.1 e.2 := by
  constructor
  · intro h
    induction h with
    | done a => exact ⟨[], .done a, by simp⟩
    | @ask q next y a hy _ ih =>
      obtain ⟨log, hlog, hR⟩ := ih
      exact ⟨⟨q, y⟩ :: log, .ask hlog, List.forall_mem_cons.2 ⟨hy, hR⟩⟩
  · rintro ⟨log, hlog, hR⟩
    induction hlog with
    | done a => exact .done a
    | ask _ ih =>
      obtain ⟨hy, hR⟩ := List.forall_mem_cons.1 hR
      exact .ask hy (ih hR)

end Upkeep.Inquiry
