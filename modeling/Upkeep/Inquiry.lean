/-!
# Inquiries

A computation that asks questions of its surroundings and goes on with the answers. It fixes what is
asked and what is made of the answers, and leaves open who answers.

* `Inquiry.perform`: the computation, with the questions answered in some monad.
* `Inquiry.perform_bind`: a computation in two parts is performed part by part.
-/

namespace Upkeep

/-- A computation that asks questions `q : Q` and gets answers of type `A q`. -/
inductive Inquiry (Q : Type) (A : Q → Type) (α : Type) where
  | done (a : α)
  | ask (q : Q) (next : A q → Inquiry Q A α)

namespace Inquiry

variable {Q : Type} {A : Q → Type} {α β γ : Type}

/-- Goes on with another computation. -/
def bind : Inquiry Q A α → (α → Inquiry Q A β) → Inquiry Q A β
  | done a, f => f a
  | ask q next, f => ask q fun a => (next a).bind f

instance : Monad (Inquiry Q A) where
  pure := done
  bind := bind

theorem bind_done (x : Inquiry Q A α) : x.bind done = x := by
  induction x with
  | done a => rfl
  | ask q next ih => simp [bind, ih]

theorem bind_assoc (x : Inquiry Q A α) (f : α → Inquiry Q A β) (g : β → Inquiry Q A γ) :
    (x.bind f).bind g = x.bind fun a => (f a).bind g := by
  induction x with
  | done a => rfl
  | ask q next ih => simp [bind, ih]

instance : LawfulMonad (Inquiry Q A) :=
  LawfulMonad.mk' (Inquiry Q A) (fun x => bind_done x) (fun _ _ => rfl)
    (fun x f g => bind_assoc x f g)

/-- The computation, with its questions answered. -/
def perform {m : Type → Type} [Monad m] (answer : (q : Q) → m (A q)) : Inquiry Q A α → m α
  | done a => pure a
  | ask q next => answer q >>= fun a => (next a).perform answer

theorem perform_bind {m : Type → Type} [Monad m] [LawfulMonad m] (answer : (q : Q) → m (A q))
    (x : Inquiry Q A α) (f : α → Inquiry Q A β) :
    (x >>= f).perform answer = x.perform answer >>= fun a => (f a).perform answer := by
  induction x with
  | done a => simp [Bind.bind, bind, perform]
  | ask q next ih =>
    have (a : A q) : ((next a).bind f).perform answer =
        (next a).perform answer >>= fun a => (f a).perform answer := ih a
    show (answer q >>= fun a => ((next a).bind f).perform answer) = _
    simp [perform, this]

end Inquiry

end Upkeep
