import Mathlib

/-!
# Computations that may raise

Pre- and postconditions for a state monad with exceptions in which an exception keeps the state
it was raised in. A specification has two postconditions, one for each way to end.

## Main definitions and results

* `Meets x s Q E` — run from `s`, `x` ends with `Q` or raises with `E`
* `Meets.bind`, `meets_get_bind`, `Meets.tryCatch`, `Meets.mono` — the rules
* `Meets.raise`, `Meets.return` — what a specification says about a run
-/

namespace YellowZone.Machine

variable {ε σ α β : Type}

/-- Run from `s`, `x` returns a result and a state with `Q`, or raises in a state with `E`. -/
def Meets (x : EStateM ε σ α) (s : σ) (Q : α → σ → Prop) (E : ε → σ → Prop) : Prop :=
  match x s with
  | .ok a t => Q a t
  | .error e t => E e t

variable {x : EStateM ε σ α} {s t : σ} {Q Q' : α → σ → Prop} {E E' : ε → σ → Prop}

theorem Meets.return (h : Meets x s Q E) {a : α} (hx : x s = .ok a t) : Q a t := by
  rwa [Meets, hx] at h

theorem Meets.raise (h : Meets x s Q E) {e : ε} (hx : x s = .error e t) : E e t := by
  rwa [Meets, hx] at h

/-- Every computation ends in one of the two ways. -/
theorem meets_of (hok : ∀ a t, x s = .ok a t → Q a t) (herr : ∀ e t, x s = .error e t → E e t) :
    Meets x s Q E := by
  rw [Meets]
  cases hx : x s with
  | ok a t => exact hok a t hx
  | error e t => exact herr e t hx

theorem Meets.mono (h : Meets x s Q E) (hQ : ∀ a t, Q a t → Q' a t)
    (hE : ∀ e t, E e t → E' e t) : Meets x s Q' E' :=
  meets_of (fun _ _ hx => hQ _ _ (h.return hx)) fun _ _ hx => hE _ _ (h.raise hx)

theorem Meets.bind {f : α → EStateM ε σ β} {R : β → σ → Prop}
    (h : Meets x s Q E) (hf : ∀ a t, Q a t → Meets (f a) t R E) : Meets (x >>= f) s R E := by
  change Meets (EStateM.bind x f) s R E
  unfold Meets EStateM.bind at *
  cases hx : x s with
  | ok a t => rw [hx] at h; exact hf a t h
  | error e t => rw [hx] at h; exact h

/-- Reading the state. -/
theorem meets_get_bind {f : σ → EStateM ε σ β} {R : β → σ → Prop} (h : Meets (f s) s R E) :
    Meets (get >>= f) s R E :=
  Meets.bind (Q := fun a t => a = s ∧ t = s) ⟨rfl, rfl⟩ (by rintro _ _ ⟨rfl, rfl⟩; exact h)

theorem Meets.tryCatch {k : ε → EStateM ε σ α} (h : Meets x s Q E)
    (hk : ∀ e t, E e t → Meets (k e) t Q E') : Meets (tryCatch x k) s Q E' := by
  change Meets (EStateM.tryCatch x k) s Q E'
  unfold Meets EStateM.tryCatch at *
  cases hx : x s with
  | ok a t => rw [hx] at h; exact h
  | error e t => rw [hx] at h; exact hk e t h

end YellowZone.Machine
