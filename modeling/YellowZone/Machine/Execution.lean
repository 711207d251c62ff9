import Mathlib

/-!
# Executions of a labelled system

A system is a partial step function on states, driven by actions: the action says which party
moves and settles every nondeterministic choice, so `step` is a function and finite runs can be
evaluated. Each step also emits an observation, and an execution collects them, newest first.

Properties of runs are stated on that list, with no history variables in the state.

Executions are taken under a guard `P` on the steps: `fun _ _ => True` gives all of them, and an
assumption on the environment (nobody crashes, clocks do not run ahead) restricts them without a
second copy of the system.

## Main definitions and results

* `Lts`, `Lts.Exec` — systems and their guarded executions
* `Lts.Exec.invariant` — what holds at the start and survives every step holds throughout
* `Lts.recorded` — executions with their whole past, for properties about what has been the case
* `Lts.run`, `Lts.exec_of_run`, `Lts.exists_exec` — evaluation of a list of actions, and that it
  is an execution
* `reaches_of_measure` — a run that comes closer with every step arrives
-/

namespace YellowZone.Machine

/-- A system with states `σ`, actions `α` and observations `ε`. -/
structure Lts (σ α ε : Type) where
  /-- The successor under an action, if the action is enabled. -/
  step : σ → α → Option σ
  /-- What is observed of a step. -/
  event : σ → α → σ → ε

namespace Lts

variable {σ α ε : Type} (L : Lts σ α ε)

/-- `L.Exec P s₀ tr s`: a run from `s₀` to `s` all of whose steps satisfy `P`, with the
observations `tr`, newest first. -/
inductive Exec (P : σ → α → Prop) (s₀ : σ) : List ε → σ → Prop
  | start : Exec P s₀ [] s₀
  | next {tr : List ε} {s s' : σ} {a : α} (h : Exec P s₀ tr s) (hP : P s a)
      (hs : L.step s a = some s') : Exec P s₀ (L.event s a s' :: tr) s'

variable {L} {P Q : σ → α → Prop} {s₀ s s' : σ} {tr tr' : List ε}

/-- **Invariants.** -/
theorem Exec.invariant {I : List ε → σ → Prop} (h : L.Exec P s₀ tr s) (h₀ : I [] s₀)
    (hstep : ∀ tr s a s', I tr s → P s a → L.step s a = some s' → I (L.event s a s' :: tr) s') :
    I tr s := by
  induction h with
  | start => exact h₀
  | next _ hP hs ih => exact hstep _ _ _ _ ih hP hs

/-- A stronger guard gives fewer executions. -/
theorem Exec.mono (h : L.Exec P s₀ tr s) (hPQ : ∀ s a, P s a → Q s a) : L.Exec Q s₀ tr s := by
  induction h with
  | start => exact .start
  | next _ hP hs ih => exact .next ih (hPQ _ _ hP) hs

theorem Exec.trans (h : L.Exec P s₀ tr s) (h' : L.Exec P s tr' s') :
    L.Exec P s₀ (tr' ++ tr) s' := by
  induction h' with
  | start => exact h
  | next _ hP hs ih => exact .next ih hP hs

variable (L)

/-- The same system, observed completely: a step shows the state it starts from and its action. -/
def recorded : Lts σ α (σ × α) where
  step := L.step
  event s a _ := (s, a)

variable {L}

/-- A recorded execution is an execution. -/
theorem exec_of_recorded {hist : List (σ × α)} (h : L.recorded.Exec P s₀ hist s) :
    ∃ tr, L.Exec P s₀ tr s := by
  induction h with
  | start => exact ⟨[], .start⟩
  | next _ hP hs ih =>
    obtain ⟨tr, h⟩ := ih
    exact ⟨_, .next h hP hs⟩

variable (L)

/-- Run a list of actions, collecting the observations in front of `tr`. The run is refused at
an action that is not enabled or that the test `p` rejects. -/
def run (p : σ → α → Bool) : σ → List ε → List α → Option (List ε × σ)
  | s, tr, [] => some (tr, s)
  | s, tr, a :: as =>
    if p s a then
      match L.step s a with
      | some s' => run p s' (L.event s a s' :: tr) as
      | none => none
    else none

variable {L}

/-- An evaluated run is an execution. -/
theorem exec_of_run {p : σ → α → Bool} (hp : ∀ s a, p s a = true → P s a) :
    ∀ {as : List α} {tr : List ε} {s : σ}, L.Exec P s₀ tr s →
      ∀ {tr' : List ε} {s' : σ}, L.run p s tr as = some (tr', s') → L.Exec P s₀ tr' s' := by
  intro as
  induction as with
  | nil =>
    intro tr s h tr' s' hr
    simp only [run, Option.some.injEq, Prod.mk.injEq] at hr
    obtain ⟨rfl, rfl⟩ := hr
    exact h
  | cons a as ih =>
    intro tr s h tr' s' hr
    simp only [run] at hr
    split at hr
    · rename_i hpa
      split at hr
      · rename_i s₁ hs
        exact ih (.next h (hp _ _ hpa) hs) hr
      · cases hr
    · cases hr

/-- A run that has been evaluated, for its end. -/
theorem exists_exec {p : σ → α → Bool} (hp : ∀ s a, p s a = true → P s a) (as : List α)
    (test : List ε → σ → Bool)
    (h : (L.run p s₀ [] as).any (fun r => test r.1 r.2) = true) :
    ∃ tr s, L.Exec P s₀ tr s ∧ test tr s = true := by
  cases hr : L.run p s₀ [] as with
  | none => simp [hr] at h
  | some r => exact ⟨r.1, r.2, exec_of_run hp .start hr, by simpa [hr] using h⟩

end Lts

/-- **Arrival.** As long as a sequence of states has not arrived it keeps `I` and the measure
drops; so it arrives. -/
theorem reaches_of_measure {σ : Type} {f : ℕ → σ} {I D : σ → Prop} (μ : σ → ℕ)
    (h₀ : I (f 0))
    (hstep : ∀ n, I (f n) → D (f (n + 1)) ∨ I (f (n + 1)) ∧ μ (f (n + 1)) < μ (f n)) :
    ∃ n, D (f n) := by
  have key : ∀ n, (∃ k, D (f k)) ∨ I (f n) ∧ μ (f n) + n ≤ μ (f 0) := by
    intro n
    induction n with
    | zero => exact .inr ⟨h₀, Nat.le_refl _⟩
    | succ n ih =>
      rcases ih with h | ⟨hI, hle⟩
      · exact .inl h
      · rcases hstep n hI with hD | ⟨hI', hlt⟩
        · exact .inl ⟨n + 1, hD⟩
        · exact .inr ⟨hI', by omega⟩
  rcases key (μ (f 0) + 1) with h | ⟨-, hle⟩
  · exact h
  · omega

end YellowZone.Machine
