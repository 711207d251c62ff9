import YellowZone.Machine.Execution

/-!
# Threads with a mutex, and what they must come to

Two things that arguments about threads need beyond the invariants of `Execution`.

**Mutual exclusion.** A mutex has an owner, and a thread is inside or outside of the code that it
guards. `Exclusive` says that the two accounts agree. Every step of a thread leaves the mutex alone,
takes it or releases it.

**Inevitability.** That something happens in the end, whoever is scheduled, is stated without
infinite runs. A bound on the length of all runs, and a step that is possible until it has happened:
then every run that goes on as long as it can comes to it.

## Main definitions and results

* `Exclusive`, with `Exclusive.keep`, `Exclusive.take`, `Exclusive.release`
* `Lts.Inevitable`, `Lts.inevitable_of_rank`
-/

namespace YellowZone.Machine

/-! ## The owner of a mutex -/

section Mutex

variable {τ : Type} {owner : Option τ} {inside inside' : τ → Prop} {t : τ}

/-- The owner of the mutex, and nobody else, is inside. -/
def Exclusive (owner : Option τ) (inside : τ → Prop) : Prop := ∀ t, inside t ↔ owner = some t

theorem Exclusive.unique (h : Exclusive owner inside) {t' : τ} (ht : inside t) (ht' : inside t') :
    t = t' :=
  Option.some.inj (((h t).mp ht).symm.trans ((h t').mp ht'))

/-- Nobody goes in or out. -/
theorem Exclusive.keep (h : Exclusive owner inside) (hsame : ∀ t, inside' t ↔ inside t) :
    Exclusive owner inside' := fun t => (hsame t).trans (h t)

/-- A thread takes the free mutex and goes in. -/
theorem Exclusive.take (h : Exclusive none inside) (ht : inside' t)
    (hsame : ∀ t', t' ≠ t → (inside' t' ↔ inside t')) : Exclusive (some t) inside' := by
  intro t'
  by_cases heq : t' = t
  · subst heq
    exact iff_of_true ht rfl
  · refine (hsame t' heq).trans ((h t').trans (iff_of_false nofun ?_))
    exact fun hsome => heq (Option.some.inj hsome).symm

/-- A thread that is inside goes out and releases the mutex. -/
theorem Exclusive.release (h : Exclusive owner inside) (ht : inside t) (ht' : ¬ inside' t)
    (hsame : ∀ t', t' ≠ t → (inside' t' ↔ inside t')) : Exclusive none inside' := by
  intro t'
  by_cases heq : t' = t
  · subst heq
    exact iff_of_false ht' nofun
  · refine (hsame t' heq).trans (iff_of_false ?_ nofun)
    exact fun hin => heq (h.unique hin ht)

end Mutex

/-! ## Inevitability -/

namespace Lts

variable {σ α ε : Type} (L : Lts σ α ε)

/-- **Every run from `s` comes to `D`**: runs are no longer than some bound, and as long as `D` does
not hold there is a next step. -/
def Inevitable (P : σ → α → Prop) (s : σ) (D : σ → Prop) : Prop :=
  ∃ bound, ∀ tr s', L.Exec P s tr s' →
    tr.length ≤ bound ∧ (D s' ∨ ∃ a s'', P s' a ∧ L.step s' a = some s'')

variable {L} {P : σ → α → Prop} {D I : σ → Prop} {s : σ}

/-- Every step lowers a rank, and there is one until `D` holds. -/
theorem inevitable_of_rank (rank : σ → ℕ) (h₀ : I s)
    (hstep : ∀ s a s', I s → P s a → L.step s a = some s' → I s' ∧ rank s' < rank s)
    (hnext : ∀ s, I s → D s ∨ ∃ a s', P s a ∧ L.step s a = some s') : L.Inevitable P s D := by
  refine ⟨rank s, fun tr s' h => ?_⟩
  have hrun : I s' ∧ tr.length + rank s' ≤ rank s := by
    refine h.invariant (I := fun tr s' => I s' ∧ tr.length + rank s' ≤ rank s)
      ⟨h₀, le_of_eq (Nat.zero_add _)⟩ ?_
    rintro tr s₁ a s₂ ⟨hI, hle⟩ hP hs
    obtain ⟨hI', hlt⟩ := hstep s₁ a s₂ hI hP hs
    refine ⟨hI', ?_⟩
    rw [List.length_cons]
    omega
  exact ⟨by omega, hnext s' hrun.1⟩

end Lts

end YellowZone.Machine
