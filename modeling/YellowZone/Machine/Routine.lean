import YellowZone.Machine.SharedMemory

/-!
# Routines run to their end

The big-step view of a routine: what it returns, and the memory it leaves, when no other thread
takes a step while it runs and the clock stands. `Ends` is total correctness in this sense, and
its rules follow the way routines are written: one rule for a command, one for a call of another
routine, whose program points the caller embeds in its own.

## Main definitions and results

* `Returns` — the routine, started at a program point, returns
* `Ends`, `EndsAt` — it returns, and what it returns satisfies a postcondition
* `Ends.step`, `Ends.call`, `EndsAt.mono` — the rules
* `Solo` — the same with a clock that runs and an environment that answers as it likes
* `Solo.invariant` — what holds at every program point holds at the end
* `solo`, `solo_of_eq` — such a run, evaluated
-/

namespace YellowZone.Machine

variable {Loc : Type} {Val : Loc → Type} [DecidableEq Loc] {Pc Pc' α β : Type}

/-- `code`, started at `pc` on memory `m`, returns `b` and leaves `m'`; the clock shows `t`. -/
inductive Returns (code : Pc → Cmd Val (Ctl Pc β)) (t : ℕ) : Mem Val → Pc → Mem Val → β → Prop
  | ret {m m' : Mem Val} {pc : Pc} {b : β} (h : (code pc).exec m t false = some (m', .ret b)) :
      Returns code t m pc m' b
  | goto {m m₁ m' : Mem Val} {pc pc₁ : Pc} {b : β}
      (h : (code pc).exec m t false = some (m₁, .goto pc₁)) (hr : Returns code t m₁ pc₁ m' b) :
      Returns code t m pc m' b

variable {code : Pc → Cmd Val (Ctl Pc β)} {callee : Pc' → Cmd Val (Ctl Pc' α)} {t : ℕ}
  {m m₁ m' m'' : Mem Val} {pc : Pc} {b b' : β}

/-- The routine has returned, or it goes on and returns, with a result that satisfies `Q`. -/
def EndsAt (code : Pc → Cmd Val (Ctl Pc β)) (t : ℕ) (Q : Mem Val → β → Prop) (m : Mem Val) :
    Ctl Pc β → Prop
  | .ret b => Q m b
  | .goto pc => ∃ m' b, Returns code t m pc m' b ∧ Q m' b

/-- Started at `pc` on memory `m`, the routine returns with a result that satisfies `Q`. -/
abbrev Ends (code : Pc → Cmd Val (Ctl Pc β)) (t : ℕ) (Q : Mem Val → β → Prop) (m : Mem Val)
    (pc : Pc) : Prop :=
  EndsAt code t Q m (.goto pc)

variable {Q R : Mem Val → β → Prop}

/-- **Consequence.** -/
theorem EndsAt.mono {ctl : Ctl Pc β} (h : EndsAt code t Q m ctl) (hQ : ∀ m' b, Q m' b → R m' b) :
    EndsAt code t R m ctl := by
  cases ctl with
  | ret b => exact hQ m b h
  | goto pc =>
    obtain ⟨m', b, hr, hq⟩ := h
    exact ⟨m', b, hr, hQ m' b hq⟩

namespace Ends

/-- **The rule of a command.** -/
theorem step {ctl : Ctl Pc β} (h : (code pc).exec m t false = some (m₁, ctl))
    (hc : EndsAt code t Q m₁ ctl) : Ends code t Q m pc := by
  cases ctl with
  | ret b => exact ⟨m₁, b, .ret h, hc⟩
  | goto pc₁ =>
    obtain ⟨m', b, hr, hQ⟩ := hc
    exact ⟨m', b, .goto h hr, hQ⟩

/-- **The rule of a call.** The caller goes on with the callee's result as `k` says. -/
theorem call {f : Pc' → Pc} {k : α → Ctl Pc β} {p : Pc'}
    (hf : ∀ p, code (f p) = (callee p).map (Ctl.elim (fun p' => .goto (f p')) k))
    (h : Ends callee t (fun m' a => EndsAt code t Q m' (k a)) m p) : Ends code t Q m (f p) := by
  obtain ⟨m', a, hr, hc⟩ := h
  induction hr with
  | ret h => exact step (by simp only [hf, Cmd.exec_map, h, Option.map_some, Ctl.elim_ret]) hc
  | goto h _ ih =>
    exact step (by simp only [hf, Cmd.exec_map, h, Option.map_some, Ctl.elim_goto]) (ih hc)

end Ends

/-! ## With the clock running -/

/-- `code`, started at `pc` on memory `m`, returns `b` and leaves `m'` when no other thread takes a
step. Each step has its own time, of which `P` holds, and its own answer of the environment. -/
inductive Solo (code : Pc → Cmd Val (Ctl Pc β)) (P : ℕ → Prop) :
    Mem Val → Pc → Mem Val → β → Prop
  | ret {m m' : Mem Val} {pc : Pc} {b : β} {t : ℕ} {o : Bool} (ht : P t)
      (h : (code pc).exec m t o = some (m', .ret b)) : Solo code P m pc m' b
  | goto {m m₁ m' : Mem Val} {pc pc₁ : Pc} {b : β} {t : ℕ} {o : Bool} (ht : P t)
      (h : (code pc).exec m t o = some (m₁, .goto pc₁)) (hr : Solo code P m₁ pc₁ m' b) :
      Solo code P m pc m' b

variable {P : ℕ → Prop}

/-- **Invariants.** What one step keeps holds at the end. -/
theorem Solo.invariant {I : Pc → Mem Val → Prop} {Q : β → Mem Val → Prop}
    (h : Solo code P m pc m' b) (h₀ : I pc m)
    (hstep : ∀ pc m t answer m' ctl, I pc m → P t →
      (code pc).exec m t answer = some (m', ctl) → ctl.elim (I · m') (Q · m')) : Q b m' := by
  induction h with
  | ret ht h => exact hstep _ _ _ _ _ _ h₀ ht h
  | goto ht h _ ih => exact ih (hstep _ _ _ _ _ _ h₀ ht h)

/-- A run with given times and answers. -/
def solo (code : Pc → Cmd Val (Ctl Pc β)) : List (ℕ × Bool) → Mem Val → Pc → Option (Mem Val × β)
  | [], _, _ => none
  | (t, answer) :: more, m, pc =>
    match (code pc).exec m t answer with
    | some (m', .ret b) => some (m', b)
    | some (m', .goto pc') => solo code more m' pc'
    | none => none

theorem solo_of_eq {script : List (ℕ × Bool)} (hP : ∀ p ∈ script, P p.1)
    (h : solo code script m pc = some (m', b)) : Solo code P m pc m' b := by
  induction script generalizing m pc with
  | nil => cases h
  | cons p script ih =>
    obtain ⟨hp, hmore⟩ := List.forall_mem_cons.mp hP
    rw [solo] at h
    split at h
    · rename_i hexec
      cases h
      exact .ret hp hexec
    · rename_i hexec
      exact .goto hp hexec (ih hmore h)
    · cases h

end YellowZone.Machine
