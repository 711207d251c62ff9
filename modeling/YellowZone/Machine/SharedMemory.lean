import Mathlib

/-!
# Atomic commands over a typed shared memory

A memory whose words have types, and the commands a thread can issue on it, one atomic access each.
A thread is given by a function from program points to commands, so one step of a thread is one
access: the granularity at which sequentially consistent threads interleave.

## Typed words

A memory is a dependent function `(l : Loc) → Val l`. The location type is an inductive of the
client, one constructor per word of its layout, and `Val` says what each word holds. There are
no addresses, no encodings and no aliasing.

## Commands carry their continuation

`Cmd Val α` is one access together with what the thread does with the answer. A routine with
several accesses is a function from its own program points to `Cmd Val (Ctl Pc β)`: continue at
a program point, or return. Callers embed a routine's program points in their own by `Cmd.map`.

## Main definitions

* `Mem`, `Mem.set` — memories and the update of one word
* `Cmd`, `Cmd.map`, `Cmd.exec` — atomic commands and their meaning
* `Cmd.target`, `Cmd.exec_frame` — the word a command writes, and that the others keep theirs
* `Ctl` — the two ways a routine goes on after a command
-/

namespace YellowZone.Machine

variable {Loc : Type} {Val : Loc → Type} {α β γ : Type}

/-- A memory: one value of the right type in every word. -/
abbrev Mem (Val : Loc → Type) : Type := (l : Loc) → Val l

section Mem

variable [DecidableEq Loc]

/-- `m` with the word `l` overwritten by `v`. -/
def Mem.set (m : Mem Val) (l : Loc) (v : Val l) : Mem Val := Function.update m l v

@[simp] theorem Mem.set_self (m : Mem Val) (l : Loc) (v : Val l) : m.set l v l = v :=
  Function.update_self _ _ _

@[simp] theorem Mem.set_of_ne (m : Mem Val) {l l' : Loc} (v : Val l) (h : l' ≠ l) :
    m.set l v l' = m l' :=
  Function.update_of_ne h _ _

/-- Writing back what a word already holds changes nothing. -/
@[simp] theorem Mem.set_get (m : Mem Val) (l : Loc) : m.set l (m l) = m :=
  Function.update_eq_self _ _

end Mem

/-- One atomic command, with the continuation for its answer. -/
inductive Cmd (Val : Loc → Type) (α : Type) : Type where
  /-- Read a word. -/
  | load (l : Loc) (k : Val l → α)
  /-- Write a word. -/
  | store (l : Loc) (v : Val l) (k : α)
  /-- Read, modify and write a word in one step; the continuation gets the old value. A strong
  compare-and-swap is the case where `f` changes only the expected value. -/
  | rmw (l : Loc) (f : Val l → Val l) (k : Val l → α)
  /-- Read the monotonic clock. -/
  | clock (k : ℕ → α)
  /-- A choice of the environment: whether a call to the operating system succeeds. -/
  | ask (k : Bool → α)
  /-- Block until a word satisfies `p`. -/
  | await (l : Loc) (p : Val l → Bool) (k : α)
  /-- A local step: no word is read or written. Sleeping and timed waiting are of this kind, as
  they may return at any time. -/
  | skip (k : α)

namespace Cmd

/-- Post-compose the continuation. -/
def map (f : α → β) : Cmd Val α → Cmd Val β
  | load l k => load l fun v => f (k v)
  | store l v k => store l v (f k)
  | rmw l g k => rmw l g fun v => f (k v)
  | clock k => clock fun t => f (k t)
  | ask k => ask fun b => f (k b)
  | await l p k => await l p (f k)
  | skip k => skip (f k)

variable [DecidableEq Loc]

/-- The meaning of a command at memory `m`, clock value `now` and environment choice `b`: the
memory after it and the answer, or nothing while the command blocks. -/
def exec (m : Mem Val) (now : ℕ) (b : Bool) : Cmd Val α → Option (Mem Val × α)
  | load l k => some (m, k (m l))
  | store l v k => some (m.set l v, k)
  | rmw l f k => some (m.set l (f (m l)), k (m l))
  | clock k => some (m, k now)
  | ask k => some (m, k b)
  | await l p k => if p (m l) then some (m, k) else none
  | skip k => some (m, k)

/-- A wait ends where it stands, once its condition holds. -/
theorem exec_await {m : Mem Val} {now : ℕ} {b : Bool} {l : Loc} {p : Val l → Bool} {k : α}
    {r : Mem Val × α} :
    (await l p k : Cmd Val α).exec m now b = some r ↔ p (m l) = true ∧ r = (m, k) := by
  by_cases h : p (m l) = true
  · simp [exec, h, eq_comm]
  · simp [exec, h]

theorem exec_map (f : α → β) (m : Mem Val) (now : ℕ) (b : Bool) (c : Cmd Val α) :
    (c.map f).exec m now b = (c.exec m now b).map fun r => (r.1, f r.2) := by
  cases c with
  | await l p k =>
    by_cases h : p (m l) <;> simp [map, exec, h]
  | _ => rfl

/-- A step of a routine is a step of its caller. -/
theorem exec_map_eq_some {f : α → β} {m : Mem Val} {now : ℕ} {b : Bool} {c : Cmd Val α}
    {r : Mem Val × β} :
    (c.map f).exec m now b = some r ↔ ∃ r', c.exec m now b = some r' ∧ (r'.1, f r'.2) = r := by
  rw [exec_map, Option.map_eq_some_iff]

/-- The word a command writes, if it writes one. -/
def target : Cmd Val α → Option Loc
  | store l _ _ | rmw l _ _ => some l
  | _ => none

omit [DecidableEq Loc] in
@[simp] theorem target_map (f : α → β) (c : Cmd Val α) : (c.map f).target = c.target := by
  cases c <;> rfl

/-- **Frame.** A command leaves every other word alone. -/
theorem exec_frame {m : Mem Val} {now : ℕ} {b : Bool} {c : Cmd Val α} {r : Mem Val × α}
    (h : c.exec m now b = some r) {l : Loc} (hl : c.target ≠ some l) : r.1 l = m l := by
  cases c with
  | store l' v k =>
    cases h
    exact Mem.set_of_ne _ _ fun he => hl (by rw [he]; rfl)
  | rmw l' f k =>
    cases h
    exact Mem.set_of_ne _ _ fun he => hl (by rw [he]; rfl)
  | await l' p k =>
    obtain ⟨-, rfl⟩ := exec_await.mp h
    rfl
  | _ => cases h; rfl

end Cmd

/-- How a routine goes on after one of its commands: at one of its own program points, or back
in its caller with a result. -/
inductive Ctl (Pc β : Type) : Type where
  | goto (pc : Pc)
  | ret (b : β)

/-- Where the caller goes on: `f` places the routine's program points among the caller's, `g`
takes its result. -/
def Ctl.elim (f : α → γ) (g : β → γ) : Ctl α β → γ
  | .goto pc => f pc
  | .ret b => g b

@[simp] theorem Ctl.elim_goto (f : α → γ) (g : β → γ) (pc : α) :
    (Ctl.goto pc : Ctl α β).elim f g = f pc := rfl

@[simp] theorem Ctl.elim_ret (f : α → γ) (g : β → γ) (b : β) :
    (Ctl.ret b : Ctl α β).elim f g = g b := rfl

end YellowZone.Machine
