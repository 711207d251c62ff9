import Mathlib

/-!
# A barrier that is used in rounds

A fixed set of parties meets in numbered rounds. In each round every party arrives, a controller
starts the round and hands out a token, every party finishes its work, the controller lets them
go, and every party departs; then the next round can be opened. The parties are all that is fixed:
who opens a round, who is the last to arrive, finish or depart is decided by the race between
them, and the winner of each race has some stores to make before the others can go on.

`Barrier.Step` says what may be done to the state of such a barrier and by whom. It has no
threads and no program points; a program that uses a barrier is connected to it by showing that
each of its steps is a `Step` or changes nothing.

Four stages have a holder: the party that opened the round, and the last one to arrive, to finish
and to depart. The predicates about one party `r` say what `r` knows of the barrier at some point of
its round, and each is stable under whatever the others do.

## Main definitions and results

* `Barrier`, `Barrier.Step`, `Barrier.WF` — states, steps, and the invariant of the state alone
* `WF.step` — steps keep the invariant
* `Locked`, `holder_of_locked` — while there is a holder, only the holder moves
* `UpTo`, `Seen`, `Joined`, `Waits`, `Granted`, `Finishes` — the knowledge of a party
* `Away` — a party that takes no part in the round
-/

namespace YellowZone.Machine

/-- Where a round is. -/
inductive Stage where
  /-- Not in use. -/
  | offline
  | idle
  /-- Being opened. -/
  | opening
  /-- Parties arrive. -/
  | gathering
  /-- All have arrived. -/
  | gathered
  | running
  /-- All have finished. -/
  | finished
  /-- Parties depart. -/
  | leaving
  deriving DecidableEq, Repr

/-- A barrier for the parties `R`. -/
structure Barrier (R : Type) where
  stage : Stage
  /-- The number of the current round. -/
  seq : ℕ
  /-- The token of the current round; `0` for none. -/
  token : ℕ
  arrived : Set R
  done : Set R
  departed : Set R

namespace Barrier

variable {R : Type}

/-- Who moves a barrier. -/
inductive Actor (R : Type) where
  | holder
  | party (r : R)
  | controller
  | environment

/-- What may be done to a barrier. -/
inductive Step : Barrier R → Actor R → Barrier R → Prop
  | online {b : Barrier R} (h : b.stage = .offline) : Step b .environment { b with stage := .idle }
  | offline {b : Barrier R} (h : b.stage = .idle) : Step b .environment { b with stage := .offline }
  | «open» {b : Barrier R} {r : R} (h : b.stage = .idle) :
      Step b (.party r) { b with stage := .opening }
  | number {b : Barrier R} {q : ℕ} (h : b.stage = .opening) (hq : b.seq < q) :
      Step b .holder { b with seq := q }
  | clearDeparted {b : Barrier R} (h : b.stage = .opening) :
      Step b .holder { b with departed := ∅ }
  | gather {b : Barrier R} (h : b.stage = .opening) (hs : b.seq ≠ 0) (hd : b.departed = ∅) :
      Step b .holder { b with stage := .gathering }
  | arrive {b : Barrier R} {r : R} (h : b.stage = .gathering) (hr : r ∉ b.arrived) :
      Step b (.party r) { b with arrived := insert r b.arrived }
  | gathered {b : Barrier R} (h : b.stage = .gathering) (hf : b.arrived = .univ) :
      Step b .holder { b with stage := .gathered }
  | start {b : Barrier R} (h : b.stage = .gathered) :
      Step b .controller { b with stage := .running }
  | grant {b : Barrier R} {t : ℕ} (h : b.stage = .running) (h0 : b.token = 0) (ht : t ≠ 0) :
      Step b .controller { b with token := t }
  | finish {b : Barrier R} {r : R} (h : b.stage = .running) (ht : b.token ≠ 0) (hr : r ∉ b.done) :
      Step b (.party r) { b with done := insert r b.done }
  | finished {b : Barrier R} (h : b.stage = .running) (hf : b.done = .univ) :
      Step b .holder { b with stage := .finished }
  | drain {b : Barrier R} (h : b.stage = .finished) :
      Step b .controller { b with stage := .leaving }
  | depart {b : Barrier R} {r : R} (h : b.stage = .leaving) (hr : r ∉ b.departed) :
      Step b (.party r) { b with departed := insert r b.departed }
  | clearArrived {b : Barrier R} (h : b.stage = .leaving) (hf : b.departed = .univ) :
      Step b .holder { b with arrived := ∅ }
  | clearDone {b : Barrier R} (h : b.stage = .leaving) (hf : b.departed = .univ) :
      Step b .holder { b with done := ∅ }
  | clearToken {b : Barrier R} (h : b.stage = .leaving) (hf : b.departed = .univ) :
      Step b .holder { b with token := 0 }
  | reset {b : Barrier R} (h : b.stage = .leaving) (hf : b.departed = .univ) (ha : b.arrived = ∅)
      (hd : b.done = ∅) (ht : b.token = 0) : Step b .holder { b with stage := .idle }

/-! ## The state alone -/

/-- What the stage says about the rest. -/
def WF (b : Barrier R) : Prop :=
  match b.stage with
  | .offline | .idle | .opening => b.arrived = ∅ ∧ b.done = ∅ ∧ b.token = 0
  | .gathering => b.done = ∅ ∧ b.departed = ∅ ∧ b.token = 0 ∧ b.seq ≠ 0
  | .gathered => b.arrived = .univ ∧ b.done = ∅ ∧ b.departed = ∅ ∧ b.token = 0 ∧ b.seq ≠ 0
  | .running => b.arrived = .univ ∧ b.departed = ∅ ∧ b.seq ≠ 0 ∧ (b.token = 0 → b.done = ∅)
  | .finished =>
    b.arrived = .univ ∧ b.done = .univ ∧ b.departed = ∅ ∧ b.seq ≠ 0 ∧ b.token ≠ 0
  | .leaving => b.seq ≠ 0 ∧
    (b.departed ≠ .univ → b.arrived = .univ ∧ b.done = .univ ∧ b.token ≠ 0)

variable {b b' : Barrier R} {a : Actor R} {r : R} {q n t : ℕ}

theorem WF.step [Nonempty R] (hw : b.WF) (h : Step b a b') : b'.WF := by
  have hne : (Set.univ : Set R) ≠ ∅ := Set.univ_nonempty.ne_empty
  cases h with
  | online h | offline h | «open» h | clearDeparted h => simpa only [WF, h] using hw
  | number h hq =>
    simp only [WF, h] at hw ⊢
    exact hw
  | gather h hs hd =>
    simp only [WF, h] at hw ⊢
    exact ⟨hw.2.1, hd, hw.2.2, hs⟩
  | arrive h hr =>
    simp only [WF, h] at hw ⊢
    exact hw
  | gathered h hf =>
    simp only [WF, h] at hw ⊢
    exact ⟨hf, hw⟩
  | start h =>
    simp only [WF, h] at hw ⊢
    exact ⟨hw.1, hw.2.2.1, hw.2.2.2.2, fun _ => hw.2.1⟩
  | grant h h0 ht =>
    simp only [WF, h] at hw ⊢
    exact ⟨hw.1, hw.2.1, hw.2.2.1, fun h => absurd h ht⟩
  | finish h ht hr =>
    simp only [WF, h] at hw ⊢
    exact ⟨hw.1, hw.2.1, hw.2.2.1, fun h => absurd h ht⟩
  | finished h hf =>
    simp only [WF, h] at hw ⊢
    refine ⟨hw.1, hf, hw.2.1, hw.2.2.1, fun ht => hne ?_⟩
    rw [← hf, hw.2.2.2 ht]
  | drain h =>
    simp only [WF, h] at hw ⊢
    exact ⟨hw.2.2.2.1, fun _ => ⟨hw.1, hw.2.1, hw.2.2.2.2⟩⟩
  | depart h hr =>
    simp only [WF, h] at hw ⊢
    exact ⟨hw.1, fun _ => hw.2 fun hu => hr (hu ▸ Set.mem_univ _)⟩
  | clearArrived h hf | clearDone h hf | clearToken h hf =>
    simp only [WF, h] at hw ⊢
    exact ⟨hw.1, fun hd => absurd hf hd⟩
  | reset h hf ha hd ht =>
    simp only [WF]
    exact ⟨ha, hd, ht⟩

/-! ## Holding the lock -/

/-- Some party has the barrier to itself. -/
def Locked (b : Barrier R) : Prop :=
  b.stage = .opening ∨ b.stage = .gathering ∧ b.arrived = .univ ∨
    b.stage = .running ∧ b.done = .univ ∨ b.stage = .leaving ∧ b.departed = .univ

/-- **While there is a holder, nobody else moves the barrier.** -/
theorem holder_of_locked [Nonempty R] (hw : b.WF) (hl : b.Locked) (h : Step b a b') :
    a = .holder := by
  have hne : (Set.univ : Set R) ≠ ∅ := Set.univ_nonempty.ne_empty
  rcases hl with hl | ⟨hl, hu⟩ | ⟨hl, hu⟩ | ⟨hl, hu⟩ <;> cases h <;> simp_all [WF]

/-! ## What a party knows -/

/-- The last round is over, or being wound up. -/
def Fresh (b : Barrier R) : Prop :=
  b.stage = .offline ∨ b.stage = .idle ∨ b.stage = .leaving ∧ b.departed = .univ

/-- A party that has arrived, or whose last round is over, has seen all rounds up to `n`. -/
def UpTo (r : R) (n : ℕ) (b : Barrier R) : Prop := r ∈ b.arrived ∨ b.Fresh → b.seq ≤ n

theorem UpTo.mono {n' : ℕ} (h : UpTo r n b) (hn : n ≤ n') : UpTo r n' b :=
  fun hr => Nat.le_trans (h hr) hn

theorem UpTo.step (h : UpTo r n b) (hw : b.WF) (hs : Step b a b') (ha : a ≠ .party r) :
    UpTo r n b' := by
  cases hs with
  | arrive hg hr =>
    rintro (hm | hf)
    · refine h (.inl ?_)
      rcases hm with rfl | hm
      · exact absurd rfl ha
      · exact hm
    · simp [Fresh, hg] at hf
  | depart hg hr =>
    intro _
    by_cases hu : b.departed = .univ
    · exact h (.inr (.inr (.inr ⟨hg, hu⟩)))
    · simp only [WF, hg] at hw
      exact h (.inl (by simp [(hw.2 hu).1]))
  | _ => simp_all [UpTo, WF, Fresh]

/-- The party has seen the round gather, and has not been through it since. -/
def Seen (r : R) (b : Barrier R) : Prop :=
  (b.stage = .gathering ∨ b.stage = .gathered ∨ b.stage = .running) ∧ r ∉ b.done ∧
    (r ∉ b.arrived → b.stage = .gathering)

theorem Seen.step (h : Seen r b) (hw : b.WF) (hs : Step b a b') (ha : a ≠ .party r) :
    Seen r b' := by
  cases hs <;> simp_all [Seen, WF, eq_comm]

/-- The party has joined round `q` and is about to arrive. -/
def Joined (r : R) (q : ℕ) (b : Barrier R) : Prop :=
  b.stage = .gathering ∧ b.seq = q ∧ r ∉ b.arrived

theorem Joined.step (h : Joined r q b) (hs : Step b a b') (ha : a ≠ .party r) :
    Joined r q b' := by
  cases hs <;> simp_all [Joined, eq_comm]

/-- The party has arrived in round `q` and has not finished. -/
def Waits (r : R) (q : ℕ) (b : Barrier R) : Prop :=
  (b.stage = .gathering ∨ b.stage = .gathered ∨ b.stage = .running) ∧ b.seq = q ∧
    r ∈ b.arrived ∧ r ∉ b.done

theorem Waits.step (h : Waits r q b) (hs : Step b a b') (ha : a ≠ .party r) : Waits r q b' := by
  cases hs <;> simp_all [Waits, eq_comm]

theorem Waits.upTo (h : Waits r q b) (hq : q ≤ n) : UpTo r n b := fun _ => h.2.1 ▸ hq

/-- It has seen the round run. -/
def Runs (r : R) (q : ℕ) (b : Barrier R) : Prop := b.stage = .running ∧ Waits r q b

theorem Runs.step (h : Runs r q b) (hs : Step b a b') (ha : a ≠ .party r) : Runs r q b' := by
  refine ⟨?_, h.2.step hs ha⟩
  have hst := h.1
  have hno := h.2.2.2.2
  cases hs <;> simp_all

/-- It has seen the token of the round. -/
def Granted (r : R) (q t : ℕ) (b : Barrier R) : Prop := Runs r q b ∧ b.token = t ∧ t ≠ 0

theorem Granted.step (h : Granted r q t b) (hs : Step b a b') (ha : a ≠ .party r) :
    Granted r q t b' := by
  refine ⟨h.1.step hs ha, ?_, h.2.2⟩
  obtain ⟨⟨hst, -⟩, htok, ht⟩ := h
  cases hs <;> simp_all

/-- The party has finished in round `q` and has not departed. -/
def Finishes (r : R) (q : ℕ) (b : Barrier R) : Prop :=
  (b.stage = .running ∨ b.stage = .finished ∨ b.stage = .leaving) ∧ b.seq = q ∧
    r ∈ b.done ∧ r ∉ b.departed

theorem Finishes.step (h : Finishes r q b) (hs : Step b a b') (ha : a ≠ .party r) :
    Finishes r q b' := by
  cases hs <;> simp_all [Finishes, eq_comm]

theorem Finishes.upTo (h : Finishes r q b) (hq : q ≤ n) : UpTo r n b := fun _ => h.2.1 ▸ hq

/-- It has seen that it may depart. -/
theorem Finishes.leaving_step (h : Finishes r q b) (hl : b.stage = .leaving) (hs : Step b a b') :
    b'.stage = .leaving := by
  obtain ⟨-, -, -, hr⟩ := h
  cases hs <;> simp_all

/-- The party takes no part in the round: it has not arrived, or it has departed. -/
def Away (r : R) (b : Barrier R) : Prop := r ∈ b.arrived → b.stage = .leaving ∧ r ∈ b.departed

theorem Away.step (h : Away r b) (hw : b.WF) (hs : Step b a b') (ha : a ≠ .party r) :
    Away r b' := by
  cases hs <;> simp_all [Away, WF, eq_comm]

/-- Who takes no part in a round that has been joined by all, has departed from it. -/
theorem Away.leaving (h : Away r b) (hu : b.arrived = .univ) : b.stage = .leaving :=
  (h (hu ▸ Set.mem_univ r)).1

/-- A party arrives by its own step. -/
theorem not_arrived_of_step (h : r ∉ b.arrived) (hs : Step b a b') (ha : a ≠ .party r) :
    r ∉ b'.arrived := by
  cases hs <;> simp_all [eq_comm]

end Barrier

end YellowZone.Machine
