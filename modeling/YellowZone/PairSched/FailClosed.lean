import YellowZone.PairSched.Calls
import YellowZone.PairSched.Writers

/-!
# The pair fails closed

The status word leaves RUNNING at most once: every later attempt compares against RUNNING and leaves
the word alone, so the first reason is kept. A tick that passed its second status test may still
grant one round after that, and a call of `ps_enter_forward` that begins later is turned away.

## Main results

* `StatusOk`, `statusOk_of_run` — the three values the status word can have
* `status_stable` — it does not change once it has left RUNNING
* `nextGrantId_le` — at most one more grant
* `enter_refused` — what a call of `ps_enter_forward` does from then on
* `fail_closed` — all of it, over every run
-/

namespace YellowZone.PairSched

open Machine

variable {g : Generation} {tr tr' : List Event} {s s' : State} {a : Act} {e : Event}

/-! ## The status word -/

/-- RUNNING without a reason, FAILED with one, or SHUTDOWN without. -/
def StatusOk (st : Status) : Prop :=
  st = makeStatus .running 0 ∨ st.state = .failed ∧ st.reason ≠ 0 ∨ st = makeStatus .shutdown 0

theorem StatusOk.failStatus {st : Status} (h : StatusOk st) (reason : Reason) :
    StatusOk (failStatus reason st) := by
  unfold PairSched.failStatus
  split
  · exact .inr (.inl ⟨rfl, effectiveReason_ne_zero reason⟩)
  · exact h

theorem StatusOk.shutdownStatus {st : Status} (h : StatusOk st) :
    StatusOk (shutdownStatus st) := by
  unfold PairSched.shutdownStatus
  split
  · exact .inr (.inr rfl)
  · exact h

theorem StatusOk.eq_running {st : Status} (h : StatusOk st) (hs : st.state = .running) :
    st = makeStatus .running 0 := by
  rcases h with h | h | h
  · exact h
  · rw [h.1] at hs; cases hs
  · rw [h] at hs; cases hs

/-- After `fail_pair` the pair is not running. -/
theorem StatusOk.failStatus_ne {st : Status} (h : StatusOk st) (reason : Reason) :
    (PairSched.failStatus reason st).state ≠ .running := by
  unfold PairSched.failStatus
  split
  · simp [makeStatus]
  · rename_i hne
    rcases h with h | h | h
    · exact absurd h hne
    · simp [h.1]
    · simp [h, makeStatus]

/-- Neither compare-and-swap matches a word that is not RUNNING. -/
theorem failStatus_eq {st : Status} (h : st.state ≠ .running) (reason : Reason) :
    failStatus reason st = st :=
  if_neg fun he => h (by rw [he]; rfl)

theorem shutdownStatus_eq {st : Status} (h : st.state ≠ .running) : shutdownStatus st = st :=
  if_neg fun he => h (by rw [he]; rfl)

/-- The steps that write the status word. -/
theorem Trans.status (h : Trans g s a e s') :
    s'.mem .status = s.mem .status ∨
      (∃ reason, s'.mem .status = failStatus reason (s.mem .status)) ∨
      s'.mem .status = shutdownStatus (s.mem .status) := by
  cases h with
  | call c b hk ht =>
    generalize s'.mem = m', s.locals c = x, s'.locals c = x', s.phase c = p, s'.phase c = p' at ht
    cases ht <;> first
      | exact .inl rfl
      | exact .inl (‹Calm _ _›.core _ rfl)
      | exact .inr (.inl ⟨_, Mem.set_self _ _ _⟩)
  | coord hk ht =>
    generalize s'.mem = m', s.coordPhase = p, s'.coordPhase = p' at ht
    cases ht <;> first
      | exact .inl rfl
      | exact .inl (‹Calm _ _›.core _ rfl)
      | exact .inr (.inl ⟨_, Mem.set_self _ _ _⟩)
  | other ht =>
    cases ht with
    | quiet hm => exact .inl (hm.core _ rfl)
    | fail reason h => exact .inr (.inl ⟨reason, by rw [h]; simp⟩)
    | shutdown h => exact .inr (.inr (by rw [h]; simp))
    | clear c h => exact .inl (by rw [h]; simp)
    | offline c hc h => exact .inl (by rw [h]; simp)

theorem Trans.statusOk (h : Trans g s a e s') (hs : StatusOk (s.mem .status)) :
    StatusOk (s'.mem .status) := by
  rcases h.status with h | ⟨reason, h⟩ | h <;> rw [h]
  · exact hs
  · exact hs.failStatus reason
  · exact hs.shutdownStatus

theorem statusOk_of_run {P : State → Act → Prop} (h : Run g P tr s) : StatusOk (s.mem .status) := by
  refine h.invariant (I := fun _ s => StatusOk (s.mem .status)) (.inl rfl) ?_
  intro _ s a s' hI _ hs
  exact (trans_of_step hs).statusOk hI

/-- A step leaves a word that is not RUNNING alone. -/
theorem Trans.status_stable (h : Trans g s a e s') (hs : (s.mem .status).state ≠ .running) :
    s'.mem .status = s.mem .status := by
  rcases h.status with h | ⟨reason, h⟩ | h
  · exact h
  · rw [h, failStatus_eq hs]
  · rw [h, shutdownStatus_eq hs]

/-- **The status leaves RUNNING at most once.** -/
theorem status_stable {P : State → Act → Prop} (h : (system g).Exec P s tr s')
    (hs : (s.mem .status).state ≠ .running) : s'.mem .status = s.mem .status := by
  refine h.invariant (I := fun _ s' => s'.mem .status = s.mem .status) rfl ?_
  intro _ s₁ a s₂ hI _ hstep
  rw [(trans_of_step hstep).status_stable (by rw [hI]; exact hs), hI]

/-! ## The last grant -/

/-- How many grants the coordinator may still draw before it tests the status again. -/
def CoordPhase.budget : CoordPhase → ℕ
  | .cleared | .choosing | .drawing _ => 1
  | _ => 0

theorem CoordPhase.budget_le_one (p : CoordPhase) : p.budget ≤ 1 := by
  cases p <;> simp [budget]

/-- Only a status test that finds RUNNING renews the budget; drawing a grant uses it up. -/
theorem Trans.nextGrantId_budget (h : Trans g s a e s') (hs : (s.mem .status).state ≠ .running) :
    s'.mem .nextGrantId + s'.coordPhase.budget ≤ s.mem .nextGrantId + s.coordPhase.budget := by
  cases h with
  | call c b hk ht _ _ _ _ hcoord =>
    exact Nat.le_of_eq (by rw [ht.nextGrantId, hcoord])
  | coord hk ht =>
    generalize s'.mem = m', s.coordPhase = p, s'.coordPhase = p' at ht
    cases ht with
    | quiet hm => exact Nat.le_of_eq (by rw [hm.core _ rfl])
    | clear h => exact absurd h hs
    | _ => simp [CoordPhase.budget]
  | other ht _ _ _ _ _ hcoord =>
    have hn : s'.mem .nextGrantId = s.mem .nextGrantId := by
      cases ht with
      | quiet hm => exact hm.core _ rfl
      | fail reason h | shutdown h | clear c h | offline c hc h => rw [h]; simp
    exact Nat.le_of_eq (by rw [hn, hcoord])

/-- **At most one more grant** is drawn once the status has left RUNNING. -/
theorem nextGrantId_le {P : State → Act → Prop} (h : (system g).Exec P s tr s')
    (hs : (s.mem .status).state ≠ .running) :
    s'.mem .nextGrantId ≤ s.mem .nextGrantId + 1 := by
  have hI : (s'.mem .status).state ≠ .running ∧
      s'.mem .nextGrantId + s'.coordPhase.budget ≤ s.mem .nextGrantId + s.coordPhase.budget := by
    refine h.invariant (I := fun _ s' => (s'.mem .status).state ≠ .running ∧
      s'.mem .nextGrantId + s'.coordPhase.budget ≤ s.mem .nextGrantId + s.coordPhase.budget)
      ⟨hs, Nat.le_refl _⟩ ?_
    intro _ s₁ a s₂ hI _ hstep
    have ht := trans_of_step hstep
    exact ⟨by rw [ht.status_stable hI.1]; exact hI.1,
      Nat.le_trans (ht.nextGrantId_budget hI.1) hI.2⟩
  have := s.coordPhase.budget_le_one
  dsimp only [Val] at *
  omega

/-! ## Calls that come too late -/

/-- The steps a call of `ps_enter_forward` still makes when it finds the pair not running; `none`
for the points such a call does not reach. -/
def refusalSteps : CallPc → Option ℕ
  | .enter (.begin .stopping) => some 9
  | .enter (.begin .count) => some 8
  | .enter (.begin .recheck) => some 7
  | .enter (.fail _ (.cas _)) => some 6
  | .enter (.fail _ (.wake .coordinator)) => some 5
  | .enter (.fail _ (.wake (.group .A))) => some 4
  | .enter (.fail _ (.wake (.group .B))) => some 3
  | .enter (.checkRunning _) => some 3
  | .enter (.begin .uncount) | .enter (.done (.error _) .uncount) => some 2
  | .enter (.begin .wake) | .enter (.done (.error _) .wake) => some 1
  | .idle (.entered (.error _)) => some 0
  | _ => none

/-- The fields of `shared_state` that are not wake counters agree. -/
def SameShared (m m' : Memory) : Prop :=
  ∀ l : Loc, l.isShared = true → l.isWakeCounter = false → m' l = m l

theorem SameShared.refl (m : Memory) : SameShared m m := fun _ _ _ => rfl

theorem SameShared.set (m : Memory) {l : Loc} (v : Val l)
    (h : l.isShared = true → l.isWakeCounter = true) : SameShared m (m.set l v) := by
  intro l' hs hw
  refine Mem.set_of_ne m v ?_
  rintro rfl
  simp [h hs] at hw

/-- A step of a call that is being refused: one fewer to go, and nothing shared has changed. -/
theorem refusal_step {c t n : ℕ} {b : Bool} {m : Memory} {x : Locals} {pc : CallPc}
    (hm : (m .status).state ≠ .running) (hn : refusalSteps pc = some (n + 1)) :
    ∃ cmd r k, callCode g c x pc = some cmd ∧ cmd.exec m t b = some r ∧ SameShared m r.1 ∧
      refusalSteps r.2.2 = some k ∧ k ≤ n := by
  unfold refusalSteps at hn
  split at hn <;> simp only [Option.some.injEq, reduceCtorEq, Nat.reduceEqDiff] at hn <;>
    subst hn
  · cases hs : m (.stopping c) with
    | true => exact ⟨_, _, 0, rfl, rfl, .refl m, by simp [hs]; rfl, by simp⟩
    | false => exact ⟨_, _, 8, rfl, rfl, .refl m, by simp [hs]; rfl, by simp⟩
  · exact ⟨_, _, _, rfl, rfl, .set m _ (by simp [Loc.isShared]), rfl, by simp⟩
  · cases hs : m (.stopping c) with
    | true => exact ⟨_, _, 2, rfl, rfl, .refl m, by simp [hs]; rfl, by simp⟩
    | false =>
      by_cases ha : x.activeSeq = 0
      · exact ⟨_, _, 3, rfl, rfl, .refl m, by simp [hs, ha]; rfl, by simp⟩
      · exact ⟨_, _, 6, rfl, rfl, .refl m, by simp [hs, ha]; rfl, by simp⟩
  · refine ⟨_, _, _, rfl, rfl, ?_, rfl, by simp⟩
    rw [failStatus_eq hm, Mem.set_get]
    exact .refl m
  · exact ⟨_, _, _, rfl, rfl, .set m _ (fun _ => rfl), rfl, by simp⟩
  · exact ⟨_, _, _, rfl, rfl, .set m _ (fun _ => rfl), rfl, by simp⟩
  · exact ⟨_, _, _, rfl, rfl, .set m _ (fun _ => rfl), rfl, by simp⟩
  · exact ⟨_, _, 2, rfl, rfl, .refl m, by simp [hm]; rfl, by simp⟩
  all_goals exact ⟨_, _, _, rfl, rfl, .set m _ (by simp [Loc.isShared]), rfl, by simp⟩

/-- A call of `ps_enter_forward` on `c` that has just begun will be refused: however the system is
scheduled from `s`, up to the next call on `c`, the call makes at most nine steps, none of them
changes a field of `shared_state` other than a wake counter, it can always take the next one, and
when it has returned it has returned an error. -/
def EnterRefused (g : Generation) (c : ℕ) (s : State) : Prop :=
  ∀ acts tr' s', (∀ a ∈ acts, Act.startsCall c a = false) →
    (system g).run (fun _ _ => true) s [] acts = some (tr', s') →
    acts.countP (Act.isCallOf c) ≤ 9 ∧
      ((∃ e, (s'.ctx c).call = .idle (.entered (.error e))) ∨
        (s'.ctx c).call.isIdle = false ∧ ((s'.ctx c).killed = false →
          ∀ b, ∃ s'', step g s' (.call c b) = some s'' ∧ SameShared s'.mem s''.mem))

/-- The invariant behind `EnterRefused`: `k` steps to go after `n` have been made. -/
structure Refusal (c n : ℕ) (s : State) : Prop where
  status : (s.mem .status).state ≠ .running
  steps : ∃ k, refusalSteps (s.ctx c).call = some k ∧ n + k ≤ 9

theorem isOpen_of_refusalSteps {pc : CallPc} {k : ℕ} (h : refusalSteps pc = some k) :
    pc.isOpen = true := by
  cases pc <;> first | rfl | simp [refusalSteps] at h

theorem isIdle_of_refusalSteps {pc : CallPc} {k : ℕ} (h : refusalSteps pc = some (k + 1)) :
    pc.isIdle = false := by
  cases pc with
  | idle r =>
    unfold refusalSteps at h
    split at h <;> simp_all
  | _ => rfl

/-- The step of a call that is being refused. -/
theorem Refusal.call {c n k : ℕ} (h : (s.mem .status).state ≠ .running)
    (hk : refusalSteps (s.ctx c).call = some (k + 1)) (hn : n + (k + 1) ≤ 9)
    (hkill : (s.ctx c).killed = false) (b : Bool) :
    ∃ s', step g s (.call c b) = some s' ∧ SameShared s.mem s'.mem ∧ Refusal c (n + 1) s' := by
  obtain ⟨cmd, r, k', hcmd, hr, hsame, hk', hle⟩ :=
    refusal_step (g := g) (c := c) (t := s.now) (b := b) (x := (s.ctx c).locals) h hk
  refine ⟨{ s with mem := r.1 }.setCtx c { s.ctx c with locals := r.2.1, call := r.2.2 },
    ?_, ?_, ?_⟩
  · simp [step, hkill, stepCall, hcmd, hr]
  · exact hsame
  · refine ⟨?_, k', by simpa using hk', by omega⟩
    change (r.1 .status).state ≠ .running
    rwa [hsame _ rfl rfl]

/-- A step of anybody keeps the invariant. -/
theorem Refusal.next {c n : ℕ} (h : Refusal c n s) (hstep : step g s a = some s')
    (hs : a.startsCall c = false) :
    Refusal c (n + if a.isCallOf c then 1 else 0) s' := by
  obtain ⟨hst, k, hk, hn⟩ := h
  have hst' : (s'.mem .status).state ≠ .running := by
    rwa [(trans_of_step hstep).status_stable hst]
  by_cases hc : a.isCallOf c = true
  · obtain ⟨b, rfl⟩ := Act.eq_call_of_isCallOf hc
    have hkill := alive_of_call hstep
    cases k with
    | zero =>
      -- the call has returned, so its thread cannot move
      exfalso
      have hnone : callCode g c (s.ctx c).locals (s.ctx c).call = none := by
        unfold refusalSteps at hk
        split at hk <;> simp_all [callCode]
      simp [step, hkill, stepCall, hnone] at hstep
    | succ k =>
      obtain ⟨s₁, h₁, -, href⟩ := Refusal.call (g := g) hst hk hn hkill b
      obtain rfl : s₁ = s' := by simpa [h₁] using hstep
      simpa [hc] using href
  · have hc : a.isCallOf c = false := by simpa using hc
    refine ⟨hst', k, ?_, by simpa [hc] using hn⟩
    rw [call_eq_of_step hstep hc hs (isOpen_of_refusalSteps hk), hk]

theorem Refusal.run {c n : ℕ} {acts : List Act} (h : Refusal c n s)
    (hs : ∀ a ∈ acts, Act.startsCall c a = false)
    (hr : (system g).run (fun _ _ => true) s tr acts = some (tr', s')) :
    Refusal c (n + acts.countP (Act.isCallOf c)) s' := by
  induction acts generalizing s tr n with
  | nil =>
    simp only [Lts.run, Option.some.injEq, Prod.mk.injEq] at hr
    simpa [← hr.2] using h
  | cons a acts ih =>
    simp only [Lts.run, if_true] at hr
    split at hr
    · rename_i s₁ h₁
      have := ih (h.next h₁ (hs a (by simp))) (fun a ha => hs a (by simp [ha])) hr
      rw [List.countP_cons]
      convert this using 1
      omega
    · cases hr

/-- **A call that begins after the status has left RUNNING is refused.** -/
theorem enter_refused {c : ℕ} (hs : (s.mem .status).state ≠ .running)
    (hstep : step g s (.enterCall c) = some s') : EnterRefused g c s' := by
  have h₀ : Refusal c 0 s' := by
    refine ⟨by rwa [(trans_of_step hstep).status_stable hs], 9, ?_, by simp⟩
    simp only [step] at hstep
    split at hstep
    · cases hstep
      simp [refusalSteps]
    · cases hstep
  intro acts tr' s₁ hacts hr
  obtain ⟨hst, k, hk, hn⟩ := h₀.run hacts hr
  refine ⟨by omega, ?_⟩
  cases k with
  | zero =>
    left
    unfold refusalSteps at hk
    split at hk <;> simp_all
  | succ k =>
    right
    refine ⟨isIdle_of_refusalSteps hk, fun hkill b => ?_⟩
    obtain ⟨s₂, h₂, hsame, -⟩ := Refusal.call (g := g) (n := 0) hst hk (by omega) hkill b
    exact ⟨s₂, h₂, hsame⟩

/-- **Fail-closed status.** From any state of any run in which the status has left RUNNING, and
along every continuation: the status word keeps its value, FAILED carries a reason, at most one
more grant is drawn, and every `ps_enter_forward` that begins is refused without a trace in the
shared fields. -/
theorem fail_closed (h : Run g anyStep tr s) (hs : (s.mem .status).state ≠ .running)
    (h' : (system g).Exec anyStep s tr' s') :
    s'.mem .status = s.mem .status ∧
      ((s.mem .status).state = .failed → (s.mem .status).reason ≠ 0) ∧
      s'.mem .nextGrantId ≤ s.mem .nextGrantId + 1 ∧
      ∀ c s₁, step g s' (.enterCall c) = some s₁ → EnterRefused g c s₁ := by
  refine ⟨status_stable h' hs, fun hf => ?_, nextGrantId_le h' hs, fun c s₁ hstep => ?_⟩
  · rcases statusOk_of_run h with hok | hok | hok
    · simp [hok, makeStatus] at hf
    · exact hok.2
    · simp [hok, makeStatus] at hf
  · exact enter_refused (by rwa [status_stable h' hs]) hstep

/-- A run in which `ps_fail` is called with reason 7. -/
theorem fail_closed_of_psFail : ∃ tr s, Run pairOfOne anyStep tr s ∧
    s.mem .status = makeStatus .failed 7 ∧
    ∀ c s₁, step pairOfOne s (.enterCall c) = some s₁ → EnterRefused pairOfOne c s₁ := by
  obtain ⟨tr, s, h, hst⟩ := exists_run pairOfOne anyStep_of_allowed
    (openBoth ++ [.failCall 0 7, .fail 0])
    (fun _ s => decide (s.mem .status = makeStatus .failed 7)) (by decide +kernel)
  have hst : s.mem .status = makeStatus .failed 7 := of_decide_eq_true hst
  exact ⟨tr, s, h, hst, (fail_closed h (by simp [hst, makeStatus]) .start).2.2.2⟩

end YellowZone.PairSched
