import YellowZone.PairSched.Waiting
import YellowZone.WorkerGate.SharedMemoryGate

/-!
# The native calls keep their contract

What `SharedMemoryGate` takes for granted about the three native functions is proved here of the
model of `pair_sched.c`, for every interleaving with everything else that goes on in the pair. The
gate holds its lock across a native call, so while one is in progress no other call is started on
the context and the context is not closed; the theorems assume just that.

## Main results

* `enter_contract`, `leave_contract`, `fail_contract`
-/

namespace YellowZone.WorkerGate

open Machine PairSched

variable {g : Generation} {c : ℕ} {tr tr₀ : List Event} {s s' s₀ : State} {a : Act} {m : Memory}
  {x x₀ : Locals}

/-- What the worker of context `c` can tell of the pair. -/
def nativeOf (s : State) (c : ℕ) : Native where
  activeSeq := (s.locals c).activeSeq
  activeGrantId := (s.locals c).activeGrantId
  running := decide ((s.mem .status).state = .running)

/-- No other call is started on `c`. -/
def oneCall (c : ℕ) (_ : State) (a : Act) : Prop := a.startsCall c = false

/-! ## Following one call -/

theorem released_of_step (h : step g s a = some s') (hr : Released s.mem c) :
    Released s'.mem c := by
  rcases hr with hr | hr
  · exact .inl (by rwa [(trans_of_step h).status_stable hr])
  · exact .inr ((trans_of_step h).stopping hr)

/-- **Along one call.** What the steps of the call keep, and everybody else keeps too, holds
until it has returned. -/
theorem along_call {I : Memory → Locals → CallPc → Prop} (hs₀ : StatusOk (s₀.mem .status))
    (h : (system g).Exec (oneCall c) s₀ tr s) (h₀ : I s₀.mem (s₀.locals c) (s₀.ctx c).call)
    (hopen : ∀ m x pc, I m x pc → pc.isOpen = true)
    (hmono : ∀ m m' x pc, (Released m c → Released m' c) → I m x pc → I m' x pc)
    (hcall : ∀ m x pc cmd t b r, StatusOk (m .status) → I m x pc → callCode g c x pc = some cmd →
      cmd.exec m t b = some r → (Released m c → Released r.1 c) → I r.1 r.2.1 r.2.2) :
    I s.mem (s.locals c) (s.ctx c).call := by
  refine (h.invariant (I := fun _ s => StatusOk (s.mem .status) ∧
    I s.mem (s.locals c) (s.ctx c).call) ⟨hs₀, h₀⟩ ?_).2
  rintro _ s a s' ⟨hst, hI⟩ hP hs
  refine ⟨(trans_of_step hs).statusOk hst, ?_⟩
  have hrel : Released s.mem c → Released s'.mem c := released_of_step hs
  by_cases hc : a.isCallOf c = true
  · obtain ⟨b, rfl⟩ := Act.eq_call_of_isCallOf hc
    obtain ⟨cmd, r, hcmd, hr, hm, hx, hpc⟩ := call_of_step hs
    rw [hm, hx, hpc]
    exact hcall _ _ _ _ _ _ _ hst hI hcmd hr (hm ▸ hrel)
  · have hc : a.isCallOf c = false := by simpa using hc
    rw [locals_eq_of_step hs hc, call_eq_of_step hs hc hP (hopen _ _ _ hI)]
    exact hmono _ _ _ _ hrel hI

/-- A call of A's rank that has been evaluated, from its start to its end. -/
theorem exists_call (whole : CallPc → CallPc → Bool) (before during : List Act)
    (h : ((system pairOfOne).run allowed (initialState pairOfOne) [] before).any (fun r₀ =>
      ((system pairOfOne).run (fun _ a => !a.startsCall 0) r₀.2 [] during).any fun r =>
        whole (r₀.2.ctx 0).call (r.2.ctx 0).call && !r.2.mem (.stopping 0)) = true) :
    ∃ tr₀ s₀ tr s, Run pairOfOne anyStep tr₀ s₀ ∧ (system pairOfOne).Exec (oneCall 0) s₀ tr s ∧
      whole (s₀.ctx 0).call (s.ctx 0).call = true ∧ s.mem (.stopping 0) = false := by
  obtain ⟨tr₀, s₀, h₀, hcall⟩ := exists_run pairOfOne anyStep_of_allowed before (fun _ s₀ =>
    ((system pairOfOne).run (fun _ a => !a.startsCall 0) s₀ [] during).any fun r =>
      whole (s₀.ctx 0).call (r.2.ctx 0).call && !r.2.mem (.stopping 0)) h
  obtain ⟨tr, s, hexec, hend⟩ := Lts.exists_exec (P := oneCall 0)
    (fun _ _ ha => by simpa [oneCall] using ha) during
    (fun _ s => whole (s₀.ctx 0).call (s.ctx 0).call && !s.mem (.stopping 0)) hcall
  rw [Bool.and_eq_true, Bool.not_eq_true'] at hend
  exact ⟨tr₀, s₀, tr, s, h₀, hexec, hend⟩

/-! ## `ps_enter_forward` -/

/-- The context is in the same round as before. -/
def SameRound (x₀ x : Locals) : Prop :=
  x.activeSeq = x₀.activeSeq ∧ x.activeGrantId = x₀.activeGrantId

theorem SameRound.refl (x : Locals) : SameRound x x := ⟨rfl, rfl⟩

/-- What is known when the call has its result. -/
def EnterEnds (x₀ : Locals) (m : Memory) (c : ℕ) (x : Locals) : EnterResult → Prop
  | .ok (q, gr) => x.activeSeq = q ∧ x.activeGrantId = gr ∧ q ≠ 0 ∧ x₀.activeSeq = 0
  | .error _ => SameRound x₀ x ∧ Released m c

/-- What is known while it waits, in a call with sequence `q`. -/
def EnterWaits (x₀ x : Locals) (q : ℕ) : Prop := SameRound x₀ x ∧ x₀.activeSeq = 0 ∧ q ≠ 0

/-- What is known at each point of the call. -/
def EnterPoint (x₀ : Locals) (m : Memory) (c : ℕ) (x : Locals) : EnterPc → Prop
  | .begin .stopping | .begin .count | .begin .recheck => x = x₀
  | .begin .uncount | .begin .wake => x = x₀ ∧ Released m c
  | .fail _ (.cas _) => SameRound x₀ x
  | .fail _ (.wake _) => SameRound x₀ x ∧ Released m c
  | .done r _ => EnterEnds x₀ m c x r
  | .checkRunning q | .idleWake q | .idleState q _ | .idleWait q _ | .casInit q => EnterWaits x₀ x q
  | .initSeq q | .initGrant q | .initReady q | .initComplete q | .initExit q => EnterWaits x₀ x q
  | .initClock q | .initPublish q _ | .initState q | .initWake q => EnterWaits x₀ x q
  | .joinSeq q _ | .setLast q | .orReady q | .casReady q => EnterWaits x₀ x q
  | .readyWakeCoordinator q | .readyWakeGroup q | .grantWake q => EnterWaits x₀ x q
  | .grantStopping q _ | .grantStatus q _ | .grantHeartbeat q _ => EnterWaits x₀ x q
  | .grantClock q _ _ | .grantState q _ | .grantSeq q _ _ => EnterWaits x₀ x q
  | .grantGrant q _ _ _ | .grantOwner q _ _ _ _ | .grantWait q _ => EnterWaits x₀ x q
  | .validate q _ _ => EnterWaits x₀ x q

theorem EnterEnds.mono {m' : Memory} {r : EnterResult} (hr : Released m c → Released m' c)
    (h : EnterEnds x₀ m c x r) : EnterEnds x₀ m' c x r := by
  cases r with
  | error e => exact ⟨h.1, hr h.2⟩
  | ok round => exact h

theorem EnterPoint.mono {m' : Memory} {pc : EnterPc} (hr : Released m c → Released m' c)
    (h : EnterPoint x₀ m c x pc) : EnterPoint x₀ m' c x pc := by
  cases pc with
  | begin b => cases b <;> first | exact h | exact ⟨h.1, hr h.2⟩
  | fail e f =>
    cases f with
    | cas reason => exact h
    | wake w => exact ⟨h.1, hr h.2⟩
  | done r e => exact EnterEnds.mono hr h
  | _ => exact h

/-- One step of the call. -/
theorem EnterPoint.next {pc : EnterPc} {t : ℕ} {b : Bool}
    {r : Memory × Locals × Ctl EnterPc EnterResult} (h : EnterPoint x₀ m c x pc)
    (hst : StatusOk (m .status)) (he : (psEnterForward g c x pc).exec m t b = some r)
    (hr : Released m c → Released r.1 c) :
    r.2.2.elim (EnterPoint x₀ r.1 c r.2.1) (EnterEnds x₀ r.1 c r.2.1) := by
  cases pc with
  | begin bp =>
    cases bp with
    | stopping =>
      cases he
      cases h
      dsimp only
      cases hs : m (.stopping c) with
      | true => exact ⟨.refl _, .inr hs⟩
      | false => exact rfl
    | count => cases he; exact h
    | recheck =>
      cases he
      cases h
      dsimp only
      cases hs : m (.stopping c) with
      | true => exact ⟨rfl, .inr hs⟩
      | false =>
        by_cases ha : x.activeSeq = 0
        · simp only [Bool.false_eq_true, if_false, if_true, Ctl.elim, ha, ne_eq, not_true_eq_false]
          exact ⟨⟨ha.symm, rfl⟩, ha, Nat.succ_ne_zero _⟩
        · simp only [Bool.false_eq_true, if_false, if_true, Ctl.elim, ha, ne_eq, not_false_eq_true]
          exact ⟨rfl, rfl⟩
    | uncount => cases he; exact ⟨h.1, hr h.2⟩
    | wake => cases he; exact ⟨h.1 ▸ .refl _, hr h.2⟩
  | fail e f =>
    cases f with
    | cas reason =>
      cases he
      exact ⟨h, .inl (by simpa using hst.failStatus_ne reason)⟩
    | wake w => rcases w with _ | _ | _ <;> cases he <;> exact ⟨h.1, hr h.2⟩
  | done res e => cases e <;> cases he <;> exact EnterEnds.mono hr h
  | validate q gr v =>
    cases v with
    | session | pid =>
      cases he
      dsimp only
      split
      · exact h.1
      · exact h
    | lastSeq =>
      cases he
      dsimp only
      split
      · exact h.1
      · exact ⟨rfl, rfl, h.2.2, h.2.1⟩
  | checkRunning q | grantStatus q w =>
    cases he
    dsimp only
    split
    · rename_i hs
      exact ⟨h.1, .inl hs⟩
    · exact h
  | grantStopping q w =>
    cases he
    dsimp only
    split
    · rename_i hs
      exact ⟨h.1, .inr hs⟩
    · exact h
  -- the other points keep what is known, or go on to fail the pair
  | idleState q w | orReady q | grantOwner q w st gs gr =>
    cases he
    dsimp only
    split
    · first | exact h | exact h.1
    · split
      · first | exact h | exact h.1
      · exact h
  | casInit q | joinSeq q st | casReady q | grantClock q w hb =>
    cases he
    dsimp only
    split
    · first | exact h | exact h.1
    · first | exact h | exact h.1
  | _ => cases he; exact h

/-- What is known from the start of a call of `ps_enter_forward` to its return. -/
def EnterAt (x₀ : Locals) (c : ℕ) (m : Memory) (x : Locals) : CallPc → Prop
  | .enter pc => EnterPoint x₀ m c x pc
  | .idle (.entered r) => EnterEnds x₀ m c x r
  | _ => False

/-- **Contract of `ps_enter_forward`.** From a call of it to its return, whatever else happens in
the pair, as long as the context is not being closed. -/
theorem enter_contract {r : EnterResult} (h₀ : Run g anyStep tr₀ s₀)
    (hstart : (s₀.ctx c).call = .enter (.begin .stopping))
    (h : (system g).Exec (oneCall c) s₀ tr s) (hend : (s.ctx c).call = .idle (.entered r))
    (hopen : s.mem (.stopping c) = false) : NativeEnter (nativeOf s₀ c) r (nativeOf s c) := by
  have hI : EnterAt (s₀.locals c) c s.mem (s.locals c) (s.ctx c).call := by
    refine along_call (I := EnterAt (s₀.locals c) c) (statusOk_of_run h₀) h ?_ ?_ ?_ ?_
    · rw [hstart]; rfl
    · intro m x pc hI
      cases pc <;> first | rfl | exact hI.elim
    · intro m m' x pc hr hI
      match pc, hI with
      | .enter pc, hI => exact EnterPoint.mono hr hI
      | .idle (.entered r), hI => exact EnterEnds.mono hr hI
    · intro m x pc cmd t b r hst hI hcmd hr hrel
      match pc, hI with
      | .enter pc, hI =>
        cases hcmd
        rw [Cmd.exec_map, Option.map_eq_some_iff] at hr
        obtain ⟨r₁, hr₁, rfl⟩ := hr
        have hnext := EnterPoint.next hI hst hr₁ hrel
        rcases r₁ with ⟨m', x', pc' | res⟩
        · exact hnext
        · exact hnext
      | .idle (.entered r), hI => cases hcmd
  rw [hend] at hI
  cases r with
  | ok round => exact hI
  | error e =>
    have hrun : (s.mem .status).state ≠ .running := hI.2.resolve_right (by simp [hopen])
    exact ⟨hI.1.1, hI.1.2, by simpa [nativeOf] using hrun⟩

/-- From the first step of the call to a round. -/
def enters : CallPc → CallPc → Bool
  | .enter (.begin .stopping), .idle (.entered (.ok _)) => true
  | _, _ => false

/-- A's rank enters the first round. -/
theorem enter_contract_first : ∃ tr₀ s₀ s round, Run pairOfOne anyStep tr₀ s₀ ∧
    NativeEnter (nativeOf s₀ 0) (.ok round) (nativeOf s 0) := by
  obtain ⟨tr₀, s₀, tr, s, h₀, h, hwhole, hopen⟩ := exists_call enters
    (openBoth ++ [.enterCall 0]) (calls 19 0 ++ ticks 38 ++ calls 16 0) (by decide +kernel)
  unfold enters at hwhole
  split at hwhole
  · next hpc hpc' => exact ⟨tr₀, s₀, s, _, h₀, enter_contract h₀ hpc h hpc' hopen⟩
  · cases hwhole

/-! ## `ps_leave_forward` -/

/-- What is known when the call has its result. -/
def LeaveEnds (x₀ : Locals) (m : Memory) (c : ℕ) (x : Locals) : LeaveResult → Prop
  | .ok _ => x.activeSeq = 0 ∧ x.activeGrantId = 0
  | .error _ => SameRound x₀ x ∧ Released m c

/-- What is known at each point of the call. -/
def LeavePoint (x₀ : Locals) (m : Memory) (c : ℕ) (x : Locals) : LeavePc → Prop
  | .begin .uncount | .begin .wake | .fail _ (.wake _) => SameRound x₀ x ∧ Released m c
  | .done r _ => LeaveEnds x₀ m c x r
  | _ => SameRound x₀ x

theorem LeaveEnds.mono {m' : Memory} {r : LeaveResult} (hr : Released m c → Released m' c)
    (h : LeaveEnds x₀ m c x r) : LeaveEnds x₀ m' c x r := by
  cases r with
  | error e => exact ⟨h.1, hr h.2⟩
  | ok _ => exact h

theorem LeavePoint.mono {m' : Memory} {pc : LeavePc} (hr : Released m c → Released m' c)
    (h : LeavePoint x₀ m c x pc) : LeavePoint x₀ m' c x pc := by
  cases pc with
  | begin b => cases b <;> first | exact h | exact ⟨h.1, hr h.2⟩
  | fail e f =>
    cases f with
    | cas reason => exact h
    | wake w => exact ⟨h.1, hr h.2⟩
  | done r e => exact LeaveEnds.mono hr h
  | _ => exact h

theorem leavePoint_fence {q gid : ℕ} (h : SameRound x₀ x) :
    LeavePoint x₀ m c x (leaveFence x q gid) := by
  unfold leaveFence
  split <;> exact h

/-- One step of the call. -/
theorem LeavePoint.next {pc : LeavePc} {t q gid : ℕ} {b : Bool}
    {r : Memory × Locals × Ctl LeavePc LeaveResult} (h : LeavePoint x₀ m c x pc)
    (hst : StatusOk (m .status)) (he : (psLeaveForward g c x q gid pc).exec m t b = some r)
    (hr : Released m c → Released r.1 c) :
    r.2.2.elim (LeavePoint x₀ r.1 c r.2.1) (LeaveEnds x₀ r.1 c r.2.1) := by
  cases pc with
  | begin bp =>
    cases bp with
    | stopping | recheck =>
      cases he
      dsimp only
      cases hs : m (.stopping c) with
      | true => exact ⟨h, .inr hs⟩
      | false => exact h
    | count => cases he; exact h
    | uncount | wake => cases he; exact ⟨h.1, hr h.2⟩
  | fail e f =>
    cases f with
    | cas reason =>
      cases he
      exact ⟨h, .inl (by simpa using hst.failStatus_ne reason)⟩
    | wake w => rcases w with _ | _ | _ <;> cases he <;> exact ⟨h.1, hr h.2⟩
  | done res e => cases e <;> cases he <;> exact LeaveEnds.mono hr h
  | validate v =>
    cases v <;> cases he <;> dsimp only <;> split <;> exact h
  | checkRunning dl =>
    cases he
    dsimp only
    split
    · rename_i hs
      exact ⟨h, .inl hs⟩
    · split
      · exact h
      · exact leavePoint_fence h
  | clock dl =>
    cases he
    dsimp only
    split
    · exact h
    · exact leavePoint_fence h
  | drainStopping w =>
    cases he
    dsimp only
    split
    · rename_i hs
      exact ⟨h, .inr hs⟩
    · exact h
  | drainStatus w =>
    cases he
    dsimp only
    split
    · rename_i hs
      exact ⟨h, .inl hs⟩
    · exact h
  | orComplete | drainSeq w st =>
    cases he
    dsimp only
    split
    · exact h
    · split <;> exact h
  | owner | seq | grant | state | casComplete =>
    cases he
    dsimp only
    split <;> exact h
  | orExit =>
    cases he
    dsimp only
    split
    · exact h
    · exact ⟨rfl, rfl⟩
  | resetWakeCoordinator => cases he; exact ⟨rfl, rfl⟩
  | _ => cases he; exact h

/-- What is known from the start of a call of `ps_leave_forward` to its return. -/
def LeaveAt (x₀ : Locals) (c : ℕ) (m : Memory) (x : Locals) : CallPc → Prop
  | .leave _ _ pc => LeavePoint x₀ m c x pc
  | .idle (.left _ r) => LeaveEnds x₀ m c x r
  | _ => False

/-- **Contract of `ps_leave_forward`.** -/
theorem leave_contract {q gid : ℕ} {r : LeaveResult} (h₀ : Run g anyStep tr₀ s₀)
    (hstart : (s₀.ctx c).call = .leave q gid (.begin .stopping))
    (h : (system g).Exec (oneCall c) s₀ tr s) (hend : (s.ctx c).call = .idle (.left q r))
    (hopen : s.mem (.stopping c) = false) : NativeLeave (nativeOf s₀ c) r (nativeOf s c) := by
  have hI : LeaveAt (s₀.locals c) c s.mem (s.locals c) (s.ctx c).call := by
    refine along_call (I := LeaveAt (s₀.locals c) c) (statusOk_of_run h₀) h ?_ ?_ ?_ ?_
    · rw [hstart]; exact ⟨rfl, rfl⟩
    · intro m x pc hI
      cases pc <;> first | rfl | exact hI.elim
    · intro m m' x pc hr hI
      match pc, hI with
      | .leave _ _ pc, hI => exact LeavePoint.mono hr hI
      | .idle (.left _ r), hI => exact LeaveEnds.mono hr hI
    · intro m x pc cmd t b r hst hI hcmd hr hrel
      match pc, hI with
      | .leave _ _ pc, hI =>
        cases hcmd
        rw [Cmd.exec_map, Option.map_eq_some_iff] at hr
        obtain ⟨r₁, hr₁, rfl⟩ := hr
        have hnext := LeavePoint.next hI hst hr₁ hrel
        rcases r₁ with ⟨m', x', pc' | res⟩
        · exact hnext
        · exact hnext
      | .idle (.left _ r), hI => cases hcmd
  rw [hend] at hI
  cases r with
  | ok _ => exact hI
  | error e =>
    have hrun : (s.mem .status).state ≠ .running := hI.2.resolve_right (by simp [hopen])
    exact ⟨hI.1.1, hI.1.2, by simpa [nativeOf] using hrun⟩

/-- From the first step of the call to its success. -/
def leaves : CallPc → CallPc → Bool
  | .leave 1 1 (.begin .stopping), .idle (.left 1 (.ok _)) => true
  | _, _ => false

/-- A's rank leaves the first round. -/
theorem leave_contract_first : ∃ tr₀ s₀ s, Run pairOfOne anyStep tr₀ s₀ ∧
    NativeLeave (nativeOf s₀ 0) (.ok ()) (nativeOf s 0) := by
  obtain ⟨tr₀, s₀, tr, s, h₀, h, hwhole, hopen⟩ := exists_call leaves
    (firstRound ++ [.leaveCall 0 1 1]) (calls 19 0 ++ ticks 39 ++ calls 13 0) (by decide +kernel)
  unfold leaves at hwhole
  split at hwhole
  · next hpc hpc' => exact ⟨tr₀, s₀, s, h₀, leave_contract h₀ hpc h hpc' hopen⟩
  · cases hwhole

/-! ## `ps_fail` -/

/-- **Contract of `ps_fail`**: its first step does it all. -/
theorem fail_contract {reason : Reason} (h₀ : Run g anyStep tr₀ s₀)
    (hstart : (s₀.ctx c).fail = some (.cas reason)) (h : step g s₀ (.fail c) = some s) :
    NativeFail (nativeOf s₀ c) (nativeOf s c) := by
  simp only [step] at h
  split at h
  · cases h
  · simp only [stepFail, hstart, Option.bind_some, failPair, Cmd.exec, Option.map_some,
      Option.some.injEq] at h
    subst h
    refine ⟨by simp [nativeOf, State.locals], by simp [nativeOf, State.locals], ?_⟩
    simpa [nativeOf] using (statusOk_of_run h₀).failStatus_ne reason

end YellowZone.WorkerGate
