import YellowZone.PairSched.Transitions

/-!
# Every step is one of the listed transitions

The routines are taken apart here, one theorem per routine and one case per program point, and
`trans_of_step` turns a step of the system into a `Trans`.
-/

namespace YellowZone.PairSched

open Machine

variable {g : Generation} {c : ℕ} {m : Memory} {x : Locals} {t : ℕ} {b : Bool}

/-! ## Calling threads -/

/-- The relation a step of a calling thread has to satisfy. -/
def StepSpec (g : Generation) (c t : ℕ) (m : Memory) (x : Locals) (pc : CallPc)
    (r : Memory × Locals × CallPc) : Prop :=
  CallTrans g c t m x (phaseOf pc) (callEvent c pc r.2.2) r.1 r.2.1 (phaseOf r.2.2)

/-- **Steps of `ps_enter_forward`.** -/
theorem enter_step {pc : EnterPc} {cmd : Cmd Val (Locals × CallPc)}
    (hc : callCode g c x (.enter pc) = some cmd) {r : Memory × Locals × CallPc}
    (h : cmd.exec m t b = some r) : StepSpec g c t m x (.enter pc) r := by
  cases hc
  cases pc with
  | begin b =>
    cases b with
    | stopping =>
      cases h
      cases hs : m (.stopping c) with
      | true => exact .quiet (.refl m) (.enterError c .closing)
      | false => exact .quiet (.refl m) .silent
    | count | uncount =>
      cases h
      exact .quiet (.set m _ rfl (by simp)) .silent
    | recheck =>
      cases h
      cases hs : m (.stopping c) with
      | true => exact .quiet (.refl m) .silent
      | false =>
        by_cases ha : x.activeSeq = 0
        · simpa [StepSpec, ha, callEvent, phaseOf, enterPhase] using CallTrans.seek hs ha
        · simpa [StepSpec, ha, callEvent, phaseOf, enterPhase] using CallTrans.refuse ha
    | wake =>
      cases h
      exact .quiet (.set m _ rfl (by simp)) (.enterError c .closing)
  | checkRunning q | grantStatus q w =>
    cases h
    dsimp only
    split
    · rename_i hs
      exact .drop (.inl hs) rfl
    · exact .quiet (.refl m) .silent
  | idleWake q | idleWait q w | grantWake q | grantHeartbeat q w | grantWait q w =>
    cases h
    exact .quiet (.refl m) .silent
  | idleState q w =>
    cases h
    dsimp only
    split
    · exact .quiet (.refl m) .silent
    · rename_i hi
      split
      · exact .quiet (.refl m) .silent
      · rename_i hw
        exact .see _ rfl hi (fun h => hw (.inl h)) fun h => hw (.inr h)
  | casInit q =>
    cases h
    dsimp only
    by_cases hi : m (.state (g.inst c)) = .idle
    · simp only [if_pos hi]
      exact .win hi
    · simp only [if_neg hi, Mem.set_get]
      exact .quiet (.refl m) .silent
  | initSeq q => cases h; exact .initSeq
  | initGrant q => cases h; exact .initGrant
  | initReady q => cases h; exact .initReady
  | initComplete q => cases h; exact .initComplete
  | initExit q => cases h; exact .initExit
  | initClock q => cases h; exact .initClock
  | initPublish q t => cases h; exact .initPublish
  | initState q => cases h; exact .initState
  | initWake q | setLast q | readyWakeCoordinator q | readyWakeGroup q =>
    cases h
    exact .quiet (.set m _ rfl (by simp)) .silent
  | joinSeq q st =>
    cases h
    dsimp only
    split
    · rename_i hj
      obtain ⟨rfl, hq⟩ := hj
      exact .join hq
    · exact .abort rfl
  | orReady q =>
    cases h
    dsimp only
    split
    · rename_i hb
      exact .dupReady hb
    · rename_i hb
      split
      · rename_i hf
        exact .fullReady hb hf
      · rename_i hf
        exact .orReady hb hf
  | casReady q =>
    cases h
    dsimp only
    by_cases hi : m (.state (g.inst c)) = .collecting
    · simp only [if_pos hi]
      exact .publishReady hi
    · simp only [if_neg hi, Mem.set_get]
      exact .abort rfl
  | grantStopping q w =>
    cases h
    cases hs : m (.stopping c) with
    | true => exact .drop (.inr hs) rfl
    | false => exact .quiet (.refl m) .silent
  | grantClock q w hb =>
    cases h
    dsimp only
    split
    · exact .abort rfl
    · exact .quiet (.refl m) .silent
  | grantState q w =>
    cases h
    by_cases hr : m (.state (g.inst c)) = .running
    · simpa [StepSpec, phaseOf, enterPhase, callEvent, hr] using CallTrans.seeRunning hr
    · simpa [StepSpec, phaseOf, enterPhase, callEvent, hr] using
        CallTrans.quiet (.refl m) .silent
  | grantSeq q w st =>
    cases h
    by_cases hr : st = .running
    · by_cases hq : m (.forwardSeq (g.inst c)) = q
      · simpa [StepSpec, phaseOf, enterPhase, callEvent, hr, hq] using
          CallTrans.quiet (.refl m) .silent
      · simpa [StepSpec, phaseOf, enterPhase, callEvent, hr, hq] using
          CallTrans.backOff (.inl rfl)
    · simpa [StepSpec, phaseOf, enterPhase, callEvent, hr] using
        CallTrans.quiet (.refl m) .silent
  | grantGrant q w st gs =>
    cases h
    by_cases hr : st = .running ∧ gs = q
    · by_cases h0 : m (.grantId (g.inst c)) = 0
      · simpa [StepSpec, phaseOf, enterPhase, callEvent, hr, h0] using
          CallTrans.backOff (.inl rfl)
      · simpa [StepSpec, phaseOf, enterPhase, callEvent, hr, h0] using
          CallTrans.seeGrant rfl h0
    · have hr' : ∀ gr : ℕ, ¬(st = .running ∧ gs = q ∧ gr ≠ 0) := fun gr h => hr ⟨h.1, h.2.1⟩
      simpa [StepSpec, phaseOf, enterPhase, callEvent, hr, hr'] using
        CallTrans.quiet (.refl m) .silent
  | grantOwner q w st gs gr =>
    cases h
    dsimp only
    split
    · rename_i hok
      obtain ⟨rfl, ho, rfl, h0⟩ := hok
      simpa [StepSpec, phaseOf, enterPhase, callEvent, h0] using
        (CallTrans.seeOwner ho : CallTrans g c t m x (.sawGrant gs gr) _ _ _ _)
    · rename_i hok
      by_cases hg : st = .running ∧ gs = q ∧ gr ≠ 0
      · obtain ⟨rfl, rfl, h0⟩ := hg
        simpa [StepSpec, phaseOf, enterPhase, callEvent, h0] using
          CallTrans.backOff (.inr ⟨gr, rfl⟩)
      · have hw : phaseOf (.enter (.grantOwner q w st gs gr)) = .waiting q := if_neg hg
        rw [StepSpec, hw]
        split
        · exact .abort rfl
        · exact .quiet (.refl m) .silent
  | validate q gr v =>
    cases v with
    | session =>
      cases h
      dsimp only
      split
      · exact .abort rfl
      · rename_i hs
        exact .check (not_not.mp hs)
    | pid =>
      cases h
      dsimp only
      split
      · exact .abort rfl
      · exact .quiet (.refl m) .silent
    | lastSeq =>
      cases h
      dsimp only
      split
      · exact .abort rfl
      · exact .hold
  | fail e f =>
    cases f with
    | cas reason => cases h; exact .fail reason
    | wake w =>
      rcases w with _ | _ | _ <;>
      · cases h
        exact .quiet (.set m _ rfl (by simp)) .silent
  | done r e =>
    rcases r with err | ⟨q, gr⟩ <;> cases e <;> cases h
    · exact .quiet (.set m _ rfl (by simp)) .silent
    · exact .quiet (.set m _ rfl (by simp)) (.enterError c err)
    · exact .quiet (.set m _ rfl (by simp)) .silent
    · exact .entered (.set m _ rfl (by simp))

/-- The tests on the context itself are made in the step before the first load of the fence. -/
theorem fence_trans {q gid : ℕ} {p : Phase}
    (hp : p = .unexpired ∨ p = .begun ∧ (m .status).state = .running) :
    CallTrans g c t m x p .silent m x (leavePhase q gid (leaveFence x q gid)) := by
  unfold leaveFence
  split
  · exact .abort (by rcases hp with rfl | ⟨rfl, -⟩ <;> rfl)
  · rename_i hf
    exact .fence hp (by tauto) (by tauto)

/-- **Steps of `ps_leave_forward`.** -/
theorem leave_step {q gid : ℕ} {pc : LeavePc} {cmd : Cmd Val (Locals × CallPc)}
    (hc : callCode g c x (.leave q gid pc) = some cmd) {r : Memory × Locals × CallPc}
    (h : cmd.exec m t b = some r) : StepSpec g c t m x (.leave q gid pc) r := by
  cases hc
  cases pc with
  | begin b =>
    cases b with
    | stopping =>
      cases h
      cases hs : m (.stopping c) with
      | true => exact .quiet (.refl m) (.leaveError c q .closing)
      | false => exact .quiet (.refl m) .silent
    | count | uncount =>
      cases h
      exact .quiet (.set m _ rfl (by simp)) .silent
    | recheck =>
      cases h
      cases hs : m (.stopping c) with
      | true => exact .quiet (.refl m) .silent
      | false => exact .begin hs
    | wake =>
      cases h
      exact .quiet (.set m _ rfl (by simp)) (.leaveError c q .closing)
  | deadline | drainWake | drainWait w =>
    cases h
    exact .quiet (.refl m) .silent
  | checkRunning dl =>
    cases h
    by_cases hs : (m .status).state = .running
    · by_cases hd : dl = 0
      · have hb : leavePhase q gid (.checkRunning 0) = .begun := rfl
        simpa [StepSpec, phaseOf, callEvent, hs, hd, hb] using fence_trans (.inr ⟨rfl, hs⟩)
      · simpa [StepSpec, phaseOf, leavePhase, callEvent, hs, hd] using CallTrans.seeStatus hs
    · simpa [StepSpec, phaseOf, leavePhase, callEvent, hs] using
        CallTrans.drop (.inl hs) rfl
  | clock dl =>
    cases h
    dsimp only
    split
    · exact .abort rfl
    · exact fence_trans (.inl rfl)
  | owner =>
    cases h
    dsimp only
    split
    · exact .abort rfl
    · rename_i ho
      exact .fenceOwner (not_not.mp ho)
  | seq =>
    cases h
    dsimp only
    split
    · exact .abort rfl
    · rename_i hq
      exact .fenceSeq (not_not.mp hq)
  | grant | state =>
    cases h
    dsimp only
    split
    · exact .abort rfl
    · exact .quiet (.refl m) .silent
  | validate v =>
    cases v <;>
    · cases h
      dsimp only
      split
      · exact .abort rfl
      · exact .quiet (.refl m) .silent
  | orComplete =>
    cases h
    dsimp only
    split
    · rename_i hb
      exact .dupComplete hb
    · rename_i hb
      split
      · rename_i hf
        exact .fullComplete hb hf
      · rename_i hf
        exact .orComplete hb hf
  | casComplete =>
    cases h
    dsimp only
    by_cases hi : m (.state (g.inst c)) = .running
    · simp only [if_pos hi]
      exact .publishComplete hi
    · simp only [if_neg hi, Mem.set_get]
      exact .abort rfl
  | completeWakeCoordinator | completeWakeGroup | resetWakeGroup =>
    cases h
    exact .quiet (.set m _ rfl (by simp)) .silent
  | drainStopping w =>
    cases h
    cases hs : m (.stopping c) with
    | true => exact .drop (.inr hs) rfl
    | false => exact .quiet (.refl m) .silent
  | drainStatus w =>
    cases h
    dsimp only
    split
    · rename_i hs
      exact .drop (.inl hs) rfl
    · exact .quiet (.refl m) .silent
  | drainState w =>
    cases h
    by_cases hr : m (.state (g.inst c)) = .draining
    · simpa [StepSpec, phaseOf, leavePhase, callEvent, hr] using CallTrans.seeDraining hr
    · simpa [StepSpec, phaseOf, leavePhase, callEvent, hr] using
        CallTrans.quiet (.refl m) .silent
  | drainSeq w st =>
    cases h
    by_cases hd : st = .draining
    · subst hd
      by_cases hq : m (.forwardSeq (g.inst c)) = q
      · simpa [StepSpec, phaseOf, leavePhase, callEvent, hq] using
          CallTrans.quiet (.refl m) .silent
      · simpa [StepSpec, phaseOf, leavePhase, callEvent, hq] using
          CallTrans.abort rfl
    · have hw : phaseOf (.leave q gid (.drainSeq w st)) = .finishing q := if_neg hd
      dsimp only
      rw [if_neg fun h => hd h.1, StepSpec, hw]
      split
      · exact .abort rfl
      · exact .quiet (.refl m) .silent
  | orExit =>
    cases h
    dsimp only
    split
    · rename_i hf
      exact .fullExit hf
    · rename_i hf
      exact .orExit hf
  | resetReady => cases h; exact .resetReady
  | resetComplete => cases h; exact .resetComplete
  | resetGrant => cases h; exact .resetGrant
  | resetPublish => cases h; exact .resetPublish
  | resetState => cases h; exact .resetState
  | resetWakeCoordinator => cases h; exact .resetDone (.set m _ rfl (by simp))
  | fail e f =>
    cases f with
    | cas reason => cases h; exact .fail reason
    | wake w =>
      rcases w with _ | _ | _ <;>
      · cases h
        exact .quiet (.set m _ rfl (by simp)) .silent
  | done r e =>
    rcases r with err | ⟨⟩ <;> cases e <;> cases h
    · exact .quiet (.set m _ rfl (by simp)) .silent
    · exact .quiet (.set m _ rfl (by simp)) (.leaveError c q err)
    · exact .quiet (.set m _ rfl (by simp)) .silent
    · exact .leftReturn (.set m _ rfl (by simp))

/-- **Steps of `ps_open`.** -/
theorem open_step {pc : OpenPc} {cmd : Cmd Val (Locals × CallPc)}
    (hc : callCode g c x (.opening pc) = some cmd) {r : Memory × Locals × CallPc}
    (h : cmd.exec m t b = some r) : StepSpec g c t m x (.opening pc) r := by
  cases hc
  cases pc with
  | primary | status hb | clock hb | regOldHeartbeat now session | regState | startHeartbeat
  | startCoordinator =>
    cases h
    dsimp only
    split <;> exact .quiet (.refl m) .silent
  | regClock | regOldSession now => cases h; exact .quiet (.refl m) .silent
  | regPid now | regLastSeq now | regOnline | regWake | coordinatorStarted =>
    cases h
    exact .quiet (.set m _ rfl (by simp)) .silent
  | regHeartbeat now => cases h; exact .openClaim (.set m _ rfl (by simp))
  | regSession => cases h; exact .claim
  | regIdle =>
    cases h
    by_cases ho : m (.state (g.inst c)) = .offline
    · simpa [StepSpec, phaseOf, openPhase, callEvent, ho] using CallTrans.setIdle ho
    · simpa [StepSpec, phaseOf, openPhase, callEvent, ho] using
        CallTrans.quiet (.refl m) .silent
  | loadSeq => cases h; exact .loadSeq
  | heartbeatStarted =>
    cases h
    dsimp only
    split <;> exact .quiet (.set m _ rfl (by simp)) .silent
  | undoStopping e =>
    cases h
    dsimp only
    split <;> exact .quiet (.setStopping m c) .silent
  | undoJoin e =>
    obtain ⟨-, rfl⟩ := Cmd.exec_await.mp h
    exact .quiet (.refl m) .silent
  | undoOnline e => cases h; exact .undo (.set m _ rfl (by simp))

/-- **Steps of a calling thread.** -/
theorem call_step {pc : CallPc} {cmd : Cmd Val (Locals × CallPc)}
    (hc : callCode g c x pc = some cmd) {r : Memory × Locals × CallPc}
    (h : cmd.exec m t b = some r) : StepSpec g c t m x pc r := by
  cases pc with
  | opening pc => exact open_step hc h
  | enter pc => exact enter_step hc h
  | leave q gid pc => exact leave_step hc h
  | _ => cases hc

/-! ## The coordinator -/

/-- The relation a step of the coordinator has to satisfy. -/
def CoordSpec (g : Generation) (m : Memory) (pc : CoordPc) (r : Memory × CoordPc) : Prop :=
  CoordTrans g m (coordPhaseOf pc) (coordEvent m pc) r.1 (coordPhaseOf r.2)

/-- The liveness test only reads. -/
theorem groupWorkersAlive_mem {i : Inst} {mask : BitVec 64} {now : ℕ} {a : AlivePc}
    {r : Memory × Ctl AlivePc Bool}
    (h : (groupWorkersAlive g i mask now a).exec m t b = some r) : r.1 = m := by
  cases a with
  | rank q =>
    simp only [groupWorkersAlive] at h
    split at h
    · split at h <;> cases h <;> rfl
    · cases h; rfl
  | session q pid | heartbeat q pid session => cases h; rfl

/-- **Steps of `recycle_complete`.** -/
theorem recycle_step {w now : ℕ} {o : Inst} {pc : RecyclePc} {r : Memory × CoordPc}
    (h : (coordinatorMain g (.tick w (.recycle now o pc))).exec m t b = some r) :
    CoordSpec g m (.tick w (.recycle now o pc)) r := by
  cases pc with
  | state =>
    cases h
    by_cases hc : m (.state o) = .complete
    · simpa [CoordSpec, coordPhaseOf, recyclePhase, coordEvent, hc] using
        CoordTrans.seeComplete hc
    · simpa [CoordSpec, coordPhaseOf, recyclePhase, coordEvent, hc] using
        CoordTrans.giveUp rfl
  | complete st => cases h; exact .quiet (.refl m)
  | deadline st complete =>
    cases h
    dsimp only
    by_cases hc : st = .complete
    · subst hc
      split
      · exact .giveUp rfl
      · split
        · exact .giveUp rfl
        · exact .recycle
    · have hr : coordPhaseOf (.tick w (.recycle now o (.deadline st complete))) = .rest :=
        if_neg hc
      rw [CoordSpec, hr, if_pos (Or.inl hc)]
      split
      · exact .quiet (.refl m)
      · split <;> exact .quiet (.refl m)
  | alive a =>
    obtain ⟨r₁, h₁, rfl⟩ := Cmd.exec_map_eq_some.mp h
    obtain ⟨r₂, h₂, rfl⟩ := Cmd.exec_map_eq_some.mp h₁
    obtain ⟨⟨m', ctl⟩, h₃, rfl⟩ := Cmd.exec_map_eq_some.mp h₂
    obtain rfl : m' = m := groupWorkersAlive_mem h₃
    rcases ctl with a' | alive
    · exact .quiet (.refl m')
    · dsimp only [Ctl.elim]
      cases alive <;> exact .quiet (.refl m')
  | fail f =>
    cases f with
    | cas reason => cases h; exact .fail reason
    | wake w =>
      rcases w with _ | _ | _ <;>
      · cases h
        exact .quiet (.set m _ rfl (by simp))
  | storeExit => cases h; exact .storeExit
  | storeState => cases h; exact .storeState
  | storeLastOwner => cases h; exact .storeLastOwner
  | storeDeadline => cases h; exact .quiet (.set m _ rfl (by simp))
  | storeOwner => cases h; exact .release
  | wakeGroup | wakeCoordinator => cases h; exact .quiet (.set m _ rfl (by simp))

/-- `dispatch_next` goes on looking for a round to grant, gives up, or fails the pair. -/
def Looking (ctl : Ctl DispatchPc Unit) : Prop :=
  ctl = .ret () ∨ ∃ d, ctl = .goto d ∧ (dispatchPhase d = .choosing ∨ ∃ f, d = .fail f)

theorem looking_selectCandidate (a b : Candidate) : Looking (selectCandidate a b) := by
  unfold selectCandidate
  repeat' split
  · exact .inl rfl
  all_goals exact .inr ⟨_, rfl, .inl rfl⟩

theorem looking_nextCandidate (i : Inst) (a cand : Candidate) :
    Looking (nextCandidate i a cand) := by
  cases i with
  | A => exact .inr ⟨_, rfl, .inl rfl⟩
  | B => exact looking_selectCandidate a cand

theorem looking_testReady (i : Inst) (a : Candidate) (st : RoundState) (rm om : BitVec 64)
    (pub : ℕ) : Looking (testReady g i a st rm om pub) := by
  unfold testReady
  split
  · exact .inr ⟨_, rfl, .inl rfl⟩
  · exact looking_nextCandidate i a _

/-- While it looks for a round to grant, the coordinator writes nothing. -/
theorem dispatchNext_looking {now : ℕ} {pc : DispatchPc} (hp : dispatchPhase pc = .choosing)
    (hne : ∀ sel, pc ≠ .cas sel) {r : Memory × Ctl DispatchPc Unit}
    (h : (dispatchNext g now pc).exec m t b = some r) : r.1 = m ∧ Looking r.2 := by
  cases pc with
  | state i a | readyMask i a st | onlineMask i a st rm | lastOwner =>
    cases h
    exact ⟨rfl, .inr ⟨_, rfl, .inl rfl⟩⟩
  | publish i a st rm om =>
    cases h
    refine ⟨rfl, ?_⟩
    dsimp only
    split
    · split
      · exact .inr ⟨_, rfl, .inr ⟨_, rfl⟩⟩
      · exact .inr ⟨_, rfl, .inl rfl⟩
    · exact looking_testReady i a st rm om _
  | barrierAlive i a st rm om pub l =>
    obtain ⟨⟨m', ctl⟩, h₁, rfl⟩ := Cmd.exec_map_eq_some.mp h
    refine ⟨groupWorkersAlive_mem h₁, ?_⟩
    rcases ctl with l' | _ | _
    · exact .inr ⟨_, rfl, .inl rfl⟩
    · exact .inr ⟨_, rfl, .inr ⟨_, rfl⟩⟩
    · exact looking_testReady i a st rm om pub
  | readyAlive i a pub l =>
    obtain ⟨⟨m', ctl⟩, h₁, rfl⟩ := Cmd.exec_map_eq_some.mp h
    refine ⟨groupWorkersAlive_mem h₁, ?_⟩
    rcases ctl with l' | alive
    · exact .inr ⟨_, rfl, .inl rfl⟩
    · exact looking_nextCandidate i a _
  | cas sel => exact absurd rfl (hne sel)
  | _ => simp [dispatchPhase] at hp

/-- **Steps of `dispatch_next`.** -/
theorem dispatch_step {w now : ℕ} {pc : DispatchPc} {r : Memory × CoordPc}
    (h : (coordinatorMain g (.tick w (.dispatch now pc))).exec m t b = some r) :
    CoordSpec g m (.tick w (.dispatch now pc)) r := by
  by_cases hp : dispatchPhase pc = .choosing ∧ ∀ sel, pc ≠ .cas sel
  · obtain ⟨r₁, h₁, rfl⟩ := Cmd.exec_map_eq_some.mp h
    obtain ⟨⟨m', ctl⟩, h₂, rfl⟩ := Cmd.exec_map_eq_some.mp h₁
    obtain ⟨hm, hl⟩ := dispatchNext_looking hp.1 hp.2 h₂
    obtain rfl : m' = m := hm
    have he : coordEvent m' (.tick w (.dispatch now pc)) = .silent := by
      cases pc <;> first | rfl | simp [dispatchPhase] at hp
    rw [CoordSpec, he, show coordPhaseOf (.tick w (.dispatch now pc)) = .choosing from hp.1]
    rcases hl with rfl | ⟨d, rfl, hd | ⟨f, rfl⟩⟩
    · exact .giveUp rfl
    · change CoordTrans g m' .choosing .silent m' (dispatchPhase d)
      rw [hd]
      exact .quiet (.refl m')
    · exact .giveUp rfl
  · cases pc with
    | owner =>
      cases h
      by_cases ho : m .owner = noOwner
      · simpa [CoordSpec, coordPhaseOf, dispatchPhase, coordEvent, ho] using
          CoordTrans.choose ho
      · simpa [CoordSpec, coordPhaseOf, dispatchPhase, coordEvent, ho] using
          CoordTrans.giveUp rfl
    | cas sel =>
      cases h
      dsimp only
      by_cases hr : m (.state sel) = .ready
      · simp only [if_pos hr]
        exact .grant sel hr
      · simp only [if_neg hr, Mem.set_get]
        exact .giveUp rfl
    | nextGrant sel => cases h; exact .draw
    | storeGrant sel gr => cases h; exact .storeGrant
    | storeDeadline sel => cases h; exact .quiet (.set m _ rfl (by simp))
    | storeOwner sel => cases h; exact .takeOwner
    | wake sel => cases h; exact .quiet (.set m _ rfl (by simp))
    | fail f =>
      cases f with
      | cas reason => cases h; exact .fail reason
      | wake w =>
        rcases w with _ | _ | _ <;>
        · cases h
          exact .quiet (.set m _ rfl (by simp))
    | _ => simp [dispatchPhase] at hp

/-- **Steps of `validate_shared`.** -/
theorem validate_step {w : ℕ} {pc : ValidatePc} {r : Memory × CoordPc}
    (h : (coordinatorMain g (.tick w (.validate pc))).exec m t b = some r) :
    CoordSpec g m (.tick w (.validate pc)) r := by
  cases pc with
  | owner =>
    cases h
    dsimp only
    split <;> exact .quiet (.refl m)
  | state i | ready i ok | complete i ok | exit i ok => cases h; exact .quiet (.refl m)
  | online i ok =>
    cases h
    dsimp only
    split
    · cases i <;> exact .quiet (.refl m)
    · exact .quiet (.refl m)
  | fail f =>
    cases f with
    | cas reason => cases h; exact .fail reason
    | wake w =>
      rcases w with _ | _ | _ <;>
      · cases h
        exact .quiet (.set m _ rfl (by simp))

/-- **Steps of the coordinator thread.** -/
theorem coord_step {pc : CoordPc} {r : Memory × CoordPc}
    (h : (coordinatorMain g pc).exec m t b = some r) : CoordSpec g m pc r := by
  cases pc with
  | start =>
    obtain ⟨-, rfl⟩ := Cmd.exec_await.mp h
    exact .quiet (.refl m)
  | stopping =>
    cases h
    dsimp only
    split <;> exact .quiet (.refl m)
  | wake | wait w => cases h; exact .quiet (.refl m)
  | finish => cases h; exact .quiet (.set m _ rfl (by simp))
  | done => exact absurd (Cmd.exec_await.mp h).1 (by simp)
  | tick w t =>
    cases t with
    | status =>
      cases h
      dsimp only
      split <;> exact .quiet (.refl m)
    | validate v => exact validate_step h
    | clock => cases h; exact .quiet (.refl m)
    | storePrimary now => cases h; exact .quiet (.set m _ rfl (by simp))
    | owner now =>
      cases h
      by_cases ho : m .owner = noOwner
      · simpa [CoordSpec, coordPhaseOf, recyclePhase, coordEvent, ho] using
          CoordTrans.quiet (.refl m)
      · simpa [CoordSpec, coordPhaseOf, recyclePhase, coordEvent, ho] using
          CoordTrans.find ho
    | recycle now o r => exact recycle_step h
    | statusAgain now =>
      cases h
      dsimp only
      split
      · rename_i hs
        exact .clear hs
      · exact .quiet (.refl m)
    | ownerAgain now =>
      cases h
      dsimp only
      split
      · exact .quiet (.refl m)
      · exact .giveUp rfl
    | dispatch now d => exact dispatch_step h

/-! ## The other threads -/

/-- What a step of a closing thread writes. -/
theorem close_step {s : State} {pc : ClosePc} (hpc : (s.ctx c).close = some pc)
    {r : Memory × Ctl ClosePc Bool} (h : (psClose g c x pc).exec s.mem t b = some r) :
    OtherTrans g s r.1 (.close c) := by
  cases pc with
  | exchange => cases h; exact .quiet (.setStopping s.mem c)
  | wakeGroup | wakeCoordinator | clearOnline st | clearHeartbeat st | clearPid st =>
    cases h
    exact .quiet (.set s.mem _ rfl (by simp))
  | joinCoordinator | joinHeartbeat =>
    obtain ⟨-, rfl⟩ := Cmd.exec_await.mp h
    exact .quiet (.refl _)
  | fail st f =>
    cases f with
    | cas reason => cases h; exact .fail reason rfl
    | wake w =>
      rcases w with _ | _ | _ <;>
      · cases h
        exact .quiet (.set s.mem _ rfl (by simp))
  | clearSession st => cases h; exact .clear c rfl
  | storeOffline => cases h; exact .offline c hpc rfl
  | shutdown => cases h; exact .shutdown rfl
  | shutdownWake w =>
    rcases w with _ | _ | _ <;>
    · cases h
      exact .quiet (.set s.mem _ rfl (by simp))
  | _ => cases h; exact .quiet (.refl _)

/-- What a step of a thread in `ps_fail` writes. -/
theorem fail_step {s : State} {a : Act} {pc : FailPc} {r : Memory × Ctl FailPc Unit}
    (h : (failPair pc).exec s.mem t b = some r) : OtherTrans g s r.1 a := by
  cases pc with
  | cas reason => cases h; exact .fail reason rfl
  | wake w =>
    rcases w with _ | _ | _ <;>
    · cases h
      exact .quiet (.set s.mem _ rfl (by simp))

/-- What a step of a heartbeat thread writes. -/
theorem beat_step {s : State} {a : Act} {pc : HeartbeatPc} {r : Memory × HeartbeatPc}
    (h : (heartbeatMain g c pc).exec s.mem t b = some r) : OtherTrans g s r.1 a := by
  cases pc with
  | start =>
    obtain ⟨-, rfl⟩ := Cmd.exec_await.mp h
    exact .quiet (.refl _)
  | store t | finish => cases h; exact .quiet (.set s.mem _ rfl (by simp))
  | done => exact absurd (Cmd.exec_await.mp h).1 (by simp)
  | _ => cases h; exact .quiet (.refl _)

/-! ## The system -/

/-- An action that replaces context `c` by `y`, with the same call phase and plain fields. -/
theorem trans_setCtx {s : State} {a : Act} {m' : Memory} (hm : OtherTrans g s m' a)
    (ha : a.isOther = true) {y : Ctx}
    (hphase : phaseOf y.call = s.phase c) (hlocals : y.locals = s.locals c)
    (hclosed : (s.ctx c).closed = true → y.closed = true)
    (hkilled : (s.ctx c).killed = true → y.killed = true) :
    Trans g s a .silent ({ s with mem := m' }.setCtx c y) := by
  have hctx : ∀ d, ({ s with mem := m' }.setCtx c y).ctx d = if d = c then y else s.ctx d := by
    intro d
    by_cases hd : d = c
    · subst hd; simp
    · simp [State.setCtx_ctx_of_ne _ _ hd, hd]
  refine .other hm (fun d => ?_) (fun d => ?_) (fun d => ?_) (fun d => ?_) (Nat.le_refl _) rfl ha
  · by_cases hd : d = c <;> simp [State.phase, hctx, hd, hphase]
  · by_cases hd : d = c <;> simp [State.locals, hctx, hd, hlocals]
  · by_cases hd : d = c <;> simp +contextual [hctx, hd, hclosed]
  · by_cases hd : d = c <;> simp +contextual [hctx, hd, hkilled]

theorem phase_of_canCall {s : State} (h : (s.ctx c).canCall = true) : s.phase c = .out := by
  simp only [Ctx.canCall, Bool.and_eq_true] at h
  unfold State.phase
  cases hc : (s.ctx c).call with
  | idle r => rfl
  | _ => simp [hc, CallPc.isIdle] at h

/-- **What a step can do.** -/
theorem trans_of_step {s s' : State} {a : Act} (h : step g s a = some s') :
    Trans g s a (event s a s') s' := by
  cases steps_of_step h with
  | tick d =>
    exact .other (.quiet (.refl _)) (fun _ => rfl) (fun _ => rfl) (fun _ h => h) (fun _ h => h)
      (Nat.le_add_right _ _) rfl rfl
  | kill c => exact trans_setCtx (.quiet (.refl _)) rfl rfl rfl id fun _ => rfl
  | openCall c hc =>
    exact trans_setCtx (.quiet (.refl _)) rfl (by rw [State.phase, hc]; rfl) rfl id id
  | enterCall c hc | leaveCall c q gid hc =>
    exact trans_setCtx (.quiet (.refl _)) rfl (phase_of_canCall hc).symm rfl id id
  | closeCall c hc | failCall c reason hc =>
    exact trans_setCtx (.quiet (.refl _)) rfl rfl rfl id id
  | call c b hk hc hr =>
    refine .call c b hk ?_ (fun d hd => State.setCtx_ctx_of_ne _ _ hd) ?_ ?_ rfl rfl
    · simpa [StepSpec, State.phase, State.locals, event] using call_step hc hr
    · simp
    · simpa using hk
  | close c hk hc hr =>
    exact trans_setCtx (close_step hc hr) rfl rfl rfl (fun h => by simp [h]) id
  | fail c hk hc hr => exact trans_setCtx (fail_step hr) rfl rfl rfl id id
  | beat c hk hr => exact trans_setCtx (beat_step hr) rfl rfl rfl id id
  | coord hk hr => exact .coord hk (coord_step hr) rfl rfl

end YellowZone.PairSched
