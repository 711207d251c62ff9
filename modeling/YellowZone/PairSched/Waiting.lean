import YellowZone.PairSched.FailClosed

/-!
# A call that waits, left to itself

What becomes of a call of `ps_enter_forward` or `ps_leave_forward` when no other thread takes a
step any more: the futex waits return at their timeouts, the clock runs, the memory is changed by
the call alone. `alone` is that run.

A failed pair, and a context that is being closed, are to release every caller. The loop that
waits for the grant and the loop that waits for the drain look at the status and at the stopping
flag in every turn. The first loop of `ps_enter_forward`, which waits for the group to become
idle, looks at neither: while the group is INITIALIZING or DRAINING it goes round for ever.

## Main definitions and results

* `alone` — the calling thread of one context, running by itself
* `alone_reaches`, `alone_invariant` — what such a run arrives at, and what it keeps
* `Released`, `SeeksInTransit` — the condition for giving up, and the loop that misses it
* `returns_iff` — a call that should give up does so exactly outside that loop
* `failed_pair_strands_caller` — a run that ends inside it
-/

namespace YellowZone.PairSched

open Machine

variable {g : Generation} {c : ℕ} {m m' : Memory} {x x' : Locals} {t : ℕ} {s : State}
  {clock : ℕ → ℕ}

/-! ## Running alone -/

/-- One step of the calling thread of `c` at time `t`; nothing, if it has none to take. -/
def aloneStep (g : Generation) (c t : ℕ) (s : State) : State :=
  (step g { s with now := t } (.call c true)).getD s

/-- The calling thread of `c` takes `n` steps alone, the `k`-th of them at time `clock k`. -/
def alone (g : Generation) (c : ℕ) (clock : ℕ → ℕ) : ℕ → State → State
  | 0, s => s
  | n + 1, s => aloneStep g c (clock n) (alone g c clock n s)

/-- The next access of the calling thread of `c`, as far as that thread is concerned. -/
def soloExec (g : Generation) (c : ℕ) (x : Locals) (pc : CallPc) (m : Memory) (t : ℕ) :
    Option (Memory × Locals × CallPc) :=
  (callCode g c x pc).bind fun cmd => cmd.exec m t true

theorem aloneStep_of_some (hk : (s.ctx c).killed = false) {r : Memory × Locals × CallPc}
    (h : soloExec g c (s.ctx c).locals (s.ctx c).call s.mem t = some r) :
    ((aloneStep g c t s).ctx c).killed = false ∧ (aloneStep g c t s).mem = r.1 ∧
      ((aloneStep g c t s).ctx c).call = r.2.2 := by
  obtain ⟨cmd, hc, he⟩ := Option.bind_eq_some_iff.mp h
  simp [aloneStep, step, hk, stepCall, hc, he]

theorem aloneStep_of_none (h : soloExec g c (s.ctx c).locals (s.ctx c).call s.mem t = none) :
    aloneStep g c t s = s := by
  unfold aloneStep step
  cases hk : (s.ctx c).killed with
  | true => simp [hk]
  | false =>
    rw [soloExec, Option.bind_eq_none_iff] at h
    cases hc : callCode g c (s.ctx c).locals (s.ctx c).call with
    | none => simp [hk, stepCall, hc]
    | some cmd => simp [hk, stepCall, hc, h cmd hc]

/-- **What a call keeps, running alone.** -/
theorem alone_invariant {I : Memory → CallPc → Prop} (hk : (s.ctx c).killed = false)
    (h₀ : I s.mem (s.ctx c).call)
    (hstep : ∀ m x pc k r, I m pc → soloExec g c x pc m (clock k) = some r → I r.1 r.2.2)
    (n : ℕ) :
    ((alone g c clock n s).ctx c).killed = false ∧
      I (alone g c clock n s).mem ((alone g c clock n s).ctx c).call := by
  induction n with
  | zero => exact ⟨hk, h₀⟩
  | succ n ih =>
    obtain ⟨hk', hI⟩ := ih
    rw [alone]
    cases he : soloExec g c ((alone g c clock n s).ctx c).locals
        ((alone g c clock n s).ctx c).call (alone g c clock n s).mem (clock n) with
    | none => rw [aloneStep_of_none he]; exact ⟨hk', hI⟩
    | some r =>
      obtain ⟨hk'', hm, hc⟩ := aloneStep_of_some hk' he
      rw [hm, hc]
      exact ⟨hk'', hstep _ _ _ _ _ hI he⟩

/-- **What a call arrives at, running alone.** -/
theorem alone_reaches {I D : Memory → CallPc → Prop} (μ : Memory → CallPc → ℕ)
    (hk : (s.ctx c).killed = false) (h₀ : I s.mem (s.ctx c).call)
    (hstep : ∀ m x pc k, I m pc → ∃ r, soloExec g c x pc m (clock k) = some r ∧
      (D r.1 r.2.2 ∨ I r.1 r.2.2 ∧ μ r.1 r.2.2 < μ m pc)) :
    ∃ n, D (alone g c clock n s).mem ((alone g c clock n s).ctx c).call := by
  refine reaches_of_measure (f := fun n => alone g c clock n s)
    (I := fun s => (s.ctx c).killed = false ∧ I s.mem (s.ctx c).call)
    (D := fun s => D s.mem (s.ctx c).call) (fun s => μ s.mem (s.ctx c).call) ⟨hk, h₀⟩ ?_
  rintro n ⟨hk', hI⟩
  obtain ⟨r, he, hr⟩ := hstep _ _ _ n hI
  obtain ⟨hk'', hm, hc⟩ := aloneStep_of_some hk' he
  simp only [alone, hm, hc]
  rcases hr with hD | ⟨hI', hlt⟩
  · exact .inl hD
  · exact .inr ⟨⟨hk'', hI'⟩, hlt⟩

/-- A step of `ps_enter_forward` by itself. -/
theorem soloExec_enter {pc : EnterPc} {ctl : Ctl EnterPc EnterResult}
    (h : (psEnterForward g c x pc).exec m t true = some (m', x', ctl)) :
    soloExec g c x (.enter pc) m t =
      some (m', x', ctl.elim .enter fun res => .idle (.entered res)) := by
  simp [soloExec, callCode, Cmd.exec_map, h]

/-- A step of `ps_leave_forward` by itself. -/
theorem soloExec_leave {q gid : ℕ} {pc : LeavePc} {ctl : Ctl LeavePc LeaveResult}
    (h : (psLeaveForward g c x q gid pc).exec m t true = some (m', x', ctl)) :
    soloExec g c x (.leave q gid pc) m t =
      some (m', x', ctl.elim (.leave q gid) fun res => .idle (.left q res)) := by
  simp [soloExec, callCode, Cmd.exec_map, h]

/-- Nothing in `ps_enter_forward` blocks. -/
theorem enter_exec (g : Generation) (c : ℕ) (x : Locals) (m : Memory) (t : ℕ) (pc : EnterPc) :
    ∃ m' x' ctl, (psEnterForward g c x pc).exec m t true = some (m', x', ctl) := by
  cases pc with
  | begin b => cases b <;> exact ⟨_, _, _, rfl⟩
  | validate q gr v => cases v <;> exact ⟨_, _, _, rfl⟩
  | fail e f => rcases f with _ | (_ | _ | _) <;> exact ⟨_, _, _, rfl⟩
  | done r e => cases e <;> exact ⟨_, _, _, rfl⟩
  | _ => exact ⟨_, _, _, rfl⟩

/-- Nothing in `ps_leave_forward` blocks. -/
theorem leave_exec (g : Generation) (c : ℕ) (x : Locals) (m : Memory) (t q gid : ℕ)
    (pc : LeavePc) :
    ∃ m' x' ctl, (psLeaveForward g c x q gid pc).exec m t true = some (m', x', ctl) := by
  cases pc with
  | begin b => cases b <;> exact ⟨_, _, _, rfl⟩
  | validate v => cases v <;> exact ⟨_, _, _, rfl⟩
  | fail e f => rcases f with _ | (_ | _ | _) <;> exact ⟨_, _, _, rfl⟩
  | done r e => cases e <;> exact ⟨_, _, _, rfl⟩
  | _ => exact ⟨_, _, _, rfl⟩

/-! ## Giving up -/

/-- What the wait loops take as a reason to return: the pair is not running, or the context is
being closed. -/
def Released (m : Memory) (c : ℕ) : Prop :=
  (m .status).state ≠ .running ∨ m (.stopping c) = true

/-- `fail_pair` does not take the reason away. -/
theorem Released.failStatus (h : Released m c) (reason : Reason) :
    Released (m.set .status (failStatus reason (m .status))) c := by
  rcases h with h | h
  · refine .inl ?_
    rw [Mem.set_self, failStatus_eq h]
    exact h
  · exact .inr h

/-- The states in which the first loop of `ps_enter_forward` waits. -/
def RoundState.inTransit : RoundState → Bool
  | .initializing | .draining => true
  | _ => false

theorem RoundState.inTransit_iff {st : RoundState} :
    st.inTransit = true ↔ st = .initializing ∨ st = .draining := by
  cases st <;> simp [RoundState.inTransit]

/-- The first loop of `ps_enter_forward`, or about to pass the test in front of it. -/
def EnterPc.seeksRound (st : Status) : EnterPc → Bool
  | .idleWake _ | .idleState _ _ | .idleWait _ _ | .casInit _ => true
  | .checkRunning _ => st.state = .running
  | _ => false

/-- The call is in the first loop, and the group is in a state that keeps it there. -/
def SeeksInTransit (g : Generation) (c : ℕ) (m : Memory) : CallPc → Prop
  | .enter pc => pc.seeksRound (m .status) = true ∧ (m (.state (g.inst c))).inTransit = true
  | _ => False

instance (pc : CallPc) : Decidable (SeeksInTransit g c m pc) := by
  unfold SeeksInTransit
  split <;> infer_instance

/-- A forward call is in progress. -/
def CallPc.inForward : CallPc → Bool
  | .enter _ | .leave _ _ _ => true
  | _ => false

/-- A released call that the first loop does not hold. -/
structure Free (g : Generation) (c : ℕ) (m : Memory) (pc : CallPc) : Prop where
  forward : pc.inForward = true
  released : Released m c
  free : ¬SeeksInTransit g c m pc

/-- The program points of `ps_enter_forward` counted from the end. Every step goes down but the
ones at the end of a turn of a loop: from `idleState` to `idleWait`, from `grantOwner` to
`grantWait`, and from a lost compare-and-swap back to `idleWake`. -/
@[simp] def enterOrder : EnterPc → ℕ
  | .begin .stopping => 46
  | .begin .count => 45
  | .begin .recheck => 44
  | .checkRunning _ => 43
  | .idleWait _ _ => 42
  | .idleWake _ => 41
  | .idleState _ _ => 40
  | .casInit _ => 39
  | .initSeq _ => 38
  | .initGrant _ => 37
  | .initReady _ => 36
  | .initComplete _ => 35
  | .initExit _ => 34
  | .initClock _ => 33
  | .initPublish _ _ => 32
  | .initState _ => 31
  | .initWake _ | .joinSeq _ _ => 30
  | .setLast _ => 29
  | .orReady _ => 28
  | .casReady _ => 27
  | .readyWakeCoordinator _ => 26
  | .readyWakeGroup _ => 25
  | .grantWait _ _ => 24
  | .grantWake _ => 23
  | .grantStopping _ _ => 22
  | .grantStatus _ _ => 21
  | .grantHeartbeat _ _ => 20
  | .grantClock _ _ _ => 19
  | .grantState _ _ => 18
  | .grantSeq _ _ _ => 17
  | .grantGrant _ _ _ _ => 16
  | .grantOwner _ _ _ _ _ => 15
  | .validate _ _ .session => 14
  | .validate _ _ .pid => 13
  | .validate _ _ .lastSeq => 12
  | .fail _ (.cas _) => 6
  | .fail _ (.wake .coordinator) => 5
  | .fail _ (.wake (.group .A)) => 4
  | .fail _ (.wake (.group .B)) => 3
  | .done _ .uncount | .begin .uncount => 2
  | .done _ .wake | .begin .wake => 1

/-- The program points of `ps_leave_forward` counted from the end. Every step goes down but the
one at the end of a turn, from `drainSeq` to `drainWait`. -/
@[simp] def leaveOrder : LeavePc → ℕ
  | .begin .stopping => 34
  | .begin .count => 33
  | .begin .recheck => 32
  | .deadline => 31
  | .checkRunning _ => 30
  | .clock _ => 29
  | .owner => 28
  | .seq => 27
  | .grant => 26
  | .state => 25
  | .validate .session => 24
  | .validate .pid => 23
  | .validate .lastSeq => 22
  | .orComplete => 21
  | .casComplete => 20
  | .completeWakeCoordinator => 19
  | .completeWakeGroup => 18
  | .drainWait _ => 17
  | .drainWake => 16
  | .drainStopping _ => 15
  | .drainStatus _ => 14
  | .drainState _ => 13
  | .drainSeq _ _ => 12
  | .orExit => 11
  | .resetReady => 9
  | .resetComplete => 8
  | .resetGrant => 7
  | .resetPublish => 6
  | .resetState => 5
  | .resetWakeGroup => 4
  | .resetWakeCoordinator => 3
  | .fail _ (.cas _) => 6
  | .fail _ (.wake .coordinator) => 5
  | .fail _ (.wake (.group .A)) => 4
  | .fail _ (.wake (.group .B)) => 3
  | .done _ .uncount | .begin .uncount => 2
  | .done _ .wake | .begin .wake => 1

/-- The points from which a released `ps_enter_forward` may have to start one more turn: the test
that would end the call is behind it, or the compare-and-swap in front of it is lost. -/
@[simp] def EnterPc.turnsOnce (stop : Bool) (st : RoundState) : EnterPc → Bool
  | .casInit _ => st ≠ .idle
  | .grantStatus _ _ => stop
  | .grantHeartbeat _ _ | .grantClock _ _ _ | .grantState _ _ | .grantSeq _ _ _ => true
  | .grantGrant _ _ _ _ | .grantOwner _ _ _ _ _ => true
  | _ => false

/-- The same for `ps_leave_forward`. -/
@[simp] def LeavePc.turnsOnce (stop : Bool) : LeavePc → Bool
  | .drainStatus _ => stop
  | .drainState _ | .drainSeq _ _ => true
  | _ => false

/-- A bound on the steps a free call still takes. -/
def callFuel (g : Generation) (c : ℕ) (m : Memory) : CallPc → ℕ
  | .enter pc => enterOrder pc +
      if pc.turnsOnce (m (.stopping c)) (m (.state (g.inst c))) then 50 else 0
  | .leave _ _ pc => leaveOrder pc + if pc.turnsOnce (m (.stopping c)) then 50 else 0
  | _ => 0

/-- Past the first loop only the release matters. -/
theorem free_enter {pc : EnterPc} (hr : Released m c) (hp : pc.seeksRound (m .status) = false) :
    Free g c m (.enter pc) :=
  ⟨rfl, hr, fun h => absurd h.1 (by simp [hp])⟩

theorem free_leave {q gid : ℕ} {pc : LeavePc} (hr : Released m c) :
    Free g c m (.leave q gid pc) :=
  ⟨rfl, hr, id⟩

/-- **A free `ps_enter_forward` comes nearer to its end.** -/
theorem Free.enter_next {pc pc' : EnterPc} (h : Free g c m (.enter pc))
    (he : (psEnterForward g c x pc).exec m t true = some (m', x', .goto pc')) :
    Free g c m' (.enter pc') ∧ callFuel g c m' (.enter pc') < callFuel g c m (.enter pc) := by
  obtain ⟨-, hr, hf⟩ := h
  cases pc with
  | begin b =>
    cases b with
    | stopping =>
      cases hs : m (.stopping c) <;>
        simp [psEnterForward, beginCall, Cmd.map, Cmd.exec, hs] at he
      obtain ⟨rfl, rfl, rfl⟩ := he
      exact ⟨free_enter hr rfl, by simp [callFuel]⟩
    | recheck =>
      cases hs : m (.stopping c) with
      | true =>
        simp [psEnterForward, beginCall, Cmd.map, Cmd.exec, hs] at he
        obtain ⟨rfl, rfl, rfl⟩ := he
        exact ⟨free_enter hr rfl, by simp [callFuel]⟩
      | false =>
        have hst : (m .status).state ≠ .running := by simpa [Released, hs] using hr
        by_cases ha : x.activeSeq = 0 <;>
        · simp [psEnterForward, beginCall, Cmd.map, Cmd.exec, hs, ha] at he
          obtain ⟨rfl, rfl, rfl⟩ := he
          exact ⟨free_enter hr (by simp [EnterPc.seeksRound, hst]), by simp [callFuel]⟩
    | count | uncount =>
      cases he
      exact ⟨free_enter hr rfl, by simp [callFuel]⟩
    | wake => cases he
  | checkRunning q =>
    by_cases hs : (m .status).state = .running
    · simp [psEnterForward, Cmd.exec, hs] at he
      obtain ⟨rfl, rfl, rfl⟩ := he
      refine ⟨⟨rfl, hr, fun h => hf ⟨?_, h.2⟩⟩, by simp [callFuel]⟩
      simp [EnterPc.seeksRound, hs]
    · simp [psEnterForward, Cmd.exec, hs] at he
      obtain ⟨rfl, rfl, rfl⟩ := he
      exact ⟨free_enter hr rfl, by simp [callFuel]⟩
  | idleWake q | idleWait q w =>
    cases he
    exact ⟨⟨rfl, hr, hf⟩, by simp [callFuel]⟩
  | idleState q w =>
    -- the group is not in transit, so the loop is left by the compare-and-swap or by joining
    have hf : (m (.state (g.inst c))).inTransit = false := by
      simpa [SeeksInTransit, EnterPc.seeksRound] using hf
    cases hs : m (.state (g.inst c)) <;> simp [hs, RoundState.inTransit] at hf
    all_goals
      simp [psEnterForward, Cmd.exec, hs] at he
      obtain ⟨rfl, rfl, rfl⟩ := he
      refine ⟨⟨rfl, hr, fun h => ?_⟩, by simp [callFuel, hs]⟩
      simp [SeeksInTransit, RoundState.inTransit, hs] at h
  | casInit q =>
    by_cases hs : m (.state (g.inst c)) = .idle
    · simp [psEnterForward, Cmd.exec, hs] at he
      obtain ⟨rfl, rfl, rfl⟩ := he
      exact ⟨free_enter hr rfl, by simp [callFuel, hs]⟩
    · simp [psEnterForward, Cmd.exec, hs] at he
      obtain ⟨rfl, rfl, rfl⟩ := he
      exact ⟨⟨rfl, hr, hf⟩, by simp [callFuel, hs]⟩
  | initSeq q | initGrant q | initReady q | initComplete q | initExit q | initClock q
  | initPublish q t | initState q | initWake q | setLast q | readyWakeCoordinator q
  | readyWakeGroup q | grantWake q | grantHeartbeat q w | grantState q w | grantSeq q w st
  | grantGrant q w st gs | grantWait q w =>
    cases he
    exact ⟨free_enter hr rfl, by simp [callFuel]⟩
  | joinSeq q st | casReady q | grantClock q w hb =>
    simp only [psEnterForward, Cmd.exec] at he
    split at he <;> cases he <;> exact ⟨free_enter hr rfl, by simp [callFuel]⟩
  | orReady q | grantOwner q w st gs gr =>
    simp only [psEnterForward, Cmd.exec] at he
    split at he
    · cases he
      exact ⟨free_enter hr rfl, by simp [callFuel]⟩
    · split at he <;> cases he <;> exact ⟨free_enter hr rfl, by simp [callFuel]⟩
  | grantStopping q w =>
    cases hs : m (.stopping c) <;>
    · simp [psEnterForward, Cmd.exec, hs] at he
      obtain ⟨rfl, rfl, rfl⟩ := he
      exact ⟨free_enter hr rfl, by simp [callFuel, hs]⟩
  | grantStatus q w =>
    by_cases hs : (m .status).state = .running
    · have hstop : m (.stopping c) = true := by simpa [Released, hs] using hr
      simp [psEnterForward, Cmd.exec, hs] at he
      obtain ⟨rfl, rfl, rfl⟩ := he
      exact ⟨free_enter hr rfl, by simp [callFuel, hstop]⟩
    · simp [psEnterForward, Cmd.exec, hs] at he
      obtain ⟨rfl, rfl, rfl⟩ := he
      refine ⟨free_enter hr rfl, ?_⟩
      cases hstop : m (.stopping c) <;> simp [callFuel, hstop]
  | validate q gr v =>
    cases v <;>
    · simp only [psEnterForward, validateLocalWorker, Cmd.map, Cmd.exec] at he
      split at he <;> cases he <;> exact ⟨free_enter hr rfl, by simp [callFuel]⟩
  | fail e f =>
    rcases f with reason | (_ | _ | _) <;> cases he
    · exact ⟨free_enter (hr.failStatus reason) rfl, by simp [callFuel]⟩
    all_goals exact ⟨free_enter hr rfl, by simp [callFuel]⟩
  | done r e =>
    cases e <;> cases he
    exact ⟨free_enter hr rfl, by simp [callFuel]⟩

/-- **A released `ps_leave_forward` comes nearer to its end.** -/
theorem Free.leave_next {q gid : ℕ} {pc pc' : LeavePc} (h : Free g c m (.leave q gid pc))
    (he : (psLeaveForward g c x q gid pc).exec m t true = some (m', x', .goto pc')) :
    Free g c m' (.leave q gid pc') ∧
      callFuel g c m' (.leave q gid pc') < callFuel g c m (.leave q gid pc) := by
  obtain ⟨-, hr, -⟩ := h
  cases pc with
  | begin b =>
    cases b with
    | stopping | recheck =>
      cases hs : m (.stopping c) <;>
        simp [psLeaveForward, beginCall, Cmd.map, Cmd.exec, hs] at he
      all_goals
        obtain ⟨rfl, rfl, rfl⟩ := he
        exact ⟨free_leave hr, by simp [callFuel]⟩
    | count | uncount =>
      cases he
      exact ⟨free_leave hr, by simp [callFuel]⟩
    | wake => cases he
  | deadline | completeWakeCoordinator | completeWakeGroup | drainWake | drainState w
  | drainWait w | resetReady | resetComplete | resetGrant | resetPublish | resetState
  | resetWakeGroup | resetWakeCoordinator =>
    cases he
    exact ⟨free_leave hr, by simp [callFuel]⟩
  | checkRunning dl =>
    simp only [psLeaveForward, leaveFence, Cmd.exec] at he
    split at he
    · cases he
      exact ⟨free_leave hr, by simp [callFuel]⟩
    · split at he <;> cases he
      · exact ⟨free_leave hr, by simp [callFuel]⟩
      · refine ⟨free_leave hr, ?_⟩
        split <;> simp [callFuel]
  | clock dl =>
    simp only [psLeaveForward, leaveFence, Cmd.exec] at he
    split at he <;> cases he
    · exact ⟨free_leave hr, by simp [callFuel]⟩
    · refine ⟨free_leave hr, ?_⟩
      split <;> simp [callFuel]
  | owner | seq | grant | state | casComplete | orExit =>
    simp only [psLeaveForward, Cmd.exec] at he
    split at he <;> cases he <;> exact ⟨free_leave hr, by simp [callFuel]⟩
  | orComplete | drainSeq w st =>
    simp only [psLeaveForward, Cmd.exec] at he
    split at he
    · cases he
      exact ⟨free_leave hr, by simp [callFuel]⟩
    · split at he <;> cases he <;> exact ⟨free_leave hr, by simp [callFuel]⟩
  | drainStopping w =>
    cases hs : m (.stopping c) <;>
    · simp [psLeaveForward, Cmd.exec, hs] at he
      obtain ⟨rfl, rfl, rfl⟩ := he
      exact ⟨free_leave hr, by simp [callFuel, hs]⟩
  | drainStatus w =>
    by_cases hs : (m .status).state = .running
    · have hstop : m (.stopping c) = true := by simpa [Released, hs] using hr
      simp [psLeaveForward, Cmd.exec, hs] at he
      obtain ⟨rfl, rfl, rfl⟩ := he
      exact ⟨free_leave hr, by simp [callFuel, hstop]⟩
    · simp [psLeaveForward, Cmd.exec, hs] at he
      obtain ⟨rfl, rfl, rfl⟩ := he
      refine ⟨free_leave hr, ?_⟩
      cases hstop : m (.stopping c) <;> simp [callFuel, hstop]
  | validate v =>
    cases v <;>
    · simp only [psLeaveForward, validateLocalWorker, Cmd.map, Cmd.exec] at he
      split at he <;> cases he <;> exact ⟨free_leave hr, by simp [callFuel]⟩
  | fail e f =>
    rcases f with reason | (_ | _ | _) <;> cases he
    · exact ⟨free_leave (hr.failStatus reason), by simp [callFuel]⟩
    all_goals exact ⟨free_leave hr, by simp [callFuel]⟩
  | done r e =>
    cases e <;> cases he
    exact ⟨free_leave hr, by simp [callFuel]⟩

/-- One step of a free call: it returns, or it comes nearer. -/
theorem Free.next {pc : CallPc} (h : Free g c m pc) :
    ∃ r, soloExec g c x pc m t = some r ∧
      (r.2.2.isIdle = true ∨ Free g c r.1 r.2.2 ∧ callFuel g c r.1 r.2.2 < callFuel g c m pc) := by
  cases pc with
  | enter pc =>
    obtain ⟨m', x', ctl, he⟩ := enter_exec g c x m t pc
    refine ⟨_, soloExec_enter he, ?_⟩
    cases ctl with
    | goto pc' => exact .inr (h.enter_next he)
    | ret r => exact .inl rfl
  | leave q gid pc =>
    obtain ⟨m', x', ctl, he⟩ := leave_exec g c x m t q gid pc
    refine ⟨_, soloExec_leave he, ?_⟩
    cases ctl with
    | goto pc' => exact .inr (h.leave_next he)
    | ret r => exact .inl rfl
  | _ => exact absurd h.forward (by simp [CallPc.inForward])

/-! ## The loop without a way out -/

/-- In the first loop, with the group in transit, every step leads back into the loop. -/
theorem SeeksInTransit.next {pc : CallPc} (h : SeeksInTransit g c m pc)
    {r : Memory × Locals × CallPc} (he : soloExec g c x pc m t = some r) :
    SeeksInTransit g c r.1 r.2.2 := by
  cases pc with
  | enter pc =>
    obtain ⟨hp, hs⟩ := h
    cases pc with
    | checkRunning q =>
      have hr : (m .status).state = .running := by simpa [EnterPc.seeksRound] using hp
      simp [soloExec, callCode, psEnterForward, Cmd.map, Cmd.exec, hr] at he
      obtain rfl := he
      exact ⟨rfl, hs⟩
    | idleWake q | idleWait q w =>
      cases he
      exact ⟨rfl, hs⟩
    | idleState q w =>
      have hni : m (.state (g.inst c)) ≠ .idle := by intro hi; rw [hi] at hs; cases hs
      have hw := RoundState.inTransit_iff.mp hs
      simp [soloExec, callCode, psEnterForward, Cmd.map, Cmd.exec, hni, hw] at he
      obtain rfl := he
      exact ⟨rfl, hs⟩
    | casInit q =>
      have hni : m (.state (g.inst c)) ≠ .idle := by intro hi; rw [hi] at hs; cases hs
      simp [soloExec, callCode, psEnterForward, Cmd.map, Cmd.exec, hni] at he
      obtain rfl := he
      exact ⟨rfl, hs⟩
    | _ => simp [EnterPc.seeksRound] at hp
  | _ => exact h.elim

theorem SeeksInTransit.not_idle {pc : CallPc} (h : SeeksInTransit g c m pc) :
    pc.isIdle = false := by
  cases pc <;> first | rfl | exact h.elim

/-- **Stranded.** A call in the first loop of `ps_enter_forward` never returns by itself while
its group is in transit, whatever the status and the stopping flag say. -/
theorem SeeksInTransit.never_returns (hk : (s.ctx c).killed = false)
    (h : SeeksInTransit g c s.mem (s.ctx c).call) (clock : ℕ → ℕ) (n : ℕ) :
    ((alone g c clock n s).ctx c).call.isIdle = false :=
  (alone_invariant hk h (fun _ _ _ _ _ hI he => hI.next he) n).2.not_idle

/-- **Who is released.** When the pair is not running, or the context is being closed, a forward
call left to itself returns, unless it is in the first loop of `ps_enter_forward` and its group is
INITIALIZING or DRAINING; then it never does. -/
theorem returns_iff (hk : (s.ctx c).killed = false)
    (hp : (s.ctx c).call.inForward = true) (hr : Released s.mem c) :
    (∀ clock, ∃ n, ((alone g c clock n s).ctx c).call.isIdle = true) ↔
      ¬SeeksInTransit g c s.mem (s.ctx c).call := by
  constructor
  · intro h hstuck
    obtain ⟨n, hn⟩ := h fun _ => 0
    simp [hstuck.never_returns hk] at hn
  · intro hfree clock
    exact alone_reaches (I := Free g c) (D := fun _ pc => pc.isIdle = true) (callFuel g c) hk
      ⟨hp, hr, hfree⟩ fun _ _ _ _ hI => hI.next

/-- A caller that waits for its grant is released by a failure. -/
theorem returns_when_failed_waiting_for_grant : ∃ tr s, Run pairOfTwo anyStep tr s ∧
    (s.mem .status).state = .failed ∧
    ∀ clock, ∃ n, ((alone pairOfTwo 0 clock n s).ctx 0).call.isIdle = true := by
  obtain ⟨tr, s, hrun, h⟩ := exists_run pairOfTwo anyStep_of_allowed
    (halfBarrier ++ [.failCall 2 7, .fail 2])
    (fun _ s => (s.mem .status).state = .failed && !(s.ctx 0).killed && (s.ctx 0).call.inForward &&
      !decide (SeeksInTransit pairOfTwo 0 s.mem (s.ctx 0).call)) (by decide +kernel)
  simp only [Bool.and_eq_true, decide_eq_true_eq, Bool.not_eq_true', decide_eq_false_iff_not] at h
  obtain ⟨⟨⟨hf, hk⟩, hp⟩, hn⟩ := h
  refine ⟨tr, s, hrun, hf, (returns_iff hk hp (.inl ?_)).mpr hn⟩
  simp [hf]

/-- **A failed pair that does not let go.** Two ranks complete a round; the first leaves it and
enters again while the group is still DRAINING; the pair fails, and the second rank returns from
its drain loop with the error, without its exit bit. Nothing can move the group on, and the first
rank's call never returns. -/
theorem failed_pair_strands_caller : ∃ tr s, Run pairOfTwo anyStep tr s ∧
    (s.mem .status).state = .failed ∧ (s.ctx 0).killed = false ∧
    (s.ctx 0).call.inForward = true ∧
    ∀ clock n, ((alone pairOfTwo 0 clock n s).ctx 0).call.isIdle = false := by
  obtain ⟨tr, s, hrun, h⟩ := exists_run pairOfTwo anyStep_of_allowed
    (halfDrained ++ .enterCall 0 :: calls 6 0 ++ .failCall 2 7 :: .fail 2 :: calls 6 2)
    (fun _ s => (s.mem .status).state = .failed && !(s.ctx 0).killed && (s.ctx 0).call.inForward &&
      decide (SeeksInTransit pairOfTwo 0 s.mem (s.ctx 0).call)) (by decide +kernel)
  simp only [Bool.and_eq_true, decide_eq_true_eq, Bool.not_eq_true'] at h
  obtain ⟨⟨⟨hf, hk⟩, hp⟩, hs⟩ := h
  exact ⟨tr, s, hrun, hf, hk, hp, hs.never_returns hk⟩

end YellowZone.PairSched
