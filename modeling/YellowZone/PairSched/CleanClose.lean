import YellowZone.PairSched.Agreement
import YellowZone.PairSched.Restart

/-!
# Closing a context that is in no round

`ps_close` waits for the calls in progress, loads the owner of the pair, the state and the ready
mask of its group, and fails the pair if it seems to be in the middle of a round. A context that has
never entered, or has left its round with success, is in no round; is it always found so?

Not quite. The workers are let go when the coordinator stores DRAINING, and the pair is released
three stores later: a rank that is quick enough to leave and to be closed in between finds its group
to be the owner still (`clean_close_fails`). And a context that has taken over the slot of one that
died in a round finds what its predecessor has left behind. `Considerate` excludes just these, in
orderly runs.

## The argument

Calls are counted before the stopping flag is looked at again, so whatever call begins after
`ps_close` has seen none in progress is turned away. So while the three words are loaded the context
does not move. It is away from the barrier, and nobody else acts for its rank while its session is
in the slot (`live_of_inSlot`).

## Main definitions and results

* `Clean`, `OutOfRound` — contexts that are in no round
* `counted_of_run`, `refused_of_run` — the calls that `ps_close` waits for
* `Considerate`, `isAway_of_run` — contexts in no round are away from the barrier
* `clean_close_keeps_running` — the theorem
* `clean_close_fails` — a quick rank
-/

namespace YellowZone.PairSched

open Machine Barrier

variable {g : Generation} {tr : List Event} {s s' : State} {a : Act} {e : Event} {c t : ℕ}
  {b : Bool} {m m' : Memory} {x : Locals}

/-! ## The calls that are counted -/

/-- `begin_call` has counted the call. -/
def BeginPc.counted : BeginPc → Bool
  | .recheck | .uncount => true
  | _ => false

/-- `end_call` has not taken it back yet. -/
def EndPc.counted : EndPc → Bool
  | .uncount => true
  | .wake => false

/-- `active_calls` counts the call. -/
def CallPc.counted : CallPc → Bool
  | .enter (.begin pc) | .leave _ _ (.begin pc) => pc.counted
  | .enter (.done _ pc) | .leave _ _ (.done _ pc) => pc.counted
  | .enter _ | .leave _ _ _ => true
  | _ => false

/-- The count is right. -/
def Counted (c : ℕ) (m : Memory) (counted : Bool) : Prop :=
  m (.activeCalls c) = if counted then (1 : ℤ) else 0

theorem beginCall_counted {pc : BeginPc} {r : Memory × Ctl BeginPc Bool}
    (h : (beginCall c pc).exec m t b = some r) (hc : Counted c m pc.counted) :
    Counted c r.1 (r.2.elim BeginPc.counted id) := by
  cases pc with
  | stopping | recheck =>
    cases h
    dsimp only
    split <;> exact hc
  | count | uncount =>
    cases h
    simp_all [Counted, BeginPc.counted]
  | wake => cases h; exact hc

theorem endCall_counted {pc : EndPc} {r : Memory × Ctl EndPc Unit}
    (h : (endCall c pc).exec m t b = some r) (hc : Counted c m pc.counted) :
    Counted c r.1 (r.2.elim EndPc.counted fun _ => false) := by
  cases pc with
  | uncount =>
    cases h
    simp_all [Counted, EndPc.counted]
  | wake => cases h; exact hc

theorem enter_counted {pc : EnterPc} {r : Memory × Locals × Ctl EnterPc EnterResult}
    (h : (psEnterForward g c x pc).exec m t b = some r)
    (hc : Counted c m (CallPc.enter pc).counted) :
    Counted c r.1 (r.2.2.elim (fun pc' => (CallPc.enter pc').counted) fun _ => false) := by
  cases pc with
  | begin pc =>
    rw [psEnterForward, Cmd.exec_map_eq_some] at h
    obtain ⟨⟨m₁, ctl⟩, h₁, rfl⟩ := h
    have := beginCall_counted h₁ hc
    rcases ctl with pc' | ok
    · exact this
    · cases ok
      · exact this
      · simp only [Ctl.elim_ret, if_true]
        split <;> exact this
  | done res pc =>
    rw [psEnterForward, Cmd.exec_map_eq_some] at h
    obtain ⟨⟨m₁, ctl⟩, h₁, rfl⟩ := h
    have := endCall_counted h₁ hc
    cases ctl <;> exact this
  | fail e f => rcases f with _ | (_ | _ | _) <;> cases h <;> exact hc
  | validate q gr v =>
    rw [psEnterForward, Cmd.exec_map_eq_some] at h
    obtain ⟨⟨m₁, ctl⟩, h₁, rfl⟩ := h
    obtain rfl : m₁ = m := by cases v <;> cases h₁ <;> rfl
    rcases ctl with v' | _ | err <;> exact hc
  | _ =>
    cases h
    dsimp only
    repeat' split
    all_goals exact hc

theorem leave_counted {q gid : ℕ} {pc : LeavePc} {r : Memory × Locals × Ctl LeavePc LeaveResult}
    (h : (psLeaveForward g c x q gid pc).exec m t b = some r)
    (hc : Counted c m (CallPc.leave q gid pc).counted) :
    Counted c r.1 (r.2.2.elim (fun pc' => (CallPc.leave q gid pc').counted) fun _ => false) := by
  cases pc with
  | begin pc =>
    rw [psLeaveForward, Cmd.exec_map_eq_some] at h
    obtain ⟨⟨m₁, ctl⟩, h₁, rfl⟩ := h
    have := beginCall_counted h₁ hc
    rcases ctl with pc' | ok
    · exact this
    · cases ok <;> exact this
  | done res pc =>
    rw [psLeaveForward, Cmd.exec_map_eq_some] at h
    obtain ⟨⟨m₁, ctl⟩, h₁, rfl⟩ := h
    have := endCall_counted h₁ hc
    cases ctl <;> exact this
  | fail e f => rcases f with _ | (_ | _ | _) <;> cases h <;> exact hc
  | validate v =>
    rw [psLeaveForward, Cmd.exec_map_eq_some] at h
    obtain ⟨⟨m₁, ctl⟩, h₁, rfl⟩ := h
    obtain rfl : m₁ = m := by cases v <;> cases h₁ <;> rfl
    rcases ctl with v' | _ | err <;> exact hc
  | checkRunning dl | clock dl =>
    cases h
    dsimp only [leaveFence]
    repeat' split
    all_goals exact hc
  | _ =>
    cases h
    dsimp only
    repeat' split
    all_goals exact hc

/-- Only the calls of a context are counted for it. -/
theorem activeCalls_written (h : written g s a = some (.activeCalls c)) : ∃ b, a = .call c b := by
  cases a with
  | call d b =>
    obtain ⟨cmd, hc, ht⟩ := Option.bind_eq_some_iff.mp h
    cases hpc : (s.ctx d).call with
    | opening pc =>
      rw [hpc] at hc
      cases hc
      rw [Cmd.target_map] at ht
      cases pc <;> cases ht
    | enter pc =>
      rw [hpc] at hc
      cases hc
      rw [Cmd.target_map] at ht
      cases pc with
      | begin pc => cases pc <;> cases ht <;> exact ⟨b, rfl⟩
      | done res pc => cases pc <;> cases ht; exact ⟨b, rfl⟩
      | fail e f => rcases f with _ | (_ | _ | _) <;> cases ht
      | validate q gr v => cases v <;> cases ht
      | _ => cases ht
    | leave q gid pc =>
      rw [hpc] at hc
      cases hc
      rw [Cmd.target_map] at ht
      cases pc with
      | begin pc => cases pc <;> cases ht <;> exact ⟨b, rfl⟩
      | done res pc => cases pc <;> cases ht; exact ⟨b, rfl⟩
      | fail e f => rcases f with _ | (_ | _ | _) <;> cases ht
      | validate v => cases v <;> cases ht
      | _ => cases ht
    | _ => rw [hpc] at hc; cases hc
  | close d =>
    obtain ⟨pc, hpc, ht⟩ := Option.bind_eq_some_iff.mp h
    cases pc with
    | fail st f => rcases f with _ | (_ | _ | _) <;> cases ht
    | shutdownWake w => rcases w with _ | _ | _ <;> cases ht
    | _ => cases ht
  | fail d =>
    obtain ⟨pc, -, ht⟩ := Option.bind_eq_some_iff.mp h
    rcases pc with _ | (_ | _ | _) <;> cases ht
  | beat d =>
    change (heartbeatMain g d (s.ctx d).heartbeat).target = _ at h
    cases hpc : (s.ctx d).heartbeat <;> rw [hpc] at h <;> cases h
  | coord => cases coord_target h
  | _ => cases h

theorem counted_of_run {P : State → Act → Prop} (h : Run g P tr s) (c : ℕ) :
    Counted c s.mem (s.ctx c).call.counted := by
  refine h.invariant (I := fun _ s => Counted c s.mem (s.ctx c).call.counted) ?_ ?_
  · by_cases hc : c = 0
    · subst hc
      rfl
    · simp [Counted, initialState, hc, Ctx.absent, CallPc.counted, initialMemory]
  · intro _ s a s' hI _ hs
    by_cases ha : a.isCallOf c = true
    · obtain ⟨b, rfl⟩ := Act.eq_call_of_isCallOf ha
      obtain ⟨cmd, r, hc, hr, hm, -, hpc'⟩ := call_of_step hs
      rw [hm, hpc']
      cases hpc : (s.ctx c).call with
      | opening pc =>
        rw [hpc] at hc hI
        cases hc
        obtain ⟨⟨m', x', ctl⟩, hr₁, rfl⟩ := Cmd.exec_map_eq_some.mp hr
        have hframe : m' (.activeCalls c) = s.mem (.activeCalls c) :=
          Cmd.exec_frame hr₁ (by cases pc <;> rintro ⟨⟩)
        rcases ctl with pc' | (e | u) <;> exact hframe.trans hI
      | enter pc =>
        rw [hpc] at hc hI
        cases hc
        obtain ⟨⟨m', x', ctl⟩, hr₁, rfl⟩ := Cmd.exec_map_eq_some.mp hr
        have := enter_counted hr₁ hI
        cases ctl <;> exact this
      | leave q gid pc =>
        rw [hpc] at hc hI
        cases hc
        obtain ⟨⟨m', x', ctl⟩, hr₁, rfl⟩ := Cmd.exec_map_eq_some.mp hr
        have := leave_counted hr₁ hI
        cases ctl <;> exact this
      | _ => rw [hpc] at hc; cases hc
    · have hframe : s'.mem (.activeCalls c) = s.mem (.activeCalls c) := by
        refine frame_of_step hs fun hw => ?_
        obtain ⟨b, rfl⟩ := activeCalls_written hw
        simp [Act.isCallOf] at ha
      have hsame : (s'.ctx c).call.counted = (s.ctx c).call.counted := by
        have hstep := ctxStep_of_step (c := c) hs
        clear hs hframe
        generalize s'.ctx c = y at hstep
        cases hstep with
        | call => simp [Act.isCallOf] at ha
        | openCall h => rw [h]; rfl
        | enterCall h | leaveCall h =>
          simp only [Ctx.canCall, Bool.and_eq_true] at h
          cases hpc : (s.ctx c).call <;> first
            | rfl
            | (rw [hpc] at h; cases h.2)
        | _ => rfl
      rw [Counted, hsame, hframe]
      exact hI

/-! ## The calls a closing context has waited for -/

/-- A call that is turned away, or about to return: it has nothing more to do with a round once
its context is stopping. -/
def CallPc.refused : CallPc → Bool
  | .idle _ | .enter (.begin _) | .leave _ _ (.begin _) => true
  | .enter (.done _ .wake) | .leave _ _ (.done _ .wake) => true
  | _ => false

theorem CallPc.refused_of_counted {pc : CallPc} (ho : pc.isOpen = true)
    (hc : pc.counted = false) : pc.refused = true := by
  cases pc with
  | idle r => rfl
  | enter pc =>
    cases pc with
    | begin pc => rfl
    | done res pc => cases pc <;> first | rfl | cases hc
    | _ => cases hc
  | leave q gid pc =>
    cases pc with
    | begin pc => rfl
    | done res pc => cases pc <;> first | rfl | cases hc
    | _ => cases hc
  | _ => cases ho

/-- A call of a stopping context that begins is turned away. -/
theorem beginCall_refused {pc : BeginPc} {r : Memory × Ctl BeginPc Bool}
    (h : (beginCall c pc).exec m t b = some r) (hs : m (.stopping c) = true) : r.2 ≠ .ret true := by
  cases pc <;> cases h <;> simp [hs]

theorem refused_of_callCode {pc : CallPc} {cmd : Cmd Val (Locals × CallPc)}
    {r : Memory × Locals × CallPc} (hc : callCode g c x pc = some cmd)
    (hr : cmd.exec m t b = some r) (hs : m (.stopping c) = true) (h : pc.refused = true) :
    r.2.2.refused = true := by
  cases pc with
  | enter pc =>
    cases hc
    obtain ⟨⟨m', x', ctl⟩, hr₁, rfl⟩ := Cmd.exec_map_eq_some.mp hr
    cases pc with
    | begin pc =>
      rw [psEnterForward, Cmd.exec_map_eq_some] at hr₁
      obtain ⟨⟨m₁, ctl₁⟩, h₁, heq⟩ := hr₁
      rcases ctl₁ with pc' | ok
      · cases heq
        rfl
      · cases ok with
        | false => cases heq; rfl
        | true => exact absurd rfl (beginCall_refused h₁ hs)
    | done res pc =>
      cases pc with
      | uncount => cases h
      | wake => cases hr₁; rfl
    | _ => cases h
  | leave q gid pc =>
    cases hc
    obtain ⟨⟨m', x', ctl⟩, hr₁, rfl⟩ := Cmd.exec_map_eq_some.mp hr
    cases pc with
    | begin pc =>
      rw [psLeaveForward, Cmd.exec_map_eq_some] at hr₁
      obtain ⟨⟨m₁, ctl₁⟩, h₁, heq⟩ := hr₁
      rcases ctl₁ with pc' | ok
      · cases heq
        rfl
      · cases ok with
        | false => cases heq; rfl
        | true => exact absurd rfl (beginCall_refused h₁ hs)
    | done res pc =>
      cases pc with
      | uncount => cases h
      | wake => cases hr₁; rfl
    | _ => cases h
  | opening pc => cases h
  | _ => cases hc

theorem drained_of_exec {pc : ClosePc} {r : Memory × Ctl ClosePc Bool}
    (h : (psClose g c x pc).exec m t b = some r) {pc' : ClosePc} (hr : r.2 = .goto pc')
    (hd : pc'.drained = true) : pc.drained = true ∨ m (.activeCalls c) = (0 : ℤ) := by
  have hnext := closeNext_of_exec h
  rw [hr] at hnext
  cases hnext with
  | drained h0 => exact .inr h0
  | finishPair hpc => cases pc <;> first | exact .inl rfl | cases hpc
  | early _ hpc' =>
    rw [hpc'] at hd
    cases hd
  | _ => exact .inl rfl

theorem refused_of_run {P : State → Act → Prop} (h : Run g P tr s) {pc : ClosePc}
    (hpc : (s.ctx c).close = some pc) (hd : pc.drained = true) :
    (s.ctx c).call.refused = true := by
  induction h generalizing pc with
  | start => rw [close_initialState] at hpc; cases hpc
  | @next tr s s' a h hP hs ih =>
    have hcl := closingOk_of_run h c
    rcases close_cases hs hpc with rfl | ⟨rfl, pc₀, r, hpc₀, hr, hctl, hcall, -⟩ | ⟨ha, hold⟩
    · cases hd
    · rw [hcall]
      rcases drained_of_exec hr hctl hd with hd₀ | h0
      · exact ih hpc₀ hd₀
      · refine CallPc.refused_of_counted (hcl.isOpen (by rw [hpc₀]; nofun)).1 ?_
        have hcount := counted_of_run h c
        by_contra hne
        rw [Counted, h0, if_pos (by simpa using hne)] at hcount
        cases hcount
    · have hopen := (hcl.isOpen (by rw [hold]; nofun)).1
      have hne : pc ≠ .exchange := by rintro rfl; cases hd
      have hr := ih hold hd
      have hstep := ctxStep_of_step (c := c) hs
      clear hs hpc
      generalize s'.ctx c = y at hstep
      cases hstep with
      | openCall h => rw [h] at hopen; cases hopen
      | enterCall h | leaveCall h => rfl
      | call hcode hex => exact refused_of_callCode hcode hex (hcl.stopping hold hne) hr
      | _ => exact hr

/-! ## Contexts in no round -/

/-- `ps_enter_forward` has never been called on `c`. -/
structure NeverEntered (c : ℕ) (tr : List Event) (s : State) : Prop where
  returned : ∀ r, .enterReturn c r ∉ tr
  call : ∀ pc, (s.ctx c).call ≠ .enter pc

/-- The context has never entered, or its last call was a `ps_leave_forward` that returned `0`. -/
def Clean (c : ℕ) (tr : List Event) (s : State) : Prop :=
  NeverEntered c tr s ∨ ∃ q, (s.ctx c).call = .idle (.left q (.ok ()))

/-- Clean, or about to be: `ps_leave_forward` has made its last access to the round. -/
def OutOfRound (c : ℕ) (tr : List Event) (s : State) : Prop :=
  Clean c tr s ∨ ∃ q, s.phase c = .resetDone q ∨ s.phase c = .left q

/-- `ps_enter_forward` returns when it is turned away, or at its end. -/
theorem enter_ret {pc : EnterPc} {r : Memory × Locals × Ctl EnterPc EnterResult}
    (h : (psEnterForward g c x pc).exec m t b = some r) {res : EnterResult}
    (hr : r.2.2 = .ret res) : (∃ pc', pc = .begin pc') ∨ ∃ pc', pc = .done res pc' := by
  cases pc with
  | begin pc => exact .inl ⟨pc, rfl⟩
  | done res' pc =>
    cases pc with
    | uncount => cases h; cases hr
    | wake => cases h; cases hr; exact .inr ⟨_, rfl⟩
  | fail e f => rcases f with _ | (_ | _ | _) <;> cases h <;> cases hr
  | validate q gr v =>
    rw [psEnterForward, Cmd.exec_map_eq_some] at h
    obtain ⟨⟨m₁, ctl⟩, h₁, rfl⟩ := h
    rcases ctl with v' | _ | err <;> cases hr
  | checkRunning q | casInit q | joinSeq q st | casReady q | grantStopping q w | grantStatus q w
  | grantClock q w hb =>
    cases h
    dsimp only at hr
    split at hr <;> cases hr
  | idleState q w | orReady q | grantOwner q w st gs gr =>
    cases h
    dsimp only at hr
    split at hr
    · cases hr
    · split at hr <;> cases hr
  | _ => cases h; cases hr

/-- So does `ps_leave_forward`. -/
theorem leave_ret {q gid : ℕ} {pc : LeavePc} {r : Memory × Locals × Ctl LeavePc LeaveResult}
    (h : (psLeaveForward g c x q gid pc).exec m t b = some r) {res : LeaveResult}
    (hr : r.2.2 = .ret res) : res = .error .closing ∨ ∃ pc', pc = .done res pc' := by
  cases pc with
  | begin pc =>
    rw [psLeaveForward, Cmd.exec_map_eq_some] at h
    obtain ⟨⟨m₁, ctl⟩, h₁, rfl⟩ := h
    rcases ctl with pc' | (_ | _) <;> cases hr
    exact .inl rfl
  | done res' pc =>
    cases pc with
    | uncount => cases h; cases hr
    | wake => cases h; cases hr; exact .inr ⟨_, rfl⟩
  | fail e f => rcases f with _ | (_ | _ | _) <;> cases h <;> cases hr
  | validate v =>
    rw [psLeaveForward, Cmd.exec_map_eq_some] at h
    obtain ⟨⟨m₁, ctl⟩, h₁, rfl⟩ := h
    rcases ctl with v' | _ | err <;> cases hr
  | owner | seq | grant | state | casComplete | drainStopping w | drainStatus w | orExit
  | clock dl =>
    cases h
    dsimp only at hr
    split at hr <;> cases hr
  | checkRunning dl | orComplete | drainSeq w st =>
    cases h
    dsimp only at hr
    split at hr
    · cases hr
    · split at hr <;> cases hr
  | _ => cases h; cases hr

/-- Whoever has never entered had not before. -/
theorem NeverEntered.before (h : step g s a = some s')
    (hn : NeverEntered c (event s a s' :: tr) s') : NeverEntered c tr s := by
  refine ⟨fun r hr => hn.returned r (List.mem_cons_of_mem _ hr), fun pc hpc => ?_⟩
  by_cases ha : a.isCallOf c = true
  · obtain ⟨b, rfl⟩ := Act.eq_call_of_isCallOf ha
    obtain ⟨cmd, r, hc, hr, -, -, hpc'⟩ := call_of_step h
    rw [hpc] at hc
    cases hc
    obtain ⟨⟨m', x', ctl⟩, hr₁, rfl⟩ := Cmd.exec_map_eq_some.mp hr
    cases ctl with
    | goto pc' => exact hn.call pc' hpc'
    | ret res =>
      -- the call returns, and that is observed
      refine hn.returned res (List.mem_cons.mpr (.inl ?_))
      have hev : event s (.call c b) s' = callEvent c (.enter pc) (.idle (.entered res)) := by
        rw [event, hpc, show (s'.ctx c).call = _ from hpc']
        rfl
      rw [hev]
      rcases enter_ret hr₁ rfl with ⟨pc', rfl⟩ | ⟨pc', rfl⟩ <;> rfl
  · have hcall := hn.call pc
    have hstep := ctxStep_of_step (c := c) h
    clear h hn
    generalize s'.ctx c = y at hstep hcall
    cases hstep with
    | call => simp [Act.isCallOf] at ha
    | openCall h => rw [hpc] at h; cases h
    | enterCall h | leaveCall h => simp [Ctx.canCall, hpc, CallPc.isIdle] at h
    | _ => exact hcall hpc

/-- `ps_leave_forward` returns `0` from its last phase. -/
theorem left_of_step (h : step g s (.call c b) = some s') {q : ℕ}
    (hpc : (s'.ctx c).call = .idle (.left q (.ok ()))) : s.phase c = .left q := by
  obtain ⟨cmd, r, hc, hr, -, -, hpc'⟩ := call_of_step h
  rw [hpc] at hpc'
  cases hcall : (s.ctx c).call with
  | opening pc =>
    rw [hcall] at hc
    cases hc
    obtain ⟨⟨m', x', ctl⟩, hr₁, rfl⟩ := Cmd.exec_map_eq_some.mp hr
    rcases ctl with pc' | (e | u) <;> cases hpc'
  | enter pc =>
    rw [hcall] at hc
    cases hc
    obtain ⟨⟨m', x', ctl⟩, hr₁, rfl⟩ := Cmd.exec_map_eq_some.mp hr
    cases ctl <;> cases hpc'
  | leave q' gid pc =>
    rw [hcall] at hc
    cases hc
    obtain ⟨⟨m', x', ctl⟩, hr₁, rfl⟩ := Cmd.exec_map_eq_some.mp hr
    rcases ctl with pc' | res <;> cases hpc'
    obtain ⟨pc', rfl⟩ := (leave_ret hr₁ rfl).resolve_left nofun
    rw [State.phase, hcall]
    rfl
  | _ => rw [hcall] at hc; cases hc

/-- The phases of a context that has never entered. -/
def Phase.early : Phase → Bool
  | .absent | .claiming | .registering | .out | .failing | .begun | .unexpired => true
  | .fenceOwner _ _ | .fenceSeq _ _ | .fenceRest _ _ => true
  | _ => false

theorem Inside.returned : ∀ {tr : List Event}, Inside c tr → ∃ r, .enterReturn c r ∈ tr
  | .enterReturn d (.ok r) :: tr, h => by
    rcases h with rfl | h
    · exact ⟨_, List.mem_cons_self ..⟩
    · obtain ⟨r', hr⟩ := Inside.returned h
      exact ⟨r', List.mem_cons_of_mem _ hr⟩
  | .completeOr _ _ :: tr, h => by
    obtain ⟨r', hr⟩ := Inside.returned h.2
    exact ⟨r', List.mem_cons_of_mem _ hr⟩
  | .enterReturn _ (.error _) :: tr, h | .readyOr _ _ :: tr, h | .leaveReturn _ _ _ :: tr, h
  | .grant _ _ _ :: tr, h | .silent :: tr, h => by
    obtain ⟨r', hr⟩ := Inside.returned (show Inside c tr from h)
    exact ⟨r', List.mem_cons_of_mem _ hr⟩

theorem NeverEntered.not_inside (h : NeverEntered c tr s) : ¬Inside c tr := fun hin =>
  let ⟨r, hr⟩ := hin.returned
  h.returned r hr

/-- What a context in no round has left of one: nothing. -/
structure OutFacts (c : ℕ) (tr : List Event) (s : State) : Prop where
  never : NeverEntered c tr s → (s.phase c).early = true ∧ (s.locals c).activeSeq = 0
  leaving : ∀ q, s.phase c = .left q → (s.locals c).activeSeq = 0
  left : ∀ q, (s.ctx c).call = .idle (.left q (.ok ())) → (s.locals c).activeSeq = 0

theorem CallTrans.early {p p' : Phase} {x' : Locals} (h : CallTrans g c t m x p e m' x' p')
    (hp : p.early = true) (hx : x.activeSeq = 0) (hseek : ∀ q, p' ≠ .seeking q)
    (hin : ∀ q gr, p ≠ .fenceRest q gr) : p'.early = true ∧ x'.activeSeq = 0 := by
  cases h with
  | quiet hm he => exact ⟨hp, hx⟩
  | seek hs ha => exact absurd rfl (hseek _)
  | dupComplete | fullComplete | orComplete => exact absurd rfl (hin _ _)
  | backOff hb => rcases hb with rfl | ⟨gr, rfl⟩ <;> cases hp
  | _ => first
    | exact ⟨rfl, hx⟩
    | cases hp

/-- The last phase comes after the fields have been cleared. -/
theorem CallTrans.left {p p' : Phase} {x' : Locals} {q : ℕ}
    (h : CallTrans g c t m x p e m' x' p') (hp' : p' = .left q) :
    p = .left q ∧ x' = x ∨ x'.activeSeq = 0 := by
  cases h with
  | quiet hm he => exact .inl ⟨hp', rfl⟩
  | orExit h | resetDone hm => exact .inr rfl
  | _ => cases hp'

theorem CallTrans.of_left {p p' : Phase} {x' : Locals} {q : ℕ}
    (h : CallTrans g c t m x p e m' x' p') (hp : p = .left q) : x' = x ∧ Calm m m' := by
  cases h with
  | quiet hm he | leftReturn hm => exact ⟨rfl, hm⟩
  | drop hs hd => rw [hp] at hd; cases hd
  | abort ha => rw [hp] at ha; cases ha
  | fence hf => rcases hf with rfl | ⟨rfl, -⟩ <;> cases hp
  | backOff hb => rcases hb with rfl | ⟨gr, rfl⟩ <;> cases hp
  | _ => cases hp

/-- A call returns by its own steps. -/
theorem idle_of_step (h : step g s a = some s') (ha : a.isCallOf c = false) {r : CallResult}
    (hr : (s'.ctx c).call = .idle r) : (s.ctx c).call = .idle r := by
  have hstep := ctxStep_of_step (c := c) h
  clear h
  generalize s'.ctx c = y at hstep hr
  cases hstep with
  | call => simp [Act.isCallOf] at ha
  | openCall h | enterCall h | leaveCall h => cases hr
  | _ => exact hr

theorem outFacts_of_run {P : State → Act → Prop} (h : Run g P tr s) (c : ℕ) :
    OutFacts c tr s := by
  induction h with
  | start =>
    have hx : ((initialState g).locals c).activeSeq = 0 := by
      by_cases hc : c = 0
      · subst hc; rfl
      · simp [State.locals, initialState, hc, Ctx.absent]
    exact ⟨fun _ => ⟨by simp [Phase.early], hx⟩, fun _ _ => hx, fun _ _ => hx⟩
  | @next tr s s' a h hP hs ih =>
    have ht := trans_of_step hs
    refine ⟨fun hn => ?_, fun q hq => ?_, fun q hq => ?_⟩
    · have hold := hn.before hs
      obtain ⟨hp, hx⟩ := ih.never hold
      rcases ht.kept_or_moved c with ⟨hp', hx'⟩ | ⟨-, hmove⟩
      · rw [hp', hx']
        exact ⟨hp, hx⟩
      · refine hmove.early hp hx (fun q hq => ?_) fun q gr hq => hold.not_inside ?_
        · obtain ⟨pc, hpc⟩ := enter_of_waitsToEnter (c := c) (s := s') (by rw [hq]; rfl)
          exact hn.call pc hpc
        · have := (support_of_run h).leave c
          rwa [hq] at this
    · rcases ht.kept_or_moved c with ⟨hp', hx'⟩ | ⟨-, hmove⟩
      · rw [hx']
        exact ih.leaving q (hp'.symm.trans hq)
      · rcases hmove.left hq with ⟨hp, hx⟩ | hx
        · rw [hx]
          exact ih.leaving q hp
        · exact hx
    · by_cases ha : a.isCallOf c = true
      · obtain ⟨b, rfl⟩ := Act.eq_call_of_isCallOf ha
        have hp := left_of_step hs hq
        rcases ht.kept_or_moved c with ⟨-, hx'⟩ | ⟨-, hmove⟩
        · rw [hx']
          exact ih.leaving q hp
        · rw [(hmove.of_left hp).1]
          exact ih.leaving q hp
      · rw [locals_eq_of_step hs (by simpa using ha)]
        exact ih.left q (idle_of_step hs (by simpa using ha) hq)

/-! ## Who holds a slot -/

theorem CallTrans.session_claim {p p' : Phase} {x' : Locals}
    (h : CallTrans g c t m x p e m' x' p') (i : Inst) (r : ℕ) :
    m' (.session i r) = m (.session i r) ∨
      p = .claiming ∧ i = g.inst c ∧ r = g.rank c ∧ m' (.session i r) = g.session c := by
  rcases h.session i r with heq | ⟨hi, hr, hp', hs⟩
  · exact .inl heq
  · cases h with
    | claim => exact .inr ⟨rfl, hi, hr, hs⟩
    | quiet hm he => exact .inl (hm.core _ rfl)
    | setIdle h => exact .inl rfl
    | _ => cases hp'

/-- A context gets into its slot by its claim. -/
theorem inSlot_before (h : step g s a = some s') (hc : InSlot g s' c) :
    InSlot g s c ∨ s.phase c = .claiming ∧ ∃ b, a = .call c b := by
  have ht := trans_of_step h
  generalize event s a s' = e at ht
  cases ht with
  | call d b hk ht =>
    rcases ht.session_claim (g.inst c) (g.rank c) with heq | ⟨hp, hi, hr, hs⟩
    · exact .inl (heq.symm.trans hc)
    · obtain rfl := g.session_inj c d hi hr (hc.symm.trans hs)
      exact .inr ⟨hp, b, rfl⟩
  | coord hk ht => exact .inl ((ht.session _ _).symm.trans hc)
  | other ht =>
    rcases ht.session (g.inst c) (g.rank c) with heq | h0
    · exact .inl (heq.symm.trans hc)
    · exact absurd (hc.symm.trans h0) (g.session_ne_zero c)

/-- In an orderly run, no other context of the slot is live. -/
theorem live_of_inSlot (h : Run g (Orderly g) tr s) {d : ℕ} (hc : InSlot g s c) (hd : Live s d)
    (hcd : g.SameSlot c d) : d = c := by
  induction h with
  | start => simpa [Phase.registered] using hd.registered
  | @next tr s s' a h ho hs ih =>
    have ht := trans_of_step hs
    rcases ht.live hd with hd₀ | ⟨hclaim, b, rfl⟩
    · rcases inSlot_before hs hc with hc₀ | ⟨hclaim, b, rfl⟩
      · exact ih hc₀ hd₀
      · by_contra hne
        exact ho hclaim d hne hcd hd₀
    · -- `d` has just written its session
      rcases ht.kept_or_moved d with ⟨hp, -⟩ | ⟨-, hmove⟩
      · have := hd.registered
        rw [hp, hclaim] at this
        cases this
      · have hses : s'.mem (.session (g.inst d) (g.rank d)) = g.session d := by
          have hreg := hd.registered
          rw [hclaim] at hmove
          generalize event s (.call d b) s' = e at hmove
          generalize s'.mem = m', s'.locals d = x', s'.phase d = p' at hmove hreg
          cases hmove with
          | claim => simp
          | quiet hm he => cases hreg
          | drop hs hp | abort hp => cases hp
          | fence hp => rcases hp with hp | ⟨hp, -⟩ <;> cases hp
          | backOff hp => rcases hp with hp | ⟨gr, hp⟩ <;> cases hp
        rw [InSlot, hcd.1, hcd.2, hses] at hc
        exact g.session_inj d c hcd.1.symm hcd.2.symm hc

/-- So nobody else moves the barrier as the rank of the slot. -/
theorem mover_ne_party_of_inSlot (h : Run g (Orderly g) tr s) (hc : InSlot g s c)
    {act : Actor (Fin g.workerCount)} (hm : Mover g s (g.inst c) a act)
    (ha : a.isCallOf c = false) : act ≠ .party (rankOf g c) := by
  rintro rfl
  cases hm with
  | call d b hd hk hact =>
    obtain rfl := live_of_inSlot h hc (.of_acts hk hact.2)
      ⟨hd.symm, Fin.ext_iff.mp hact.1⟩
    simp [Act.isCallOf] at ha

/-! ## Contexts in no round are away -/

/-- What is assumed of the steps, beside `Orderly`. A context takes its slot when its rank takes no
part in the round of its group, and `ps_close` does not load the owner after the coordinator has
set the round of its group DRAINING and before it has released the pair. -/
structure Considerate (g : Generation) (s : State) (a : Act) : Prop where
  orderly : Orderly g s a
  fresh : ∀ c b, a = .call c b → s.phase c = .claiming →
    BitMask.HasBit (s.mem (.readyMask (g.inst c))) (g.rank c) →
      s.mem (.state (g.inst c)) = .draining ∧
        BitMask.HasBit (s.mem (.exitMask (g.inst c))) (g.rank c)
  patient : ∀ c, a = .close c → (s.ctx c).close = some .owner →
    ¬s.coordPhase.releasing (g.inst c)

/-- The rank of `c` takes no part in the round of its group. -/
def IsAway (g : Generation) (s : State) (c : ℕ) : Prop :=
  Away (rankOf g c) (barrierOf g s.mem (g.inst c))

/-- A step of a calling thread. -/
theorem Trans.moved (h : Trans g s (.call c b) e s') : (s.ctx c).killed = false ∧
    CallTrans g c s.now s.mem (s.locals c) (s.phase c) e s'.mem (s'.locals c) (s'.phase c) := by
  cases h with
  | call _ _ hk ht => exact ⟨hk, ht⟩
  | other _ _ _ _ _ _ _ ha => cases ha

/-- A context that has never entered does not move the barrier as its rank. -/
theorem Phase.acts_of_early {p : Phase} (hp : p.early = true) (ha : p.acts = true) :
    ∃ q gr, p = .fenceRest q gr := by
  cases p with
  | fenceRest q gr => exact ⟨q, gr, rfl⟩
  | seeking q | joined q | sawDraining q => cases hp
  | _ => cases ha

theorem OutOfRound.before (h : step g s a = some s') (ha : a.isCallOf c = false)
    (ho : OutOfRound c (event s a s' :: tr) s') : OutOfRound c tr s := by
  have hp := ((trans_of_step h).phase_eq ha).1
  rcases ho with (hn | ⟨q, hq⟩) | ⟨q, hq⟩
  · exact .inl (.inl (hn.before h))
  · exact .inl (.inr ⟨q, idle_of_step h ha hq⟩)
  · exact .inr ⟨q, by rwa [hp] at hq⟩

/-- The last accesses of `ps_leave_forward` to the round. -/
theorem CallTrans.isAway {p p' : Phase} {x' : Locals} {q : ℕ}
    (h : CallTrans g c t m x p e m' x' p') (hl : LockOk (barrierOf g m (g.inst c)) p)
    (hk : p.acts = true → Knows (rankOf g c) (barrierOf g m (g.inst c)) x (Inside c tr) p)
    (hkept : ∀ q, p = .resetDone q ∨ p = .left q → Away (rankOf g c) (barrierOf g m (g.inst c)))
    (hp' : p' = .resetDone q ∨ p' = .left q) : Away (rankOf g c) (barrierOf g m' (g.inst c)) := by
  cases h with
  | quiet hm he =>
    rw [hm.barrierOf]
    exact hkept q hp'
  | resetDone hm =>
    rw [hm.barrierOf]
    exact hkept _ (.inl rfl)
  | orExit hf =>
    rw [barrierOf_set_exitMask, ranksIn_or_bitOf]
    exact fun _ => ⟨(hk rfl).2.2, Set.mem_insert _ _⟩
  | resetState =>
    rw [barrierOf_set_state]
    intro hr
    rw [hl.2.2.1] at hr
    exact absurd hr (Set.notMem_empty _)
  | _ => rcases hp' with hp' | hp' <;> cases hp'

theorem isAway_of_run (h : Run g (Considerate g) tr s) (hc : InSlot g s c)
    (ho : OutOfRound c tr s) : IsAway g s c := by
  induction h with
  | start => exact absurd hc.symm (g.session_ne_zero c)
  | @next tr s s' a h hP hs ih =>
    have hs : step g s a = some s' := hs
    have horder := h.mono fun _ _ => Considerate.orderly
    have hI := roundsOk_of_run horder
    have ht := trans_of_step hs
    have hmoves := ht.barrier_step hI (support_of_run h) hP.orderly (g.inst c)
    by_cases ha : a.isCallOf c = true
    · obtain ⟨b, rfl⟩ := Act.eq_call_of_isCallOf ha
      have hin := inSlot_before hs hc
      -- in a phase after its claim, it was in its slot
      have hkept : s.phase c ≠ .claiming → OutOfRound c tr s → IsAway g s c := fun hne ho =>
        ih (hin.resolve_right fun hcl => hne hcl.1) ho
      obtain ⟨hk, hmove⟩ := ht.moved
      rcases ho with (hn | ⟨q, hq⟩) | ⟨q, hq⟩
      · have hold := hn.before hs
        have hearly := ((outFacts_of_run h c).never hold).1
        have haway : IsAway g s c := by
          rcases hin with hin | ⟨hclaim, -⟩
          · exact ih hin (.inl (.inl hold))
          · intro hr
            obtain ⟨hst, hex⟩ := hP.fresh c b rfl hclaim hr
            exact ⟨by simp [barrierOf, hst, RoundState.stage], hex⟩
        rcases hmoves with heq | ⟨act, hstep, hm⟩
        · rw [IsAway, heq]
          exact haway
        · cases hm with
          | call _ _ _ hk hact =>
            refine haway.step (hI.wf _) hstep ?_
            rintro rfl
            obtain ⟨q, gr, hq⟩ := Phase.acts_of_early hearly hact.2
            exact hold.not_inside (hI.granted_of_fenceRest (support_of_run h) hk hq).1
          | other ha => cases ha
      · have hp := left_of_step hs hq
        rw [IsAway, (hmove.of_left hp).2.barrierOf]
        exact hkept (by rw [hp]; rintro ⟨⟩) (.inr ⟨q, .inr hp⟩)
      · refine hmove.isAway (hI.lock c) (fun hp => hI.knows c (.of_acts hk hp)) (fun q hq => ?_) hq
        exact hkept (by rcases hq with hq | hq <;> rw [hq] <;> rintro ⟨⟩) (.inr ⟨q, hq⟩)
    · have ha : a.isCallOf c = false := by simpa using ha
      have hc₀ : InSlot g s c := by
        refine (inSlot_before hs hc).resolve_right ?_
        rintro ⟨-, b, rfl⟩
        simp [Act.isCallOf] at ha
      have haway := ih hc₀ (ho.before hs ha)
      rcases hmoves with heq | ⟨act, hstep, hm⟩
      · rw [IsAway, heq]
        exact haway
      · exact haway.step (hI.wf _) hstep (mover_ne_party_of_inSlot horder hc₀ hm ha)

/-! ## What a closing context finds -/

theorem Orderly.offlineIdle (h : Orderly g s a) : OfflineIdle g s a := by
  rintro c rfl hc
  exact .inl (h hc)

/-- The owner of the pair is the group of a context in no round only until it is released. -/
theorem releasing_of_owner (h : Run g (Considerate g) tr s) (hc : InSlot g s c)
    (ho : OutOfRound c tr s) (hown : s.mem .owner = (g.inst c).idx) :
    s.coordPhase.releasing (g.inst c) := by
  have horder := h.mono fun _ _ => Considerate.orderly
  have haway := isAway_of_run h hc ho
  have hwf := (roundsOk_of_run horder).wf (g.inst c)
  -- in a round that is in progress all ranks have arrived, and none has departed
  have hnot : ∀ st, s.mem (.state (g.inst c)) = st → st ≠ .running ∧ st ≠ .complete := by
    rintro st hst
    have hstage : (barrierOf g s.mem (g.inst c)).stage = st.stage := by rw [← hst]; rfl
    constructor <;> rintro rfl <;> simp only [WF, hstage, RoundState.stage] at hwf <;>
      · have := haway.leaving hwf.1
        rw [hstage] at this
        cases this
  rcases ownedOk_of_run (horder.mono fun _ _ => Orderly.offlineIdle) _ (.inl hown) with hr | hr | hr
  · exact absurd rfl (hnot _ hr).1
  · exact absurd rfl (hnot _ hr).2
  · exact hr

/-- What a closing context has loaded gives it no reason to fail the pair. -/
def FindsNothing (g : Generation) (tr : List Event) (s : State) (c : ℕ) : ClosePc → Prop
  | .state o => InSlot g s c → OutOfRound c tr s → o ≠ (g.inst c).idx
  | .ready o st => InSlot g s c → OutOfRound c tr s → o ≠ (g.inst c).idx ∧
      (st = .collecting ∨ st = .ready →
        ¬BitMask.HasBit (s.mem (.readyMask (g.inst c))) (g.rank c))
  | .session o st rd => InSlot g s c → OutOfRound c tr s → o ≠ (g.inst c).idx ∧
      (st = .collecting ∨ st = .ready → ¬BitMask.HasBit rd (g.rank c))
  | .fail _ (.cas _) => ¬OutOfRound c tr s
  | _ => True

/-- The bit of the rank of a context in no round is not set, if its group is collecting or
ready. -/
theorem not_hasBit_of_isAway (h : IsAway g s c)
    (hst : s.mem (.state (g.inst c)) = .collecting ∨ s.mem (.state (g.inst c)) = .ready) :
    ¬BitMask.HasBit (s.mem (.readyMask (g.inst c))) (g.rank c) := by
  intro hb
  have hl := (h hb).1
  rcases hst with hst | hst <;> simp [barrierOf, hst, RoundState.stage] at hl

/-- The phases of a call that is turned away. -/
theorem phase_of_refused (h : (s.ctx c).call.refused = true) :
    s.phase c = .out ∨ (∃ q, s.phase c = .left q) ∨ ∃ q gr, s.phase c = .granted q gr := by
  rw [State.phase]
  cases hpc : (s.ctx c).call with
  | idle r => exact .inl rfl
  | enter pc =>
    rw [hpc] at h
    cases pc with
    | begin pc => exact .inl rfl
    | done res pc =>
      cases res with
      | ok r => exact .inr (.inr ⟨_, _, rfl⟩)
      | error e => exact .inl rfl
    | _ => cases h
  | leave q gid pc =>
    rw [hpc] at h
    cases pc with
    | begin pc => exact .inl rfl
    | done res pc =>
      cases res with
      | ok r => exact .inr (.inl ⟨_, rfl⟩)
      | error e => exact .inl rfl
    | _ => cases h
  | _ => rw [hpc] at h; cases h

theorem CallTrans.left_of_refused {p p' : Phase} {x' : Locals} {q : ℕ}
    (h : CallTrans g c t m x p e m' x' p')
    (hp : p = .out ∨ (∃ q, p = .left q) ∨ ∃ q gr, p = .granted q gr)
    (hp' : p' = .resetDone q ∨ p' = .left q) : p = .left q := by
  cases h with
  | quiet hm he =>
    rcases hp' with rfl | rfl
    · rcases hp with hp | ⟨q', hp⟩ | ⟨q', gr, hp⟩ <;> cases hp
    · rfl
  | orExit | resetDone | resetState => rcases hp with hp | ⟨q', hp⟩ | ⟨q', gr, hp⟩ <;> cases hp
  | _ => rcases hp' with hp' | hp' <;> cases hp'

section Drained

variable (h : Run g (Considerate g) tr s) (hs : step g s a = some s') {pc : ClosePc}
  (hpc : (s.ctx c).close = some pc) (hd : pc.drained = true)

include h hs hpc hd

omit hd in
/-- While a context is being closed it does not come into its slot, -/
theorem inSlot_while_closing (hc : InSlot g s' c) : InSlot g s c := by
  refine (inSlot_before hs hc).resolve_right fun ⟨hclaim, _⟩ => ?_
  have hopen := ((closingOk_of_run h c).isOpen (by rw [hpc]; nofun)).1
  rw [isOpen_of_claiming hclaim] at hopen
  cases hopen

/-- nor out of a round, -/
theorem outOfRound_while_closing (ho : OutOfRound c (event s a s' :: tr) s') :
    OutOfRound c tr s := by
  by_cases ha : a.isCallOf c = true
  · obtain ⟨b, rfl⟩ := Act.eq_call_of_isCallOf ha
    rcases ho with (hn | ⟨q, hq⟩) | ⟨q, hq⟩
    · exact .inl (.inl (hn.before hs))
    · exact .inr ⟨q, .inr (left_of_step hs hq)⟩
    · have hp := phase_of_refused (refused_of_run h hpc hd)
      exact .inr ⟨q, .inr ((trans_of_step hs).moved.2.left_of_refused hp hq)⟩
  · exact ho.before hs (by simpa using ha)

/-- and its rank does not announce itself. -/
theorem not_hasBit_while_closing (hP : Considerate g s a) (hc : InSlot g s c)
    (hb : ¬BitMask.HasBit (s.mem (.readyMask (g.inst c))) (g.rank c)) :
    ¬BitMask.HasBit (s'.mem (.readyMask (g.inst c))) (g.rank c) := by
  have horder := h.mono fun _ _ => Considerate.orderly
  have hb : rankOf g c ∉ (barrierOf g s.mem (g.inst c)).arrived := hb
  change rankOf g c ∉ (barrierOf g s'.mem (g.inst c)).arrived
  rcases (trans_of_step hs).barrier_step (roundsOk_of_run horder) (support_of_run h) hP.orderly
    (g.inst c) with heq | ⟨act, hstep, hm⟩
  · rwa [heq]
  · refine not_arrived_of_step hb hstep ?_
    by_cases ha : a.isCallOf c = true
    · rintro rfl
      cases hm with
      | call d b hd' hk hact =>
        obtain rfl : d = c := by simpa [Act.isCallOf] using ha
        have hacts := hact.2
        rcases phase_of_refused (refused_of_run h hpc hd) with hp | ⟨q, hp⟩ | ⟨q, gr, hp⟩ <;>
          rw [hp] at hacts <;> cases hacts
    · exact mover_ne_party_of_inSlot horder hc hm (by simpa using ha)

end Drained

/-- A closing context that is in no round has nothing active. -/
theorem activeSeq_of_outOfRound (h : Run g (Considerate g) tr s) {pc : ClosePc}
    (hpc : (s.ctx c).close = some pc) (hd : pc.drained = true) (ho : OutOfRound c tr s) :
    (s.locals c).activeSeq = 0 := by
  have hf := outFacts_of_run h c
  rcases ho with (hn | ⟨q, hq⟩) | ⟨q, hq | hq⟩
  · exact (hf.never hn).2
  · exact hf.left q hq
  · rcases phase_of_refused (refused_of_run h hpc hd) with hp | ⟨q', hp⟩ | ⟨q', gr, hp⟩ <;>
      rw [hq] at hp <;> cases hp
  · exact hf.leaving q hq

/-- While others move, what a closing context has found stays right. -/
theorem FindsNothing.other (h : Run g (Considerate g) tr s) (hs : step g s a = some s')
    (hP : Considerate g s a) {pc : ClosePc} (hpc : (s.ctx c).close = some pc)
    (hf : FindsNothing g tr s c pc) : FindsNothing g (event s a s' :: tr) s' c pc := by
  have hin := fun hc => inSlot_while_closing h hs hpc (c := c) hc
  have hout := fun hd ho => outOfRound_while_closing h hs hpc (c := c) hd ho
  cases pc with
  | state o => exact fun hc ho => hf (hin hc) (hout rfl ho)
  | ready o st =>
    intro hc ho
    obtain ⟨hne, hb⟩ := hf (hin hc) (hout rfl ho)
    exact ⟨hne, fun hst => not_hasBit_while_closing h hs hpc rfl hP (hin hc) (hb hst)⟩
  | session o st rd => exact fun hc ho => hf (hin hc) (hout rfl ho)
  | fail st f =>
    cases f with
    | cas reason => exact fun ho => hf (hout rfl ho)
    | wake w => trivial
  | _ => trivial

/-- Each load finds nothing. -/
theorem FindsNothing.next (h : Run g (Considerate g) tr s) (hs : step g s (.close c) = some s')
    (hP : Considerate g s (.close c)) {pc pc' : ClosePc} (hpc : (s.ctx c).close = some pc)
    {r : Memory × Ctl ClosePc Bool}
    (hr : (psClose g c (s.locals c) pc).exec s.mem s.now false = some r) (hctl : r.2 = .goto pc')
    (hm : s'.mem = r.1) (hf : FindsNothing g tr s c pc) :
    FindsNothing g (event s (.close c) s' :: tr) s' c pc' := by
  have hin := fun hc => inSlot_while_closing h hs hpc (c := c) hc
  have hout := fun hd ho => outOfRound_while_closing h hs hpc (c := c) hd ho
  have hnext := closeNext_of_exec hr
  rw [hctl] at hnext
  cases hnext with
  | owner =>
    intro hc ho heq
    exact hP.patient c rfl hpc (releasing_of_owner h (hin hc) (hout rfl ho) heq)
  | state o =>
    intro hc ho
    refine ⟨hf (hin hc) (hout rfl ho), fun hst => ?_⟩
    cases hr
    rw [hm]
    exact not_hasBit_of_isAway (isAway_of_run h (hin hc) (hout rfl ho)) hst
  | ready o st => exact fun hc ho => hf (hin hc) (hout rfl ho)
  | active hses hwhy =>
    intro ho
    obtain ⟨hne, hb⟩ := hf hses (hout rfl ho)
    rcases hwhy with hact | hown | ⟨hst, hbit⟩
    · exact hact (activeSeq_of_outOfRound h hpc rfl (hout rfl ho))
    · exact hne hown
    · exact hb hst hbit
  | early _ hpc₁ => cases pc' <;> trivial
  | _ => trivial

theorem findsNothing_of_run (h : Run g (Considerate g) tr s) {pc : ClosePc}
    (hpc : (s.ctx c).close = some pc) : FindsNothing g tr s c pc := by
  induction h generalizing pc with
  | start => rw [close_initialState] at hpc; cases hpc
  | @next tr s s' a h hP hs ih =>
    rcases close_cases hs hpc with rfl | ⟨rfl, pc₀, r, hpc₀, hr, hctl, -, hm⟩ | ⟨-, hold⟩
    · trivial
    · exact (ih hpc₀).next h hs hP hpc₀ hr hctl hm
    · exact (ih hold).other h hs hP hold

/-- Only the coordinator's context shuts the pair down. -/
theorem shutdown_of_exec {pc : ClosePc} {r : Memory × Ctl ClosePc Bool}
    (h : (psClose g c x pc).exec m t b = some r) (hr : r.2 = .goto .shutdown) : c = 0 := by
  have hnext := closeNext_of_exec h
  rw [hr] at hnext
  cases hnext with
  | finishPair _ hc => exact hc
  | early _ hpc' => cases hpc'

theorem shutdown_of_run {P : State → Act → Prop} (h : Run g P tr s)
    (hpc : (s.ctx c).close = some .shutdown) : c = 0 := by
  induction h with
  | start => rw [close_initialState] at hpc; cases hpc
  | next h hP hs ih =>
    rcases close_cases hs hpc with hne | ⟨rfl, pc₀, r, -, hr, hctl, -⟩ | ⟨-, hold⟩
    · cases hne
    · exact shutdown_of_exec hr hctl
    · exact ih hold

/-- **A clean close does not fail the pair**, in every considerate run. Closing the coordinator's
context shuts it down. -/
theorem clean_close_keeps_running (h : Run g (Considerate g) tr s)
    (hs : step g s (.close c) = some s') (hc : Clean c tr s)
    (hrun : (s.mem .status).state = .running) :
    s'.mem .status = s.mem .status ∨ c = 0 ∧ (s'.mem .status).state = .shutdown := by
  by_cases hw : written g s (.close c) = some .status
  · obtain ⟨pc, hpc, ht⟩ := Option.bind_eq_some_iff.mp hw
    cases pc with
    | fail st f =>
      rcases f with reason | (_ | _ | _)
      · exact absurd (.inl hc) (findsNothing_of_run h hpc)
      all_goals cases ht
    | shutdown =>
      obtain ⟨pc, r, hpc', hr, hm, -⟩ := closing_of_step hs
      cases hpc.symm.trans hpc'
      cases hr
      refine .inr ⟨shutdown_of_run h hpc, ?_⟩
      rw [hm]
      dsimp only
      rw [Mem.set_self, shutdownStatus, if_pos ((statusOk_of_run h).eq_running hrun)]
      rfl
    | shutdownWake w => rcases w with _ | _ | _ <;> cases ht
    | _ => cases ht
  · exact .inl (frame_of_step hs hw)

/-- B's rank enters a round, completes it, and waits for the coordinator to recycle it. -/
def roundOfB : List Act :=
  openBoth ++ .enterCall 1 :: calls 19 1 ++ ticks 38 ++ calls 16 1 ++ .leaveCall 1 1 1 :: calls 20 1

/-- Only the two contexts of `pairOfOne` are opened, and what `Considerate` asks for besides. -/
def considerateBelow (s : State) : Act → Bool
  | .openCall c => decide (c < 2)
  | .call c _ => decide (s.phase c ≠ .claiming) ||
      !decide (BitMask.HasBit (s.mem (.readyMask (pairOfOne.inst c))) (pairOfOne.rank c))
  | .close c =>
    match (s.ctx c).close with
    | some .storeOffline => s.mem (.state (pairOfOne.inst c)) == .idle
    | some .owner => s.coordPhase != .storeLastOwner (pairOfOne.inst c) &&
        s.coordPhase != .storeOwner (pairOfOne.inst c)
    | _ => true
  | _ => true

theorem considerate_of_below (h : Run pairOfOne (fun s a => considerateBelow s a = true) tr s) :
    Run pairOfOne (Considerate pairOfOne) tr s := by
  refine exec_of_first rfl (n := 2) (by decide) (fun s c => of_decide_eq_true)
    (fun s a habs hp => ⟨?_, ?_, ?_⟩) h
  · cases a with
    | call c b =>
      intro hclaim d hne hcd hlive
      have hreg := hlive.registered
      by_cases hd : 2 ≤ d
      · rw [State.phase, habs d hd] at hreg
        cases hreg
      · by_cases hc : 2 ≤ c
        · rw [State.phase, habs c hc] at hclaim
          cases hclaim
        · exact hne (sampleGeneration_slots _ _ d c (by omega) (by omega) hcd.symm)
    | close c =>
      intro hc
      simpa [considerateBelow, hc] using hp
    | _ => trivial
  · rintro c b rfl hclaim hbit
    simp [considerateBelow, hclaim, hbit] at hp
  · rintro c rfl hc hrel
    simp only [considerateBelow, hc, Bool.and_eq_true, bne_iff_ne] at hp
    exact hrel.elim hp.1 hp.2

theorem clean_of_left (h : ((s.ctx c).call matches .idle (.left _ (.ok _))) = true) :
    Clean c tr s := by
  split at h
  · exact .inr ⟨_, ‹_›⟩
  · cases h

/-- B's rank has left its round, the coordinator has released the pair, and then the context is
closed: it finds no reason to fail the pair. -/
theorem clean_close_keeps_running_roundOfB :
    ∃ tr s s', Run pairOfOne (Considerate pairOfOne) tr s ∧
      step pairOfOne s (.close 1) = some s' ∧ Clean 1 tr s ∧ (s.mem .status).state = .running ∧
      s'.mem .status = s.mem .status := by
  obtain ⟨tr, s, h, htest⟩ := exists_run pairOfOne (fun _ _ => id)
    (roundOfB ++ ticks 27 ++ calls 12 1 ++ .closeCall 1 :: closes 4 1 ++
      [.beat 1, .beat 1, .beat 1] ++ closes 5 1)
    (fun _ s => ((s.ctx 1).call matches .idle (.left _ (.ok _))) &&
      (s.mem .status).state == .running && (step pairOfOne s (.close 1)).isSome)
    (p := considerateBelow) (by decide +kernel)
  simp only [Bool.and_eq_true, beq_iff_eq] at htest
  obtain ⟨⟨hcall, hrun⟩, hstep⟩ := htest
  obtain ⟨s', hs⟩ := Option.isSome_iff_exists.mp hstep
  have hclean : Clean 1 tr s := clean_of_left hcall
  refine ⟨tr, s, s', considerate_of_below h, hs, hclean, hrun, ?_⟩
  exact (clean_close_keeps_running (considerate_of_below h) hs hclean hrun).resolve_right nofun

/-- **A clean close that fails the pair.** The coordinator has stored DRAINING and not yet released
the pair: B's rank leaves its round with success, is closed, and finds its group to be the owner. -/
theorem clean_close_fails :
    ∃ tr s s', Run pairOfOne anyStep tr s ∧ step pairOfOne s (.close 1) = some s' ∧
      Clean 1 tr s ∧ (s.mem .status).state = .running ∧ (s'.mem .status).state = .failed := by
  obtain ⟨tr, s, h, htest⟩ := exists_run pairOfOne anyStep_of_allowed
    (roundOfB ++ ticks 24 ++ calls 12 1 ++ .closeCall 1 :: closes 4 1 ++
      [.beat 1, .beat 1, .beat 1] ++ closes 6 1)
    (fun _ s => ((s.ctx 1).call matches .idle (.left _ (.ok _))) &&
      (s.mem .status).state == .running &&
      (step pairOfOne s (.close 1)).any fun s' => (s'.mem .status).state == .failed)
    (by decide +kernel)
  simp only [Bool.and_eq_true, beq_iff_eq, Option.any_eq_true] at htest
  obtain ⟨⟨hcall, hrun⟩, s', hs, hfail⟩ := htest
  exact ⟨tr, s, s', h, hs, clean_of_left hcall, hrun, hfail⟩

end YellowZone.PairSched
