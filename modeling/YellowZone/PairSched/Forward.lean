import YellowZone.PairSched.Routines

/-!
# Entering and leaving a forward round

`ps_enter_forward` and `ps_leave_forward`, one program point per atomic access, in source order.

Each has the non-atomic fields of its `ps_context` at hand as `Locals`; a command answers with
the new `Locals` and where the call goes on. Assignments to those fields, and tests on them, take
place in the step of the access before them.

The waits (`futex_wait_word`) return at a wake-up, at their timeout or spuriously; they are
program points of their own, and a step from one of them goes back to the top of its loop.

The tests for null arguments are left out: the only callers pass a context and two result words.
-/

namespace YellowZone.PairSched

open Machine

/-- The plain fields of a `ps_context` that calls read and write. -/
structure Locals where
  nextSeq : ℕ
  activeSeq : ℕ
  activeGrantId : ℕ
  deriving DecidableEq, Repr

/-- What `ps_enter_forward` hands back: an error (`-1`), or `0` with sequence and grant. -/
abbrev EnterResult : Type := Except CallError (ℕ × ℕ)

/-- What `ps_leave_forward` hands back. -/
abbrev LeaveResult : Type := Except CallError Unit

/-! ## `ps_enter_forward` -/

/-- Program points of `ps_enter_forward`. `q` is the local `sequence`, `w` the loaded wake
counter, `st`, `gs`, `gr` the loaded round state, group sequence and grant. -/
inductive EnterPc where
  | begin (b : BeginPc)
  | checkRunning (q : ℕ)
  -- the loop that waits for the group to be idle, or to collect this round
  | idleWake (q : ℕ)
  | idleState (q w : ℕ)
  | idleWait (q w : ℕ)
  | casInit (q : ℕ)
  | initSeq (q : ℕ)
  | initGrant (q : ℕ)
  | initReady (q : ℕ)
  | initComplete (q : ℕ)
  | initExit (q : ℕ)
  | initClock (q : ℕ)
  | initPublish (q t : ℕ)
  | initState (q : ℕ)
  | initWake (q : ℕ)
  | joinSeq (q : ℕ) (st : RoundState)
  -- announcing the rank
  | setLast (q : ℕ)
  | orReady (q : ℕ)
  | casReady (q : ℕ)
  | readyWakeCoordinator (q : ℕ)
  | readyWakeGroup (q : ℕ)
  -- the loop that waits for the grant
  | grantWake (q : ℕ)
  | grantStopping (q w : ℕ)
  | grantStatus (q w : ℕ)
  | grantHeartbeat (q w : ℕ)
  | grantClock (q w hb : ℕ)
  | grantState (q w : ℕ)
  | grantSeq (q w : ℕ) (st : RoundState)
  | grantGrant (q w : ℕ) (st : RoundState) (gs : ℕ)
  | grantOwner (q w : ℕ) (st : RoundState) (gs gr : ℕ)
  | grantWait (q w : ℕ)
  | validate (q gr : ℕ) (v : LocalPc)
  -- common exits
  | fail (e : CallError) (f : FailPc)
  | done (r : EnterResult) (e : EndPc)
  deriving Repr

/-- `ps_enter_forward` for context `c`. -/
def psEnterForward (g : Generation) (c : ℕ) (x : Locals) :
    EnterPc → Cmd Val (Locals × Ctl EnterPc EnterResult)
  | .begin b => (beginCall c b).map <| Ctl.elim (fun b' => (x, .goto (.begin b'))) fun ok =>
      if ok then
        let q := x.nextSeq + 1
        let x' := { x with nextSeq := q }
        if x.activeSeq ≠ 0 then (x', .goto (.fail .alreadyOwns (.cas failFencing)))
        else (x', .goto (.checkRunning q))
      else (x, .ret (.error .closing))
  | .checkRunning q => .load .status fun st =>
      if st.state ≠ .running then (x, .goto (.done (.error (.unavailable st)) .uncount))
      else (x, .goto (.idleWake q))
  | .idleWake q => .load (.groupWake (g.inst c)) fun w => (x, .goto (.idleState q w))
  | .idleState q w => .load (.state (g.inst c)) fun st =>
      if st = .idle then (x, .goto (.casInit q))
      else if st = .initializing ∨ st = .draining then (x, .goto (.idleWait q w))
      else (x, .goto (.joinSeq q st))
  | .idleWait q _ => .skip (x, .goto (.idleWake q))
  | .casInit q => .rmw (.state (g.inst c))
      (fun st => if st = .idle then .initializing else st)
      fun old => if old = .idle then (x, .goto (.initSeq q)) else (x, .goto (.idleWake q))
  | .initSeq q => .store (.forwardSeq (g.inst c)) q (x, .goto (.initGrant q))
  | .initGrant q => .store (.grantId (g.inst c)) (0 : ℕ) (x, .goto (.initReady q))
  | .initReady q => .store (.readyMask (g.inst c)) 0#64 (x, .goto (.initComplete q))
  | .initComplete q => .store (.completeMask (g.inst c)) 0#64 (x, .goto (.initExit q))
  | .initExit q => .store (.exitMask (g.inst c)) 0#64 (x, .goto (.initClock q))
  | .initClock q => .clock fun t => (x, .goto (.initPublish q t))
  | .initPublish q t => .store (.publishNs (g.inst c)) t (x, .goto (.initState q))
  | .initState q => .store (.state (g.inst c)) RoundState.collecting (x, .goto (.initWake q))
  | .initWake q => signalGroup (g.inst c) (x, .goto (.setLast q))
  | .joinSeq q st => .load (.forwardSeq (g.inst c)) fun gs =>
      if st = .collecting ∧ gs = q then (x, .goto (.setLast q))
      else (x, .goto (.fail (.crossRound q gs st) (.cas failFencing)))
  | .setLast q => .store (.lastSeq (g.inst c) (g.rank c)) q (x, .goto (.orReady q))
  | .orReady q => .rmw (.readyMask (g.inst c)) (· ||| g.bitOf c) fun previous =>
      if BitMask.HasBit previous (g.rank c) then
        (x, .goto (.fail (.duplicateReady (g.rank c)) (.cas failDuplicateRank)))
      else if previous ||| g.bitOf c = g.expectedMask then (x, .goto (.casReady q))
      else (x, .goto (.grantWake q))
  | .casReady q => .rmw (.state (g.inst c))
      (fun st => if st = .collecting then .ready else st)
      fun old => if old = .collecting then (x, .goto (.readyWakeCoordinator q))
        else (x, .goto (.fail .publishReady (.cas failFencing)))
  | .readyWakeCoordinator q => signalCoordinator (x, .goto (.readyWakeGroup q))
  | .readyWakeGroup q => signalGroup (g.inst c) (x, .goto (.grantWake q))
  | .grantWake q => .load (.groupWake (g.inst c)) fun w => (x, .goto (.grantStopping q w))
  | .grantStopping q w => .load (.stopping c) fun b =>
      if b then (x, .goto (.done (.error .closing) .uncount)) else (x, .goto (.grantStatus q w))
  | .grantStatus q w => .load .status fun st =>
      if st.state ≠ .running then (x, .goto (.done (.error (.unavailable st)) .uncount))
      else (x, .goto (.grantHeartbeat q w))
  | .grantHeartbeat q w => .load .primaryHeartbeatNs fun hb => (x, .goto (.grantClock q w hb))
  | .grantClock q w hb => .clock fun now =>
      if heartbeatExpired hb now g.peerTimeoutMs then
        (x, .goto (.fail .primaryExpired (.cas failPrimaryDead)))
      else (x, .goto (.grantState q w))
  | .grantState q w => .load (.state (g.inst c)) fun st => (x, .goto (.grantSeq q w st))
  | .grantSeq q w st => .load (.forwardSeq (g.inst c)) fun gs => (x, .goto (.grantGrant q w st gs))
  | .grantGrant q w st gs => .load (.grantId (g.inst c)) fun gr =>
      (x, .goto (.grantOwner q w st gs gr))
  | .grantOwner q w st gs gr => .load .owner fun owner =>
      if st = .running ∧ owner = (g.inst c).idx ∧ gs = q ∧ gr ≠ 0 then
        (x, .goto (.validate q gr .session))
      else if gs ≠ q ∨ (st ≠ .collecting ∧ st ≠ .ready ∧ st ≠ .running) then
        (x, .goto (.fail .roundChangedWaiting (.cas failFencing)))
      else (x, .goto (.grantWait q w))
  | .grantWait q _ => .skip (x, .goto (.grantWake q))
  | .validate q gr v => (validateLocalWorker g c q v).map <|
      Ctl.elim (fun v' => (x, .goto (.validate q gr v'))) fun err =>
        match err with
        | some e => (x, .goto (.fail e (.cas failFencing)))
        | none =>
          ({ x with activeSeq := q, activeGrantId := gr }, .goto (.done (.ok (q, gr)) .uncount))
  | .fail e f => (failPair f).map <| Ctl.elim (fun f' => (x, .goto (.fail e f'))) fun _ =>
      (x, .goto (.done (.error e) .uncount))
  | .done r e => (endCall c e).map <| Ctl.elim (fun e' => (x, .goto (.done r e'))) fun _ =>
      (x, .ret r)

/-! ## `ps_leave_forward` -/

/-- Program points of `ps_leave_forward`. `dl` is the loaded deadline, `w` the loaded wake
counter, `st` the loaded round state. -/
inductive LeavePc where
  | begin (b : BeginPc)
  | deadline
  | checkRunning (dl : ℕ)
  | clock (dl : ℕ)
  -- the fencing condition, one load after the other
  | owner
  | seq
  | grant
  | state
  | validate (v : LocalPc)
  -- announcing completion
  | orComplete
  | casComplete
  | completeWakeCoordinator
  | completeWakeGroup
  -- the loop that waits for the round to be recycled
  | drainWake
  | drainStopping (w : ℕ)
  | drainStatus (w : ℕ)
  | drainState (w : ℕ)
  | drainSeq (w : ℕ) (st : RoundState)
  | drainWait (w : ℕ)
  | orExit
  -- the last rank out resets the group
  | resetReady
  | resetComplete
  | resetGrant
  | resetPublish
  | resetState
  | resetWakeGroup
  | resetWakeCoordinator
  -- common exits
  | fail (e : CallError) (f : FailPc)
  | done (r : LeaveResult) (e : EndPc)
  deriving Repr

/-- The first two tests of the fencing condition read only the context. -/
def leaveFence (x : Locals) (q gid : ℕ) : LeavePc :=
  if x.activeSeq ≠ q ∨ x.activeGrantId ≠ gid then .fail .leaveFencing (.cas failFencing)
  else .owner

/-- `ps_leave_forward` for context `c`, called on sequence `q` and grant `gid`. -/
def psLeaveForward (g : Generation) (c : ℕ) (x : Locals) (q gid : ℕ) :
    LeavePc → Cmd Val (Locals × Ctl LeavePc LeaveResult)
  | .begin b => (beginCall c b).map <| Ctl.elim (fun b' => (x, .goto (.begin b'))) fun ok =>
      if ok then (x, .goto .deadline) else (x, .ret (.error .closing))
  | .deadline => .load .deadlineNs fun dl => (x, .goto (.checkRunning dl))
  | .checkRunning dl => .load .status fun st =>
      if st.state ≠ .running then (x, .goto (.done (.error (.unavailable st)) .uncount))
      else if dl ≠ 0 then (x, .goto (.clock dl))
      else (x, .goto (leaveFence x q gid))
  | .clock dl => .clock fun now =>
      if dl < now then (x, .goto (.fail .deadlineExpired (.cas failForwardTimeout)))
      else (x, .goto (leaveFence x q gid))
  | .owner => .load .owner fun owner =>
      if owner ≠ (g.inst c).idx then (x, .goto (.fail .leaveFencing (.cas failFencing)))
      else (x, .goto .seq)
  | .seq => .load (.forwardSeq (g.inst c)) fun gs =>
      if gs ≠ q then (x, .goto (.fail .leaveFencing (.cas failFencing))) else (x, .goto .grant)
  | .grant => .load (.grantId (g.inst c)) fun gr =>
      if gr ≠ gid then (x, .goto (.fail .leaveFencing (.cas failFencing))) else (x, .goto .state)
  | .state => .load (.state (g.inst c)) fun st =>
      if st ≠ .running then (x, .goto (.fail .leaveFencing (.cas failFencing)))
      else (x, .goto (.validate .session))
  | .validate v => (validateLocalWorker g c q v).map <|
      Ctl.elim (fun v' => (x, .goto (.validate v'))) fun err =>
        match err with
        | some e => (x, .goto (.fail e (.cas failFencing)))
        | none => (x, .goto .orComplete)
  | .orComplete => .rmw (.completeMask (g.inst c)) (· ||| g.bitOf c) fun previous =>
      if BitMask.HasBit previous (g.rank c) then
        (x, .goto (.fail (.duplicateComplete (g.rank c)) (.cas failDuplicateRank)))
      else if previous ||| g.bitOf c = g.expectedMask then (x, .goto .casComplete)
      else (x, .goto .drainWake)
  | .casComplete => .rmw (.state (g.inst c))
      (fun st => if st = .running then .complete else st)
      fun old => if old = .running then (x, .goto .completeWakeCoordinator)
        else (x, .goto (.fail .publishComplete (.cas failFencing)))
  | .completeWakeCoordinator => signalCoordinator (x, .goto .completeWakeGroup)
  | .completeWakeGroup => signalGroup (g.inst c) (x, .goto .drainWake)
  | .drainWake => .load (.groupWake (g.inst c)) fun w => (x, .goto (.drainStopping w))
  | .drainStopping w => .load (.stopping c) fun b =>
      if b then (x, .goto (.done (.error .closing) .uncount)) else (x, .goto (.drainStatus w))
  | .drainStatus w => .load .status fun st =>
      if st.state ≠ .running then (x, .goto (.done (.error (.unavailable st)) .uncount))
      else (x, .goto (.drainState w))
  | .drainState w => .load (.state (g.inst c)) fun st => (x, .goto (.drainSeq w st))
  | .drainSeq w st => .load (.forwardSeq (g.inst c)) fun gs =>
      if st = .draining ∧ gs = q then (x, .goto .orExit)
      else if gs ≠ q ∨ (st ≠ .running ∧ st ≠ .complete ∧ st ≠ .draining) then
        (x, .goto (.fail .roundChangedCompleting (.cas failFencing)))
      else (x, .goto (.drainWait w))
  | .drainWait _ => .skip (x, .goto .drainWake)
  | .orExit => .rmw (.exitMask (g.inst c)) (· ||| g.bitOf c) fun previous =>
      if previous ||| g.bitOf c = g.expectedMask then (x, .goto .resetReady)
      else ({ x with activeSeq := 0, activeGrantId := 0 }, .goto (.done (.ok ()) .uncount))
  | .resetReady => .store (.readyMask (g.inst c)) 0#64 (x, .goto .resetComplete)
  | .resetComplete => .store (.completeMask (g.inst c)) 0#64 (x, .goto .resetGrant)
  | .resetGrant => .store (.grantId (g.inst c)) (0 : ℕ) (x, .goto .resetPublish)
  | .resetPublish => .store (.publishNs (g.inst c)) (0 : ℕ) (x, .goto .resetState)
  | .resetState => .store (.state (g.inst c)) RoundState.idle (x, .goto .resetWakeGroup)
  | .resetWakeGroup => signalGroup (g.inst c) (x, .goto .resetWakeCoordinator)
  | .resetWakeCoordinator =>
      signalCoordinator
        ({ x with activeSeq := 0, activeGrantId := 0 }, .goto (.done (.ok ()) .uncount))
  | .fail e f => (failPair f).map <| Ctl.elim (fun f' => (x, .goto (.fail e f'))) fun _ =>
      (x, .goto (.done (.error e) .uncount))
  | .done r e => (endCall c e).map <| Ctl.elim (fun e' => (x, .goto (.done r e'))) fun _ =>
      (x, .ret r)

end YellowZone.PairSched
