import YellowZone.PairSched.Layout

/-!
# The helper routines of `pair_sched.c`

The static functions that several entry points share, each as a function from its own program
points to commands: `signal_word`, `wake_everyone`, `fail_pair`, `begin_call`, `end_call`,
`validate_local_worker`, `worker_alive` and `group_workers_alive`.

One program point is one atomic access. A `futex_wake` touches no word and is not a step; the
counter increment before it is. Messages for the caller are kept as `CallError`.
-/

namespace YellowZone.PairSched

open Machine

/-! ## Error messages -/

/-- The errors of `ps_enter_forward` and `ps_leave_forward`. -/
inductive CallError where
  | closing
  | unavailable (st : Status)
  | alreadyOwns
  | crossRound (workerSeq groupSeq : ℕ) (state : RoundState)
  | duplicateReady (rank : ℕ)
  | publishReady
  | primaryExpired
  | staleSession
  | sequenceFencing (expected actual : ℕ)
  | roundChangedWaiting
  | deadlineExpired
  | leaveFencing
  | duplicateComplete (rank : ℕ)
  | publishComplete
  | roundChangedCompleting
  deriving DecidableEq, Repr

/-! ## Waking and failing -/

/-- `signal_word` on the coordinator's futex word. -/
def signalCoordinator {α : Type} (k : α) : Cmd Val α := .rmw .coordinatorWake (· + 1) fun _ => k

/-- `signal_word` on a group's futex word. -/
def signalGroup {α : Type} (i : Inst) (k : α) : Cmd Val α := .rmw (.groupWake i) (· + 1) fun _ => k

/-- `signal_word` on a context's futex word. -/
def signalCall {α : Type} (c : ℕ) (k : α) : Cmd Val α := .rmw (.callWake c) (· + 1) fun _ => k

/-- Program points of `wake_everyone`. -/
inductive WakePc where
  | coordinator
  | group (i : Inst)
  deriving DecidableEq, Repr

/-- `wake_everyone`. -/
def wakeEveryone : WakePc → Cmd Val (Ctl WakePc Unit)
  | .coordinator => signalCoordinator (.goto (.group .A))
  | .group .A => signalGroup .A (.goto (.group .B))
  | .group .B => signalGroup .B (.ret ())

/-- Program points of `fail_pair`. -/
inductive FailPc where
  | cas (reason : Reason)
  | wake (w : WakePc)
  deriving DecidableEq, Repr

/-- What `fail_pair` makes of the status word: only RUNNING is replaced. -/
def failStatus (reason : Reason) (st : Status) : Status :=
  if st = makeStatus .running 0 then makeStatus .failed (effectiveReason reason) else st

/-- `fail_pair`. -/
def failPair : FailPc → Cmd Val (Ctl FailPc Unit)
  | .cas reason => .rmw .status (failStatus reason) fun _ => .goto (.wake .coordinator)
  | .wake w => (wakeEveryone w).map (Ctl.elim (fun w' => .goto (.wake w')) .ret)

/-! ## Bracketing a call -/

/-- Program points of `begin_call`. -/
inductive BeginPc where
  | stopping
  | count
  | recheck
  | uncount
  | wake
  deriving DecidableEq, Repr

/-- `begin_call`: true when the call may proceed. -/
def beginCall (c : ℕ) : BeginPc → Cmd Val (Ctl BeginPc Bool)
  | .stopping => .load (.stopping c) fun b => if b then .ret false else .goto .count
  | .count => .rmw (.activeCalls c) (· + 1) fun _ => .goto .recheck
  | .recheck => .load (.stopping c) fun b => if b then .goto .uncount else .ret true
  | .uncount => .rmw (.activeCalls c) (· - 1) fun _ => .goto .wake
  | .wake => signalCall c (.ret false)

/-- Program points of `end_call`. -/
inductive EndPc where
  | uncount
  | wake
  deriving DecidableEq, Repr

/-- `end_call`. -/
def endCall (c : ℕ) : EndPc → Cmd Val (Ctl EndPc Unit)
  | .uncount => .rmw (.activeCalls c) (· - 1) fun _ => .goto .wake
  | .wake => signalCall c (.ret ())

/-! ## Validating a worker -/

/-- Program points of `validate_local_worker`. -/
inductive LocalPc where
  | session
  | pid
  | lastSeq
  deriving DecidableEq, Repr

/-- `validate_local_worker`: the error, if there is one. The two halves of the first condition
are separate loads, and the second is not made when the first fails. -/
def validateLocalWorker (g : Generation) (c seq : ℕ) :
    LocalPc → Cmd Val (Ctl LocalPc (Option CallError))
  | .session => .load (.session (g.inst c) (g.rank c)) fun session =>
      if session ≠ g.session c then .ret (some .staleSession) else .goto .pid
  | .pid => .load (.pid (g.inst c) (g.rank c)) fun pid =>
      if pid ≠ g.pid c then .ret (some .staleSession) else .goto .lastSeq
  | .lastSeq => .load (.lastSeq (g.inst c) (g.rank c)) fun last =>
      if last ≠ seq then .ret (some (.sequenceFencing seq last)) else .ret none

/-! ## Liveness of workers -/

/-- The verdict of `worker_alive` on the three words it loads. -/
def workerAlive (pid session heartbeat now timeoutMs : ℕ) : Bool :=
  decide (0 < pid) && decide (session ≠ 0) && !heartbeatExpired heartbeat now timeoutMs

/-- Program points of `group_workers_alive`: the loop head for a rank, and the loads of
`worker_alive` after the first. -/
inductive AlivePc where
  | rank (r : ℕ)
  | session (r pid : ℕ)
  | heartbeat (r pid session : ℕ)
  deriving DecidableEq, Repr

/-- `group_workers_alive`, over the ranks of instance `i` in `mask`. Passing over a rank that is
not in the mask, and leaving the loop, access no word. -/
def groupWorkersAlive (g : Generation) (i : Inst) (mask : BitVec 64) (now : ℕ) :
    AlivePc → Cmd Val (Ctl AlivePc Bool)
  | .rank r =>
    if r < g.workerCount then
      if BitMask.HasBit mask r then .load (.pid i r) fun pid => .goto (.session r pid)
      else .skip (.goto (.rank (r + 1)))
    else .skip (.ret true)
  | .session r pid => .load (.session i r) fun session => .goto (.heartbeat r pid session)
  | .heartbeat r pid session => .load (.heartbeatNs i r) fun heartbeat =>
      if workerAlive pid session heartbeat now g.peerTimeoutMs then .goto (.rank (r + 1))
      else .ret false

end YellowZone.PairSched
