import YellowZone.PairSched.Forward

/-!
# Opening, closing and heartbeats

`ps_open` from the point where the file is mapped and its header agrees, with `register_worker`
inlined at its only call; `ps_close`; and the heartbeat thread.

Context `0` is the one opened with `create`; it skips the test that a coordinator is alive and
starts the coordinator thread. `pthread_create` may fail, which the environment decides; the
undo path behind it is part of the model. `pthread_join` waits for the word that the joined
thread sets when it ends.
-/

namespace YellowZone.PairSched

open Machine

/-! ## `ps_open` and `register_worker` -/

/-- The errors of `ps_open` after the header has been validated. -/
inductive OpenError where
  | primaryNotAlive
  | alreadyActive (rank : ℕ) (i : Inst)
  | heartbeatThread
  | coordinatorThread
  deriving DecidableEq, Repr

/-- What `ps_open` hands back: an error (`NULL`), or a context. -/
abbrev OpenResult : Type := Except OpenError Unit

/-- Program points of `ps_open`; those of `register_worker` start with `reg`. -/
inductive OpenPc where
  | primary
  | status (hb : ℕ)
  | clock (hb : ℕ)
  | regClock
  | regOldSession (now : ℕ)
  | regOldHeartbeat (now session : ℕ)
  | regPid (now : ℕ)
  | regLastSeq (now : ℕ)
  | regHeartbeat (now : ℕ)
  | regSession
  | regOnline
  | regState
  | regIdle
  | regWake
  | loadSeq
  | startHeartbeat
  | heartbeatStarted
  | startCoordinator
  | coordinatorStarted
  | undoStopping (e : OpenError)
  | undoJoin (e : OpenError)
  | undoOnline (e : OpenError)
  deriving Repr

/-- `ps_open` for context `c`. -/
def psOpen (g : Generation) (c : ℕ) (x : Locals) :
    OpenPc → Cmd Val (Locals × Ctl OpenPc OpenResult)
  | .primary => .load .primaryHeartbeatNs fun hb =>
      if c = 0 then (x, .goto .regClock) else (x, .goto (.status hb))
  | .status hb => .load .status fun st =>
      if st.state ≠ .running then (x, .ret (.error .primaryNotAlive)) else (x, .goto (.clock hb))
  | .clock hb => .clock fun now =>
      if heartbeatExpired hb now g.peerTimeoutMs then (x, .ret (.error .primaryNotAlive))
      else (x, .goto .regClock)
  | .regClock => .clock fun now => (x, .goto (.regOldSession now))
  | .regOldSession now => .load (.session (g.inst c) (g.rank c)) fun session =>
      (x, .goto (.regOldHeartbeat now session))
  | .regOldHeartbeat now session => .load (.heartbeatNs (g.inst c) (g.rank c)) fun hb =>
      if session ≠ 0 ∧ heartbeatExpired hb now g.peerTimeoutMs = false then
        (x, .ret (.error (.alreadyActive (g.rank c) (g.inst c))))
      else (x, .goto (.regPid now))
  | .regPid now => .store (.pid (g.inst c) (g.rank c)) (g.pid c) (x, .goto (.regLastSeq now))
  | .regLastSeq now =>
      .store (.lastSeq (g.inst c) (g.rank c)) (0 : ℕ) (x, .goto (.regHeartbeat now))
  | .regHeartbeat now => .store (.heartbeatNs (g.inst c) (g.rank c)) now (x, .goto .regSession)
  | .regSession => .store (.session (g.inst c) (g.rank c)) (g.session c) (x, .goto .regOnline)
  | .regOnline => .rmw (.onlineMask (g.inst c)) (· ||| g.bitOf c) fun _ => (x, .goto .regState)
  | .regState => .load (.state (g.inst c)) fun st =>
      if st = .offline then (x, .goto .regIdle) else (x, .goto .regWake)
  | .regIdle => .rmw (.state (g.inst c)) (fun st => if st = .offline then .idle else st)
      fun _ => (x, .goto .regWake)
  | .regWake => signalCoordinator (x, .goto .loadSeq)
  | .loadSeq => .load (.forwardSeq (g.inst c)) fun gs =>
      ({ x with nextSeq := gs }, .goto .startHeartbeat)
  | .startHeartbeat => .ask fun b =>
      if b then (x, .goto .heartbeatStarted) else (x, .goto (.undoStopping .heartbeatThread))
  | .heartbeatStarted => .store (.heartbeatStarted c) true <|
      if c = 0 then (x, .goto .startCoordinator) else (x, .ret (.ok ()))
  | .startCoordinator => .ask fun b =>
      if b then (x, .goto .coordinatorStarted) else (x, .goto (.undoStopping .coordinatorThread))
  | .coordinatorStarted => .store .coordinatorStarted true (x, .ret (.ok ()))
  | .undoStopping e => .store (.stopping c) true <|
      if e = .heartbeatThread then (x, .goto (.undoOnline e)) else (x, .goto (.undoJoin e))
  | .undoJoin e => .await (.heartbeatDone c) id (x, .goto (.undoOnline e))
  | .undoOnline e => .rmw (.onlineMask (g.inst c)) (· &&& ~~~g.bitOf c) fun _ =>
      (x, .ret (.error e))

/-! ## The heartbeat thread -/

/-- Program points of `heartbeat_main`. -/
inductive HeartbeatPc where
  | start
  | stopping
  | clock
  | store (t : ℕ)
  | sleep
  | finish
  | done
  deriving Repr

/-- `heartbeat_main`. A thread that has not been started waits; one that is done takes no
step. -/
def heartbeatMain (g : Generation) (c : ℕ) : HeartbeatPc → Cmd Val HeartbeatPc
  | .start => .await (.heartbeatStarted c) id .stopping
  | .stopping => .load (.stopping c) fun b => if b then .finish else .clock
  | .clock => .clock fun t => .store t
  | .store t => .store (.heartbeatNs (g.inst c) (g.rank c)) t .sleep
  | .sleep => .skip .stopping
  | .finish => .store (.heartbeatDone c) true .done
  | .done => .await (.heartbeatDone c) (fun _ => false) .done

/-! ## `ps_close` -/

/-- Program points of `ps_close`. `o`, `st`, `rd` are the loaded owner, round state and ready
mask. -/
inductive ClosePc where
  | exchange
  | wakeGroup
  | wakeCoordinator
  | coordinatorStarted
  | joinCoordinator
  | heartbeatStarted
  | joinHeartbeat
  | calls
  | callsWake
  | callsWait (w : ℕ)
  | owner
  | state (o : ℤ)
  | ready (o : ℤ) (st : RoundState)
  | session (o : ℤ) (st : RoundState) (rd : BitVec 64)
  | fail (st : RoundState) (f : FailPc)
  | clearOnline (st : RoundState)
  | clearHeartbeat (st : RoundState)
  | clearPid (st : RoundState)
  | clearSession (st : RoundState)
  | online (st : RoundState)
  | storeOffline
  | shutdown
  | shutdownWake (w : WakePc)
  deriving Repr

/-- The end of `ps_close`: the coordinator shuts the pair down, others are finished. The result
says whether the context has been released. -/
def closeFinish (c : ℕ) : Ctl ClosePc Bool := if c = 0 then .goto .shutdown else .ret true

/-- What the closing coordinator makes of the status word. -/
def shutdownStatus (st : Status) : Status :=
  if st = makeStatus .running 0 then makeStatus .shutdown 0 else st

/-- `ps_close` for context `c`. The round state that decides about OFFLINE at the end is the one
loaded before the slot is cleared. -/
def psClose (g : Generation) (c : ℕ) (x : Locals) : ClosePc → Cmd Val (Ctl ClosePc Bool)
  | .exchange => .rmw (.stopping c) (fun _ => true) fun already =>
      if already then .ret false else .goto .wakeGroup
  | .wakeGroup => signalGroup (g.inst c) (.goto .wakeCoordinator)
  | .wakeCoordinator => signalCoordinator <|
      if c = 0 then .goto .coordinatorStarted else .goto .heartbeatStarted
  | .coordinatorStarted => .load .coordinatorStarted fun b =>
      if b then .goto .joinCoordinator else .goto .heartbeatStarted
  | .joinCoordinator => .await .coordinatorDone id (.goto .heartbeatStarted)
  | .heartbeatStarted => .load (.heartbeatStarted c) fun b =>
      if b then .goto .joinHeartbeat else .goto .calls
  | .joinHeartbeat => .await (.heartbeatDone c) id (.goto .calls)
  | .calls => .load (.activeCalls c) fun n => if n ≠ 0 then .goto .callsWake else .goto .owner
  | .callsWake => .load (.callWake c) fun w => .goto (.callsWait w)
  | .callsWait _ => .skip (.goto .calls)
  | .owner => .load .owner fun o => .goto (.state o)
  | .state o => .load (.state (g.inst c)) fun st => .goto (.ready o st)
  | .ready o st => .load (.readyMask (g.inst c)) fun rd => .goto (.session o st rd)
  | .session o st rd => .load (.session (g.inst c) (g.rank c)) fun session =>
      if session = g.session c then
        if x.activeSeq ≠ 0 ∨ o = (g.inst c).idx ∨
            ((st = .collecting ∨ st = .ready) ∧ BitMask.HasBit rd (g.rank c)) then
          .goto (.fail st (.cas failCloseActive))
        else .goto (.clearOnline st)
      else closeFinish c
  | .fail st f => (failPair f).map <|
      Ctl.elim (fun f' => .goto (.fail st f')) fun _ => .goto (.clearOnline st)
  | .clearOnline st => .rmw (.onlineMask (g.inst c)) (· &&& ~~~g.bitOf c) fun _ =>
      .goto (.clearHeartbeat st)
  | .clearHeartbeat st =>
      .store (.heartbeatNs (g.inst c) (g.rank c)) (0 : ℕ) (.goto (.clearPid st))
  | .clearPid st => .store (.pid (g.inst c) (g.rank c)) (0 : ℕ) (.goto (.clearSession st))
  | .clearSession st => .store (.session (g.inst c) (g.rank c)) (0 : ℕ) (.goto (.online st))
  | .online st => .load (.onlineMask (g.inst c)) fun online =>
      if online = 0#64 ∧ st = .idle then .goto .storeOffline else closeFinish c
  | .storeOffline => .store (.state (g.inst c)) RoundState.offline (closeFinish c)
  | .shutdown => .rmw .status shutdownStatus fun _ => .goto (.shutdownWake .coordinator)
  | .shutdownWake w => (wakeEveryone w).map <|
      Ctl.elim (fun w' => .goto (.shutdownWake w')) fun _ => .ret true

end YellowZone.PairSched
