import YellowZone.PairSched.Routines

/-!
# The coordinator thread

`validate_shared`, `recycle_complete`, `dispatch_next`, `coordinator_tick` and
`coordinator_main`, the code that only the creator's process runs. There is one such thread per
generation, and it is the only writer of `owner`, `last_owner`, `deadline_ns` and
`next_grant_id`.

`now` is read once per tick; everything the tick decides afterwards is decided against that
value, however late the decision is made.
-/

namespace YellowZone.PairSched

open Machine

/-! ## `validate_shared` -/

/-- Program points of `validate_shared`. `ok` collects the verdict over the words of a group that
have been loaded. -/
inductive ValidatePc where
  | owner
  | state (i : Inst)
  | ready (i : Inst) (ok : Bool)
  | complete (i : Inst) (ok : Bool)
  | exit (i : Inst) (ok : Bool)
  | online (i : Inst) (ok : Bool)
  | fail (f : FailPc)
  deriving Repr

/-- No bit outside the expected ranks. -/
def validMask (g : Generation) (mask : BitVec 64) : Bool := mask &&& ~~~g.expectedMask == 0#64

/-- `validate_shared`. -/
def validateShared (g : Generation) : ValidatePc → Cmd Val (Ctl ValidatePc Bool)
  | .owner => .load .owner fun owner =>
      if owner ≠ noOwner ∧ (owner < 0 ∨ 2 ≤ owner) then .goto (.fail (.cas failCorruptOwner))
      else .goto (.state .A)
  | .state i => .load (.state i) fun st => .goto (.ready i (validRoundState st))
  | .ready i ok => .load (.readyMask i) fun mask => .goto (.complete i (ok && validMask g mask))
  | .complete i ok => .load (.completeMask i) fun mask => .goto (.exit i (ok && validMask g mask))
  | .exit i ok => .load (.exitMask i) fun mask => .goto (.online i (ok && validMask g mask))
  | .online i ok => .load (.onlineMask i) fun mask =>
      if ok && validMask g mask then
        match i with
        | .A => .goto (.state .B)
        | .B => .ret true
      else .goto (.fail (.cas failCorruptState))
  | .fail f => (failPair f).map <| Ctl.elim (fun f' => .goto (.fail f')) fun _ => .ret false

/-! ## `recycle_complete` -/

/-- Program points of `recycle_complete`. -/
inductive RecyclePc where
  | state
  | complete (st : RoundState)
  | deadline (st : RoundState) (complete : BitVec 64)
  | alive (a : AlivePc)
  | fail (f : FailPc)
  | storeExit
  | storeState
  | storeLastOwner
  | storeDeadline
  | storeOwner
  | wakeGroup
  | wakeCoordinator
  deriving Repr

/-- `recycle_complete` for the round of instance `o`. -/
def recycleComplete (g : Generation) (o : Inst) (now : ℕ) :
    RecyclePc → Cmd Val (Ctl RecyclePc Unit)
  | .state => .load (.state o) fun st => .goto (.complete st)
  | .complete st => .load (.completeMask o) fun complete => .goto (.deadline st complete)
  | .deadline st complete => .load .deadlineNs fun deadline =>
      if deadline ≠ 0 ∧ deadline < now then .goto (.fail (.cas failForwardTimeout))
      else if st ≠ .complete ∨ complete ≠ g.expectedMask then
        if st = .running ∨ st = .complete then .goto (.alive (.rank 0)) else .ret ()
      else .goto .storeExit
  | .alive a => (groupWorkersAlive g o g.expectedMask now a).map <|
      Ctl.elim (fun a' => .goto (.alive a')) fun alive =>
        if alive then .ret () else .goto (.fail (.cas failWorkerDead))
  | .fail f => (failPair f).map <| Ctl.elim (fun f' => .goto (.fail f')) .ret
  | .storeExit => .store (.exitMask o) 0#64 (.goto .storeState)
  | .storeState => .store (.state o) RoundState.draining (.goto .storeLastOwner)
  | .storeLastOwner => .store .lastOwner o.idx (.goto .storeDeadline)
  | .storeDeadline => .store .deadlineNs (0 : ℕ) (.goto .storeOwner)
  | .storeOwner => .store .owner noOwner (.goto .wakeGroup)
  | .wakeGroup => signalGroup o (.goto .wakeCoordinator)
  | .wakeCoordinator => signalCoordinator (.ret ())

/-! ## `dispatch_next` -/

/-- One entry of the local arrays `ready` and `published`. -/
structure Candidate where
  ready : Bool
  published : ℕ
  deriving DecidableEq, Repr

/-- Program points of `dispatch_next`. `a` is the candidate found for instance A, once it is
known; `st`, `rm`, `om`, `pub` are the loaded state, ready mask, online mask and publish time. -/
inductive DispatchPc where
  | owner
  | state (i : Inst) (a : Candidate)
  | readyMask (i : Inst) (a : Candidate) (st : RoundState)
  | onlineMask (i : Inst) (a : Candidate) (st : RoundState) (rm : BitVec 64)
  | publish (i : Inst) (a : Candidate) (st : RoundState) (rm om : BitVec 64)
  | barrierAlive (i : Inst) (a : Candidate) (st : RoundState) (rm om : BitVec 64) (pub : ℕ)
      (l : AlivePc)
  | readyAlive (i : Inst) (a : Candidate) (pub : ℕ) (l : AlivePc)
  | lastOwner
  | cas (sel : Inst)
  | nextGrant (sel : Inst)
  | storeGrant (sel : Inst) (gr : ℕ)
  | storeDeadline (sel : Inst)
  | storeOwner (sel : Inst)
  | wake (sel : Inst)
  | fail (f : FailPc)
  deriving Repr

/-- The choice between the two candidates: the earlier publication first, and on a tie the one
that did not own the last round. -/
def selectCandidate (a b : Candidate) : Ctl DispatchPc Unit :=
  if a.ready = false ∧ b.ready = false then .ret ()
  else if a.ready ∧ b.ready then
    if a.published < b.published then .goto (.cas .A)
    else if b.published < a.published then .goto (.cas .B)
    else .goto .lastOwner
  else if a.ready then .goto (.cas .A) else .goto (.cas .B)

/-- The end of the loop body for instance `i`, with its candidate. -/
def nextCandidate (i : Inst) (a cand : Candidate) : Ctl DispatchPc Unit :=
  match i with
  | .A => .goto (.state .B cand)
  | .B => selectCandidate a cand

/-- The computation of `ready[i]`, up to the liveness of the workers. -/
def testReady (g : Generation) (i : Inst) (a : Candidate) (st : RoundState) (rm om : BitVec 64)
    (pub : ℕ) : Ctl DispatchPc Unit :=
  if st = .ready ∧ rm = g.expectedMask ∧ om = g.expectedMask then
    .goto (.readyAlive i a pub (.rank 0))
  else nextCandidate i a ⟨false, pub⟩

/-- `dispatch_next`. -/
def dispatchNext (g : Generation) (now : ℕ) : DispatchPc → Cmd Val (Ctl DispatchPc Unit)
  | .owner => .load .owner fun owner =>
      if owner ≠ noOwner then .ret () else .goto (.state .A ⟨false, 0⟩)
  | .state i a => .load (.state i) fun st => .goto (.readyMask i a st)
  | .readyMask i a st => .load (.readyMask i) fun rm => .goto (.onlineMask i a st rm)
  | .onlineMask i a st rm => .load (.onlineMask i) fun om => .goto (.publish i a st rm om)
  | .publish i a st rm om => .load (.publishNs i) fun pub =>
      if (st = .collecting ∨ st = .ready) ∧ pub ≠ 0 ∧ pub < now ∧
          g.peerTimeoutMs * 1000000 < now - pub then
        if rm ≠ g.expectedMask ∨ om ≠ g.expectedMask then .goto (.fail (.cas failBarrierTimeout))
        else .goto (.barrierAlive i a st rm om pub (.rank 0))
      else testReady g i a st rm om pub
  | .barrierAlive i a st rm om pub l => (groupWorkersAlive g i rm now l).map <|
      Ctl.elim (fun l' => .goto (.barrierAlive i a st rm om pub l')) fun alive =>
        if alive then testReady g i a st rm om pub else .goto (.fail (.cas failBarrierTimeout))
  | .readyAlive i a pub l => (groupWorkersAlive g i g.expectedMask now l).map <|
      Ctl.elim (fun l' => .goto (.readyAlive i a pub l')) fun alive =>
        nextCandidate i a ⟨alive, pub⟩
  | .lastOwner => .load .lastOwner fun last =>
      .goto (.cas (if last = 0 then .B else .A))
  | .cas sel => .rmw (.state sel) (fun st => if st = .ready then .running else st)
      fun old => if old = .ready then .goto (.nextGrant sel) else .ret ()
  | .nextGrant sel => .rmw .nextGrantId (· + 1) fun old => .goto (.storeGrant sel (old + 1))
  | .storeGrant sel gr => .store (.grantId sel) gr (.goto (.storeDeadline sel))
  | .storeDeadline sel =>
      .store .deadlineNs (now + g.forwardTimeoutMs * 1000000) (.goto (.storeOwner sel))
  | .storeOwner sel => .store .owner sel.idx (.goto (.wake sel))
  | .wake sel => signalGroup sel (.ret ())
  | .fail f => (failPair f).map <| Ctl.elim (fun f' => .goto (.fail f')) .ret

/-! ## `coordinator_tick` and `coordinator_main` -/

/-- Program points of `coordinator_tick`. -/
inductive TickPc where
  | status
  | validate (v : ValidatePc)
  | clock
  | storePrimary (now : ℕ)
  | owner (now : ℕ)
  | recycle (now : ℕ) (o : Inst) (r : RecyclePc)
  | statusAgain (now : ℕ)
  | ownerAgain (now : ℕ)
  | dispatch (now : ℕ) (d : DispatchPc)
  deriving Repr

/-- `coordinator_tick`. -/
def coordinatorTick (g : Generation) : TickPc → Cmd Val (Ctl TickPc Unit)
  | .status => .load .status fun st =>
      if st.state ≠ .running then .ret () else .goto (.validate .owner)
  | .validate v => (validateShared g v).map <| Ctl.elim (fun v' => .goto (.validate v')) fun ok =>
      if ok then .goto .clock else .ret ()
  | .clock => .clock fun now => .goto (.storePrimary now)
  | .storePrimary now => .store .primaryHeartbeatNs now (.goto (.owner now))
  | .owner now => .load .owner fun owner =>
      if owner ≠ noOwner then .goto (.recycle now (Inst.ofIdx owner) .state)
      else .goto (.statusAgain now)
  | .recycle now o r => (recycleComplete g o now r).map <|
      Ctl.elim (fun r' => .goto (.recycle now o r')) fun _ => .goto (.statusAgain now)
  | .statusAgain now => .load .status fun st =>
      if st.state = .running then .goto (.ownerAgain now) else .ret ()
  | .ownerAgain now => .load .owner fun owner =>
      if owner = noOwner then .goto (.dispatch now .owner) else .ret ()
  | .dispatch now d => (dispatchNext g now d).map <|
      Ctl.elim (fun d' => .goto (.dispatch now d')) .ret

/-- Program points of `coordinator_main`; `w` is the loaded wake counter. -/
inductive CoordPc where
  | start
  | stopping
  | wake
  | tick (w : ℕ) (t : TickPc)
  | wait (w : ℕ)
  | finish
  | done
  deriving Repr

/-- `coordinator_main`. A thread that has not been started waits; one that is done takes no
step. -/
def coordinatorMain (g : Generation) : CoordPc → Cmd Val CoordPc
  | .start => .await .coordinatorStarted id .stopping
  | .stopping => .load (.stopping 0) fun b => if b then .finish else .wake
  | .wake => .load .coordinatorWake fun w => .tick w .status
  | .tick w t => (coordinatorTick g t).map <| Ctl.elim (fun t' => .tick w t') fun _ => .wait w
  | .wait _ => .skip .stopping
  | .finish => .store .coordinatorDone true .done
  | .done => .await .coordinatorDone (fun _ => false) .done

end YellowZone.PairSched
