import YellowZone.PairSched.System

/-!
# What a step can do

The invariants of the protocol do not depend on most program points. `Phase` says what a context
has claimed and seen so far, `CoordPhase` the same for the coordinator, and `Trans` lists what one
step of the system can do in these terms.

## Quiet steps

Most steps leave the words that carry the protocol alone: they wake somebody, beat a heart, read
the clock, count calls. `Calm m m'` says that a step is of this kind, and such steps that also
keep the phase are all one constructor, `CallTrans.quiet`.

## Main definitions and results

* `Phase`, `phaseOf`, `CoordPhase`, `coordPhaseOf` — abstract program points
* `CallTrans`, `CoordTrans`, `Trans` — what a step can do
* `trans_of_step` — every step is one of these
-/

namespace YellowZone.PairSched

open Machine

/-! ## Words that carry the protocol -/

/-- The words the round protocol is about. -/
def Loc.isCore : Loc → Bool
  | .status | .owner | .lastOwner | .nextGrantId => true
  | .state _ | .forwardSeq _ | .grantId _ | .publishNs _ => true
  | .readyMask _ | .completeMask _ | .exitMask _ | .session _ _ => true
  | _ => false

/-- A write to some other word. A context that is stopping keeps stopping. -/
structure Calm (m m' : Memory) : Prop where
  core : ∀ l : Loc, l.isCore = true → m' l = m l
  stopping : ∀ c, m (.stopping c) = true → m' (.stopping c) = true

theorem Calm.refl (m : Memory) : Calm m m := ⟨fun _ _ => rfl, fun _ h => h⟩

/-- Writing a word that is neither core nor a stopping flag is calm. -/
theorem Calm.set (m : Memory) {l : Loc} (v : Val l) (hc : l.isCore = false)
    (hs : ∀ c, l ≠ .stopping c) : Calm m (m.set l v) where
  core l' h' := Mem.set_of_ne m v (by rintro rfl; simp [hc] at h')
  stopping c h := by rwa [Mem.set_of_ne m v (hs c).symm]

/-- Raising a stopping flag is calm. -/
theorem Calm.setStopping (m : Memory) (c : ℕ) : Calm m (m.set (.stopping c) true) where
  core l' h' := Mem.set_of_ne m (l := .stopping c) true (by rintro rfl; simp [Loc.isCore] at h')
  stopping d h := by by_cases hd : d = c <;> simp [hd, h]

/-! ## Phases of a context -/

/-- What a context has claimed and seen. `q` is the sequence of its call, `gr` a grant. -/
inductive Phase where
  /-- No slot is held for it: not opened, or opening failed. -/
  | absent
  /-- About to write its session into the slot. -/
  | claiming
  /-- Its session is in the slot, its sequence number is not set yet. -/
  | registering
  /-- In no round as far as its program point tells. -/
  | out
  /-- About to fail the pair. -/
  | failing
  /-- In `ps_enter_forward`, waiting for the group to be idle or collecting. -/
  | seeking (q : ℕ)
  /-- Has seen a round in state `st`. -/
  | saw (q : ℕ) (st : RoundState)
  /-- Has won the group and is about to store the named field of the new round. -/
  | initSeq (q : ℕ)
  | initGrant (q : ℕ)
  | initReady (q : ℕ)
  | initComplete (q : ℕ)
  | initExit (q : ℕ)
  | initClock (q : ℕ)
  | initPublish (q t : ℕ)
  | initState (q : ℕ)
  /-- Has joined a collecting round and is about to set its ready bit. -/
  | joined (q : ℕ)
  /-- Has set the last ready bit. -/
  | lastReady (q : ℕ)
  /-- Waits for the grant. -/
  | waiting (q : ℕ)
  | sawRunning (q : ℕ)
  | sawGrant (q gr : ℕ)
  | sawOwner (q gr : ℕ)
  /-- Has found its own session in the slot. -/
  | checked (q gr : ℕ)
  /-- Is about to return from `ps_enter_forward` with success. -/
  | granted (q gr : ℕ)
  /-- In `ps_leave_forward`, before its status test. -/
  | begun
  /-- Has seen RUNNING. -/
  | unexpired
  /-- The fencing tests: about to load the owner, then the sequence, then the rest. -/
  | fenceOwner (q gr : ℕ)
  | fenceSeq (q gr : ℕ)
  | fenceRest (q gr : ℕ)
  /-- Has set the last complete bit. -/
  | lastComplete (q : ℕ)
  /-- Waits for its completed round to be recycled. -/
  | finishing (q : ℕ)
  | sawDraining (q : ℕ)
  /-- Has set the last exit bit and is about to store the named field. -/
  | resetReady (q : ℕ)
  | resetComplete (q : ℕ)
  | resetGrant (q : ℕ)
  | resetPublish (q : ℕ)
  | resetState (q : ℕ)
  /-- Has set the group idle. -/
  | resetDone (q : ℕ)
  /-- Is about to return from `ps_leave_forward` with success. -/
  | left (q : ℕ)
  deriving DecidableEq

/-- The phase of `ps_open`. -/
def openPhase : OpenPc → Phase
  | .regSession => .claiming
  | .regOnline | .regState | .regIdle | .regWake | .loadSeq => .registering
  | .startHeartbeat | .heartbeatStarted | .startCoordinator | .coordinatorStarted => .out
  | .undoStopping _ | .undoJoin _ | .undoOnline _ => .out
  | _ => .absent

/-- The phase of `ps_enter_forward`. -/
def enterPhase : EnterPc → Phase
  | .begin _ | .fail _ (.wake _) | .done (.error _) _ => .out
  | .fail _ (.cas _) => .failing
  | .checkRunning q | .idleWake q | .idleState q _ | .idleWait q _ | .casInit q => .seeking q
  | .initSeq q => .initSeq q
  | .initGrant q => .initGrant q
  | .initReady q => .initReady q
  | .initComplete q => .initComplete q
  | .initExit q => .initExit q
  | .initClock q => .initClock q
  | .initPublish q t => .initPublish q t
  | .initState q => .initState q
  | .joinSeq q st => .saw q st
  | .initWake q | .setLast q | .orReady q => .joined q
  | .casReady q => .lastReady q
  | .readyWakeCoordinator q | .readyWakeGroup q | .grantWake q | .grantWait q _ => .waiting q
  | .grantStopping q _ | .grantStatus q _ | .grantHeartbeat q _ | .grantClock q _ _ => .waiting q
  | .grantState q _ => .waiting q
  | .grantSeq q _ st => if st = .running then .sawRunning q else .waiting q
  | .grantGrant q _ st gs => if st = .running ∧ gs = q then .sawRunning q else .waiting q
  | .grantOwner q _ st gs gr =>
    if st = .running ∧ gs = q ∧ gr ≠ 0 then .sawGrant q gr else .waiting q
  | .validate q gr .session => .sawOwner q gr
  | .validate q gr _ => .checked q gr
  | .done (.ok (q, gr)) _ => .granted q gr

/-- The phase of `ps_leave_forward`. -/
def leavePhase (q gid : ℕ) : LeavePc → Phase
  | .begin _ | .fail _ (.wake _) | .done (.error _) _ => .out
  | .fail _ (.cas _) => .failing
  | .deadline | .checkRunning _ => .begun
  | .clock _ => .unexpired
  | .owner => .fenceOwner q gid
  | .seq => .fenceSeq q gid
  | .grant | .state | .validate _ | .orComplete => .fenceRest q gid
  | .casComplete => .lastComplete q
  | .completeWakeCoordinator | .completeWakeGroup | .drainWake | .drainWait _ => .finishing q
  | .drainStopping _ | .drainStatus _ | .drainState _ => .finishing q
  | .drainSeq _ st => if st = .draining then .sawDraining q else .finishing q
  | .orExit => .sawDraining q
  | .resetReady => .resetReady q
  | .resetComplete => .resetComplete q
  | .resetGrant => .resetGrant q
  | .resetPublish => .resetPublish q
  | .resetState => .resetState q
  | .resetWakeGroup | .resetWakeCoordinator => .resetDone q
  | .done (.ok _) _ => .left q

/-- The phase of a calling thread. -/
def phaseOf : CallPc → Phase
  | .absent | .openFailed _ => .absent
  | .opening pc => openPhase pc
  | .idle _ => .out
  | .enter pc => enterPhase pc
  | .leave q gid pc => leavePhase q gid pc

/-- The phase of context `c`. -/
def State.phase (s : State) (c : ℕ) : Phase := phaseOf (s.ctx c).call

/-- Nothing is registered at the start. -/
@[simp] theorem initialState_phase (g : Generation) (c : ℕ) :
    (initialState g).phase c = .absent := by
  by_cases hc : c = 0
  · subst hc; rfl
  · simp [State.phase, initialState, hc, Ctx.absent, phaseOf]

/-- The plain fields of context `c`. -/
def State.locals (s : State) (c : ℕ) : Locals := (s.ctx c).locals

/-! ## Steps of a calling thread -/

/-- An observation no property of rounds depends on: nothing, or a call that returned an
error. -/
inductive Event.Minor : Event → Prop
  | silent : Minor .silent
  | enterError (c : ℕ) (e : CallError) : Minor (.enterReturn c (.error e))
  | leaveError (c q : ℕ) (e : CallError) : Minor (.leaveReturn c q (.error e))

/-- The phases in which a call looks whether it still should go on. -/
def Phase.canDrop : Phase → Bool
  | .seeking _ | .waiting _ | .begun | .finishing _ => true
  | _ => false

/-- The phases in which a call may find a reason to fail the pair. -/
def Phase.canAbort : Phase → Bool
  | .saw _ _ | .lastReady _ | .waiting _ | .sawOwner _ _ | .checked _ _ => true
  | .begun | .unexpired | .fenceOwner _ _ | .fenceSeq _ _ | .fenceRest _ _ => true
  | .lastComplete _ | .finishing _ | .sawDraining _ => true
  | _ => false

/-- What one step of the calling thread of `c` can do at time `t`: to the memory, to the plain
fields of the context and to its phase, with the observation it makes. -/
inductive CallTrans (g : Generation) (c t : ℕ) :
    Memory → Locals → Phase → Event → Memory → Locals → Phase → Prop
  /-- Nothing happens to the protocol. -/
  | quiet {m m' x p e} (hm : Calm m m') (he : e.Minor) : CallTrans g c t m x p e m' x p
  /-- The call gives up, because the pair is not running or the context is closing. -/
  | drop {m x p} (hs : (m .status).state ≠ .running ∨ m (.stopping c) = true)
      (hp : p.canDrop = true) : CallTrans g c t m x p .silent m x .out
  /-- The call finds a reason to fail the pair. -/
  | abort {m x p} (hp : p.canAbort = true) : CallTrans g c t m x p .silent m x .failing
  /-- `fail_pair`. -/
  | fail {m x} (reason : Reason) :
      CallTrans g c t m x .failing .silent (m.set .status (failStatus reason (m .status))) x .out
  -- `ps_open`
  | openClaim {m m' x} (hm : Calm m m') : CallTrans g c t m x .absent .silent m' x .claiming
  | claim {m x} : CallTrans g c t m x .claiming .silent
      (m.set (.session (g.inst c) (g.rank c)) (g.session c)) x .registering
  | setIdle {m x} (h : m (.state (g.inst c)) = .offline) : CallTrans g c t m x .registering .silent
      (m.set (.state (g.inst c)) RoundState.idle) x .registering
  | loadSeq {m x} : CallTrans g c t m x .registering .silent m
      { x with nextSeq := m (.forwardSeq (g.inst c)) } .out
  | undo {m m' x} (hm : Calm m m') : CallTrans g c t m x .out .silent m' x .absent
  -- `ps_enter_forward`
  | refuse {m x} (ha : x.activeSeq ≠ 0) : CallTrans g c t m x .out .silent m
      { x with nextSeq := x.nextSeq + 1 } .failing
  | seek {m x} (hs : m (.stopping c) = false) (ha : x.activeSeq = 0) :
      CallTrans g c t m x .out .silent m { x with nextSeq := x.nextSeq + 1 }
        (.seeking (x.nextSeq + 1))
  | see {m x q} (st : RoundState) (h : m (.state (g.inst c)) = st) (hi : st ≠ .idle)
      (hn : st ≠ .initializing) (hd : st ≠ .draining) :
      CallTrans g c t m x (.seeking q) .silent m x (.saw q st)
  | win {m x q} (h : m (.state (g.inst c)) = .idle) :
      CallTrans g c t m x (.seeking q) .silent
        (m.set (.state (g.inst c)) RoundState.initializing) x (.initSeq q)
  | initSeq {m x q} : CallTrans g c t m x (.initSeq q) .silent
      (m.set (.forwardSeq (g.inst c)) q) x (.initGrant q)
  | initGrant {m x q} : CallTrans g c t m x (.initGrant q) .silent
      (m.set (.grantId (g.inst c)) (0 : ℕ)) x (.initReady q)
  | initReady {m x q} : CallTrans g c t m x (.initReady q) .silent
      (m.set (.readyMask (g.inst c)) 0#64) x (.initComplete q)
  | initComplete {m x q} : CallTrans g c t m x (.initComplete q) .silent
      (m.set (.completeMask (g.inst c)) 0#64) x (.initExit q)
  | initExit {m x q} : CallTrans g c t m x (.initExit q) .silent
      (m.set (.exitMask (g.inst c)) 0#64) x (.initClock q)
  | initClock {m x q} : CallTrans g c t m x (.initClock q) .silent m x (.initPublish q t)
  | initPublish {m x q t'} : CallTrans g c t m x (.initPublish q t') .silent
      (m.set (.publishNs (g.inst c)) t') x (.initState q)
  | initState {m x q} : CallTrans g c t m x (.initState q) .silent
      (m.set (.state (g.inst c)) RoundState.collecting) x (.joined q)
  | join {m x q} (h : m (.forwardSeq (g.inst c)) = q) :
      CallTrans g c t m x (.saw q .collecting) .silent m x (.joined q)
  -- the bit may have been set before, be the last one, or be one of several still missing
  | dupReady {m x q} (h : BitMask.HasBit (m (.readyMask (g.inst c))) (g.rank c)) :
      CallTrans g c t m x (.joined q) (.readyOr c q)
        (m.set (.readyMask (g.inst c)) (m (.readyMask (g.inst c)) ||| g.bitOf c)) x .failing
  | fullReady {m x q} (h : ¬BitMask.HasBit (m (.readyMask (g.inst c))) (g.rank c))
      (hf : m (.readyMask (g.inst c)) ||| g.bitOf c = g.expectedMask) :
      CallTrans g c t m x (.joined q) (.readyOr c q)
        (m.set (.readyMask (g.inst c)) (m (.readyMask (g.inst c)) ||| g.bitOf c)) x (.lastReady q)
  | orReady {m x q} (h : ¬BitMask.HasBit (m (.readyMask (g.inst c))) (g.rank c))
      (hf : m (.readyMask (g.inst c)) ||| g.bitOf c ≠ g.expectedMask) :
      CallTrans g c t m x (.joined q) (.readyOr c q)
        (m.set (.readyMask (g.inst c)) (m (.readyMask (g.inst c)) ||| g.bitOf c)) x (.waiting q)
  | publishReady {m x q} (h : m (.state (g.inst c)) = .collecting) :
      CallTrans g c t m x (.lastReady q) .silent
        (m.set (.state (g.inst c)) RoundState.ready) x (.waiting q)
  | seeRunning {m x q} (h : m (.state (g.inst c)) = .running) :
      CallTrans g c t m x (.waiting q) .silent m x (.sawRunning q)
  | seeGrant {m x q gr} (h : m (.grantId (g.inst c)) = gr) (h0 : gr ≠ 0) :
      CallTrans g c t m x (.sawRunning q) .silent m x (.sawGrant q gr)
  | seeOwner {m x q gr} (h : m .owner = (g.inst c).idx) :
      CallTrans g c t m x (.sawGrant q gr) .silent m x (.sawOwner q gr)
  | backOff {m x q p} (hp : p = .sawRunning q ∨ ∃ gr, p = .sawGrant q gr) :
      CallTrans g c t m x p .silent m x (.waiting q)
  | check {m x q gr} (h : m (.session (g.inst c) (g.rank c)) = g.session c) :
      CallTrans g c t m x (.sawOwner q gr) .silent m x (.checked q gr)
  | hold {m x q gr} : CallTrans g c t m x (.checked q gr) .silent m
      { x with activeSeq := q, activeGrantId := gr } (.granted q gr)
  | entered {m m' x q gr} (hm : Calm m m') : CallTrans g c t m x (.granted q gr)
      (.enterReturn c (.ok (q, gr))) m' x .out
  -- `ps_leave_forward`
  | begin {m x} (hs : m (.stopping c) = false) : CallTrans g c t m x .out .silent m x .begun
  | seeStatus {m x} (h : (m .status).state = .running) :
      CallTrans g c t m x .begun .silent m x .unexpired
  | fence {m x p q gr} (hp : p = .unexpired ∨ p = .begun ∧ (m .status).state = .running)
      (hq : x.activeSeq = q) (hg : x.activeGrantId = gr) :
      CallTrans g c t m x p .silent m x (.fenceOwner q gr)
  | fenceOwner {m x q gr} (h : m .owner = (g.inst c).idx) :
      CallTrans g c t m x (.fenceOwner q gr) .silent m x (.fenceSeq q gr)
  | fenceSeq {m x q gr} (h : m (.forwardSeq (g.inst c)) = q) :
      CallTrans g c t m x (.fenceSeq q gr) .silent m x (.fenceRest q gr)
  | dupComplete {m x q gr} (h : BitMask.HasBit (m (.completeMask (g.inst c))) (g.rank c)) :
      CallTrans g c t m x (.fenceRest q gr) (.completeOr c q)
        (m.set (.completeMask (g.inst c)) (m (.completeMask (g.inst c)) ||| g.bitOf c)) x .failing
  | fullComplete {m x q gr} (h : ¬BitMask.HasBit (m (.completeMask (g.inst c))) (g.rank c))
      (hf : m (.completeMask (g.inst c)) ||| g.bitOf c = g.expectedMask) :
      CallTrans g c t m x (.fenceRest q gr) (.completeOr c q)
        (m.set (.completeMask (g.inst c)) (m (.completeMask (g.inst c)) ||| g.bitOf c)) x
        (.lastComplete q)
  | orComplete {m x q gr} (h : ¬BitMask.HasBit (m (.completeMask (g.inst c))) (g.rank c))
      (hf : m (.completeMask (g.inst c)) ||| g.bitOf c ≠ g.expectedMask) :
      CallTrans g c t m x (.fenceRest q gr) (.completeOr c q)
        (m.set (.completeMask (g.inst c)) (m (.completeMask (g.inst c)) ||| g.bitOf c)) x
        (.finishing q)
  | publishComplete {m x q} (h : m (.state (g.inst c)) = .running) :
      CallTrans g c t m x (.lastComplete q) .silent
        (m.set (.state (g.inst c)) RoundState.complete) x (.finishing q)
  | seeDraining {m x q} (h : m (.state (g.inst c)) = .draining) :
      CallTrans g c t m x (.finishing q) .silent m x (.sawDraining q)
  | fullExit {m x q} (h : m (.exitMask (g.inst c)) ||| g.bitOf c = g.expectedMask) :
      CallTrans g c t m x (.sawDraining q) .silent
        (m.set (.exitMask (g.inst c)) (m (.exitMask (g.inst c)) ||| g.bitOf c)) x (.resetReady q)
  | orExit {m x q} (h : m (.exitMask (g.inst c)) ||| g.bitOf c ≠ g.expectedMask) :
      CallTrans g c t m x (.sawDraining q) .silent
        (m.set (.exitMask (g.inst c)) (m (.exitMask (g.inst c)) ||| g.bitOf c))
        { x with activeSeq := 0, activeGrantId := 0 } (.left q)
  | resetReady {m x q} : CallTrans g c t m x (.resetReady q) .silent
      (m.set (.readyMask (g.inst c)) 0#64) x (.resetComplete q)
  | resetComplete {m x q} : CallTrans g c t m x (.resetComplete q) .silent
      (m.set (.completeMask (g.inst c)) 0#64) x (.resetGrant q)
  | resetGrant {m x q} : CallTrans g c t m x (.resetGrant q) .silent
      (m.set (.grantId (g.inst c)) (0 : ℕ)) x (.resetPublish q)
  | resetPublish {m x q} : CallTrans g c t m x (.resetPublish q) .silent
      (m.set (.publishNs (g.inst c)) (0 : ℕ)) x (.resetState q)
  | resetState {m x q} : CallTrans g c t m x (.resetState q) .silent
      (m.set (.state (g.inst c)) RoundState.idle) x (.resetDone q)
  | resetDone {m m' x q} (hm : Calm m m') : CallTrans g c t m x (.resetDone q) .silent m'
      { x with activeSeq := 0, activeGrantId := 0 } (.left q)
  | leftReturn {m m' x q} (hm : Calm m m') :
      CallTrans g c t m x (.left q) (.leaveReturn c q (.ok ())) m' x .out

/-! ## Phases and steps of the coordinator -/

/-- What the coordinator is in the middle of. -/
inductive CoordPhase where
  /-- Between decisions. -/
  | rest
  /-- Is about to look at the round of `o`, which owns the pair. -/
  | held (o : Inst)
  /-- Has seen the round of `o` complete, and next stores the named word. -/
  | sawComplete (o : Inst)
  | storeExit (o : Inst)
  | storeState (o : Inst)
  | storeLastOwner (o : Inst)
  | storeOwner (o : Inst)
  /-- Has seen RUNNING for the second time in this tick. -/
  | cleared
  /-- Has then seen that nobody owns the pair, and looks for a round to grant. -/
  | choosing
  /-- Has set the round of `sel` RUNNING and is about to draw its grant. -/
  | drawing (sel : Inst)
  /-- Has drawn the grant `gr`. -/
  | storeGrant (sel : Inst) (gr : ℕ)
  /-- Has stored it. -/
  | takeOwner (sel : Inst)
  deriving DecidableEq

/-- The phase of `recycle_complete`. -/
def recyclePhase (o : Inst) : RecyclePc → CoordPhase
  | .state => .held o
  | .complete st | .deadline st _ => if st = .complete then .sawComplete o else .rest
  | .storeExit => .storeExit o
  | .storeState => .storeState o
  | .storeLastOwner => .storeLastOwner o
  | .storeDeadline | .storeOwner => .storeOwner o
  | .alive _ | .fail _ | .wakeGroup | .wakeCoordinator => .rest

/-- The phase of `dispatch_next`. -/
def dispatchPhase : DispatchPc → CoordPhase
  | .owner => .cleared
  | .wake _ | .fail _ => .rest
  | .nextGrant sel => .drawing sel
  | .storeGrant sel gr => .storeGrant sel gr
  | .storeDeadline sel | .storeOwner sel => .takeOwner sel
  | _ => .choosing

/-- The phase of the coordinator thread. -/
def coordPhaseOf : CoordPc → CoordPhase
  | .tick _ (.recycle _ o r) => recyclePhase o r
  | .tick _ (.ownerAgain _) => .cleared
  | .tick _ (.dispatch _ d) => dispatchPhase d
  | _ => .rest

/-- The phase of the coordinator in a state. -/
def State.coordPhase (s : State) : CoordPhase := coordPhaseOf s.coord

/-- The phases that may end without a write. -/
def CoordPhase.canGiveUp : CoordPhase → Bool
  | .held _ | .sawComplete _ | .cleared | .choosing => true
  | _ => false

/-- What one step of the coordinator can do, with the observation it makes. -/
inductive CoordTrans (g : Generation) : Memory → CoordPhase → Event → Memory → CoordPhase → Prop
  | quiet {m m' p} (hm : Calm m m') : CoordTrans g m p .silent m' p
  | fail {m} (reason : Reason) :
      CoordTrans g m .rest .silent (m.set .status (failStatus reason (m .status))) .rest
  -- `recycle_complete`
  | find {m} (h : m .owner ≠ noOwner) :
      CoordTrans g m .rest .silent m (.held (Inst.ofIdx (m .owner)))
  | seeComplete {m o} (h : m (.state o) = .complete) :
      CoordTrans g m (.held o) .silent m (.sawComplete o)
  | giveUp {m p} (hp : p.canGiveUp = true) : CoordTrans g m p .silent m .rest
  | recycle {m o} : CoordTrans g m (.sawComplete o) .silent m (.storeExit o)
  | storeExit {m o} :
      CoordTrans g m (.storeExit o) .silent (m.set (.exitMask o) 0#64) (.storeState o)
  | storeState {m o} : CoordTrans g m (.storeState o) .silent
      (m.set (.state o) RoundState.draining) (.storeLastOwner o)
  | storeLastOwner {m o} : CoordTrans g m (.storeLastOwner o) .silent
      (m.set .lastOwner o.idx) (.storeOwner o)
  | release {m o} : CoordTrans g m (.storeOwner o) .silent (m.set .owner noOwner) .rest
  -- `dispatch_next`
  | clear {m} (h : (m .status).state = .running) : CoordTrans g m .rest .silent m .cleared
  | choose {m} (h : m .owner = noOwner) : CoordTrans g m .cleared .silent m .choosing
  | grant {m} (sel : Inst) (h : m (.state sel) = .ready) : CoordTrans g m .choosing .silent
      (m.set (.state sel) RoundState.running) (.drawing sel)
  | draw {m sel} : CoordTrans g m (.drawing sel)
      (.grant sel (m (.forwardSeq sel)) (m .nextGrantId + 1))
      (m.set .nextGrantId (m .nextGrantId + 1)) (.storeGrant sel (m .nextGrantId + 1))
  | storeGrant {m sel gr} : CoordTrans g m (.storeGrant sel gr) .silent
      (m.set (.grantId sel) gr) (.takeOwner sel)
  | takeOwner {m sel} : CoordTrans g m (.takeOwner sel) .silent (m.set .owner sel.idx) .rest

/-! ## Steps of the system -/

/-- An action of neither a calling thread nor the coordinator. -/
def Act.isOther : Act → Bool
  | .call _ _ | .coord => false
  | _ => true

/-- What the other threads, the clock and the environment can do to the memory. -/
inductive OtherTrans (g : Generation) (s : State) (m' : Memory) : Act → Prop
  | quiet {a} (hm : Calm s.mem m') : OtherTrans g s m' a
  | fail {a} (reason : Reason) (h : m' = s.mem.set .status (failStatus reason (s.mem .status))) :
      OtherTrans g s m' a
  | shutdown {a} (h : m' = s.mem.set .status (shutdownStatus (s.mem .status))) :
      OtherTrans g s m' a
  | clear {a} (c : ℕ) (h : m' = s.mem.set (.session (g.inst c) (g.rank c)) (0 : ℕ)) :
      OtherTrans g s m' a
  | offline (c : ℕ) (hc : (s.ctx c).close = some .storeOffline)
      (h : m' = s.mem.set (.state (g.inst c)) RoundState.offline) : OtherTrans g s m' (.close c)

/-- What one step of the system can do. -/
inductive Trans (g : Generation) (s : State) : Act → Event → State → Prop
  /-- A calling thread moves. -/
  | call {e s'} (c : ℕ) (b : Bool) (hk : (s.ctx c).killed = false)
      (ht : CallTrans g c s.now s.mem (s.locals c) (s.phase c) e s'.mem (s'.locals c) (s'.phase c))
      (hctx : ∀ d, d ≠ c → s'.ctx d = s.ctx d)
      (hclosed : (s'.ctx c).closed = (s.ctx c).closed) (hkilled : (s'.ctx c).killed = false)
      (hnow : s'.now = s.now) (hcoord : s'.coordPhase = s.coordPhase) :
      Trans g s (.call c b) e s'
  /-- The coordinator moves. -/
  | coord {e s'} (hk : (s.ctx 0).killed = false)
      (ht : CoordTrans g s.mem s.coordPhase e s'.mem s'.coordPhase)
      (hctx : s'.ctx = s.ctx) (hnow : s'.now = s.now) : Trans g s .coord e s'
  /-- Something else happens. -/
  | other {a s'} (ht : OtherTrans g s s'.mem a)
      (hphase : ∀ d, s'.phase d = s.phase d) (hlocals : ∀ d, s'.locals d = s.locals d)
      (hclosed : ∀ d, (s.ctx d).closed = true → (s'.ctx d).closed = true)
      (hkilled : ∀ d, (s.ctx d).killed = true → (s'.ctx d).killed = true)
      (hnow : s.now ≤ s'.now) (hcoord : s'.coordPhase = s.coordPhase)
      (ha : a.isOther = true) : Trans g s a .silent s'

end YellowZone.PairSched
