import YellowZone.Machine.SharedMemory
import YellowZone.PairSched.Basic

/-!
# The words the scheduler's threads share

`Loc` lists every word that more than one thread touches: the atomics of `shared_state`, of its
two `instance_group`s and their `worker_slot`s, and the atomics of each `ps_context`, which the
threads of one process share. The plain fields that `ps_open` writes before any other thread
exists (`heartbeat_started`, `coordinator_started`) and the termination of the two helper
threads, which `pthread_join` waits for, are words here too.

Constant data of the header (timeouts, `worker_count`, `expected_mask`) is in `Generation`.
`group->error` is left out: no function but the snapshot reads it, and none writes it.

The `set` lemmas say what a write does to a word of the same kind; words of different kinds are
told apart by their constructors (`Mem.set_of_ne`).
-/

namespace YellowZone.PairSched

open Machine

/-- A shared word. `r` is a rank of instance `i`, `c` a context. -/
inductive Loc where
  | status
  | owner
  | lastOwner
  | deadlineNs
  | primaryHeartbeatNs
  | nextGrantId
  | coordinatorWake
  | groupWake (i : Inst)
  | state (i : Inst)
  | forwardSeq (i : Inst)
  | grantId (i : Inst)
  | readyMask (i : Inst)
  | completeMask (i : Inst)
  | exitMask (i : Inst)
  | onlineMask (i : Inst)
  | publishNs (i : Inst)
  | pid (i : Inst) (r : ℕ)
  | session (i : Inst) (r : ℕ)
  | lastSeq (i : Inst) (r : ℕ)
  | heartbeatNs (i : Inst) (r : ℕ)
  | stopping (c : ℕ)
  | activeCalls (c : ℕ)
  | callWake (c : ℕ)
  | heartbeatStarted (c : ℕ)
  | heartbeatDone (c : ℕ)
  | coordinatorStarted
  | coordinatorDone
  deriving DecidableEq, Repr

/-- What a word holds. -/
@[reducible] def Val : Loc → Type
  | .status => Status
  | .owner | .lastOwner => ℤ
  | .deadlineNs | .primaryHeartbeatNs | .nextGrantId | .coordinatorWake | .groupWake _ => ℕ
  | .state _ => RoundState
  | .forwardSeq _ | .grantId _ | .publishNs _ => ℕ
  | .readyMask _ | .completeMask _ | .exitMask _ | .onlineMask _ => BitVec 64
  | .pid _ _ | .session _ _ | .lastSeq _ _ | .heartbeatNs _ _ => ℕ
  | .stopping _ => Bool
  | .activeCalls _ => ℤ
  | .callWake _ => ℕ
  | .heartbeatStarted _ | .heartbeatDone _ | .coordinatorStarted | .coordinatorDone => Bool

/-- The memory of the scheduler. -/
abbrev Memory : Type := Mem Val

/-- The fields of `shared_state`, as opposed to those of a process's own `ps_context`. -/
def Loc.isShared : Loc → Bool
  | .stopping _ | .activeCalls _ | .callWake _ | .heartbeatStarted _ | .heartbeatDone _ => false
  | .coordinatorStarted | .coordinatorDone => false
  | _ => true

/-- The futex words of `shared_state`. -/
def Loc.isWakeCounter : Loc → Bool
  | .coordinatorWake | .groupWake _ => true
  | _ => false

/-- The memory `ps_open` leaves behind when it has created a generation: the status is RUNNING
and nothing is registered. -/
def initialMemory (g : Generation) : Memory
  | .status => makeStatus .running 0
  | .owner | .lastOwner => noOwner
  | .primaryHeartbeatNs => g.startNs
  | .deadlineNs | .nextGrantId | .coordinatorWake | .groupWake _ => (0 : ℕ)
  | .state _ => RoundState.offline
  | .forwardSeq _ | .grantId _ | .publishNs _ => (0 : ℕ)
  | .readyMask _ | .completeMask _ | .exitMask _ | .onlineMask _ => 0#64
  | .pid _ _ | .session _ _ | .lastSeq _ _ | .heartbeatNs _ _ => (0 : ℕ)
  | .stopping _ => false
  | .activeCalls _ => (0 : ℤ)
  | .callWake _ => (0 : ℕ)
  | .heartbeatStarted _ | .heartbeatDone _ | .coordinatorStarted | .coordinatorDone => false

/-! ## Reading one word after writing another of its kind -/

section Set

variable (m : Memory) (i j : Inst) (r q c d : ℕ)

@[simp] theorem set_state_state (v : RoundState) :
    m.set (.state i) v (.state j) = if j = i then v else m (.state j) := by
  by_cases h : j = i
  · subst h; simp
  · simp [h]

@[simp] theorem set_forwardSeq_forwardSeq (v : ℕ) :
    m.set (.forwardSeq i) v (.forwardSeq j) = if j = i then v else m (.forwardSeq j) := by
  by_cases h : j = i
  · subst h; simp
  · simp [h]

@[simp] theorem set_grantId_grantId (v : ℕ) :
    m.set (.grantId i) v (.grantId j) = if j = i then v else m (.grantId j) := by
  by_cases h : j = i
  · subst h; simp
  · simp [h]

@[simp] theorem set_completeMask_completeMask (v : BitVec 64) :
    m.set (.completeMask i) v (.completeMask j) = if j = i then v else m (.completeMask j) := by
  by_cases h : j = i
  · subst h; simp
  · simp [h]

@[simp] theorem set_session_session (v : ℕ) :
    m.set (.session i r) v (.session j q) =
      if j = i ∧ q = r then v else m (.session j q) := by
  by_cases h : j = i ∧ q = r
  · obtain ⟨rfl, rfl⟩ := h; simp
  · rw [if_neg h, Mem.set_of_ne]
    simpa using h

@[simp] theorem set_stopping_stopping (v : Bool) :
    m.set (.stopping c) v (.stopping d) = if d = c then v else m (.stopping d) := by
  by_cases h : d = c
  · subst h; simp
  · simp [h]

end Set

end YellowZone.PairSched
