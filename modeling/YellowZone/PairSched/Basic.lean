import YellowZone.Machine.BitMask

/-!
# The pair scheduler: constants, status words and parameters

The pure part of `pair_sched.c`: its enumerations, the status word, the timeout test, and the
parameters of one generation of the shared memory.

## Numbers

Masks are 64-bit words, as in the source. Sequence numbers, grant ids and nanosecond times are
natural numbers: the source keeps them in `uint64_t`, they only ever grow by one or follow the
monotonic clock, and a run that wraps one of them has had `2 ^ 64` rounds.

The futex words are `uint32_t` and do wrap. They are only incremented, and compared by the kernel
when a thread goes to sleep. What the memory has here is how often a word was incremented; the word
itself is that number modulo `2 ^ 32`.

The status word packs a state and a reason into 64 bits and is only ever loaded, stored and
compared as a whole; it is kept here as the pair.

## One generation

`Generation` collects everything that is fixed while one shared-memory file is in use: the
configuration that `ps_open` checks against the header, and, for every context that may ever be
opened on it, the constants `ps_open` is given. Context `0` is the creator, which also runs the
coordinator thread. Sessions are drawn at random by the callers; what the protocol relies on is
that no two contexts of one slot draw the same, and this is a field of the structure.
-/

namespace YellowZone.PairSched

open Machine

/-! ## Enumerations -/

/-- The two instances of a pair, `groups[0]` and `groups[1]`. -/
inductive Inst where
  | A
  | B
  deriving DecidableEq, Repr

/-- The index of an instance, as stored in the owner word. -/
def Inst.idx : Inst → ℤ
  | .A => 0
  | .B => 1

/-- The other instance of the pair. -/
def Inst.other : Inst → Inst
  | .A => .B
  | .B => .A

/-- The instance at an index of the `groups` array. -/
def Inst.ofIdx (n : ℤ) : Inst := if n = 0 then .A else .B

@[simp] theorem Inst.ofIdx_idx (i : Inst) : Inst.ofIdx i.idx = i := by cases i <;> rfl

@[simp] theorem Inst.idx_inj {i j : Inst} : i.idx = j.idx ↔ i = j := by
  cases i <;> cases j <;> decide

@[simp] theorem Inst.idx_ne_neg_one (i : Inst) : i.idx ≠ -1 := by cases i <;> decide

/-- `PS_NO_OWNER`. -/
def noOwner : ℤ := -1

/-- `enum global_state`. -/
inductive GlobalState where
  | initializing
  | running
  | failed
  | shutdown
  deriving DecidableEq, Repr

/-- The integer of a global state. -/
def GlobalState.code : GlobalState → ℕ
  | .initializing => 0
  | .running => 1
  | .failed => 2
  | .shutdown => 3

/-- `enum round_state`. -/
inductive RoundState where
  | offline
  | idle
  | initializing
  | collecting
  | ready
  | running
  | complete
  | draining
  deriving DecidableEq, Repr

/-- The integer of a round state. -/
def RoundState.code : RoundState → ℕ
  | .offline => 0
  | .idle => 1
  | .initializing => 2
  | .collecting => 3
  | .ready => 4
  | .running => 5
  | .complete => 6
  | .draining => 7

/-- `valid_round_state`. -/
def validRoundState (st : RoundState) : Bool :=
  decide (RoundState.offline.code ≤ st.code ∧ st.code ≤ RoundState.draining.code)

@[simp] theorem validRoundState_eq (st : RoundState) : validRoundState st = true := by
  cases st <;> decide

/-! ## The status word -/

/-- A failure reason: a C `int`, as its 32 bits. -/
abbrev Reason : Type := BitVec 32

/-- `FAIL_GENERIC`. -/
def failGeneric : Reason := 1
/-- `FAIL_FORWARD_TIMEOUT`. -/
def failForwardTimeout : Reason := 102
/-- `FAIL_PRIMARY_DEAD`. -/
def failPrimaryDead : Reason := 103
/-- `FAIL_WORKER_DEAD`. -/
def failWorkerDead : Reason := 104
/-- `FAIL_CORRUPT_OWNER`. -/
def failCorruptOwner : Reason := 108
/-- `FAIL_CORRUPT_STATE`. -/
def failCorruptState : Reason := 109
/-- `FAIL_FENCING`. -/
def failFencing : Reason := 110
/-- `FAIL_DUPLICATE_RANK`. -/
def failDuplicateRank : Reason := 111
/-- `FAIL_BARRIER_TIMEOUT`. -/
def failBarrierTimeout : Reason := 112
/-- `FAIL_CLOSE_ACTIVE`. -/
def failCloseActive : Reason := 113

/-- The status word: a global state and the reason it was entered for. -/
structure Status where
  state : GlobalState
  reason : Reason
  deriving DecidableEq, Repr

/-- `make_status`. -/
def makeStatus (state : GlobalState) (reason : Reason) : Status := ⟨state, reason⟩

/-- The reason `fail_pair` records: never zero. -/
def effectiveReason (reason : Reason) : Reason := if reason = 0 then failGeneric else reason

theorem effectiveReason_ne_zero (reason : Reason) : effectiveReason reason ≠ 0 := by
  unfold effectiveReason
  split
  · decide
  · assumption

/-! ## Time -/

/-- `heartbeat_expired`: never written, or older than the timeout. -/
def heartbeatExpired (heartbeat now timeoutMs : ℕ) : Bool :=
  heartbeat == 0 || (decide (heartbeat < now) && decide (timeoutMs * 1000000 < now - heartbeat))

/-- An expired heartbeat stays expired: time only makes it older. -/
theorem heartbeatExpired_mono {hb now now' timeout : ℕ} (h : now ≤ now')
    (he : heartbeatExpired hb now timeout = true) : heartbeatExpired hb now' timeout = true := by
  simp only [heartbeatExpired, Bool.or_eq_true, beq_iff_eq, Bool.and_eq_true,
    decide_eq_true_eq] at he ⊢
  omega

/-! ## One generation -/

/-- What is fixed for the lifetime of one shared-memory file. -/
structure Generation where
  /-- `worker_count`: the local ranks of each instance. -/
  workerCount : ℕ
  workerCount_pos : 0 < workerCount
  workerCount_le : workerCount ≤ 64
  heartbeatMs : ℕ
  peerTimeoutMs : ℕ
  forwardTimeoutMs : ℕ
  heartbeatMs_pos : 0 < heartbeatMs
  peerTimeoutMs_gt : heartbeatMs * 2 < peerTimeoutMs
  forwardTimeoutMs_pos : 0 < forwardTimeoutMs
  /-- The monotonic clock when the file was created. -/
  startNs : ℕ
  startNs_pos : 0 < startNs
  /-- The instance a context is opened for. -/
  inst : ℕ → Inst
  /-- Its local rank. -/
  rank : ℕ → ℕ
  rank_lt : ∀ c, rank c < workerCount
  /-- Its session, drawn by the caller. -/
  session : ℕ → ℕ
  session_ne_zero : ∀ c, session c ≠ 0
  /-- No two contexts of one slot draw the same session. -/
  session_inj : ∀ c d, inst c = inst d → rank c = rank d → session c = session d → c = d
  /-- The process that opens it. -/
  pid : ℕ → ℕ
  pid_pos : ∀ c, 0 < pid c
  /-- Only instance A worker rank 0 may create a generation. -/
  inst_zero : inst 0 = .A
  rank_zero : rank 0 = 0

namespace Generation

variable (g : Generation)

/-- `expected_mask`: one bit for every local rank. -/
def expectedMask : BitVec 64 := BitMask.full 64 g.workerCount

/-- The bit of a context's rank. -/
def bitOf (c : ℕ) : BitVec 64 := BitMask.bit 64 (g.rank c)

theorem rank_lt_64 (c : ℕ) : g.rank c < 64 :=
  Nat.lt_of_lt_of_le (g.rank_lt c) g.workerCount_le

/-- Two contexts for the same place: same instance and same rank. -/
def SameSlot (c d : ℕ) : Prop := g.inst c = g.inst d ∧ g.rank c = g.rank d

theorem SameSlot.symm {c d : ℕ} (h : g.SameSlot c d) : g.SameSlot d c := ⟨h.1.symm, h.2.symm⟩

end Generation

end YellowZone.PairSched
