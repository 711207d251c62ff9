import YellowZone.Machine.StructFormat
import YellowZone.PairSched.Basic

/-!
# Snapshots of the shared memory

`copy_snapshot` writes the shared memory into an array of 64-bit words, and `inspect_pair` reads
the array back in Python. Neither side names a field of the array: C counts an offset up, Python
computes its own offsets. The widths are those of the source here: the header, the masks and the
counters as they are stored, in 32 or 64 bits, and the array in 64-bit words, which Python sees as
numbers below 2^64.

A C `int` becomes a word by sign extension. Python takes the sign back (`_signed`) for the owner
words, the pids and the errors of the groups, but not for the reason of the status word, which comes
out wrong when it is negative.

The two ages and what is derived from them (`stale`, `registration_complete`) depend on the moment
of the inspection and are not part of the report here.

## Main results

* `copySnapshot`, `inspectPair` — the two sides
* `SharedState.report` — what is stored, in the form of the report
* `inspect_pair_decodes_iff` — the report is right, but for the reason, and when the reason is
* `negative_reason_misread` — a reason of −1
-/

namespace YellowZone.PairSched

open Machine

/-! ## The shared memory -/

/-- `PS_MAX_WORKERS`. -/
def maxWorkers : ℕ := 64

/-- `worker_slot`. -/
structure WorkerSlot where
  pid : BitVec 32
  session : BitVec 64
  lastSeq : BitVec 64
  heartbeatNs : BitVec 64
  deriving DecidableEq, Repr

/-- `instance_group`. -/
structure InstanceGroup where
  state : RoundState
  error : BitVec 32
  forwardSeq : BitVec 64
  grantId : BitVec 64
  readyMask : BitVec 64
  completeMask : BitVec 64
  exitMask : BitVec 64
  onlineMask : BitVec 64
  expectedMask : BitVec 64
  publishNs : BitVec 64
  workers : Fin maxWorkers → WorkerSlot

/-- `shared_state`, without its wake counters, which are not copied. -/
structure SharedState where
  magic : BitVec 64
  version : BitVec 32
  size : BitVec 32
  epoch : BitVec 64
  heartbeatMs : BitVec 32
  peerTimeoutMs : BitVec 32
  forwardTimeoutMs : BitVec 32
  workerCount : BitVec 32
  status : Status
  owner : BitVec 32
  lastOwner : BitVec 32
  deadlineNs : BitVec 64
  primaryHeartbeatNs : BitVec 64
  nextGrantId : BitVec 64
  groups : Inst → InstanceGroup

/-- The word of `make_status`: the state in the upper half, the reason in the lower. -/
def Status.word (st : Status) : BitVec 64 :=
  (BitVec.ofNat 32 st.state.code).setWidth 64 <<< 32 ||| st.reason.setWidth 64

/-- `status_state`. -/
def statusState (status : BitVec 64) : BitVec 32 := (status >>> 32).setWidth 32

/-- `status_reason`. -/
def statusReason (status : BitVec 64) : BitVec 32 := status.setWidth 32

theorem statusState_word (st : Status) :
    statusState st.word = BitVec.ofNat 32 st.state.code := by
  rw [statusState, Status.word]
  generalize BitVec.ofNat 32 st.state.code = x
  ext k hk
  have hlow : ¬32 + k < 32 := by omega
  have hhigh : 32 + k < 64 := by omega
  have hword : k < 64 := by omega
  simp [hlow, hhigh, hword, BitVec.getLsbD_eq_getElem hk]

theorem statusReason_word (st : Status) : statusReason st.word = st.reason := by
  rw [statusReason, Status.word]
  ext k hk
  simp

/-! ## The native side -/

/-- The header. -/
def headerWords (s : SharedState) : List (BitVec 64) :=
  [s.magic, s.version.setWidth 64, s.epoch, (statusState s.status.word).signExtend 64,
    (statusReason s.status.word).signExtend 64, s.owner.signExtend 64, s.lastOwner.signExtend 64,
    s.deadlineNs, s.primaryHeartbeatNs, s.heartbeatMs.setWidth 64, s.peerTimeoutMs.setWidth 64,
    s.forwardTimeoutMs.setWidth 64, s.nextGrantId, s.size.setWidth 64, s.workerCount.setWidth 64,
    0]

/-- The words of a group. -/
def groupWords (group : InstanceGroup) : List (BitVec 64) :=
  [(BitVec.ofNat 32 group.state.code).signExtend 64, group.forwardSeq, group.grantId,
    group.readyMask, group.completeMask, group.exitMask, group.onlineMask, group.expectedMask,
    group.publishNs, group.error.signExtend 64]

/-- The words of a slot. -/
def slotWords (slot : WorkerSlot) : List (BitVec 64) :=
  [slot.pid.signExtend 64, slot.session, slot.lastSeq, slot.heartbeatNs]

/-- The words of all slots of a group. -/
def groupSlotWords (group : InstanceGroup) : List (BitVec 64) :=
  (List.finRange maxWorkers).flatMap fun rank => slotWords (group.workers rank)

/-- `copy_snapshot`, into an array that is large enough. -/
def copySnapshot (s : SharedState) : List (BitVec 64) :=
  headerWords s ++ ([Inst.A, Inst.B].flatMap (fun i => groupWords (s.groups i)) ++
    [Inst.A, Inst.B].flatMap fun i => groupSlotWords (s.groups i))

/-! ## The report -/

/-- A worker in the report. -/
structure WorkerReport where
  rank : ℕ
  pid : ℤ
  session : ℕ
  lastSeq : ℕ
  heartbeatNs : ℕ
  online : Bool
  ready : Bool
  complete : Bool
  deriving DecidableEq, Repr

/-- An instance in the report. -/
structure InstanceReport where
  state : String
  forwardSeq : ℕ
  grantId : ℕ
  readyMask : ℕ
  completeMask : ℕ
  exitMask : ℕ
  registrationMask : ℕ
  expectedWorkerMask : ℕ
  publishNs : ℕ
  error : ℤ
  workers : List WorkerReport
  deriving DecidableEq, Repr

/-- What `inspect_pair` returns. -/
structure Report where
  protocolVersion : ℕ
  epoch : ℕ
  state : String
  failureReason : ℤ
  owner : Option String
  lastOwner : Option String
  deadlineNs : ℕ
  primaryHeartbeatNs : ℕ
  heartbeatMs : ℕ
  peerTimeoutMs : ℕ
  forwardTimeoutMs : ℕ
  nextGrantId : ℕ
  layoutSize : ℕ
  workerCount : ℕ
  instanceA : InstanceReport
  instanceB : InstanceReport
  deriving DecidableEq, Repr

/-! ## The Python side -/

/-- A value outside of a table. -/
def invalidName (n : ℤ) : String := "INVALID(" ++ toString n ++ ")"

/-- `GLOBAL_STATES.get(value, …)`. -/
def globalStateName : ℕ → String
  | 0 => "INITIALIZING"
  | 1 => "RUNNING"
  | 2 => "FAILED"
  | 3 => "SHUTDOWN"
  | n => invalidName n

/-- `ROUND_STATES.get(value, …)`. -/
def roundStateName : ℕ → String
  | 0 => "OFFLINE"
  | 1 => "IDLE"
  | 2 => "INITIALIZING"
  | 3 => "COLLECTING"
  | 4 => "READY"
  | 5 => "RUNNING"
  | 6 => "COMPLETE"
  | 7 => "DRAINING"
  | n => invalidName n

/-- The owner of an index. -/
def ownerName (index : ℤ) : Option String :=
  if index = -1 then none
  else if index = 0 then some "A"
  else if index = 1 then some "B"
  else some (invalidName index)

/-- `_signed`. -/
def signed (value : ℕ) : ℤ := if 2 ^ 63 ≤ value then value - 2 ^ 64 else value

/-- `bool(mask & (1 << rank))`. -/
def hasRank (mask rank : ℕ) : Bool := mask &&& (1 <<< rank) != 0

section Inspect

variable (raw : List ℕ)

/-- `raw[i]`. -/
def entry (i : ℕ) : ℕ := raw.getD i 0

/-- A worker of an instance. -/
def inspectWorker (index rank : ℕ) : WorkerReport :=
  let base := 16 + index * 10
  let offset := 16 + 2 * 10 + (index * 64 + rank) * 4
  { rank
    pid := signed (entry raw offset)
    session := entry raw (offset + 1)
    lastSeq := entry raw (offset + 2)
    heartbeatNs := entry raw (offset + 3)
    online := hasRank (entry raw (base + 6)) rank
    ready := hasRank (entry raw (base + 3)) rank
    complete := hasRank (entry raw (base + 4)) rank }

/-- An instance. -/
def inspectInstance (index : ℕ) : InstanceReport :=
  let base := 16 + index * 10
  { state := roundStateName (entry raw base)
    forwardSeq := entry raw (base + 1)
    grantId := entry raw (base + 2)
    readyMask := entry raw (base + 3)
    completeMask := entry raw (base + 4)
    exitMask := entry raw (base + 5)
    registrationMask := entry raw (base + 6)
    expectedWorkerMask := entry raw (base + 7)
    publishNs := entry raw (base + 8)
    error := signed (entry raw (base + 9))
    workers := (List.range (entry raw 14)).map (inspectWorker raw index) }

/-- `inspect_pair`, from the words of a snapshot on; `expectedEpoch` is that of the current
record. -/
def inspectPair (expectedEpoch : ℕ) : Except String Report :=
  if entry raw 2 ≠ expectedEpoch then .error "current record and shared epoch do not match"
  else .ok
    { protocolVersion := entry raw 1
      epoch := entry raw 2
      state := globalStateName (entry raw 3)
      failureReason := entry raw 4
      owner := ownerName (signed (entry raw 5))
      lastOwner := ownerName (signed (entry raw 6))
      deadlineNs := entry raw 7
      primaryHeartbeatNs := entry raw 8
      heartbeatMs := entry raw 9
      peerTimeoutMs := entry raw 10
      forwardTimeoutMs := entry raw 11
      nextGrantId := entry raw 12
      layoutSize := entry raw 13
      workerCount := entry raw 14
      instanceA := inspectInstance raw 0
      instanceB := inspectInstance raw 1 }

end Inspect

/-! ## What is stored -/

/-- The names of the states. -/
def GlobalState.name : GlobalState → String
  | .initializing => "INITIALIZING"
  | .running => "RUNNING"
  | .failed => "FAILED"
  | .shutdown => "SHUTDOWN"

/-- The names of the states of a round. -/
def RoundState.name : RoundState → String
  | .offline => "OFFLINE"
  | .idle => "IDLE"
  | .initializing => "INITIALIZING"
  | .collecting => "COLLECTING"
  | .ready => "READY"
  | .running => "RUNNING"
  | .complete => "COMPLETE"
  | .draining => "DRAINING"

/-- A worker, as it is stored. -/
def InstanceGroup.workerReport (group : InstanceGroup) (rank : Fin maxWorkers) : WorkerReport where
  rank := rank
  pid := (group.workers rank).pid.toInt
  session := (group.workers rank).session.toNat
  lastSeq := (group.workers rank).lastSeq.toNat
  heartbeatNs := (group.workers rank).heartbeatNs.toNat
  online := group.onlineMask.getLsbD rank
  ready := group.readyMask.getLsbD rank
  complete := group.completeMask.getLsbD rank

/-- An instance, as it is stored, with so many of its workers. -/
def InstanceGroup.report (group : InstanceGroup) (workerCount : ℕ) : InstanceReport where
  state := group.state.name
  forwardSeq := group.forwardSeq.toNat
  grantId := group.grantId.toNat
  readyMask := group.readyMask.toNat
  completeMask := group.completeMask.toNat
  exitMask := group.exitMask.toNat
  registrationMask := group.onlineMask.toNat
  expectedWorkerMask := group.expectedMask.toNat
  publishNs := group.publishNs.toNat
  error := group.error.toInt
  workers := ((List.finRange maxWorkers).take workerCount).map group.workerReport

/-- What is stored, in the form of the report. -/
def SharedState.report (s : SharedState) : Report where
  protocolVersion := s.version.toNat
  epoch := s.epoch.toNat
  state := s.status.state.name
  failureReason := s.status.reason.toInt
  owner := ownerName s.owner.toInt
  lastOwner := ownerName s.lastOwner.toInt
  deadlineNs := s.deadlineNs.toNat
  primaryHeartbeatNs := s.primaryHeartbeatNs.toNat
  heartbeatMs := s.heartbeatMs.toNat
  peerTimeoutMs := s.peerTimeoutMs.toNat
  forwardTimeoutMs := s.forwardTimeoutMs.toNat
  nextGrantId := s.nextGrantId.toNat
  layoutSize := s.size.toNat
  workerCount := s.workerCount.toNat
  instanceA := (s.groups .A).report s.workerCount.toNat
  instanceB := (s.groups .B).report s.workerCount.toNat

/-! ## Reading it back -/

/-- The words of a snapshot, as Python has them. -/
def rawWords (s : SharedState) : List ℕ := (copySnapshot s).map BitVec.toNat

/-- The position of an instance in a report. -/
def Inst.position : Inst → ℕ
  | .A => 0
  | .B => 1

/-- **Taking the sign back.** -/
theorem signed_signExtend (x : BitVec 32) : signed (x.signExtend 64).toNat = x.toInt := by
  have hsigned : signed (x.signExtend 64).toNat = (x.signExtend 64).toInt := by
    rw [signed, BitVec.toInt_eq_toNat_cond]
    split <;> split <;> omega
  rw [hsigned, BitVec.toInt_signExtend_of_le (by decide)]

/-- Without it, only what is not negative comes out right. -/
theorem toNat_signExtend_eq_iff (x : BitVec 32) :
    ((x.signExtend 64).toNat : ℤ) = x.toInt ↔ 0 ≤ x.toInt := by
  have h := signed_signExtend x
  have hlt := (x.signExtend 64).isLt
  rw [signed] at h
  split at h <;> omega

theorem hasRank_toNat (mask : BitVec 64) (rank : ℕ) :
    hasRank mask.toNat rank = mask.getLsbD rank := by
  rw [hasRank, Nat.one_shiftLeft, Nat.and_two_pow, BitVec.getLsbD]
  cases mask.toNat.testBit rank <;> simp

variable (s : SharedState)

theorem entry_rawWords (i : ℕ) : entry (rawWords s) i = ((copySnapshot s).getD i 0).toNat := by
  rw [entry, rawWords, List.getD_eq_getElem?_getD, List.getD_eq_getElem?_getD, List.getElem?_map]
  cases (copySnapshot s)[i]? <;> rfl

/-- A word of a slot. -/
theorem entry_slot (i : Inst) (rank : Fin maxWorkers) {k : ℕ} (hk : k < 4) :
    entry (rawWords s) (16 + 2 * 10 + (i.position * 64 + rank) * 4 + k) =
      ((slotWords ((s.groups i).workers rank)).getD k 0).toNat := by
  have hslot (i : Inst) (rank : Fin maxWorkers) :
      (slotWords ((s.groups i).workers rank)).length = 4 := rfl
  have hgroup (i : Inst) : (groupSlotWords (s.groups i)).length = 256 := by
    rw [groupSlotWords, length_flatMap_of_size (hslot i), List.length_finRange]
    rfl
  have hrank : rank.val < 64 := rank.isLt
  have hinner : rank.val < (List.finRange maxWorkers).length := by simp
  have houter : i.position < [Inst.A, Inst.B].length := by cases i <;> decide
  have hfirst : (headerWords s ++
      [Inst.A, Inst.B].flatMap fun i => groupWords (s.groups i)).length = 36 := rfl
  have hindex : 16 + 2 * 10 + (i.position * 64 + rank) * 4 + k - 36 =
      i.position * 256 + (rank * 4 + k) := by omega
  have hinst : [Inst.A, Inst.B][i.position] = i := by cases i <;> rfl
  rw [entry_rawWords, copySnapshot, ← List.append_assoc, List.getD_append_right, hfirst, hindex,
    getD_flatMap hgroup houter (by omega), hinst, groupSlotWords,
    getD_flatMap (hslot i) hinner hk, List.getElem_finRange]
  · rfl
  · rw [hfirst]
    omega

/-- A word of a group. -/
theorem entry_group (i : Inst) {k : ℕ} (hk : k < 10) :
    entry (rawWords s) (16 + i.position * 10 + k) =
      ((groupWords (s.groups i)).getD k 0).toNat := by
  have hwords (i : Inst) : (groupWords (s.groups i)).length = 10 := rfl
  have houter : i.position < [Inst.A, Inst.B].length := by cases i <;> decide
  have hinst : [Inst.A, Inst.B][i.position] = i := by cases i <;> rfl
  have hheader : (headerWords s).length = 16 := rfl
  have hgroups : ([Inst.A, Inst.B].flatMap fun i => groupWords (s.groups i)).length = 20 := rfl
  have hindex : 16 + i.position * 10 + k - 16 = i.position * 10 + k := by omega
  have hlast : i.position * 10 + k < 20 := by
    have : i.position < 2 := houter
    omega
  rw [entry_rawWords, copySnapshot, List.getD_append_right _ _ _ _ (by rw [hheader]; omega),
    hheader, hindex, List.getD_append _ _ _ _ (by rwa [hgroups]), getD_flatMap hwords houter hk,
    hinst]

/-- **A worker** comes out as it is stored. -/
theorem inspectWorker_rawWords (i : Inst) (rank : Fin maxWorkers) :
    inspectWorker (rawWords s) i.position rank = (s.groups i).workerReport rank := by
  have hpid := entry_slot s i rank (k := 0) (by decide)
  rw [inspectWorker, InstanceGroup.workerReport]
  simp only [entry_slot s i rank (k := 1) (by decide), entry_slot s i rank (k := 2) (by decide),
    entry_slot s i rank (k := 3) (by decide), entry_group s i (k := 6) (by decide),
    entry_group s i (k := 3) (by decide), entry_group s i (k := 4) (by decide)]
  rw [Nat.add_zero] at hpid
  rw [hpid]
  simp only [slotWords, groupWords, List.getD_cons_zero, List.getD_cons_succ, signed_signExtend,
    hasRank_toNat]

theorem roundStateName_code (st : RoundState) :
    roundStateName ((BitVec.ofNat 32 st.code).signExtend 64).toNat = st.name := by
  cases st <;> decide

theorem globalStateName_code (st : GlobalState) :
    globalStateName ((BitVec.ofNat 32 st.code).signExtend 64).toNat = st.name := by
  cases st <;> decide

/-- Widening an unsigned field. -/
theorem toNat_setWidth (x : BitVec 32) : (x.setWidth 64).toNat = x.toNat :=
  BitVec.toNat_setWidth_of_le (by decide : 32 ≤ 64)

theorem entry_workerCount : entry (rawWords s) 14 = s.workerCount.toNat :=
  (entry_rawWords s 14).trans (toNat_setWidth s.workerCount)

/-- **An instance** comes out as it is stored. -/
theorem inspectInstance_rawWords (hcount : s.workerCount.toNat ≤ maxWorkers) (i : Inst) :
    inspectInstance (rawWords s) i.position = (s.groups i).report s.workerCount.toNat := by
  have hstate := entry_group s i (k := 0) (by decide)
  rw [Nat.add_zero] at hstate
  have hworkers : (List.range s.workerCount.toNat).map (inspectWorker (rawWords s) i.position) =
      ((List.finRange maxWorkers).take s.workerCount.toNat).map (s.groups i).workerReport := by
    refine List.ext_getElem (by simp [hcount]) fun rank hrank _ => ?_
    have hlt : rank < s.workerCount.toNat := by simpa using hrank
    simpa using inspectWorker_rawWords s i ⟨rank, hlt.trans_le hcount⟩
  rw [inspectInstance, InstanceGroup.report]
  simp only [hstate, entry_workerCount, hworkers, entry_group s i (k := 1) (by decide),
    entry_group s i (k := 2) (by decide), entry_group s i (k := 3) (by decide),
    entry_group s i (k := 4) (by decide), entry_group s i (k := 5) (by decide),
    entry_group s i (k := 6) (by decide), entry_group s i (k := 7) (by decide),
    entry_group s i (k := 8) (by decide), entry_group s i (k := 9) (by decide)]
  simp only [groupWords, List.getD_cons_zero, List.getD_cons_succ, signed_signExtend,
    roundStateName_code]

/-- **The report.** It is right in every field but the reason of the status, and in that one
exactly if the reason is not negative. -/
theorem inspect_pair_decodes_iff (hcount : s.workerCount.toNat ≤ maxWorkers) :
    ∃ report, inspectPair (rawWords s) s.epoch.toNat = .ok report ∧
      report = { s.report with failureReason := report.failureReason } ∧
      (report.failureReason = s.report.failureReason ↔ 0 ≤ s.status.reason.toInt) := by
  have hheader (i : ℕ) (hi : i < 16) :
      entry (rawWords s) i = ((headerWords s).getD i 0).toNat := by
    rw [entry_rawWords, copySnapshot, List.getD_append _ _ _ _ (by exact hi)]
  have hepoch : entry (rawWords s) 2 = s.epoch.toNat := hheader 2 (by decide)
  have hA : inspectInstance (rawWords s) 0 = (s.groups .A).report s.workerCount.toNat :=
    inspectInstance_rawWords s hcount .A
  have hB : inspectInstance (rawWords s) 1 = (s.groups .B).report s.workerCount.toNat :=
    inspectInstance_rawWords s hcount .B
  refine ⟨_, if_neg (not_not.mpr hepoch), ?_, ?_⟩
  · simp only [hA, hB, hheader, SharedState.report, Nat.reduceLT]
    simp only [headerWords, List.getD_cons_zero, List.getD_cons_succ, statusState_word,
      globalStateName_code, signed_signExtend, toNat_setWidth]
  · rw [hheader 4 (by decide)]
    simp only [headerWords, List.getD_cons_zero, List.getD_cons_succ, statusReason_word,
      SharedState.report]
    exact toNat_signExtend_eq_iff s.status.reason

/-- An empty generation with one worker in each instance and a given status. -/
def plainState (status : Status) : SharedState where
  magic := 0x5650534348454434
  version := 4
  size := 4336
  epoch := 1
  heartbeatMs := 100
  peerTimeoutMs := 1000
  forwardTimeoutMs := 1000
  workerCount := 1
  status
  owner := -1
  lastOwner := -1
  deadlineNs := 0
  primaryHeartbeatNs := 1
  nextGrantId := 0
  groups _ :=
    { state := .offline
      error := 0
      forwardSeq := 0
      grantId := 0
      readyMask := 0
      completeMask := 0
      exitMask := 0
      onlineMask := 0
      expectedMask := 1
      publishNs := 0
      workers := fun _ => ⟨0, 0, 0, 0⟩ }

/-- A timeout is reported as it is recorded. -/
theorem inspect_pair_reports_timeout :
    ∃ report, inspectPair (rawWords (plainState ⟨.failed, failForwardTimeout⟩)) 1 = .ok report ∧
      report.failureReason = 102 := by
  obtain ⟨report, hok, -, hreason⟩ :=
    inspect_pair_decodes_iff (plainState ⟨.failed, failForwardTimeout⟩) (by decide)
  exact ⟨report, hok, hreason.mpr (by decide)⟩

/-- A reason of −1 is reported as 2^64 − 1. -/
theorem negative_reason_misread :
    (inspectPair (rawWords (plainState ⟨.failed, -1⟩)) 1).toOption.map Report.failureReason =
        some (2 ^ 64 - 1) ∧
      (plainState ⟨.failed, -1⟩).report.failureReason = -1 := by
  decide +kernel

end YellowZone.PairSched
