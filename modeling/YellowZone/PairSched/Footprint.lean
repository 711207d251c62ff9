import YellowZone.PairSched.System

/-!
# The one word a step writes

Every step of a thread is one command, and a command writes at most one word. `written` is that
word, and `frame_of_step` says that a step leaves all others alone.
-/

namespace YellowZone.PairSched

open Machine

variable {g : Generation} {s s' : State} {a : Act}

/-- The word the step of an action writes. -/
def written (g : Generation) (s : State) : Act → Option Loc
  | .call c _ => (callCode g c (s.ctx c).locals (s.ctx c).call).bind Cmd.target
  | .close c => (s.ctx c).close.bind fun pc => (psClose g c (s.ctx c).locals pc).target
  | .fail c => (s.ctx c).fail.bind fun pc => (failPair pc).target
  | .beat c => (heartbeatMain g c (s.ctx c).heartbeat).target
  | .coord => (coordinatorMain g s.coord).target
  | _ => none

/-- **Frame.** -/
theorem frame_of_step (h : step g s a = some s') {l : Loc} (hl : written g s a ≠ some l) :
    s'.mem l = s.mem l := by
  cases steps_of_step h with
  | call c b hk hc hr => exact Cmd.exec_frame hr (by simpa [written, hc] using hl)
  | close c hk hc hr | fail c hk hc hr => exact Cmd.exec_frame hr (by simpa [written, hc] using hl)
  | beat c hk hr | coord hk hr => exact Cmd.exec_frame hr hl
  | _ => rfl

/-! ## The words of a slot -/

/-- The words of the worker slots, and the masks of the slots in use. -/
def Loc.isSlot : Loc → Bool
  | .onlineMask _ | .pid _ _ | .session _ _ | .lastSeq _ _ | .heartbeatNs _ _ => true
  | _ => false

/-- The words of the rounds: what forward calls, the coordinator and `fail_pair` write, apart from
the sequence a call announces in its slot. -/
def Loc.isRound : Loc → Bool
  | .stopping _ | .heartbeatStarted _ | .heartbeatDone _ | .coordinatorStarted => false
  | l => !l.isSlot

/-- The words that a tick of the coordinator writes, with those of `fail_pair`. -/
def Loc.isTick : Loc → Bool
  | .status | .owner | .lastOwner | .deadlineNs | .primaryHeartbeatNs | .nextGrantId => true
  | .coordinatorWake | .groupWake _ | .state _ | .grantId _ | .exitMask _ => true
  | .coordinatorDone => true
  | _ => false

theorem Loc.isRound_of_isTick {l : Loc} (h : l.isTick = true) : l.isRound = true := by
  cases l <;> first
    | rfl
    | cases h

/-- The steps that write a word of a slot. -/
inductive SlotWriter (g : Generation) (s : State) : Act → Loc → Prop
  | setLast {c q} (b : Bool) (h : (s.ctx c).call = .enter (.setLast q)) :
      SlotWriter g s (.call c b) (.lastSeq (g.inst c) (g.rank c))
  | regPid {c now} (b : Bool) (h : (s.ctx c).call = .opening (.regPid now)) :
      SlotWriter g s (.call c b) (.pid (g.inst c) (g.rank c))
  | regLastSeq {c now} (b : Bool) (h : (s.ctx c).call = .opening (.regLastSeq now)) :
      SlotWriter g s (.call c b) (.lastSeq (g.inst c) (g.rank c))
  | regHeartbeat {c now} (b : Bool) (h : (s.ctx c).call = .opening (.regHeartbeat now)) :
      SlotWriter g s (.call c b) (.heartbeatNs (g.inst c) (g.rank c))
  | regSession {c} (b : Bool) (h : (s.ctx c).call = .opening .regSession) :
      SlotWriter g s (.call c b) (.session (g.inst c) (g.rank c))
  | regOnline {c} (b : Bool) (h : (s.ctx c).call = .opening .regOnline) :
      SlotWriter g s (.call c b) (.onlineMask (g.inst c))
  | undoOnline {c e} (b : Bool) (h : (s.ctx c).call = .opening (.undoOnline e)) :
      SlotWriter g s (.call c b) (.onlineMask (g.inst c))
  | clearOnline {c st} (h : (s.ctx c).close = some (.clearOnline st)) :
      SlotWriter g s (.close c) (.onlineMask (g.inst c))
  | clearHeartbeat {c st} (h : (s.ctx c).close = some (.clearHeartbeat st)) :
      SlotWriter g s (.close c) (.heartbeatNs (g.inst c) (g.rank c))
  | clearPid {c st} (h : (s.ctx c).close = some (.clearPid st)) :
      SlotWriter g s (.close c) (.pid (g.inst c) (g.rank c))
  | clearSession {c st} (h : (s.ctx c).close = some (.clearSession st)) :
      SlotWriter g s (.close c) (.session (g.inst c) (g.rank c))
  | beat {c t} (h : (s.ctx c).heartbeat = .store t) :
      SlotWriter g s (.beat c) (.heartbeatNs (g.inst c) (g.rank c))

section Targets

variable {c : ℕ} {x : Locals} {l : Loc}

theorem failPair_target {pc : FailPc} (h : (failPair pc).target = some l) : l.isTick = true := by
  rcases pc with reason | (_ | _ | _) <;> cases h <;> rfl

theorem enter_target {pc : EnterPc} (h : (psEnterForward g c x pc).target = some l) :
    l.isRound = true ∨ (∃ q, pc = .setLast q) ∧ l = .lastSeq (g.inst c) (g.rank c) := by
  cases pc with
  | setLast q => cases h; exact .inr ⟨⟨q, rfl⟩, rfl⟩
  | begin b => cases b <;> cases h <;> exact .inl rfl
  | validate q gr v => cases v <;> cases h
  | fail e f =>
    rw [psEnterForward, Cmd.target_map] at h
    exact .inl (Loc.isRound_of_isTick (failPair_target h))
  | done r e => cases e <;> cases h <;> exact .inl rfl
  | _ => cases h <;> exact .inl rfl

theorem leave_target {q gid : ℕ} {pc : LeavePc}
    (h : (psLeaveForward g c x q gid pc).target = some l) : l.isRound = true := by
  cases pc with
  | begin b => cases b <;> cases h <;> rfl
  | validate v => cases v <;> cases h
  | fail e f =>
    rw [psLeaveForward, Cmd.target_map] at h
    exact Loc.isRound_of_isTick (failPair_target h)
  | done r e => cases e <;> cases h <;> rfl
  | _ => cases h <;> rfl

theorem groupWorkersAlive_target (i : Inst) (mask : BitVec 64) (now : ℕ) (pc : AlivePc) :
    (groupWorkersAlive g i mask now pc).target = none := by
  cases pc with
  | rank r =>
    rw [groupWorkersAlive]
    split
    · split <;> rfl
    · rfl
  | _ => rfl

theorem coord_target {pc : CoordPc} (h : (coordinatorMain g pc).target = some l) :
    l.isTick = true := by
  match pc with
  | .start | .stopping | .wake | .wait _ | .done => cases h
  | .finish => cases h; rfl
  | .tick _ .status | .tick _ .clock | .tick _ (.owner _) | .tick _ (.statusAgain _)
  | .tick _ (.ownerAgain _) => cases h
  | .tick _ (.storePrimary _) => cases h; rfl
  | .tick _ (.validate v) =>
    simp only [coordinatorMain, coordinatorTick, Cmd.target_map] at h
    cases v with
    | fail f =>
      rw [validateShared, Cmd.target_map] at h
      exact failPair_target h
    | _ => cases h
  | .tick _ (.recycle _ o r) =>
    simp only [coordinatorMain, coordinatorTick, Cmd.target_map] at h
    cases r with
    | fail f =>
      rw [recycleComplete, Cmd.target_map] at h
      exact failPair_target h
    | alive a =>
      rw [recycleComplete, Cmd.target_map, groupWorkersAlive_target] at h
      cases h
    | _ => cases h <;> rfl
  | .tick _ (.dispatch _ d) =>
    simp only [coordinatorMain, coordinatorTick, Cmd.target_map] at h
    cases d with
    | fail f =>
      rw [dispatchNext, Cmd.target_map] at h
      exact failPair_target h
    | barrierAlive i a st rm om pub l =>
      rw [dispatchNext, Cmd.target_map, groupWorkersAlive_target] at h
      cases h
    | readyAlive i a pub l =>
      rw [dispatchNext, Cmd.target_map, groupWorkersAlive_target] at h
      cases h
    | _ => cases h <;> rfl

end Targets

/-- **Who writes a slot.** -/
theorem slotWriter_of_written {l : Loc} (h : written g s a = some l) (hl : l.isSlot = true) :
    SlotWriter g s a l := by
  have hround : l.isRound ≠ true := by
    cases l <;> simp_all [Loc.isSlot, Loc.isRound]
  cases a with
  | call c b =>
    obtain ⟨cmd, hc, ht⟩ := Option.bind_eq_some_iff.mp h
    cases hpc : (s.ctx c).call with
    | opening pc =>
      rw [hpc] at hc
      cases hc
      rw [Cmd.target_map] at ht
      cases pc with
      | regPid now => cases ht; exact .regPid b hpc
      | regLastSeq now => cases ht; exact .regLastSeq b hpc
      | regHeartbeat now => cases ht; exact .regHeartbeat b hpc
      | regSession => cases ht; exact .regSession b hpc
      | regOnline => cases ht; exact .regOnline b hpc
      | undoOnline e => cases ht; exact .undoOnline b hpc
      | _ => cases ht <;> cases hl
    | enter pc =>
      rw [hpc] at hc
      cases hc
      rw [Cmd.target_map] at ht
      obtain ⟨⟨q, rfl⟩, rfl⟩ := (enter_target ht).resolve_left hround
      exact .setLast b hpc
    | leave q gid pc =>
      rw [hpc] at hc
      cases hc
      rw [Cmd.target_map] at ht
      exact absurd (leave_target ht) hround
    | _ => rw [hpc] at hc; cases hc
  | close c =>
    obtain ⟨pc, hpc, ht⟩ := Option.bind_eq_some_iff.mp h
    cases pc with
    | clearOnline st => cases ht; exact .clearOnline hpc
    | clearHeartbeat st => cases ht; exact .clearHeartbeat hpc
    | clearPid st => cases ht; exact .clearPid hpc
    | clearSession st => cases ht; exact .clearSession hpc
    | fail st f =>
      rw [psClose, Cmd.target_map] at ht
      exact absurd (Loc.isRound_of_isTick (failPair_target ht)) hround
    | shutdownWake w => rcases w with _ | _ | _ <;> cases ht <;> cases hl
    | _ => cases ht <;> cases hl
  | fail c =>
    obtain ⟨pc, -, ht⟩ := Option.bind_eq_some_iff.mp h
    exact absurd (Loc.isRound_of_isTick (failPair_target ht)) hround
  | beat c =>
    change (heartbeatMain g c (s.ctx c).heartbeat).target = some l at h
    cases hpc : (s.ctx c).heartbeat with
    | store t => rw [hpc] at h; cases h; exact .beat hpc
    | _ => rw [hpc] at h; cases h <;> cases hl
  | coord => exact absurd (Loc.isRound_of_isTick (coord_target h)) hround
  | _ => cases h

end YellowZone.PairSched
