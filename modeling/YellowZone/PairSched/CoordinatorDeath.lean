import YellowZone.PairSched.Waiting

/-!
# Who notices that the coordinator is dead

The coordinator proves that it lives by `primary_heartbeat_ns`. When that has grown older than the
peer timeout, a waiting caller is to fail the pair and return. The test stands in one of the three
wait loops only, the one that waits for a grant. A call in the first loop of `ps_enter_forward`
gets there if the group lets it through; a call that waits for its completed round to be recycled
never does, and nobody but the dead coordinator could recycle it.

## Main definitions and results

* `Noticed` — the call has returned `-1` and the pair is FAILED
* `Notices` — the condition on the memory at a wait
* `noticed_iff` — a waiting call, left to itself, notices exactly under that condition
* `dead_coordinator_unnoticed` — a run after which a completed round waits for ever
-/

namespace YellowZone.PairSched

open Machine

variable {g : Generation} {c : ℕ} {m m' : Memory} {x x' : Locals} {t t₀ : ℕ} {s : State}
  {clock : ℕ → ℕ}

/-- The call is in one of the three futex waits. -/
def CallPc.waits : CallPc → Bool
  | .enter (.idleWait _ _) | .enter (.grantWait _ _) | .leave _ _ (.drainWait _) => true
  | _ => false

/-- The call has returned `-1`, and the pair is FAILED. -/
def Noticed (m : Memory) : CallPc → Prop
  | .idle (.entered (.error _)) | .idle (.left _ (.error _)) => (m .status).state = .failed
  | _ => False

/-- What a call with sequence `q` needs to get from the first loop of `ps_enter_forward` to the
test, or into some other failure: a group that is not in transit, and, if it goes on to wait for
a grant, that it is not turned away there because the context is being closed. -/
def IdleNotices (g : Generation) (c : ℕ) (m : Memory) (q : ℕ) : Prop :=
  match m (.state (g.inst c)) with
  | .initializing | .draining => False
  | .idle => m (.stopping c) = false
  | .collecting => m (.forwardSeq (g.inst c)) = q →
      ¬BitMask.HasBit (m (.readyMask (g.inst c))) (g.rank c) → m (.stopping c) = false
  | .offline | .ready | .running | .complete => True

/-- When a waiting call notices. In the drain loop only a round that is no longer the caller's
makes it fail the pair. -/
def Notices (g : Generation) (c : ℕ) (m : Memory) : CallPc → Prop
  | .enter (.idleWait q _) => IdleNotices g c m q
  | .enter (.grantWait _ _) => m (.stopping c) = false
  | .leave q _ (.drainWait _) => m (.stopping c) = false ∧
      (m (.forwardSeq (g.inst c)) ≠ q ∨ m (.state (g.inst c)) ≠ .running ∧
        m (.state (g.inst c)) ≠ .complete ∧ m (.state (g.inst c)) ≠ .draining)
  | _ => False

instance (q : ℕ) : Decidable (IdleNotices g c m q) := by
  unfold IdleNotices
  split <;> infer_instance

instance (pc : CallPc) : Decidable (Notices g c m pc) := by
  unfold Notices
  split <;> infer_instance

/-! ## Calls that are going to notice -/

/-- RUNNING, with a heartbeat that is expired from `t₀` on. -/
structure Orphaned (g : Generation) (t₀ : ℕ) (m : Memory) : Prop where
  status : m .status = makeStatus .running 0
  expired : heartbeatExpired (m .primaryHeartbeatNs) t₀ g.peerTimeoutMs = true

/-- The points of `ps_enter_forward` on the way to the failure, with what keeps them on it. -/
def EnterDoomed (g : Generation) (t₀ c : ℕ) (m : Memory) : EnterPc → Prop
  | .idleWait q _ | .idleWake q | .idleState q _ => Orphaned g t₀ m ∧ IdleNotices g c m q
  | .casInit _ => Orphaned g t₀ m ∧ m (.state (g.inst c)) = .idle ∧ m (.stopping c) = false
  | .joinSeq q st => Orphaned g t₀ m ∧ (st = .collecting → m (.forwardSeq (g.inst c)) = q →
      ¬BitMask.HasBit (m (.readyMask (g.inst c))) (g.rank c) → m (.stopping c) = false)
  | .setLast _ | .orReady _ => Orphaned g t₀ m ∧
      (¬BitMask.HasBit (m (.readyMask (g.inst c))) (g.rank c) → m (.stopping c) = false)
  | .initSeq _ | .initGrant _ | .initReady _ | .initComplete _ | .initExit _ | .initClock _
  | .initPublish _ _ | .initState _ | .initWake _ | .casReady _ | .readyWakeCoordinator _
  | .readyWakeGroup _ | .grantWait _ _ | .grantWake _ | .grantStopping _ _ | .grantStatus _ _
  | .grantHeartbeat _ _ => Orphaned g t₀ m ∧ m (.stopping c) = false
  | .grantClock _ _ hb => Orphaned g t₀ m ∧ heartbeatExpired hb t₀ g.peerTimeoutMs = true
  | .fail _ (.cas _) => m .status = makeStatus .running 0
  | .fail _ (.wake _) | .done (.error _) _ => (m .status).state = .failed
  | _ => False

/-- The points of `ps_leave_forward` on the way to the failure. -/
def LeaveDoomed (g : Generation) (c q : ℕ) (m : Memory) : LeavePc → Prop
  | .drainWait _ | .drainWake | .drainStopping _ | .drainStatus _ | .drainState _ =>
      m .status = makeStatus .running 0 ∧ m (.stopping c) = false ∧
      (m (.forwardSeq (g.inst c)) ≠ q ∨ m (.state (g.inst c)) ≠ .running ∧
        m (.state (g.inst c)) ≠ .complete ∧ m (.state (g.inst c)) ≠ .draining)
  | .drainSeq _ st => m .status = makeStatus .running 0 ∧
      (m (.forwardSeq (g.inst c)) ≠ q ∨ st ≠ .running ∧ st ≠ .complete ∧ st ≠ .draining)
  | .fail _ (.cas _) => m .status = makeStatus .running 0
  | .fail _ (.wake _) | .done (.error _) _ => (m .status).state = .failed
  | _ => False

/-- A call on its way to the failure. -/
def Doomed (g : Generation) (t₀ c : ℕ) (m : Memory) : CallPc → Prop
  | .enter pc => EnterDoomed g t₀ c m pc
  | .leave q _ pc => LeaveDoomed g c q m pc
  | _ => False

/-- The way is straight: no turn of a loop is started again. -/
def doomedFuel : CallPc → ℕ
  | .enter pc => enterOrder pc
  | .leave _ _ pc => leaveOrder pc
  | _ => 0

/-- `fail_pair` takes RUNNING to FAILED. -/
theorem failStatus_running (reason : Reason) :
    (failStatus reason (makeStatus .running 0)).state = .failed := rfl

/-- The outcome of a step on the way: nearer to the failure, or returned after it. -/
def DoomedNext (g : Generation) (t₀ c : ℕ) (pc : CallPc) (r : Memory × Locals × CallPc) : Prop :=
  Noticed r.1 r.2.2 ∨ Doomed g t₀ c r.1 r.2.2 ∧ doomedFuel r.2.2 < doomedFuel pc

theorem EnterDoomed.next {pc : EnterPc} (h : EnterDoomed g t₀ c m pc) (ht : t₀ ≤ t) :
    ∃ r, soloExec g c x (.enter pc) m t = some r ∧ DoomedNext g t₀ c (.enter pc) r := by
  cases pc with
  | idleWait q w | idleWake q => exact ⟨_, rfl, .inr ⟨h, by simp [doomedFuel]⟩⟩
  | idleState q w =>
    obtain ⟨ho, hn⟩ := h
    cases hs : m (.state (g.inst c)) <;> simp only [IdleNotices, hs] at hn
    all_goals
      refine ⟨_, by simp [soloExec, callCode, psEnterForward, Cmd.map, Cmd.exec, hs]; rfl, .inr ?_⟩
    · exact ⟨⟨ho, by rintro ⟨⟩⟩, by simp [doomedFuel]⟩
    · exact ⟨⟨ho, hs, hn⟩, by simp [doomedFuel]⟩
    · exact ⟨⟨ho, fun _ => hn⟩, by simp [doomedFuel]⟩
    all_goals exact ⟨⟨ho, by rintro ⟨⟩⟩, by simp [doomedFuel]⟩
  | casInit q =>
    obtain ⟨ho, hi, hstop⟩ := h
    refine ⟨_, by simp [soloExec, callCode, psEnterForward, Cmd.map, Cmd.exec, hi]; rfl, .inr ?_⟩
    exact ⟨⟨⟨ho.status, ho.expired⟩, hstop⟩, by simp [doomedFuel]⟩
  | initSeq q | initGrant q | initReady q | initComplete q | initExit q | initClock q
  | initPublish q t | initState q | readyWakeCoordinator q | readyWakeGroup q | grantWait q w
  | grantWake q =>
    exact ⟨_, rfl, .inr ⟨⟨⟨h.1.status, h.1.expired⟩, h.2⟩, by simp [doomedFuel]⟩⟩
  | initWake q =>
    exact ⟨_, rfl, .inr ⟨⟨⟨h.1.status, h.1.expired⟩, fun _ => h.2⟩, by simp [doomedFuel]⟩⟩
  | joinSeq q st =>
    obtain ⟨ho, hn⟩ := h
    by_cases hj : st = .collecting ∧ m (.forwardSeq (g.inst c)) = q
    · refine ⟨_, by simp [soloExec, callCode, psEnterForward, Cmd.map, Cmd.exec, hj]; rfl, .inr ?_⟩
      exact ⟨⟨ho, hn hj.1 hj.2⟩, by simp [doomedFuel]⟩
    · refine ⟨_, by simp [soloExec, callCode, psEnterForward, Cmd.map, Cmd.exec, hj]; rfl, .inr ?_⟩
      exact ⟨ho.status, by simp [doomedFuel]⟩
  | setLast q => exact ⟨_, rfl, .inr ⟨⟨⟨h.1.status, h.1.expired⟩, h.2⟩, by simp [doomedFuel]⟩⟩
  | orReady q =>
    obtain ⟨ho, hn⟩ := h
    by_cases hb : BitMask.HasBit (m (.readyMask (g.inst c))) (g.rank c)
    · refine ⟨_, by simp [soloExec, callCode, psEnterForward, Cmd.map, Cmd.exec, hb]; rfl, .inr ?_⟩
      exact ⟨ho.status, by simp [doomedFuel]⟩
    · by_cases hf : m (.readyMask (g.inst c)) ||| g.bitOf c = g.expectedMask <;>
      · refine ⟨_, by simp [soloExec, callCode, psEnterForward, Cmd.map, Cmd.exec, hb, hf]; rfl,
          .inr ?_⟩
        exact ⟨⟨⟨ho.status, ho.expired⟩, hn hb⟩, by simp [doomedFuel]⟩
  | casReady q =>
    obtain ⟨ho, hstop⟩ := h
    by_cases hi : m (.state (g.inst c)) = .collecting
    · refine ⟨_, by simp [soloExec, callCode, psEnterForward, Cmd.map, Cmd.exec, hi]; rfl, .inr ?_⟩
      exact ⟨⟨⟨ho.status, ho.expired⟩, hstop⟩, by simp [doomedFuel]⟩
    · refine ⟨_, by simp [soloExec, callCode, psEnterForward, Cmd.map, Cmd.exec, hi]; rfl, .inr ?_⟩
      exact ⟨ho.status, by simp [doomedFuel]⟩
  | grantStopping q w =>
    refine ⟨_, by simp [soloExec, callCode, psEnterForward, Cmd.map, Cmd.exec, h.2]; rfl, .inr ?_⟩
    exact ⟨h, by simp [doomedFuel]⟩
  | grantStatus q w =>
    have hr : (m .status).state = .running := by rw [h.1.status]; rfl
    refine ⟨_, by simp [soloExec, callCode, psEnterForward, Cmd.map, Cmd.exec, hr]; rfl, .inr ?_⟩
    exact ⟨h, by simp [doomedFuel]⟩
  | grantHeartbeat q w => exact ⟨_, rfl, .inr ⟨⟨h.1, h.1.expired⟩, by simp [doomedFuel]⟩⟩
  | grantClock q w hb =>
    have he := heartbeatExpired_mono ht h.2
    refine ⟨_, by simp [soloExec, callCode, psEnterForward, Cmd.map, Cmd.exec, he]; rfl, .inr ?_⟩
    exact ⟨h.1.status, by simp [doomedFuel]⟩
  | fail e f =>
    rcases f with reason | (_ | _ | _)
    · refine ⟨_, rfl, .inr ⟨?_, by simp [doomedFuel]⟩⟩
      have hs : m .status = makeStatus .running 0 := h
      simp only [Ctl.elim, Doomed, EnterDoomed, Mem.set_self, hs]
      exact failStatus_running reason
    all_goals exact ⟨_, rfl, .inr ⟨h, by simp [doomedFuel]⟩⟩
  | done r e =>
    rcases r with err | r
    · cases e with
      | uncount => exact ⟨_, rfl, .inr ⟨h, by simp [doomedFuel]⟩⟩
      | wake => exact ⟨_, rfl, .inl h⟩
    · exact h.elim
  | _ => exact h.elim

theorem LeaveDoomed.next {q gid : ℕ} {pc : LeavePc} (h : LeaveDoomed g c q m pc) :
    ∃ r, soloExec g c x (.leave q gid pc) m t = some r ∧
      DoomedNext g t₀ c (.leave q gid pc) r := by
  cases pc with
  | drainWait w | drainWake => exact ⟨_, rfl, .inr ⟨h, by simp [doomedFuel]⟩⟩
  | drainStopping w =>
    refine ⟨_, by simp [soloExec, callCode, psLeaveForward, Cmd.map, Cmd.exec, h.2.1]; rfl,
      .inr ?_⟩
    exact ⟨h, by simp [doomedFuel]⟩
  | drainStatus w =>
    have hr : (m .status).state = .running := by rw [h.1]; rfl
    refine ⟨_, by simp [soloExec, callCode, psLeaveForward, Cmd.map, Cmd.exec, hr]; rfl, .inr ?_⟩
    exact ⟨h, by simp [doomedFuel]⟩
  | drainState w => exact ⟨_, rfl, .inr ⟨⟨h.1, h.2.2⟩, by simp [doomedFuel]⟩⟩
  | drainSeq w st =>
    have hd : ¬(st = .draining ∧ m (.forwardSeq (g.inst c)) = q) := by
      rintro ⟨hst, hq⟩
      rcases h.2 with hq' | h'
      · exact hq' hq
      · exact h'.2.2 hst
    refine ⟨_, by simp [soloExec, callCode, psLeaveForward, Cmd.map, Cmd.exec, hd, h.2]; rfl,
      .inr ?_⟩
    exact ⟨h.1, by simp [doomedFuel]⟩
  | fail e f =>
    rcases f with reason | (_ | _ | _)
    · refine ⟨_, rfl, .inr ⟨?_, by simp [doomedFuel]⟩⟩
      have hs : m .status = makeStatus .running 0 := h
      simp only [Ctl.elim, Doomed, LeaveDoomed, Mem.set_self, hs]
      exact failStatus_running reason
    all_goals exact ⟨_, rfl, .inr ⟨h, by simp [doomedFuel]⟩⟩
  | done r e =>
    rcases r with err | r
    · cases e with
      | uncount => exact ⟨_, rfl, .inr ⟨h, by simp [doomedFuel]⟩⟩
      | wake => exact ⟨_, rfl, .inl h⟩
    · exact h.elim
  | _ => exact h.elim

/-- A call that is going to notice comes nearer to it with every step. -/
theorem Doomed.next {pc : CallPc} (h : Doomed g t₀ c m pc) (ht : t₀ ≤ t) :
    ∃ r, soloExec g c x pc m t = some r ∧ DoomedNext g t₀ c pc r := by
  cases pc with
  | enter pc => exact EnterDoomed.next h ht
  | leave q gid pc => exact LeaveDoomed.next h
  | _ => exact h.elim

/-! ## Calls that are not -/

/-- The round is still the caller's, and in a state the drain loop waits in or ends with. -/
def Draining (g : Generation) (c q : ℕ) (m : Memory) (st : RoundState) : Prop :=
  m (.forwardSeq (g.inst c)) = q ∧ (st = .running ∨ st = .complete ∨ st = .draining)

/-- The points of `ps_enter_forward` from which the pair is not failed: the first loop going
round, and the way to the wait for the grant, which turns a stopping context away. -/
def EnterSpared (g : Generation) (c : ℕ) (m : Memory) : EnterPc → Prop
  | .idleWait q _ | .idleWake q | .idleState q _ => ¬IdleNotices g c m q
  | .casInit _ => m (.state (g.inst c)) = .idle ∧ m (.stopping c) = true
  | .initSeq _ | .initGrant _ | .initReady _ => m (.stopping c) = true
  | .initComplete _ | .initExit _ | .initClock _ | .initPublish _ _ | .initState _ =>
      m (.stopping c) = true ∧ ¬BitMask.HasBit (m (.readyMask (g.inst c))) (g.rank c)
  | .joinSeq q st => st = .collecting ∧ m (.forwardSeq (g.inst c)) = q ∧
      m (.stopping c) = true ∧ m (.state (g.inst c)) = .collecting ∧
      ¬BitMask.HasBit (m (.readyMask (g.inst c))) (g.rank c)
  | .initWake _ | .setLast _ | .orReady _ => m (.stopping c) = true ∧
      m (.state (g.inst c)) = .collecting ∧
      ¬BitMask.HasBit (m (.readyMask (g.inst c))) (g.rank c)
  | .casReady _ => m (.stopping c) = true ∧ m (.state (g.inst c)) = .collecting
  | .readyWakeCoordinator _ | .readyWakeGroup _ | .grantWait _ _ | .grantWake _
  | .grantStopping _ _ => m (.stopping c) = true
  | .done _ _ => True
  | _ => False

/-- The points of `ps_leave_forward` from which the pair is not failed. -/
def LeaveSpared (g : Generation) (c q : ℕ) (m : Memory) : LeavePc → Prop
  | .drainWait _ | .drainWake | .drainStopping _ =>
      m (.stopping c) = true ∨ Draining g c q m (m (.state (g.inst c)))
  | .drainStatus _ | .drainState _ => Draining g c q m (m (.state (g.inst c)))
  | .drainSeq _ st => m (.state (g.inst c)) = st ∧ Draining g c q m st
  | .orExit | .resetReady | .resetComplete | .resetGrant | .resetPublish | .resetState
  | .resetWakeGroup | .resetWakeCoordinator | .done _ _ => True
  | _ => False

/-- A call from which the pair is not failed, while it is RUNNING. -/
def Spared (g : Generation) (c : ℕ) (m : Memory) (pc : CallPc) : Prop :=
  m .status = makeStatus .running 0 ∧
    match pc with
    | .enter pc => EnterSpared g c m pc
    | .leave q _ pc => LeaveSpared g c q m pc
    | .idle _ => True
    | _ => False

theorem Spared.enter_next {pc : EnterPc} (h : Spared g c m (.enter pc))
    {ctl : Ctl EnterPc EnterResult}
    (he : (psEnterForward g c x pc).exec m t true = some (m', x', ctl)) :
    Spared g c m' (ctl.elim .enter fun res => .idle (.entered res)) := by
  obtain ⟨hs, h⟩ := h
  cases pc with
  | idleWait q w | idleWake q => cases he; exact ⟨hs, h⟩
  | idleState q w =>
    have hn : ¬IdleNotices g c m q := h
    cases hst : m (.state (g.inst c)) <;> simp [IdleNotices, hst] at hn
    all_goals simp [psEnterForward, Cmd.exec, hst] at he; obtain ⟨rfl, rfl, rfl⟩ := he
    · exact ⟨hs, hst, hn⟩
    · exact ⟨hs, h⟩
    · exact ⟨hs, rfl, hn.1, hn.2.2, hst, hn.2.1⟩
    · exact ⟨hs, h⟩
  | casInit q =>
    simp [psEnterForward, Cmd.exec, h.1] at he
    obtain ⟨rfl, rfl, rfl⟩ := he
    exact ⟨hs, h.2⟩
  | initSeq q | initGrant q | readyWakeCoordinator q | readyWakeGroup q | grantWait q w
  | grantWake q =>
    cases he
    exact ⟨hs, h⟩
  | initReady q =>
    cases he
    exact ⟨hs, h, by simp⟩
  | initComplete q | initExit q | initClock q | initPublish q t | initWake q | setLast q =>
    cases he
    exact ⟨hs, h⟩
  | initState q =>
    cases he
    exact ⟨hs, h.1, Mem.set_self _ _ _, h.2⟩
  | joinSeq q st =>
    obtain ⟨rfl, hq, h⟩ := h
    simp [psEnterForward, Cmd.exec, hq] at he
    obtain ⟨rfl, rfl, rfl⟩ := he
    exact ⟨hs, h⟩
  | orReady q =>
    obtain ⟨hstop, hst, hb⟩ := h
    by_cases hf : m (.readyMask (g.inst c)) ||| g.bitOf c = g.expectedMask
    · simp [psEnterForward, Cmd.exec, hb, hf] at he
      obtain ⟨rfl, rfl, rfl⟩ := he
      exact ⟨hs, hstop, hst⟩
    · simp [psEnterForward, Cmd.exec, hb, hf] at he
      obtain ⟨rfl, rfl, rfl⟩ := he
      exact ⟨hs, hstop⟩
  | casReady q =>
    simp [psEnterForward, Cmd.exec, h.2] at he
    obtain ⟨rfl, rfl, rfl⟩ := he
    exact ⟨hs, h.1⟩
  | grantStopping q w =>
    have hstop : m (.stopping c) = true := h
    simp [psEnterForward, Cmd.exec, hstop] at he
    obtain ⟨rfl, rfl, rfl⟩ := he
    exact ⟨hs, trivial⟩
  | done r e =>
    cases e <;> cases he <;> exact ⟨hs, trivial⟩
  | _ => exact h.elim

theorem Spared.leave_next {q gid : ℕ} {pc : LeavePc} (h : Spared g c m (.leave q gid pc))
    {ctl : Ctl LeavePc LeaveResult}
    (he : (psLeaveForward g c x q gid pc).exec m t true = some (m', x', ctl)) :
    Spared g c m' (ctl.elim (.leave q gid) fun res => .idle (.left q res)) := by
  obtain ⟨hs, h⟩ := h
  have hr : (m .status).state = .running := by rw [hs]; rfl
  cases pc with
  | drainWait w | drainWake =>
    cases he
    exact ⟨hs, h⟩
  | drainState w =>
    cases he
    exact ⟨hs, rfl, h⟩
  | drainStopping w =>
    cases hstop : m (.stopping c) with
    | true =>
      simp [psLeaveForward, Cmd.exec, hstop] at he
      obtain ⟨rfl, rfl, rfl⟩ := he
      exact ⟨hs, trivial⟩
    | false =>
      simp [psLeaveForward, Cmd.exec, hstop] at he
      obtain ⟨rfl, rfl, rfl⟩ := he
      exact ⟨hs, h.resolve_left (by simp [hstop])⟩
  | drainStatus w =>
    simp [psLeaveForward, Cmd.exec, hr] at he
    obtain ⟨rfl, rfl, rfl⟩ := he
    exact ⟨hs, h⟩
  | drainSeq w st =>
    obtain ⟨rfl, hd⟩ := h
    by_cases hst : m (.state (g.inst c)) = .draining
    · simp [psLeaveForward, Cmd.exec, hd.1, hst] at he
      obtain ⟨rfl, rfl, rfl⟩ := he
      exact ⟨hs, trivial⟩
    · have hw : ¬(m (.state (g.inst c)) ≠ .running ∧ m (.state (g.inst c)) ≠ .complete ∧
          m (.state (g.inst c)) ≠ .draining) := by
        rintro ⟨h₁, h₂, h₃⟩
        exact hd.2.elim h₁ (·.elim h₂ h₃)
      rw [psLeaveForward, Cmd.exec, if_neg (fun h => hst h.1),
        if_neg (by simpa [hd.1] using hw)] at he
      cases he
      exact ⟨hs, .inr hd⟩
  | orExit =>
    simp only [psLeaveForward, Cmd.exec] at he
    split at he <;> cases he <;> exact ⟨hs, trivial⟩
  | resetReady | resetComplete | resetGrant | resetPublish | resetState | resetWakeGroup
  | resetWakeCoordinator =>
    cases he
    exact ⟨hs, trivial⟩
  | done r e =>
    cases e <;> cases he <;> exact ⟨hs, trivial⟩
  | _ => exact h.elim

/-- A spared call stays spared. -/
theorem Spared.next {pc : CallPc} (h : Spared g c m pc) {r : Memory × Locals × CallPc}
    (he : soloExec g c x pc m t = some r) : Spared g c r.1 r.2.2 := by
  cases pc with
  | enter pc =>
    obtain ⟨m', x', ctl, he'⟩ := enter_exec g c x m t pc
    rw [soloExec_enter he'] at he
    cases he
    exact h.enter_next he'
  | leave q gid pc =>
    obtain ⟨m', x', ctl, he'⟩ := leave_exec g c x m t q gid pc
    rw [soloExec_leave he'] at he
    cases he
    exact h.leave_next he'
  | idle r => cases he
  | _ => exact h.2.elim

theorem Spared.not_noticed {pc : CallPc} (h : Spared g c m pc) : ¬Noticed m pc := by
  intro hn
  have hf : (m .status).state = .failed := by
    unfold Noticed at hn
    split at hn
    · exact hn
    · exact hn
    · exact hn.elim
  rw [h.1] at hf
  cases hf

theorem Spared.never_noticed (hk : (s.ctx c).killed = false) (h : Spared g c s.mem (s.ctx c).call)
    (clock : ℕ → ℕ) (n : ℕ) :
    ¬Noticed (alone g c clock n s).mem ((alone g c clock n s).ctx c).call :=
  (alone_invariant hk h (fun _ _ _ _ _ hI he => hI.next he) n).2.not_noticed

/-! ## The condition is exact -/

/-- At a wait every call is of one of the two kinds. -/
theorem doomed_or_spared {pc : CallPc} (hw : pc.waits = true)
    (hs : m .status = makeStatus .running 0)
    (hexp : heartbeatExpired (m .primaryHeartbeatNs) t₀ g.peerTimeoutMs = true) :
    (Notices g c m pc → Doomed g t₀ c m pc) ∧ (¬Notices g c m pc → Spared g c m pc) := by
  have ho : Orphaned g t₀ m := ⟨hs, hexp⟩
  match pc, hw with
  | .enter (.idleWait q w), _ => exact ⟨fun h => ⟨ho, h⟩, fun h => ⟨hs, h⟩⟩
  | .enter (.grantWait q w), _ =>
    exact ⟨fun h => ⟨ho, h⟩, fun h => ⟨hs, (Bool.not_eq_false _).mp h⟩⟩
  | .leave q gid (.drainWait w), _ =>
    refine ⟨fun h => ⟨hs, h⟩, fun h => ⟨hs, ?_⟩⟩
    simp only [Notices, not_and_or, not_or, not_ne_iff, Bool.not_eq_false] at h
    tauto

/-- **Who notices.** While the pair is RUNNING and the coordinator's heartbeat is expired, a call
in one of its waits, left to itself with the clock running on, returns `-1` with the pair FAILED
exactly if `Notices` holds where it waits. -/
theorem noticed_iff (hk : (s.ctx c).killed = false) (hw : (s.ctx c).call.waits = true)
    (hs : s.mem .status = makeStatus .running 0)
    (hexp : heartbeatExpired (s.mem .primaryHeartbeatNs) s.now g.peerTimeoutMs = true)
    (hclock : ∀ k, s.now ≤ clock k) :
    (∃ n, Noticed (alone g c clock n s).mem ((alone g c clock n s).ctx c).call) ↔
      Notices g c s.mem (s.ctx c).call := by
  obtain ⟨hd, hsp⟩ := doomed_or_spared (g := g) (c := c) hw hs hexp
  constructor
  · rintro ⟨n, hn⟩
    by_contra hno
    exact (hsp hno).never_noticed hk clock n hn
  · intro hno
    exact alone_reaches (I := Doomed g s.now c) (D := Noticed) (fun _ => doomedFuel) hk (hd hno)
      fun _ _ _ k hI => hI.next (hclock k)

/-- B's rank waits for its grant when the coordinator's process is killed, and notices. -/
theorem noticed_waiting_for_grant : ∃ tr s, Run pairOfOne anyStep tr s ∧
    (s.ctx 0).killed = true ∧ ∀ clock : ℕ → ℕ, (∀ k, s.now ≤ clock k) →
      ∃ n, Noticed (alone pairOfOne 1 clock n s).mem
        ((alone pairOfOne 1 clock n s).ctx 1).call := by
  obtain ⟨tr, s, hrun, h⟩ := exists_run pairOfOne anyStep_of_allowed
    (openBoth ++ .enterCall 1 :: calls 30 1 ++ [.kill 0, .tick 20000000])
    (fun _ s => (s.ctx 0).killed && !(s.ctx 1).killed && (s.ctx 1).call.waits &&
      (s.mem .status = makeStatus .running 0) &&
      heartbeatExpired (s.mem .primaryHeartbeatNs) s.now pairOfOne.peerTimeoutMs &&
      decide (Notices pairOfOne 1 s.mem (s.ctx 1).call)) (by decide +kernel)
  simp only [Bool.and_eq_true, decide_eq_true_eq, Bool.not_eq_true'] at h
  obtain ⟨⟨⟨⟨⟨h₀, hk⟩, hw⟩, hs⟩, hexp⟩, hn⟩ := h
  exact ⟨tr, s, hrun, h₀, fun clock hclock => (noticed_iff hk hw hs hexp hclock).mpr hn⟩

/-- **A death nobody notices.** B's rank completes its round and waits for the coordinator to
recycle it; the coordinator's process is killed. However far the clock runs, the call goes round
its drain loop and the pair stays RUNNING. -/
theorem dead_coordinator_unnoticed : ∃ tr s, Run pairOfOne anyStep tr s ∧
    (s.ctx 0).killed = true ∧ s.mem .status = makeStatus .running 0 ∧
    heartbeatExpired (s.mem .primaryHeartbeatNs) s.now pairOfOne.peerTimeoutMs = true ∧
    (s.ctx 1).killed = false ∧ (s.ctx 1).call.waits = true ∧
    ∀ clock n, ¬Noticed (alone pairOfOne 1 clock n s).mem
      ((alone pairOfOne 1 clock n s).ctx 1).call := by
  obtain ⟨tr, s, hrun, h⟩ := exists_run pairOfOne anyStep_of_allowed
    (openBoth ++ .enterCall 1 :: calls 30 1 ++ ticks 39 ++ calls 15 1 ++
      .leaveCall 1 1 1 :: calls 22 1 ++ [.kill 0, .tick 20000000])
    (fun _ s => (s.ctx 0).killed && !(s.ctx 1).killed && (s.ctx 1).call.waits &&
      (s.mem .status = makeStatus .running 0) &&
      heartbeatExpired (s.mem .primaryHeartbeatNs) s.now pairOfOne.peerTimeoutMs &&
      !decide (Notices pairOfOne 1 s.mem (s.ctx 1).call)) (by decide +kernel)
  simp only [Bool.and_eq_true, decide_eq_true_eq, Bool.not_eq_true', decide_eq_false_iff_not] at h
  obtain ⟨⟨⟨⟨⟨h₀, hk⟩, hw⟩, hs⟩, hexp⟩, hn⟩ := h
  exact ⟨tr, s, hrun, h₀, hs, hexp, hk, hw,
    ((doomed_or_spared hw hs hexp).2 hn).never_noticed hk⟩

end YellowZone.PairSched
