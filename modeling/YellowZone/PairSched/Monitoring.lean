import YellowZone.Machine.Routine
import YellowZone.PairSched.FailClosed
import YellowZone.PairSched.Valid

/-!
# What one tick of the coordinator notices

A rank that dies while its round waits for it is to be noticed by the coordinator. The tick looks
at heartbeats in two places. `recycle_complete` does so for the owner's round while it is RUNNING
or COMPLETE; `dispatch_next` does so for a round that is COLLECTING or READY too long, when nobody
owns the pair. A DRAINING round is in neither place: once the coordinator has recycled it, a rank
that dies before it has set its exit bit is missed by every later tick.

## Main definitions and results

* `TickRun` — the coordinator runs alone through the rest of its tick
* `GroupAlive`, `BarrierDead` — what the two tests compute
* `tick_ends` — the outcome of a tick
* `Monitored`, `tick_fails_iff` — when a dead rank is noticed
* `dead_rank_missed` — a run that ends with a dead rank in a DRAINING round
-/

namespace YellowZone.PairSched

open Machine

variable {g : Generation} {t now : ℕ} {m : Memory} {i : Inst}

/-! ## One tick -/

/-- The coordinator takes the remaining steps of its tick, and nobody else takes any. -/
inductive TickRun (g : Generation) : State → State → Prop
  | done {s : State} {w : ℕ} (h : s.coord = .wait w) : TickRun g s s
  | next {s s' s'' : State} {w : ℕ} {pc : TickPc} (h : s.coord = .tick w pc)
      (hs : step g s .coord = some s') (hr : TickRun g s' s'') : TickRun g s s''

/-- The coordinator is about to start a tick. -/
def CoordPc.startsTick : CoordPc → Bool
  | .tick _ .status => true
  | _ => false

theorem CoordPc.eq_of_startsTick {pc : CoordPc} (h : pc.startsTick = true) :
    ∃ w, pc = .tick w .status := by
  match pc, h with
  | .tick w .status, _ => exact ⟨w, rfl⟩

theorem TickRun.unique {s s' s'' : State} (h : TickRun g s s') (h' : TickRun g s s'') :
    s' = s'' := by
  induction h with
  | done h =>
    cases h' with
    | done => rfl
    | next h' => rw [h] at h'; cases h'
  | next h hs _ ih =>
    cases h' with
    | done h' => rw [h] at h'; cases h'
    | next _ hs' hr' =>
      rw [hs] at hs'
      cases hs'
      exact ih hr'

/-- The tick as a routine of its own, and as steps of the system. -/
theorem tickRun_of_returns {s : State} {w : ℕ} {pc : TickPc} {m' : Memory} {u : Unit}
    (h : Returns (coordinatorTick g) t m pc m' u) (hk : (s.ctx 0).killed = false)
    (ht : s.now = t) (hm : s.mem = m) (hc : s.coord = .tick w pc) :
    TickRun g s { s with mem := m', coord := .wait w } := by
  induction h generalizing s with
  | ret h =>
    refine .next hc ?_ (.done rfl)
    simp [step, hk, stepCoord, hc, hm, ht, coordinatorMain, Cmd.exec_map, h]
  | @goto m m₁ m' pc pc₁ u h _ ih =>
    have hs : step g s .coord = some { s with mem := m₁, coord := .tick w pc₁ } := by
      simp [step, hk, stepCoord, hc, hm, ht, coordinatorMain, Cmd.exec_map, h]
    exact .next hc hs (ih hk ht rfl rfl)

/-! ## Failing the pair -/

/-- The status word says FAILED exactly if `P`. -/
def FailsIff (P : Prop) (m : Memory) : Prop := (m .status).state = .failed ↔ P

theorem failsIff_false (h : m .status = makeStatus .running 0) {P : Prop} (hP : ¬P) :
    FailsIff P m := by
  simp [FailsIff, h, makeStatus, hP]

/-- `wake_everyone` leaves the status alone. -/
theorem wakeEveryone_ends (m : Memory) :
    Ends wakeEveryone t (fun m' _ => m' .status = m .status) m .coordinator :=
  Ends.step rfl (Ends.step rfl (Ends.step rfl rfl))

/-- `fail_pair` takes RUNNING to FAILED. -/
theorem failPair_ends (reason : Reason) (hs : m .status = makeStatus .running 0) :
    Ends failPair t (fun m' _ => (m' .status).state = .failed) m (.cas reason) := by
  refine Ends.step rfl ?_
  refine Ends.call (f := FailPc.wake) (fun _ => rfl) ((wakeEveryone_ends _).mono ?_)
  intro m' _ hm
  change (m' .status).state = .failed
  rw [hm, Mem.set_self, hs]
  rfl

/-! ## Heartbeats -/

/-- Rank `r` of `i` is alive at `now`. -/
def RankAlive (g : Generation) (i : Inst) (now : ℕ) (m : Memory) (r : ℕ) : Prop :=
  workerAlive (m (.pid i r)) (m (.session i r)) (m (.heartbeatNs i r)) now g.peerTimeoutMs = true

/-- Every rank of `i` in the mask is alive at `now`. -/
def GroupAlive (g : Generation) (i : Inst) (mask : BitVec 64) (now : ℕ) (m : Memory) : Prop :=
  ∀ r < g.workerCount, BitMask.HasBit mask r → RankAlive g i now m r

instance (r : ℕ) : Decidable (RankAlive g i now m r) := inferInstanceAs (Decidable (_ = _))

instance (mask : BitVec 64) : Decidable (GroupAlive g i mask now m) :=
  inferInstanceAs (Decidable (∀ r < g.workerCount, BitMask.HasBit mask r → RankAlive g i now m r))

/-- The loop of `group_workers_alive`, with `k` ranks to go from rank `r` on. -/
theorem groupWorkersAlive_ends_from (mask : BitVec 64) (k : ℕ) :
    ∀ r, g.workerCount = r + k → (∀ q < r, BitMask.HasBit mask q → RankAlive g i now m q) →
    Ends (groupWorkersAlive g i mask now) t
      (fun m' b => m' = m ∧ (b = true ↔ GroupAlive g i mask now m)) m (.rank r) := by
  induction k with
  | zero =>
    intro r hr hlow
    refine Ends.step (by rw [groupWorkersAlive, if_neg (by omega)]; rfl) ?_
    exact ⟨rfl, fun _ q hq => hlow q (by omega), fun _ => rfl⟩
  | succ k ih =>
    intro r hr hlow
    have hlt : r < g.workerCount := by omega
    by_cases hb : BitMask.HasBit mask r
    · refine Ends.step (by rw [groupWorkersAlive, if_pos hlt, if_pos hb]; rfl) ?_
      refine Ends.step rfl (Ends.step rfl ?_)
      dsimp only
      split
      · rename_i ha
        refine ih (r + 1) (by omega) fun q hq hbq => ?_
        rcases Nat.lt_succ_iff_lt_or_eq.mp hq with hq | rfl
        · exact hlow q hq hbq
        · exact ha
      · rename_i ha
        exact ⟨rfl, by rintro ⟨⟩, fun h => absurd (h r hlt hb) ha⟩
    · refine Ends.step (by rw [groupWorkersAlive, if_pos hlt, if_neg hb]; rfl) ?_
      refine ih (r + 1) (by omega) fun q hq hbq => ?_
      rcases Nat.lt_succ_iff_lt_or_eq.mp hq with hq | rfl
      · exact hlow q hq hbq
      · exact absurd hbq hb

/-- `group_workers_alive` computes what its name says. -/
theorem groupWorkersAlive_ends (mask : BitVec 64) :
    Ends (groupWorkersAlive g i mask now) t
      (fun m' b => m' = m ∧ (b = true ↔ GroupAlive g i mask now m)) m (.rank 0) :=
  groupWorkersAlive_ends_from mask g.workerCount 0 (by omega) nofun

/-! ## The parts of a tick -/

/-- The part of `validate_shared` for one group. -/
theorem validateShared_ends_group (hv : Valid g m) (i : Inst) {Q : Memory → Bool → Prop}
    (h : EndsAt (validateShared g) t Q m
      (match i with | .A => .goto (.state .B) | .B => .ret true)) :
    Ends (validateShared g) t Q m (.state i) := by
  refine Ends.step rfl (Ends.step rfl (Ends.step rfl (Ends.step rfl (Ends.step rfl ?_))))
  cases i <;>
    simpa [(hv.ready _).validMask, (hv.complete _).validMask, (hv.exit _).validMask,
      (hv.online _).validMask] using h

/-- `validate_shared` passes valid words. -/
theorem validateShared_ends (hv : Valid g m) :
    Ends (validateShared g) t (fun m' ok => m' = m ∧ ok = true) m .owner := by
  have ho : ¬(m .owner ≠ noOwner ∧ (m .owner < 0 ∨ 2 ≤ m .owner)) := by
    rcases hv.owner with ho | ⟨i, ho⟩
    · simp [ho]
    · rw [ho]; cases i <;> decide
  refine Ends.step rfl ?_
  dsimp only
  rw [if_neg ho]
  exact validateShared_ends_group hv .A (validateShared_ends_group hv .B ⟨rfl, rfl⟩)

/-- The owner's deadline has passed. -/
def DeadlinePassed (m : Memory) (now : ℕ) : Prop := m .deadlineNs ≠ 0 ∧ m .deadlineNs < now

/-- `recycle_complete` on a round that is not complete: it fails the pair when the deadline has
passed or, for a running round, when a worker is dead, and otherwise changes nothing. -/
theorem recycleComplete_ends (hs : m .status = makeStatus .running 0)
    (hc : m (.state i) ≠ .complete) :
    Ends (recycleComplete g i now) t
      (fun m' _ => (DeadlinePassed m now ∨
          m (.state i) = .running ∧ ¬GroupAlive g i g.expectedMask now m) ∧
            (m' .status).state = .failed ∨
        ¬(DeadlinePassed m now ∨
          m (.state i) = .running ∧ ¬GroupAlive g i g.expectedMask now m) ∧ m' = m) m .state := by
  refine Ends.step rfl (Ends.step rfl (Ends.step rfl ?_))
  dsimp only
  split
  · rename_i hd
    refine Ends.call (f := RecyclePc.fail) (fun _ => rfl) ((failPair_ends _ hs).mono ?_)
    exact fun m' _ h => .inl ⟨.inl hd, h⟩
  · rename_i hd
    rw [if_pos (.inl hc)]
    by_cases hr : m (.state i) = .running
    · rw [if_pos (.inl hr)]
      refine Ends.call (f := RecyclePc.alive) (fun _ => rfl)
        ((groupWorkersAlive_ends g.expectedMask).mono ?_)
      rintro m' b ⟨rfl, hb⟩
      cases b with
      | true => exact .inr ⟨by rintro (h | h); exacts [hd h, h.2 (hb.mp rfl)], rfl⟩
      | false =>
        refine Ends.call (f := RecyclePc.fail) (fun _ => rfl) ((failPair_ends _ hs).mono ?_)
        exact fun m' _ h => .inl ⟨.inr ⟨hr, fun ha => nomatch hb.mpr ha⟩, h⟩
    · rw [if_neg (by rintro (h | h); exacts [hr h, hc h])]
      exact .inr ⟨by rintro (h | h); exacts [hd h, hr h.1], rfl⟩

/-- The round of `i` has been collecting, or ready, for too long, and a rank is missing, offline or
dead. -/
def BarrierDead (g : Generation) (i : Inst) (now : ℕ) (m : Memory) : Prop :=
  ((m (.state i) = .collecting ∨ m (.state i) = .ready) ∧ m (.publishNs i) ≠ 0 ∧
      m (.publishNs i) < now ∧ g.peerTimeoutMs * 1000000 < now - m (.publishNs i)) ∧
    (m (.readyMask i) ≠ g.expectedMask ∨ m (.onlineMask i) ≠ g.expectedMask ∨
      ¬GroupAlive g i (m (.readyMask i)) now m)

instance : Decidable (DeadlinePassed m now) := inferInstanceAs (Decidable (_ ∧ _))

instance : Decidable (BarrierDead g i now m) := inferInstanceAs (Decidable (_ ∧ _))

/-- From the choice on, `dispatch_next` leaves the status alone. -/
theorem dispatch_cas_ends (sel : Inst) :
    Ends (dispatchNext g now) t (fun m' _ => m' .status = m .status) m (.cas sel) := by
  refine Ends.step rfl ?_
  by_cases hr : m (.state sel) = .ready
  · simp only [if_pos hr]
    exact Ends.step rfl (Ends.step rfl (Ends.step rfl (Ends.step rfl (Ends.step rfl rfl))))
  · simp only [if_neg hr]
    exact rfl

theorem dispatch_select_ends (a b : Candidate) :
    EndsAt (dispatchNext g now) t (fun m' _ => m' .status = m .status) m
      (selectCandidate a b) := by
  unfold selectCandidate
  repeat' split
  · rfl
  all_goals first
    | exact dispatch_cas_ends _
    | exact Ends.step rfl (dispatch_cas_ends _)

/-- The body of the loop of `dispatch_next` for one group: it fails the pair, or has a
candidate. -/
theorem dispatch_group_ends (hs : m .status = makeStatus .running 0) (a : Candidate)
    {Q : Memory → Unit → Prop}
    (hdead : BarrierDead g i now m → ∀ m' u, (m' .status).state = .failed → Q m' u)
    (hnext : ¬BarrierDead g i now m → ∀ cand,
      EndsAt (dispatchNext g now) t Q m (nextCandidate i a cand)) :
    Ends (dispatchNext g now) t Q m (.state i a) := by
  have hready : ¬BarrierDead g i now m → EndsAt (dispatchNext g now) t Q m
      (testReady g i a (m (.state i)) (m (.readyMask i)) (m (.onlineMask i))
        (m (.publishNs i))) := by
    intro hd
    unfold testReady
    split
    · refine Ends.call (f := DispatchPc.readyAlive i a _) (fun _ => rfl)
        ((groupWorkersAlive_ends g.expectedMask).mono ?_)
      rintro m' b ⟨rfl, -⟩
      exact hnext hd _
    · exact hnext hd _
  refine Ends.step rfl (Ends.step rfl (Ends.step rfl (Ends.step rfl ?_)))
  dsimp only
  split
  · rename_i hlate
    split
    · rename_i hmask
      refine Ends.call (f := DispatchPc.fail) (fun _ => rfl) ((failPair_ends _ hs).mono ?_)
      exact hdead ⟨hlate, by rcases hmask with h | h; exacts [.inl h, .inr (.inl h)]⟩
    · rename_i hmask
      refine Ends.call (f := DispatchPc.barrierAlive i a _ _ _ _) (fun _ => rfl)
        ((groupWorkersAlive_ends _).mono ?_)
      rintro m' b ⟨rfl, hb⟩
      cases b with
      | true =>
        refine hready fun hd => ?_
        rcases hd.2 with h | h | h
        · exact hmask (.inl h)
        · exact hmask (.inr h)
        · exact h (hb.mp rfl)
      | false =>
        refine Ends.call (f := DispatchPc.fail) (fun _ => rfl) ((failPair_ends _ hs).mono ?_)
        exact hdead ⟨hlate, .inr (.inr fun ha => nomatch hb.mpr ha)⟩
  · rename_i hlate
    exact hready fun hd => hlate hd.1

/-- **`dispatch_next` fails the pair exactly on a dead barrier.** -/
theorem dispatchNext_ends (hs : m .status = makeStatus .running 0) (ho : m .owner = noOwner) :
    Ends (dispatchNext g now) t
      (fun m' _ => FailsIff (BarrierDead g .A now m ∨ BarrierDead g .B now m) m') m .owner := by
  refine Ends.step rfl ?_
  dsimp only
  rw [if_neg (not_not_intro ho)]
  refine dispatch_group_ends hs _ (fun hd _ _ h => ⟨fun _ => .inl hd, fun _ => h⟩)
    fun hA candA => ?_
  refine dispatch_group_ends hs _ (fun hd _ _ h => ⟨fun _ => .inr hd, fun _ => h⟩)
    fun hB candB => ?_
  refine (dispatch_select_ends candA candB).mono fun m' _ hm => ?_
  exact failsIff_false (hm.trans hs) (by tauto)

/-! ## The whole tick -/

/-- What makes a tick fail the pair while the owner's round, if there is one, is not complete. -/
def TickFails (g : Generation) (now : ℕ) (m : Memory) : Prop :=
  (∃ i : Inst, m .owner = i.idx ∧ (DeadlinePassed m now ∨
      m (.state i) = .running ∧ ¬GroupAlive g i g.expectedMask now m)) ∨
    m .owner = noOwner ∧ (BarrierDead g .A now m ∨ BarrierDead g .B now m)

theorem tickFails_of_owner {m : Memory} (ho : m .owner = i.idx) :
    TickFails g now m ↔ DeadlinePassed m now ∨
      m (.state i) = .running ∧ ¬GroupAlive g i g.expectedMask now m := by
  refine ⟨?_, fun h => .inl ⟨i, ho, h⟩⟩
  rintro (⟨j, hj, h⟩ | ⟨hn, -⟩)
  · obtain rfl := Inst.idx_inj.mp (ho.symm.trans hj)
    exact h
  · exact absurd (ho.symm.trans hn) (Inst.idx_ne_neg_one i)

theorem tickFails_of_noOwner {m : Memory} (ho : m .owner = noOwner) :
    TickFails g now m ↔ BarrierDead g .A now m ∨ BarrierDead g .B now m := by
  refine ⟨?_, fun h => .inr ⟨ho, h⟩⟩
  rintro (⟨j, hj, -⟩ | ⟨-, h⟩)
  · exact absurd (hj.symm.trans ho) (Inst.idx_ne_neg_one j)
  · exact h

/-- The tick from its first look at the owner on. -/
theorem tick_ends_owner (hs : m .status = makeStatus .running 0)
    (ho : m .owner = noOwner ∨ ∃ i : Inst, m .owner = i.idx)
    (hc : ∀ i : Inst, m .owner = i.idx → m (.state i) ≠ .complete) :
    Ends (coordinatorTick g) t (fun m' _ => FailsIff (TickFails g now m) m') m (.owner now) := by
  have hrun : (m .status).state = .running := by rw [hs]; rfl
  refine Ends.step rfl ?_
  dsimp only
  rcases ho with ho | ⟨i, ho⟩
  · rw [if_neg (not_not_intro ho), tickFails_of_noOwner ho]
    refine Ends.step rfl ?_
    simp only [if_pos hrun]
    refine Ends.step rfl ?_
    simp only [if_pos ho]
    exact Ends.call (f := TickPc.dispatch now) (fun _ => rfl) (dispatchNext_ends hs ho)
  · have hn : m .owner ≠ noOwner := by rw [ho]; exact Inst.idx_ne_neg_one i
    rw [if_pos hn, ho, Inst.ofIdx_idx, tickFails_of_owner ho]
    refine Ends.call (f := TickPc.recycle now i) (fun _ => rfl)
      ((recycleComplete_ends hs (hc i ho)).mono ?_)
    rintro m' - (⟨hf, hfail⟩ | ⟨hf, rfl⟩)
    · have hstop : (m' .status).state ≠ .running := by simp [hfail]
      refine Ends.step rfl ?_
      simp only [if_neg hstop]
      exact ⟨fun _ => hf, fun _ => hfail⟩
    · refine Ends.step rfl ?_
      simp only [if_pos hrun]
      refine Ends.step rfl ?_
      simp only [if_neg hn]
      exact failsIff_false hs hf

/-- **The outcome of a tick**, on valid words, while the owner's round is not complete. -/
theorem tick_ends (hs : m .status = makeStatus .running 0) (hv : Valid g m)
    (hc : ∀ i : Inst, m .owner = i.idx → m (.state i) ≠ .complete) :
    Ends (coordinatorTick g) t (fun m' _ => FailsIff (TickFails g t m) m') m .status := by
  have hrun : (m .status).state = .running := by rw [hs]; rfl
  refine Ends.step rfl ?_
  dsimp only
  rw [if_neg (not_not_intro hrun)]
  refine Ends.call (f := TickPc.validate) (fun _ => rfl) ((validateShared_ends hv).mono ?_)
  rintro _ _ ⟨rfl, rfl⟩
  exact Ends.step rfl (Ends.step rfl (tick_ends_owner hs hv.owner hc))

/-- The coordinator's tick ends, and fails the pair exactly when it finds a reason. -/
theorem tickRun_outcome {P : State → Act → Prop} {tr : List Event} {s : State} {w : ℕ}
    (hrun : Run g P tr s) (hk : (s.ctx 0).killed = false) (hpc : s.coord = .tick w .status)
    (hs : (s.mem .status).state = .running)
    (hc : ∀ i : Inst, s.mem .owner = i.idx → s.mem (.state i) ≠ .complete) :
    (∃ s', TickRun g s s' ∧ (s'.mem .status).state = .failed) ↔ TickFails g s.now s.mem := by
  obtain ⟨m', _, hret, hm⟩ :=
    tick_ends (t := s.now) ((statusOk_of_run hrun).eq_running hs) (valid_of_run hrun) hc
  have htick := tickRun_of_returns hret hk rfl rfl hpc
  constructor
  · rintro ⟨s', hs', hf⟩
    rw [← htick.unique hs'] at hf
    exact hm.mp hf
  · exact fun h => ⟨_, htick, hm.mpr h⟩

/-! ## A dead rank -/

/-- The round of `i` is waiting for a bit of rank `r`. -/
def Awaits (m : Memory) (i : Inst) (r : ℕ) : Prop :=
  match m (.state i) with
  | .collecting => ¬BitMask.HasBit (m (.readyMask i)) r
  | .running => ¬BitMask.HasBit (m (.completeMask i)) r
  | .draining => ¬BitMask.HasBit (m (.exitMask i)) r
  | _ => False

instance (r : ℕ) : Decidable (Awaits m i r) := by
  unfold Awaits
  split <;> infer_instance

/-- The circumstances: rank `r`, which the round of `i` waits for, is dead at `now`, the round was
published longer than the peer timeout ago, and no other group owns the pair. -/
structure Overdue (g : Generation) (now : ℕ) (m : Memory) (i : Inst) (r : ℕ) : Prop where
  rank_lt : r < g.workerCount
  awaits : Awaits m i r
  expired : heartbeatExpired (m (.heartbeatNs i r)) now g.peerTimeoutMs = true
  late : m (.publishNs i) + g.peerTimeoutMs * 1000000 < now
  owner : m .owner = i.idx ∨ m .owner = noOwner

instance (r : ℕ) : Decidable (Overdue g now m i r) :=
  decidable_of_iff (r < g.workerCount ∧ Awaits m i r ∧
      heartbeatExpired (m (.heartbeatNs i r)) now g.peerTimeoutMs = true ∧
      m (.publishNs i) + g.peerTimeoutMs * 1000000 < now ∧
      (m .owner = i.idx ∨ m .owner = noOwner))
    ⟨fun ⟨h₁, h₂, h₃, h₄, h₅⟩ => ⟨h₁, h₂, h₃, h₄, h₅⟩,
      fun h => ⟨h.rank_lt, h.awaits, h.expired, h.late, h.owner⟩⟩

theorem Awaits.state {r : ℕ} (h : Awaits m i r) :
    m (.state i) ≠ .complete ∧ m (.state i) ≠ .ready := by
  unfold Awaits at h
  split at h <;> simp_all

theorem hasBit_expectedMask {r : ℕ} : BitMask.HasBit g.expectedMask r ↔ r < g.workerCount :=
  BitMask.hasBit_full g.workerCount_le

/-- A rank with an expired heartbeat makes its group fail the liveness test. -/
theorem Overdue.not_groupAlive {r : ℕ} (h : Overdue g now m i r) :
    ¬GroupAlive g i g.expectedMask now m := by
  intro ha
  have hr := ha r h.rank_lt (hasBit_expectedMask.mpr h.rank_lt)
  simp [RankAlive, workerAlive, h.expired] at hr

/-- The barrier test notices an overdue rank of a collecting round that has been published. -/
theorem Overdue.barrierDead_iff {r : ℕ} (h : Overdue g now m i r) :
    BarrierDead g i now m ↔ m (.state i) = .collecting ∧ m (.publishNs i) ≠ 0 := by
  have hlate := h.late
  have hpos := g.peerTimeoutMs_gt
  dsimp only [Val] at hlate
  constructor
  · rintro ⟨⟨hst | hst, hp, -⟩, -⟩
    · exact ⟨hst, hp⟩
    · exact absurd hst h.awaits.state.2
  · rintro ⟨hst, hp⟩
    refine ⟨⟨.inl hst, hp, ?_, ?_⟩, .inl fun hfull => ?_⟩
    · dsimp only [Val]; omega
    · dsimp only [Val]; omega
    · have hno : ¬BitMask.HasBit (m (.readyMask i)) r := by
        have ha := h.awaits
        rwa [Awaits, hst] at ha
      rw [hfull, hasBit_expectedMask] at hno
      exact hno h.rank_lt

/-- What the tick looks at: the owner's round while it is RUNNING, or past its deadline; without an
owner, a published round while it is COLLECTING. Any other reason to fail the pair will do as
well, so the barrier of the other group counts too. -/
def Monitored (g : Generation) (now : ℕ) (m : Memory) (i : Inst) : Prop :=
  m .owner = i.idx ∧ (m (.state i) = .running ∨ DeadlinePassed m now) ∨
    m .owner = noOwner ∧ (m (.state i) = .collecting ∧ m (.publishNs i) ≠ 0 ∨
      BarrierDead g i.other now m)

instance : Decidable (Monitored g now m i) := inferInstanceAs (Decidable (_ ∨ _))

theorem Overdue.tickFails_iff {r : ℕ} (h : Overdue g now m i r) :
    TickFails g now m ↔ Monitored g now m i := by
  have halive := h.not_groupAlive
  have hbarrier := h.barrierDead_iff
  unfold Monitored
  rcases h.owner with ho | ho
  · have hn : m .owner ≠ noOwner := by rw [ho]; exact Inst.idx_ne_neg_one i
    rw [tickFails_of_owner ho]
    tauto
  · have hi : m .owner ≠ i.idx := by rw [ho]; exact (Inst.idx_ne_neg_one i).symm
    rw [tickFails_of_noOwner ho]
    cases i <;> simp only [Inst.other] <;> tauto

/-- **When a dead rank is noticed.** -/
theorem tick_fails_iff {P : State → Act → Prop} {tr : List Event} {s : State} {w r : ℕ}
    (hrun : Run g P tr s) (hk : (s.ctx 0).killed = false) (hpc : s.coord = .tick w .status)
    (hs : (s.mem .status).state = .running) (hd : Overdue g s.now s.mem i r) :
    (∃ s', TickRun g s s' ∧ (s'.mem .status).state = .failed) ↔
      Monitored g s.now s.mem i := by
  rw [tickRun_outcome hrun hk hpc hs, hd.tickFails_iff]
  intro j hj
  rcases hd.owner with ho | ho
  · obtain rfl := Inst.idx_inj.mp (ho.symm.trans hj)
    exact hd.awaits.state.1
  · exact absurd (hj.symm.trans ho) (Inst.idx_ne_neg_one j)

/-- A rank of a running round is killed, and the next tick notices. -/
theorem dead_rank_noticed : ∃ tr s, Run pairOfTwo anyStep tr s ∧ (s.ctx 2).killed = true ∧
    s.mem (.state .A) = .running ∧
    ∃ s', TickRun pairOfTwo s s' ∧ (s'.mem .status).state = .failed := by
  obtain ⟨tr, s, hrun, h⟩ := exists_run pairOfTwo anyStep_of_allowed
    (halfBarrier ++ .enterCall 2 :: calls 21 2 ++ ticks 42 ++ .kill 2 :: .tick 20000000 :: ticks 3)
    (fun _ s => (s.ctx 2).killed && !(s.ctx 0).killed && s.coord.startsTick &&
      (s.mem .status).state = .running && s.mem (.state .A) = .running &&
      Overdue pairOfTwo s.now s.mem .A 1 && decide (Monitored pairOfTwo s.now s.mem .A))
    (by decide +kernel)
  simp only [Bool.and_eq_true, decide_eq_true_eq, Bool.not_eq_true'] at h
  obtain ⟨⟨⟨⟨⟨⟨h₂, hk⟩, hpc⟩, hs⟩, hst⟩, hd⟩, hm⟩ := h
  obtain ⟨w, hw⟩ := CoordPc.eq_of_startsTick hpc
  exact ⟨tr, s, hrun, h₂, hst, (tick_fails_iff hrun hk hw hs hd).mpr hm⟩

/-- **A dead rank that no tick notices.** Both ranks complete a round and the coordinator recycles
it; the first rank leaves, the second is killed before it has set its exit bit. The group stays
DRAINING, which nobody monitors, and the tick leaves the pair RUNNING. -/
theorem dead_rank_missed : ∃ tr s w, Run pairOfTwo anyStep tr s ∧ (s.ctx 2).killed = true ∧
    (s.ctx 0).killed = false ∧ s.coord = .tick w .status ∧ (s.mem .status).state = .running ∧
    s.mem (.state .A) = .draining ∧ Overdue pairOfTwo s.now s.mem .A 1 ∧
    ¬∃ s', TickRun pairOfTwo s s' ∧ (s'.mem .status).state = .failed := by
  obtain ⟨tr, s, hrun, h⟩ := exists_run pairOfTwo anyStep_of_allowed
    (halfDrained ++ .kill 2 :: .tick 20000000 :: ticks 3)
    (fun _ s => (s.ctx 2).killed && !(s.ctx 0).killed && s.coord.startsTick &&
      (s.mem .status).state = .running && s.mem (.state .A) = .draining &&
      s.mem .owner = noOwner && Overdue pairOfTwo s.now s.mem .A 1 &&
      !decide (Monitored pairOfTwo s.now s.mem .A))
    (by decide +kernel)
  simp only [Bool.and_eq_true, decide_eq_true_eq, Bool.not_eq_true', decide_eq_false_iff_not] at h
  obtain ⟨⟨⟨⟨⟨⟨⟨h₂, hk⟩, hpc⟩, hs⟩, hst⟩, ho⟩, hd⟩, hm⟩ := h
  obtain ⟨w, hw⟩ := CoordPc.eq_of_startsTick hpc
  refine ⟨tr, s, w, hrun, h₂, hk, hw, hs, hst, hd, fun hf => hm (hd.tickFails_iff.mp ?_)⟩
  refine (tickRun_outcome hrun hk hw hs fun i hi => ?_).mp hf
  exact absurd (hi.symm.trans ho) (Inst.idx_ne_neg_one i)

end YellowZone.PairSched
