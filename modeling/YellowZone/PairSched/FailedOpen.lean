import YellowZone.Machine.Routine
import YellowZone.PairSched.System

/-!
# Attaching, with every way to fail

`ps_open` without `create`, from its arguments on: the tests of the arguments, the file, the header
of the shared memory, the coordinator, the allocation of the context, the registration and the start
of the heartbeat thread. `psOpen` in `Lifecycle` begins where the header has been found to agree,
and is given its parameters by a `Generation`, whose numbers make sense. Here they are whatever the
caller passes, and the widths of the source matter in one place: `heartbeat_ms * 2` wraps.
`attach_of_psOpen` says that nothing else is different.

The call runs alone: no other thread takes a step. What the operating system does is up to the
environment, and every step has a time of its own.

## The late exit

Up to the registration nothing is written, so that every error before it leaves the memory as it
was. When the heartbeat thread cannot be started, the bit of the rank is taken out of the online
mask again. The pid, the session, the sequence and the heartbeat of the slot stay as registered,
and so does the state of the group. The slot then looks active, and until the heartbeat has
expired, which nobody renews, every further attempt is refused.

## Main results

* `psAttach` — the call
* `attach_of_psOpen` — a failed run of `psOpen` is a failed run of it
* `left_of_attach` — what an error leaves behind
* `failed_attach_unchanged_iff` — the memory is as before unless the thread could not be started
* `failed_thread_blocks_retry` — it could not, and the next attempt is refused
-/

namespace YellowZone.PairSched

open Machine

/-! ## Arguments and header -/

/-- The arguments of `ps_open`, without `create`. -/
structure OpenArgs where
  /-- `path != NULL`. -/
  pathGiven : Bool
  inst : ℤ
  workerRank : ℤ
  workerCount : ℕ
  epoch : ℕ
  session : ℕ
  heartbeatMs : ℕ
  peerTimeoutMs : ℕ
  forwardTimeoutMs : ℕ
  deriving DecidableEq, Repr

/-- The first test of `ps_open`. The product is one of 32-bit numbers. -/
def OpenArgs.Invalid (a : OpenArgs) : Prop :=
  a.pathGiven = false ∨ a.inst < 0 ∨ 2 ≤ a.inst ∨ a.workerCount = 0 ∨ 64 < a.workerCount ∨
    a.workerRank < 0 ∨ (a.workerCount : ℤ) ≤ a.workerRank ∨ a.epoch = 0 ∨ a.session = 0 ∨
    a.heartbeatMs = 0 ∨ a.peerTimeoutMs ≤ a.heartbeatMs * 2 % 2 ^ 32 ∨ a.forwardTimeoutMs = 0

instance (a : OpenArgs) : Decidable a.Invalid :=
  inferInstanceAs (Decidable (_ ∨ _ ∨ _ ∨ _ ∨ _ ∨ _ ∨ _ ∨ _ ∨ _ ∨ _ ∨ _ ∨ _))

/-- The group that is opened. -/
def OpenArgs.group (a : OpenArgs) : Inst := Inst.ofIdx a.inst

/-- The slot that is opened. -/
def OpenArgs.slot (a : OpenArgs) : ℕ := a.workerRank.toNat

/-- The constant part of the shared memory. -/
structure Header where
  magic : ℕ
  version : ℕ
  size : ℕ
  epoch : ℕ
  heartbeatMs : ℕ
  peerTimeoutMs : ℕ
  forwardTimeoutMs : ℕ
  workerCount : ℕ
  deriving DecidableEq, Repr

/-- Why an attempt to attach fails. -/
inductive AttachError where
  | invalidArguments
  | openFile
  | layoutSize
  | mmap
  | protocolMismatch
  | epochMismatch
  | configurationMismatch
  | primaryNotAlive
  | calloc
  | alreadyActive (rank : ℕ) (i : Inst)
  | heartbeatThread
  deriving DecidableEq, Repr

/-- `validate_layout`; `PS_MAGIC`, `PS_VERSION` and the size of `shared_state`. -/
def validateLayout (a : OpenArgs) (h : Header) : Option AttachError :=
  if h.magic ≠ 0x5650534348454434 ∨ h.version ≠ 4 ∨ h.size ≠ 4336 then some .protocolMismatch
  else if h.epoch ≠ a.epoch then some .epochMismatch
  else if h.heartbeatMs ≠ a.heartbeatMs ∨ h.peerTimeoutMs ≠ a.peerTimeoutMs ∨
      h.forwardTimeoutMs ≠ a.forwardTimeoutMs ∨ h.workerCount ≠ a.workerCount then
    some .configurationMismatch
  else none

/-! ## The call -/

/-- Program points of `ps_open` without `create`; those of `register_worker` start with `reg`. -/
inductive AttachPc where
  | arguments
  | openFile
  | fstat
  | mmap
  | layout
  | primary
  | status (hb : ℕ)
  | clock (hb : ℕ)
  | calloc
  | regClock
  | regOldSession (now : ℕ)
  | regOldHeartbeat (now session : ℕ)
  | regPid (now : ℕ)
  | regLastSeq (now : ℕ)
  | regHeartbeat (now : ℕ)
  | regSession
  | regOnline
  | regState
  | regIdle
  | regWake
  | loadSeq
  | startHeartbeat
  | heartbeatStarted
  | undoStopping
  | undoOnline
  deriving Repr

/-- An error (`NULL`), or a context. -/
abbrev AttachResult : Type := Except AttachError Unit

/-- `ps_open` without `create`, called by process `pid` for its context `c`. -/
def psAttach (a : OpenArgs) (h : Header) (pid c : ℕ) :
    AttachPc → Cmd Val (Ctl AttachPc AttachResult)
  | .arguments => .skip <|
      if a.Invalid then .ret (.error .invalidArguments) else .goto .openFile
  | .openFile => .ask fun b => if b then .goto .fstat else .ret (.error .openFile)
  | .fstat => .ask fun b => if b then .goto .mmap else .ret (.error .layoutSize)
  | .mmap => .ask fun b => if b then .goto .layout else .ret (.error .mmap)
  | .layout => .skip <|
      match validateLayout a h with
      | some e => .ret (.error e)
      | none => .goto .primary
  | .primary => .load .primaryHeartbeatNs fun hb => .goto (.status hb)
  | .status hb => .load .status fun st =>
      if st.state ≠ .running then .ret (.error .primaryNotAlive) else .goto (.clock hb)
  | .clock hb => .clock fun now =>
      if heartbeatExpired hb now a.peerTimeoutMs then .ret (.error .primaryNotAlive)
      else .goto .calloc
  | .calloc => .ask fun b => if b then .goto .regClock else .ret (.error .calloc)
  | .regClock => .clock fun now => .goto (.regOldSession now)
  | .regOldSession now => .load (.session a.group a.slot) fun session =>
      .goto (.regOldHeartbeat now session)
  | .regOldHeartbeat now session => .load (.heartbeatNs a.group a.slot) fun hb =>
      if session ≠ 0 ∧ heartbeatExpired hb now a.peerTimeoutMs = false then
        .ret (.error (.alreadyActive a.slot a.group))
      else .goto (.regPid now)
  | .regPid now => .store (.pid a.group a.slot) pid (.goto (.regLastSeq now))
  | .regLastSeq now => .store (.lastSeq a.group a.slot) (0 : ℕ) (.goto (.regHeartbeat now))
  | .regHeartbeat now => .store (.heartbeatNs a.group a.slot) now (.goto .regSession)
  | .regSession => .store (.session a.group a.slot) a.session (.goto .regOnline)
  | .regOnline => .rmw (.onlineMask a.group) (· ||| BitMask.bit 64 a.slot) fun _ =>
      .goto .regState
  | .regState => .load (.state a.group) fun st =>
      if st = .offline then .goto .regIdle else .goto .regWake
  | .regIdle => .rmw (.state a.group) (fun st => if st = .offline then .idle else st)
      fun _ => .goto .regWake
  | .regWake => signalCoordinator (.goto .loadSeq)
  | .loadSeq => .load (.forwardSeq a.group) fun _ => .goto .startHeartbeat
  | .startHeartbeat => .ask fun b => if b then .goto .heartbeatStarted else .goto .undoStopping
  | .heartbeatStarted => .store (.heartbeatStarted c) true (.ret (.ok ()))
  | .undoStopping => .store (.stopping c) true (.goto .undoOnline)
  | .undoOnline => .rmw (.onlineMask a.group) (· &&& ~~~BitMask.bit 64 a.slot) fun _ =>
      .ret (.error .heartbeatThread)

/-! ## What an error leaves behind -/

section Attach

variable {a : OpenArgs} {h : Header} {pid c : ℕ} {m₀ m m' : Memory} {e : AttachError}

/-- The registration has been let through at time `now`. -/
structure Admitted (a : OpenArgs) (m₀ : Memory) (now : ℕ) : Prop where
  valid : ¬a.Invalid
  now_pos : 0 < now
  free : m₀ (.session a.group a.slot) = 0 ∨
    heartbeatExpired (m₀ (.heartbeatNs a.group a.slot)) now a.peerTimeoutMs = true

/-- The slot after a registration that began on memory `m₀`. -/
structure SlotFilled (a : OpenArgs) (m₀ m : Memory) : Prop where
  admitted : Admitted a m₀ (m (.heartbeatNs a.group a.slot))
  session : m (.session a.group a.slot) = a.session

/-- What holds at a program point of a call that began on memory `m₀`: up to the registration the
memory is the same, and then the slot is as registered. -/
def Attaching (a : OpenArgs) (m₀ : Memory) : AttachPc → Memory → Prop
  | .arguments, m => m = m₀
  | .regOldSession now, m => ¬a.Invalid ∧ m = m₀ ∧ 0 < now
  | .regOldHeartbeat now session, m =>
    ¬a.Invalid ∧ m = m₀ ∧ 0 < now ∧ session = m₀ (.session a.group a.slot)
  | .regPid now, _ | .regLastSeq now, _ | .regHeartbeat now, _ => Admitted a m₀ now
  | .regSession, m => Admitted a m₀ (m (.heartbeatNs a.group a.slot))
  | .regOnline, m | .regState, m | .regIdle, m | .regWake, m | .loadSeq, m | .startHeartbeat, m
  | .heartbeatStarted, m | .undoStopping, m | .undoOnline, m => SlotFilled a m₀ m
  | _, m => ¬a.Invalid ∧ m = m₀

/-- What holds at the end. -/
def Left (a : OpenArgs) (m₀ : Memory) : AttachResult → Memory → Prop
  | .ok (), _ => True
  | .error .heartbeatThread, m => SlotFilled a m₀ m
  | .error _, m => m = m₀

/-- A write to another word leaves the slot as registered. -/
theorem SlotFilled.set (hr : SlotFilled a m₀ m) {l : Loc} (v : Val l)
    (hsession : .session a.group a.slot ≠ l) (hheartbeat : .heartbeatNs a.group a.slot ≠ l) :
    SlotFilled a m₀ (m.set l v) := by
  refine ⟨?_, ?_⟩
  · rw [Mem.set_of_ne _ _ hheartbeat]
    exact hr.admitted
  · rw [Mem.set_of_ne _ _ hsession]
    exact hr.session

/-- **One step of the call.** -/
theorem Attaching.step {pc : AttachPc} {t : ℕ} {answer : Bool}
    {ctl : Ctl AttachPc AttachResult} (hpc : Attaching a m₀ pc m) (ht : 0 < t)
    (hexec : (psAttach a h pid c pc).exec m t answer = some (m', ctl)) :
    ctl.elim (Attaching a m₀ · m') (Left a m₀ · m') := by
  cases pc with
  | arguments =>
    cases hexec
    by_cases hinvalid : a.Invalid
    · simp only [hinvalid, if_true]
      exact hpc
    · simp only [hinvalid, if_false]
      exact ⟨hinvalid, hpc⟩
  | openFile | fstat | mmap | calloc =>
    cases hexec
    cases answer with
    | true => exact hpc
    | false => exact hpc.2
  | layout =>
    cases hexec
    cases hlayout : validateLayout a h with
    | none => exact hpc
    | some e =>
      rw [validateLayout] at hlayout
      split_ifs at hlayout
      all_goals
        cases hlayout
        exact hpc.2
  | primary =>
    cases hexec
    exact hpc
  | status hb =>
    cases hexec
    dsimp only
    split
    · exact hpc.2
    · exact hpc
  | clock hb =>
    cases hexec
    dsimp only
    split
    · exact hpc.2
    · exact hpc
  | regClock =>
    cases hexec
    exact ⟨hpc.1, hpc.2, ht⟩
  | regOldSession now =>
    cases hexec
    exact ⟨hpc.1, hpc.2.1, hpc.2.2, by rw [hpc.2.1]⟩
  | regOldHeartbeat now session =>
    cases hexec
    obtain ⟨hvalid, rfl, hnow, rfl⟩ := hpc
    dsimp only
    split
    · rfl
    · rename_i hfree
      refine ⟨hvalid, hnow, ?_⟩
      by_cases hs : m (.session a.group a.slot) = 0
      · exact .inl hs
      · exact .inr (by simpa [hs] using hfree)
  | regPid now | regLastSeq now =>
    cases hexec
    exact hpc
  | regHeartbeat now =>
    cases hexec
    change Admitted a m₀ _
    rw [Mem.set_self]
    exact hpc
  | regSession =>
    cases hexec
    have hother : Loc.heartbeatNs a.group a.slot ≠ .session a.group a.slot := nofun
    refine ⟨?_, Mem.set_self ..⟩
    rw [Mem.set_of_ne _ _ hother]
    exact hpc
  | regState =>
    cases hexec
    dsimp only
    split
    · exact hpc
    · exact hpc
  | loadSeq =>
    cases hexec
    exact hpc
  | startHeartbeat =>
    cases hexec
    cases answer with
    | true => exact hpc
    | false => exact hpc
  | regOnline | regIdle | regWake | undoStopping | undoOnline =>
    cases hexec
    exact SlotFilled.set hpc _ nofun nofun
  | heartbeatStarted =>
    cases hexec
    trivial

/-- **What an error leaves behind.** -/
theorem left_of_attach {r : AttachResult}
    (hrun : Solo (psAttach a h pid c) (0 < ·) m .arguments m' r) : Left a m r m' :=
  hrun.invariant (I := Attaching a m) rfl fun _ _ _ _ _ _ => Attaching.step

/-- A registration is never without a trace: the slot was free, and then its session is new, or
its heartbeat had expired, and then its heartbeat is. -/
theorem SlotFilled.changed (hr : SlotFilled a m₀ m) :
    m (.session a.group a.slot) ≠ m₀ (.session a.group a.slot) ∨
      m (.heartbeatNs a.group a.slot) ≠ m₀ (.heartbeatNs a.group a.slot) := by
  have hsession : a.session ≠ 0 := fun hs => hr.admitted.valid (by simp [OpenArgs.Invalid, hs])
  rcases hr.admitted.free with hfree | hexpired
  · left
    rw [hr.session, hfree]
    exact hsession
  · right
    intro heq
    rw [← heq] at hexpired
    have hpos := hr.admitted.now_pos
    simp [heartbeatExpired] at hexpired
    omega

/-! ## The next attempt -/

/-- What holds at a program point of a call that finds its slot taken. -/
def Refused (a : OpenArgs) (P : ℕ → Prop) (m₀ : Memory) : AttachPc → Memory → Prop
  | .regOldSession now, m => m = m₀ ∧ P now
  | .regOldHeartbeat now session, m => m = m₀ ∧ P now ∧ session = m₀ (.session a.group a.slot)
  | .regPid _, _ | .regLastSeq _, _ | .regHeartbeat _, _ | .regSession, _ | .regOnline, _
  | .regState, _ | .regIdle, _ | .regWake, _ | .loadSeq, _ | .startHeartbeat, _
  | .heartbeatStarted, _ | .undoStopping, _ | .undoOnline, _ => False
  | _, m => m = m₀

/-- A call for a slot with a session and a heartbeat that has not expired does not get as far as
the registration. -/
theorem not_registered_of_active {P : ℕ → Prop} {r : AttachResult}
    (hsession : m (.session a.group a.slot) ≠ 0)
    (hheartbeat : ∀ t, P t →
      heartbeatExpired (m (.heartbeatNs a.group a.slot)) t a.peerTimeoutMs = false)
    (hrun : Solo (psAttach a h pid c) P m .arguments m' r) :
    r ≠ .ok () ∧ r ≠ .error .heartbeatThread := by
  refine hrun.invariant (I := Refused a P m)
    (Q := fun r _ => r ≠ .ok () ∧ r ≠ .error .heartbeatThread) rfl ?_
  intro pc m₁ t answer m₂ ctl hpc ht hexec
  cases pc with
  | arguments =>
    cases hexec
    by_cases hinvalid : a.Invalid
    · simp only [hinvalid, if_true]
      exact ⟨nofun, nofun⟩
    · simp only [hinvalid, if_false]
      exact hpc
  | openFile | fstat | mmap | calloc =>
    cases hexec
    cases answer with
    | true => exact hpc
    | false => exact ⟨nofun, nofun⟩
  | layout =>
    cases hexec
    cases hlayout : validateLayout a h with
    | none => exact hpc
    | some e =>
      rw [validateLayout] at hlayout
      split_ifs at hlayout
      all_goals
        cases hlayout
        exact ⟨nofun, nofun⟩
  | primary =>
    cases hexec
    exact hpc
  | status hb | clock hb =>
    cases hexec
    dsimp only
    split
    · exact ⟨nofun, nofun⟩
    · exact hpc
  | regClock =>
    cases hexec
    exact ⟨hpc, ht⟩
  | regOldSession now =>
    cases hexec
    obtain ⟨rfl, hnow⟩ := hpc
    exact ⟨rfl, hnow, rfl⟩
  | regOldHeartbeat now session =>
    cases hexec
    obtain ⟨rfl, hnow, rfl⟩ := hpc
    dsimp only
    rw [if_pos ⟨hsession, hheartbeat now hnow⟩]
    exact ⟨nofun, nofun⟩
  | regPid | regLastSeq | regHeartbeat | regSession | regOnline | regState | regIdle | regWake
  | loadSeq | startHeartbeat | heartbeatStarted | undoStopping | undoOnline => exact hpc.elim

/-- **A failed attempt.** The shared words, wake counters apart, are as before exactly if the
error is not that the heartbeat thread could not be started. Then the next attempt can have the
same outcomes as this one. Otherwise it is refused until the heartbeat has expired. -/
theorem failed_attach_unchanged_iff
    (hrun : Solo (psAttach a h pid c) (0 < ·) m .arguments m' (.error e)) :
    ((∀ l, l.isShared = true → l.isWakeCounter = false → m' l = m l) ↔ e ≠ .heartbeatThread) ∧
      (e ≠ .heartbeatThread → ∀ r, (∃ m₂, Solo (psAttach a h pid c) (0 < ·) m' .arguments m₂ r) ↔
        ∃ m₂, Solo (psAttach a h pid c) (0 < ·) m .arguments m₂ r) ∧
      (e = .heartbeatThread → ∀ pid' c' m₂ r, Solo (psAttach a h pid' c')
        (fun t => t ≤ m' (.heartbeatNs a.group a.slot) + a.peerTimeoutMs * 1000000)
        m' .arguments m₂ r → r ≠ .ok () ∧ r ≠ .error .heartbeatThread) := by
  have hleft := left_of_attach hrun
  by_cases he : e = .heartbeatThread
  · subst he
    have hr : SlotFilled a m m' := hleft
    refine ⟨iff_of_false (fun hsame => ?_) (not_not_intro rfl), fun hne => absurd rfl hne,
      fun _ pid' c' m₂ r hretry => ?_⟩
    · rcases hr.changed with hsession | hheartbeat
      · exact hsession (hsame _ rfl rfl)
      · exact hheartbeat (hsame _ rfl rfl)
    · have hsession : a.session ≠ 0 := fun hs =>
        hr.admitted.valid (by simp [OpenArgs.Invalid, hs])
      have hpos := hr.admitted.now_pos
      refine not_registered_of_active (by rwa [hr.session]) (fun t ht => ?_) hretry
      simp [heartbeatExpired]
      omega
  · have hsame : m' = m := by
      cases e with
      | heartbeatThread => exact absurd rfl he
      | _ => exact hleft
    subst hsame
    exact ⟨iff_of_true (fun _ _ _ => rfl) he, fun _ _ => Iff.rfl, fun h => absurd h he⟩

end Attach

/-! ## The model with a generation -/

section Open

variable {g : Generation} {x : Locals} {a : OpenArgs} {h : Header} {c : ℕ} {P : ℕ → Prop}
  {m m' : Memory}

/-- `psOpen` as a routine; the locals it sets are read by nobody within it. -/
def openCode (g : Generation) (c : ℕ) (x : Locals) (pc : OpenPc) :
    Cmd Val (Ctl OpenPc OpenResult) :=
  (psOpen g c x pc).map Prod.snd

/-- The arguments with which a context of a generation is opened. -/
structure Given (g : Generation) (c : ℕ) (a : OpenArgs) : Prop where
  group : a.group = g.inst c
  slot : a.slot = g.rank c
  session : a.session = g.session c
  peerTimeoutMs : a.peerTimeoutMs = g.peerTimeoutMs

/-- The same error. -/
def OpenError.toAttach : OpenError → AttachError
  | .primaryNotAlive => .primaryNotAlive
  | .alreadyActive rank i => .alreadyActive rank i
  | .heartbeatThread | .coordinatorThread => .heartbeatThread

/-- The same result. -/
def OpenResult.toAttach : OpenResult → AttachResult
  | .ok () => .ok ()
  | .error e => .error e.toAttach

/-- The same program point. Those of the coordinator are not reached without `create`. -/
def OpenPc.toAttach : OpenPc → AttachPc
  | .primary => .primary
  | .status hb => .status hb
  | .clock hb => .clock hb
  | .regClock => .regClock
  | .regOldSession now => .regOldSession now
  | .regOldHeartbeat now session => .regOldHeartbeat now session
  | .regPid now => .regPid now
  | .regLastSeq now => .regLastSeq now
  | .regHeartbeat now => .regHeartbeat now
  | .regSession => .regSession
  | .regOnline => .regOnline
  | .regState => .regState
  | .regIdle => .regIdle
  | .regWake => .regWake
  | .loadSeq => .loadSeq
  | .startHeartbeat => .startHeartbeat
  | .heartbeatStarted | .startCoordinator | .coordinatorStarted => .heartbeatStarted
  | .undoStopping _ => .undoStopping
  | .undoJoin _ | .undoOnline _ => .undoOnline

/-- Program points that are reached without `create`. -/
def OpenPc.Plain : OpenPc → Prop
  | .startCoordinator | .coordinatorStarted | .undoJoin _ => False
  | .undoStopping e | .undoOnline e => e = .heartbeatThread
  | _ => True

/-- Where a step of the one leads, a step of the other leads. -/
def sameCtl : Ctl OpenPc OpenResult → Ctl AttachPc AttachResult :=
  Ctl.elim (fun pc => .goto pc.toAttach) fun r => .ret (OpenResult.toAttach r)

/-- **The same code**, but for the test of the clock, behind which the context is allocated. -/
theorem psAttach_toAttach (hgiven : Given g c a) (hc : c ≠ 0) {pc : OpenPc} (hplain : pc.Plain)
    (hclock : ∀ hb, pc ≠ .clock hb) :
    psAttach a h (g.pid c) c pc.toAttach = (openCode g c x pc).map sameCtl := by
  obtain ⟨hgroup, hslot, hsession, htimeout⟩ := hgiven
  cases pc with
  | clock hb => exact absurd rfl (hclock hb)
  | startCoordinator | coordinatorStarted | undoJoin => exact hplain.elim
  | primary | heartbeatStarted =>
    simp only [OpenPc.toAttach, psAttach, openCode, psOpen, Cmd.map, if_neg hc]
    rfl
  | status hb =>
    simp only [OpenPc.toAttach, psAttach, openCode, psOpen, Cmd.map]
    congr 1
    funext st
    split <;> rfl
  | regOldHeartbeat now session =>
    simp only [OpenPc.toAttach, psAttach, openCode, psOpen, Cmd.map, htimeout]
    generalize a.group = group, a.slot = slot at hgroup hslot
    subst hgroup hslot
    congr 1
    funext hb
    split <;> rfl
  | regState =>
    simp only [OpenPc.toAttach, psAttach, openCode, psOpen, Cmd.map]
    generalize a.group = group at hgroup
    subst hgroup
    congr 1
    funext st
    split <;> rfl
  | startHeartbeat =>
    simp only [OpenPc.toAttach, psAttach, openCode, psOpen, Cmd.map]
    congr 1
    funext b
    split <;> rfl
  | undoStopping e | undoOnline e =>
    obtain rfl : e = .heartbeatThread := hplain
    simp only [OpenPc.toAttach, psAttach, openCode, psOpen, Cmd.map, if_true]
    generalize a.group = group, a.slot = slot at hgroup hslot
    subst hgroup hslot
    rfl
  | _ =>
    simp only [OpenPc.toAttach, psAttach, openCode, psOpen, Cmd.map, signalCoordinator, hsession]
    generalize a.group = group, a.slot = slot at hgroup hslot
    subst hgroup hslot
    rfl

/-- A step of `psOpen` leads to a program point that is reached without `create`. -/
theorem plain_of_step (hc : c ≠ 0) {pc pc' : OpenPc} (hplain : pc.Plain) {t : ℕ} {answer : Bool}
    (hexec : (openCode g c x pc).exec m t answer = some (m', .goto pc')) : pc'.Plain := by
  cases pc with
  | startCoordinator | coordinatorStarted | undoJoin => exact hplain.elim
  | undoStopping e =>
    obtain rfl : e = .heartbeatThread := hplain
    simp only [openCode, psOpen, Cmd.map, Cmd.exec, if_true] at hexec
    cases hexec
    rfl
  | startHeartbeat =>
    cases answer with
    | true =>
      cases hexec
      trivial
    | false =>
      cases hexec
      rfl
  | heartbeatStarted | primary =>
    simp only [openCode, psOpen, Cmd.map, Cmd.exec, if_neg hc] at hexec
    cases hexec
    try trivial
  | status | clock | regOldHeartbeat | regState =>
    simp only [openCode, psOpen, Cmd.map, Cmd.exec] at hexec
    split at hexec
    all_goals
      cases hexec
      try trivial
  | _ =>
    cases hexec
    try trivial

/-- **The model with a generation** is this one: a run of `psOpen` for a context that does not
create is the end of a run of `psAttach` in which the file and the memory are at hand. -/
theorem attach_of_psOpen (hgiven : Given g c a) (hc : c ≠ 0) {pc : OpenPc} (hplain : pc.Plain)
    {r : OpenResult} (hrun : Solo (openCode g c x) P m pc m' r) :
    Solo (psAttach a h (g.pid c) c) P m pc.toAttach m' (OpenResult.toAttach r) := by
  -- Every step is the same but the one that reads the clock for the coordinator's heartbeat.
  have hsame {pc : OpenPc} (hplain : pc.Plain) (hclock : ∀ hb, pc ≠ .clock hb) {m m' : Memory}
      {t : ℕ} {answer : Bool} {ctl : Ctl OpenPc OpenResult}
      (hexec : (openCode g c x pc).exec m t answer = some (m', ctl)) :
      (psAttach a h (g.pid c) c pc.toAttach).exec m t answer = some (m', sameCtl ctl) := by
    rw [psAttach_toAttach hgiven hc hplain hclock, Cmd.exec_map, hexec]
    rfl
  have hclockOf {hb t : ℕ} {m m' : Memory} {answer : Bool} {ctl : Ctl OpenPc OpenResult}
      (hexec : (openCode g c x (.clock hb)).exec m t answer = some (m', ctl)) :
      m' = m ∧ ctl = if heartbeatExpired hb t a.peerTimeoutMs then
        .ret (.error .primaryNotAlive) else .goto .regClock := by
    simp only [openCode, psOpen, Cmd.map, Cmd.exec] at hexec
    cases hexec
    rw [hgiven.peerTimeoutMs]
    refine ⟨rfl, ?_⟩
    split <;> rfl
  induction hrun with
  | @ret m m' pc r t answer ht hexec =>
    by_cases hclock : ∃ hb, pc = .clock hb
    · obtain ⟨hb, rfl⟩ := hclock
      obtain ⟨rfl, hctl⟩ := hclockOf hexec
      split at hctl
      · rename_i hexpired
        cases hctl
        refine .ret ht (o := answer) ?_
        simp only [OpenPc.toAttach, psAttach, Cmd.exec, hexpired, if_true]
        rfl
      · cases hctl
    · exact .ret ht (hsame hplain (not_exists.mp hclock) hexec)
  | @goto m m₁ m' pc pc₁ r t answer ht hexec _ ih =>
    have hnext := ih (plain_of_step hc hplain hexec)
    by_cases hclock : ∃ hb, pc = .clock hb
    · obtain ⟨hb, rfl⟩ := hclock
      obtain ⟨rfl, hctl⟩ := hclockOf hexec
      split at hctl
      · cases hctl
      · rename_i hexpired
        cases hctl
        have hcalloc : (psAttach a h (g.pid c) c .calloc).exec m₁ t true =
            some (m₁, .goto .regClock) := rfl
        refine .goto ht (o := answer) ?_ (.goto ht hcalloc hnext)
        simp only [OpenPc.toAttach, psAttach, Cmd.exec, hexpired]
        rfl
    · exact .goto ht (hsame hplain (not_exists.mp hclock) hexec) hnext

end Open

/-! ## An attempt that fails, and the next one -/

/-- Worker 0 of instance B in `pairOfOne`. -/
def workerB : OpenArgs where
  pathGiven := true
  inst := 1
  workerRank := 0
  workerCount := 1
  epoch := 1
  session := 7
  heartbeatMs := 1
  peerTimeoutMs := 10
  forwardTimeoutMs := 100

/-- The header of that pair. -/
def workerBHeader : Header := ⟨0x5650534348454434, 4, 4336, 1, 1, 10, 100, 1⟩

/-- A file that cannot be opened leaves everything as it was. -/
theorem failed_attach_without_file :
    ∃ m', Solo (psAttach workerB workerBHeader 20 1) (0 < ·) (initialMemory pairOfOne) .arguments
        m' (.error .openFile) ∧
      ∀ l, l.isShared = true → l.isWakeCounter = false → m' l = initialMemory pairOfOne l := by
  have heval : solo (psAttach workerB workerBHeader 20 1) [(2, true), (2, false)]
      (initialMemory pairOfOne) .arguments =
        some (initialMemory pairOfOne, .error .openFile) := rfl
  have hrun : Solo (psAttach workerB workerBHeader 20 1) (0 < ·) (initialMemory pairOfOne)
      .arguments (initialMemory pairOfOne) (.error .openFile) := solo_of_eq (by decide) heval
  exact ⟨_, hrun, (failed_attach_unchanged_iff hrun).1.mpr nofun⟩

/-- At time 2 everything works but the start of the thread. -/
def threadFails : List (ℕ × Bool) :=
  List.replicate 21 (2, true) ++ [(2, false), (2, true), (2, true)]

/-- **The thread could not be started**, the slot stays registered, and the next attempt is
refused because the rank is active. -/
theorem failed_thread_blocks_retry :
    ∃ m' m₂, Solo (psAttach workerB workerBHeader 20 1) (0 < ·) (initialMemory pairOfOne)
        .arguments m' (.error .heartbeatThread) ∧
      (initialMemory pairOfOne (.session .B 0) = (0 : ℕ) ∧ m' (.session .B 0) = (7 : ℕ) ∧
        initialMemory pairOfOne (.state .B) = RoundState.offline ∧
        m' (.state .B) = RoundState.idle) ∧
      Solo (psAttach workerB workerBHeader 20 3) (0 < ·) m' .arguments m₂
        (.error (.alreadyActive 0 .B)) := by
  have hrun : ∃ m' m₂, solo (psAttach workerB workerBHeader 20 1) threadFails
        (initialMemory pairOfOne) .arguments = some (m', .error .heartbeatThread) ∧
      (initialMemory pairOfOne (.session .B 0) = (0 : ℕ) ∧ m' (.session .B 0) = (7 : ℕ) ∧
        initialMemory pairOfOne (.state .B) = RoundState.offline ∧
        m' (.state .B) = RoundState.idle) ∧
      solo (psAttach workerB workerBHeader 20 3) (List.replicate 12 (3, true)) m' .arguments =
        some (m₂, .error (.alreadyActive 0 .B)) :=
    ⟨_, _, rfl, ⟨rfl, rfl, rfl, rfl⟩, rfl⟩
  obtain ⟨m', m₂, hfirst, hleft, hretry⟩ := hrun
  exact ⟨m', m₂, solo_of_eq (by decide) hfirst, hleft, solo_of_eq (by decide) hretry⟩

end YellowZone.PairSched
