import YellowZone.PairSched.Closing
import YellowZone.PairSched.Stages

/-!
# Sequence numbers across restarts

A context numbers its calls itself: `ps_open` copies the sequence of the group once, and every
`ps_enter_forward` counts one up. A rank that is restarted copies the sequence at an arbitrary
point of the rounds of its siblings, so the copy may be one behind, or ahead of what the round
in progress will be. Whenever the group is IDLE, all registered contexts between calls agree with
it again, as long as no `ps_close` overlaps a `ps_open` or a `ps_enter_forward` of its instance.

## The argument

Let the *number* of a group be the sequence its round had when it was last granted. Only the
opener of a round writes the sequence, so the two differ at most from the opening of a round to its
grant. A context validates itself only after it has compared its number with the group's, while it
saw the group running: at this moment the group's sequence is its number. And a group leaves RUNNING
only when all ranks have validated themselves.

The overlap matters in two places. A `ps_close` that stores OFFLINE over a round that has started
would break the cycle of states (`Stages`); and a call that it turns away halfway has already
counted.

## Main results

* `NoOverlap` — no `ps_close` overlaps a `ps_open` or `ps_enter_forward` of its instance
* `CloseApart` — what this means for the states of a run
* `Synced` — numbers and sequences
* `sequence_agreement` — in an idle group every registered context is at the group's sequence
-/

namespace YellowZone.PairSched

open Machine

variable {g : Generation} {tr : List Event} {s s' : State} {a : Act} {e : Event} {c : ℕ}

/-! ## Calls that do not overlap -/

/-- In `ps_open` or in `ps_enter_forward`. -/
def CallPc.opensOrEnters : CallPc → Bool
  | .opening _ | .enter _ => true
  | _ => false

/-- No `ps_close` overlaps a `ps_open` or `ps_enter_forward` of the same instance: none is called
while one of the other kind is in progress. A call in a killed process is not in progress any
more. -/
def NoOverlap (g : Generation) (s : State) : Act → Prop
  | .closeCall c => ∀ d, g.inst d = g.inst c → (s.ctx d).killed = false →
      (s.ctx d).call.opensOrEnters = false
  | .openCall c | .enterCall c => ∀ d, g.inst d = g.inst c → (s.ctx d).killed = false →
      (s.ctx d).close = none
  | _ => True

/-- What follows for one state: contexts of one instance do not close and open or enter at the
same time, and a closing context that has seen its group IDLE can rely on it. -/
structure CloseApart (g : Generation) (s : State) : Prop where
  apart : ∀ c d, g.inst c = g.inst d → (s.ctx c).killed = false → (s.ctx d).killed = false →
    (s.ctx c).close ≠ none → (s.ctx d).call.opensOrEnters = false
  entering : ∀ c pc, (s.ctx c).call = .enter pc → (s.ctx c).killed = false →
    (s.ctx c).closed = false
  seenIdle : ∀ c pc, (s.ctx c).killed = false → (s.ctx c).close = some pc →
    pc.seen = some .idle →
    s.mem (.state (g.inst c)) = .idle ∨ s.mem (.state (g.inst c)) = .offline

theorem opensOrEnters_of_step (h : step g s a = some s')
    (hc : (s'.ctx c).call.opensOrEnters = true) :
    (s.ctx c).call.opensOrEnters = true ∨ a = .openCall c ∨ a = .enterCall c := by
  have hstep := ctxStep_of_step (c := c) h
  clear h
  generalize s'.ctx c = y at hstep hc
  cases hstep with
  | openCall h => exact .inr (.inl rfl)
  | enterCall h => exact .inr (.inr rfl)
  | leaveCall h => cases hc
  | call hcode hr =>
    left
    cases hpc : (s.ctx c).call with
    | opening pc | enter pc => rfl
    | leave q gid pc =>
      rw [hpc] at hcode
      cases hcode
      obtain ⟨⟨m, x, ctl⟩, -, rfl⟩ := Cmd.exec_map_eq_some.mp hr
      cases ctl <;> cases hc
    | _ => rw [hpc] at hcode; cases hcode
  | _ => exact .inl hc

/-- The phases of `ps_enter_forward` in which it may give up. -/
def Phase.waitsToEnter : Phase → Bool
  | .seeking _ | .waiting _ => true
  | _ => false

theorem enter_of_waitsToEnter (h : (s.phase c).waitsToEnter = true) :
    ∃ pc, (s.ctx c).call = .enter pc := by
  rw [State.phase] at h
  cases hpc : (s.ctx c).call with
  | enter pc => exact ⟨pc, rfl⟩
  | opening pc => rw [hpc] at h; cases pc <;> cases h
  | leave q' gid pc =>
    rw [hpc, phaseOf] at h
    unfold leavePhase at h
    split at h <;> first | cases h | (split at h <;> cases h)
  | _ => rw [hpc] at h; cases h

/-- A closing context that stores OFFLINE has seen IDLE. -/
theorem CloseApart.offlineIdle (hA : CloseApart g s) (h : step g s a = some s') :
    OfflineIdle g s a := by
  rintro c rfl hc
  refine hA.seenIdle c _ ?_ hc rfl
  by_contra hk
  simp [step, show (s.ctx c).killed = true by simpa using hk] at h

theorem CloseApart.step {γ : Tenure.Ghost Inst ℕ} (hA : CloseApart g s) (hI : Staged g γ s)
    (hP : NoOverlap g s a) (h : PairSched.step g s a = some s') : CloseApart g s' where
  apart c d hcd hkc hkd hc := by
    have hkc := killed_of_step h hkc
    have hkd := killed_of_step h hkd
    by_contra hd
    rcases opensOrEnters_of_step h (by simpa using hd) with hd | ha | ha
    · by_cases hcl : (s.ctx c).close = none
      · obtain rfl : a = .closeCall c := by
          by_contra ha
          exact hc (close_of_step h ha hcl)
        rw [hP d hcd.symm hkd] at hd
        cases hd
      · rw [hA.apart c d hcd hkc hkd hcl] at hd
        cases hd
    all_goals
      subst ha
      exact hc (close_of_step h (by rintro ⟨⟩) (hP c hcd hkc))
  entering c pc hpc hk := by
    have hk := killed_of_step h hk
    have hstep := ctxStep_of_step (c := c) h
    clear h
    generalize s'.ctx c = y at hstep hpc ⊢
    -- a call that is in progress is not being closed
    have hnot : (s.ctx c).call.opensOrEnters = true → (s.ctx c).close = none := fun hc => by
      by_contra hcl
      rw [hA.apart c c rfl hk hk hcl] at hc
      cases hc
    cases hstep with
    | enterCall hcan =>
      simp only [Ctx.canCall, Bool.and_eq_true, Bool.not_eq_true'] at hcan
      exact hcan.1.2
    | openCall h | leaveCall h => cases hpc
    | call hcode hr =>
      dsimp only at hpc ⊢
      cases hcall : (s.ctx c).call with
      | enter pc => exact hA.entering c pc hcall hk
      | opening pc | leave q gid pc =>
        rw [hcall] at hcode
        cases hcode
        obtain ⟨⟨m, x, ctl⟩, -, rfl⟩ := Cmd.exec_map_eq_some.mp hr
        rcases ctl with pc' | res
        · cases hpc
        · first
            | cases hpc
            | cases res <;> cases hpc
      | _ => rw [hcall] at hcode; cases hcode
    | close hcl =>
      rw [hnot (by rw [show (s.ctx c).call = _ from hpc]; rfl)] at hcl
      cases hcl
    | _ => exact hA.entering c pc hpc hk
  seenIdle c pc hk hpc hst := by
    have hk := killed_of_step h hk
    have ht := trans_of_step h
    have hkeep : s.mem (.state (g.inst c)) = .idle ∨ s.mem (.state (g.inst c)) = .offline →
        (s.ctx c).close ≠ none →
        s'.mem (.state (g.inst c)) = .idle ∨ s'.mem (.state (g.inst c)) = .offline := by
      intro hold hcl
      rcases ht.edge hI (hA.offlineIdle h) (g.inst c) with heq | hedge
      · rwa [heq]
      · cases hedge with
        | win d q hd hkd hp hp' =>
          obtain ⟨pc', hpc'⟩ := enter_of_waitsToEnter (c := d) (by rw [hp]; rfl)
          have := hA.apart c d hd.symm hk hkd hcl
          rw [hpc'] at this
          cases this
        | online d hd hp h h' => exact .inl h'
        | offline d hd hp h h' => exact .inr h'
        | _ => simp_all
    by_cases ha : a = .close c
    · subst ha
      obtain ⟨pc₀, -, hpc₀, -⟩ := closing_of_step h
      rcases seen_of_step h hpc hst with ⟨pc₁, hpc₁, hst₁⟩ | hnow
      · exact hkeep (hA.seenIdle c pc₁ hk hpc₁ hst₁) (by rw [hpc₁]; rintro ⟨⟩)
      · exact .inl hnow
    · have hold : (s.ctx c).close = some pc := by
        have hstep := ctxStep_of_step (c := c) h
        clear h hkeep ht
        generalize s'.ctx c = y at hstep hpc
        cases hstep with
        | closeCall h =>
          cases hpc
          cases hst
        | close h => exact absurd rfl ha
        | _ => exact hpc
      exact hkeep (hA.seenIdle c pc hk hold hst) (by rw [hold]; rintro ⟨⟩)

/-! ## Numbers of calls and numbers of groups -/

/-- The sequence of the call a context is in the middle of. -/
def Phase.number : Phase → Option ℕ
  | .seeking q | .saw q _ | .initSeq q | .initGrant q | .initReady q | .initComplete q => some q
  | .initExit q | .initClock q | .initPublish q _ | .initState q => some q
  | .joined q | .lastReady q | .waiting q | .sawRunning q | .sawGrant q _ => some q
  | .sawOwner q _ | .checked q _ | .granted q _ => some q
  | _ => none

/-- The phases in which a context has a sequence and has not counted one up for a round it is not
validated in. -/
def Phase.settled : Phase → Bool
  | .out | .checked _ _ | .granted _ _ | .begun | .unexpired => true
  | .fenceOwner _ _ | .fenceSeq _ _ | .fenceRest _ _ => true
  | .lastComplete _ | .finishing _ | .sawDraining _ => true
  | .resetReady _ | .resetComplete _ | .resetGrant _ | .resetPublish _ | .resetState _ => true
  | .resetDone _ | .left _ => true
  | _ => false

/-- The same for a program point: a context in `ps_leave_forward` is settled even when it is about
to fail the pair. -/
def CallPc.settled : CallPc → Bool
  | .leave _ _ _ => true
  | pc => (phaseOf pc).settled

/-- The sequence a waiting context has found to be its group's, since it saw the group running. -/
def CallPc.compared : CallPc → Option ℕ
  | .enter (.grantGrant q _ st gs) => if st = .running ∧ gs = q then some q else none
  | .enter (.grantOwner q _ st gs gr) =>
    if st = .running ∧ gs = q ∧ gr ≠ 0 then some q else none
  | .enter (.validate q _ .session) => some q
  | _ => none

/-- A round has been opened and not been granted yet. -/
def RoundState.pending : RoundState → Bool
  | .initializing | .collecting | .ready => true
  | _ => false

/-- The session of the context is in its slot. -/
def InSlot (g : Generation) (s : State) (c : ℕ) : Prop :=
  s.mem (.session (g.inst c) (g.rank c)) = g.session c

/-- Numbers and sequences, with the bookkeeping `γ` of tenures; `num` are the numbers of the
groups. -/
structure Synced (g : Generation) (γ : Tenure.Ghost Inst ℕ) (num : Inst → ℕ) (s : State) :
    Prop where
  free : ∀ i, (s.mem (.state i)).pending = false → num i = s.mem (.forwardSeq i)
  opening : ∀ c q, s.phase c = .initSeq q → num (g.inst c) = s.mem (.forwardSeq (g.inst c))
  number : ∀ c q, (s.phase c).number = some q → q = (s.locals c).nextSeq
  compared : ∀ c q, (s.ctx c).call.compared = some q → InSlot g s c → q = num (g.inst c)
  settled : ∀ c, (s.ctx c).call.settled = true → InSlot g s c → (s.mem .status).state = .running →
    γ.Current (g.inst c) (g.rank c) → (s.locals c).nextSeq = num (g.inst c) ∨
      (s.locals c).nextSeq = s.mem (.forwardSeq (g.inst c)) ∧
        (s.mem (.state (g.inst c))).pending = true

/-- The numbers after a step. -/
noncomputable def nextNum (s s' : State) (num : Inst → ℕ) (i : Inst) : ℕ :=
  open Classical in if Opened s s' i then s.mem (.forwardSeq i) else num i

/-! ### The steps of a context -/

section Call

variable {t : ℕ} {m m' : Memory} {x x' : Locals} {p p' : Phase}

/-- A call keeps the number it has started with. -/
theorem CallTrans.number (h : CallTrans g c t m x p e m' x' p')
    (hx : ∀ q, p.number = some q → q = x.nextSeq) {q : ℕ} (hp' : p'.number = some q) :
    q = x'.nextSeq := by
  cases h with
  | seek hs ha => exact (Option.some.inj hp').symm
  | quiet hm he => exact hx q hp'
  | backOff hp => rcases hp with rfl | ⟨gr, rfl⟩ <;> exact hx q hp'
  | _ => first
    | exact hx q hp'
    | cases hp'

/-- A context validates itself when it finds its session in its slot. -/
theorem CallTrans.validated (h : CallTrans g c t m x p e m' x' p') (hp : p.isSaw = true)
    (hp' : p'.isHolder = true) :
    ∃ q gr, p = .sawOwner q gr ∧ m (.session (g.inst c) (g.rank c)) = g.session c ∧ x' = x := by
  cases h with
  | check h => exact ⟨_, _, rfl, h, rfl⟩
  | quiet hm he => simpa [hp, hp'] using Phase.not_validates (Phase.rolesLe_refl p)
  | hold => cases hp
  | _ => cases hp'

/-- A round is opened in an idle group. -/
theorem CallTrans.initSeq_of (h : CallTrans g c t m x p e m' x' p') {q : ℕ}
    (hp' : p' = .initSeq q) : p = .initSeq q ∨ m (.state (g.inst c)) = .idle := by
  cases h with
  | quiet hm he => exact .inl hp'
  | win h => exact .inr h
  | _ => cases hp'

/-- The ways to get settled. -/
theorem CallTrans.settled (h : CallTrans g c t m x p e m' x' p') (hst : StatusOk (m .status))
    (hp' : p'.settled = true) :
    p.settled = true ∧ x'.nextSeq = x.nextSeq ∨
      p = .registering ∧ m' = m ∧ x'.nextSeq = m (.forwardSeq (g.inst c)) ∨
      (∃ q gr, p = .sawOwner q gr ∧ m (.session (g.inst c) (g.rank c)) = g.session c) ∨
      (m' .status).state ≠ .running ∨
      p.waitsToEnter = true ∧ m (.stopping c) = true := by
  cases h with
  | quiet hm he => exact .inl ⟨hp', rfl⟩
  | drop hs hp =>
    rcases hs with hs | hs
    · exact .inr (.inr (.inr (.inl hs)))
    · cases p with
      | seeking q | waiting q => exact .inr (.inr (.inr (.inr ⟨rfl, hs⟩)))
      | begun | finishing q => exact .inl ⟨rfl, rfl⟩
      | _ => cases hp
  | fail reason => exact .inr (.inr (.inr (.inl (hst.failStatus_ne reason))))
  | loadSeq => exact .inr (.inl ⟨rfl, rfl, rfl⟩)
  | check h => exact .inr (.inr (.inl ⟨_, _, rfl, h⟩))
  | fence hp => rcases hp with rfl | ⟨rfl, -⟩ <;> exact .inl ⟨rfl, rfl⟩
  | backOff => cases hp'
  | _ => first
    | exact .inl ⟨rfl, rfl⟩
    | cases hp'

end Call

/-- `ps_leave_forward` does not count. -/
theorem leave_nextSeq {x : Locals} {q gid : ℕ} {pc : LeavePc} {m : Memory} {t : ℕ} {b : Bool}
    {r : Memory × Locals × Ctl LeavePc LeaveResult}
    (h : (psLeaveForward g c x q gid pc).exec m t b = some r) : r.2.1.nextSeq = x.nextSeq := by
  cases pc with
  | begin k | validate k | fail e k | done r k =>
    rw [psLeaveForward, Cmd.exec_map_eq_some] at h
    obtain ⟨⟨m', pc' | res⟩, -, rfl⟩ := h
    · rfl
    · first
        | rfl
        | dsimp only [Ctl.elim_ret]
          split <;> rfl
  | checkRunning dl | clock dl | owner | seq | grant | state | orComplete | casComplete
  | drainStopping w | drainStatus w | drainSeq w st | orExit =>
    cases h
    dsimp only
    (repeat' split) <;> rfl
  | _ =>
    cases h
    rfl

/-! ### Program points -/

theorem CallPc.isSaw_of_compared {pc : CallPc} {q : ℕ} (h : pc.compared = some q) :
    (phaseOf pc).isSaw = true := by
  unfold CallPc.compared at h
  split at h
  · split at h
    · rename_i hc
      simp only [phaseOf, enterPhase, if_pos hc]
      rfl
    · cases h
  · split at h
    · rename_i hc
      simp only [phaseOf, enterPhase, if_pos hc]
      rfl
    · cases h
  · rfl
  · cases h

theorem CallPc.compared_of_sawOwner {pc : CallPc} {q gr : ℕ} (h : phaseOf pc = .sawOwner q gr) :
    pc.compared = some q := by
  cases pc with
  | enter pc =>
    rw [phaseOf] at h
    unfold enterPhase at h
    split at h <;> first | cases h | (split at h <;> cases h)
    rfl
  | opening pc => cases pc <;> cases h
  | leave q' gid pc =>
    rw [phaseOf] at h
    unfold leavePhase at h
    split at h <;> first | cases h | (split at h <;> cases h)
  | _ => cases h

theorem CallPc.settled_of_phase {pc : CallPc} (h : (phaseOf pc).settled = true) :
    pc.settled = true := by
  cases pc <;> first
    | rfl
    | exact h

theorem CallPc.not_registering_of_settled {pc : CallPc} (h : pc.settled = true) :
    phaseOf pc ≠ .registering := by
  intro hp
  cases pc with
  | leave q gid pc =>
    rw [phaseOf] at hp
    unfold leavePhase at hp
    split at hp <;> first | cases hp | (split at hp <;> cases hp)
  | opening pc | enter pc =>
    change (phaseOf _).settled = true at h
    rw [hp] at h
    cases h
  | _ => cases hp

/-- A context compares its number while it has the group seen running. -/
theorem compared_of_call {b : Bool} (h : step g s (.call c b) = some s') {q : ℕ}
    (hq : (s'.ctx c).call.compared = some q) :
    (s.ctx c).call.compared = some q ∨
      (s.phase c).isSaw = true ∧ s.mem (.forwardSeq (g.inst c)) = q := by
  obtain ⟨cmd, r, hcode, hr, -, -, hpc'⟩ := call_of_step h
  rw [hpc'] at hq
  cases hpc : (s.ctx c).call with
  | enter pc =>
    rw [hpc] at hcode
    cases hcode
    obtain ⟨r', hr', rfl⟩ := Cmd.exec_map_eq_some.mp hr
    rw [State.phase, hpc]
    cases pc with
    | grantSeq q' w st =>
      cases hr'
      simp only [Ctl.elim, CallPc.compared] at hq
      split at hq
      · rename_i hc
        cases hq
        refine .inr ⟨?_, hc.2⟩
        simp only [phaseOf, enterPhase, if_pos hc.1]
        rfl
      · cases hq
    | grantGrant q' w st gs =>
      left
      cases hr'
      simp only [Ctl.elim, CallPc.compared] at hq ⊢
      split at hq
      · rename_i hc
        rw [if_pos ⟨hc.1, hc.2.1⟩]
        exact hq
      · cases hq
    | grantOwner q' w st gs gr =>
      left
      cases hr'
      dsimp only at hq
      split at hq
      · rename_i hc
        simp only [CallPc.compared, if_pos (⟨hc.1, hc.2.2⟩ : _ ∧ _)]
        exact hq
      · split at hq <;> cases hq
    | validate q' gr v =>
      cases v <;> cases hr' <;> dsimp only at hq <;> split at hq <;> cases hq
    | begin k | fail e k | done res k =>
      rw [psEnterForward, Cmd.exec_map_eq_some] at hr'
      obtain ⟨⟨m', k' | res'⟩, -, rfl⟩ := hr'
      · cases hq
      · dsimp only [Ctl.elim_ret] at hq
        (repeat' split at hq) <;> cases hq
    | _ =>
      cases hr'
      dsimp only at hq
      (repeat' split at hq) <;> cases hq
  | opening pc | leave q' gid pc =>
    rw [hpc] at hcode
    cases hcode
    obtain ⟨⟨m', x', pc' | res⟩, -, rfl⟩ := Cmd.exec_map_eq_some.mp hr
    · cases hq
    · cases res <;> cases hq
  | _ => rw [hpc] at hcode; cases hcode

/-- What is not a step of its calling thread makes a context start a call, if anything. -/
theorem call_of_other (h : step g s a = some s') (ha : a.isCallOf c = false) :
    (s'.ctx c).call = (s.ctx c).call ∨ (s'.ctx c).call = .opening .primary ∨
      (s.ctx c).call.isIdle = true ∧ ((s'.ctx c).call = .enter (.begin .stopping) ∨
        ∃ q gid, (s'.ctx c).call = .leave q gid (.begin .stopping)) := by
  have hstep := ctxStep_of_step (c := c) h
  clear h
  generalize s'.ctx c = y at hstep ⊢
  cases hstep with
  | openCall h => exact .inr (.inl rfl)
  | enterCall h =>
    simp only [Ctx.canCall, Bool.and_eq_true] at h
    exact .inr (.inr ⟨h.2, .inl rfl⟩)
  | leaveCall h =>
    simp only [Ctx.canCall, Bool.and_eq_true] at h
    exact .inr (.inr ⟨h.2, .inr ⟨_, _, rfl⟩⟩)
  | call hcode hr => simp [Act.isCallOf] at ha
  | _ => exact .inl rfl

theorem compared_of_step (h : step g s a = some s') {q : ℕ}
    (hq : (s'.ctx c).call.compared = some q) :
    (s.ctx c).call.compared = some q ∨
      (s.phase c).isSaw = true ∧ s.mem (.forwardSeq (g.inst c)) = q := by
  by_cases ha : a.isCallOf c = true
  · obtain ⟨b, rfl⟩ := Act.eq_call_of_isCallOf ha
    exact compared_of_call h hq
  · rcases call_of_other h (by simpa using ha) with hc | hc | ⟨-, hc | ⟨q', gid, hc⟩⟩
    · exact .inl (hc ▸ hq)
    all_goals
      rw [hc] at hq
      cases hq

/-- A settled context was settled before, or a step of its own settled it. -/
theorem settled_of_step (h : step g s a = some s') (hc : (s'.ctx c).call.settled = true) :
    (s.ctx c).call.settled = true ∧ (s'.locals c).nextSeq = (s.locals c).nextSeq ∨
      a.isCallOf c = true ∧ (s'.phase c).settled = true := by
  by_cases ha : a.isCallOf c = true
  · cases hpc' : (s'.ctx c).call with
    | leave q gid pc' =>
      left
      obtain ⟨b, rfl⟩ := Act.eq_call_of_isCallOf ha
      obtain ⟨cmd, r, hcode, hr, -, hx, hcall⟩ := call_of_step h
      rw [hpc'] at hcall
      cases hpc : (s.ctx c).call with
      | leave q₀ gid₀ pc =>
        rw [hpc] at hcode
        cases hcode
        obtain ⟨r', hr', rfl⟩ := Cmd.exec_map_eq_some.mp hr
        exact ⟨rfl, by rw [hx]; exact leave_nextSeq hr'⟩
      | opening pc | enter pc =>
        rw [hpc] at hcode
        cases hcode
        obtain ⟨⟨m', x', pc' | res⟩, -, rfl⟩ := Cmd.exec_map_eq_some.mp hr
        · cases hcall
        · cases res <;> cases hcall
      | _ => rw [hpc] at hcode; cases hcode
    | _ => exact .inr ⟨ha, by rw [hpc'] at hc; rw [State.phase, hpc']; exact hc⟩
  · left
    refine ⟨?_, by rw [locals_eq_of_step h (by simpa using ha)]⟩
    rcases call_of_other h (by simpa using ha) with hc' | hc' | ⟨hidle, -⟩
    · exact hc' ▸ hc
    · rw [hc'] at hc
      cases hc
    · cases hpc : (s.ctx c).call <;> rw [hpc] at hidle <;> first
        | rfl
        | cases hidle

/-! ### The steps of the system -/

/-- The sequence of a group is written by the opener of a round. -/
theorem Trans.forwardSeq (h : Trans g s a e s') (i : Inst) :
    s'.mem (.forwardSeq i) = s.mem (.forwardSeq i) ∨
      ∃ c q, g.inst c = i ∧ s.phase c = .initSeq q ∧ s'.phase c = .initGrant q := by
  cases h with
  | call c b hk ht =>
    exact (ht.forwardSeq i).imp id fun ⟨hi, q, hp, hp', _⟩ => ⟨c, q, hi.symm, hp, hp'⟩
  | coord hk ht => exact .inl (ht.forwardSeq i)
  | other ht => exact .inl (ht.core rfl (by simp) (by simp) (by simp))

/-- A context gets its session into its slot by storing it. -/
theorem Trans.inSlot (h : Trans g s a e s') (hc : InSlot g s' c) :
    InSlot g s c ∨ s'.phase c = .registering := by
  unfold InSlot at hc ⊢
  cases h with
  | call d b hk ht =>
    rcases ht.session (g.inst c) (g.rank c) with heq | ⟨hi, hr, hp', heq⟩
    · exact .inl (heq ▸ hc)
    · rw [heq] at hc
      obtain rfl := g.session_inj d c hi.symm hr.symm hc
      exact .inr hp'
  | coord hk ht => exact .inl (ht.session _ _ ▸ hc)
  | other ht =>
    rcases ht.session (g.inst c) (g.rank c) with heq | heq
    · exact .inl (heq ▸ hc)
    · rw [heq] at hc
      exact absurd hc.symm (g.session_ne_zero c)

theorem nextNum_of_opened {num : Inst → ℕ} {i : Inst} (h : Opened s s' i) :
    nextNum s s' num i = s.mem (.forwardSeq i) := if_pos h

theorem nextNum_of_not_opened {num : Inst → ℕ} {i : Inst} (h : ¬Opened s s' i) :
    nextNum s s' num i = num i := if_neg h

section Step

variable {γ γ' : Tenure.Ghost Inst ℕ} {num : Inst → ℕ}

/-- A registered context that has seen its group running has not been validated into the latest
tenure, and so the group still is running. -/
theorem Staged.running_of_saw (hI : Staged g γ s)
    (hT : TenuredBy g γ s.mem s.coordPhase s.phase fun d => Inside d tr)
    (hc : (s.phase c).isSaw = true) (hslot : InSlot g s c) :
    ¬γ.Current (g.inst c) (g.rank c) ∧ s.mem (.state (g.inst c)) = .running := by
  have hlt := (hT.open_of_saw hc hslot).1
  have hcur : ¬γ.Current (g.inst c) (g.rank c) := fun h => Nat.lt_irrefl _ (h ▸ hlt)
  refine ⟨hcur, ?_⟩
  by_contra hne
  exact hcur (hI.current _ hne _ (g.rank_lt c))

variable (hstep : step g s a = some s') (hI : Staged g γ s) (ho : OfflineIdle g s a)

include hstep hI

/-- The sequence of a group is only written while a round of it is being opened. -/
theorem Staged.forwardSeq_eq {i : Inst} (hi : s.mem (.state i) ≠ .initializing) :
    s'.mem (.forwardSeq i) = s.mem (.forwardSeq i) := by
  rcases (trans_of_step hstep).forwardSeq i with h | ⟨c, q, rfl, hp, -⟩
  · exact h
  · exact absurd (hI.opening c (by rw [hp]; rfl)) hi

include ho in
/-- A round that has been opened stays pending until it is granted, and it takes a step of the
opener to open one. -/
theorem Staged.pending_step {i : Inst} (hopen : ¬Opened s s' i)
    (hi : (s'.mem (.state i)).pending = false) : (s.mem (.state i)).pending = false := by
  rcases (trans_of_step hstep).edge hI ho i with h | h
  · rwa [h] at hi
  · cases h with
    | run h => exact absurd h hopen
    | online c hc hp h h' | offline c hc hp h h' | complete c q hc hp h h' | drain hp hp' h h'
    | reset c q hc hp hp' h h' =>
      rw [h]
      rfl
    | win c q hc hk hp hp' h h' | collect c q hc hp hp' h h' | ready c q hc hp h h' =>
      rw [h'] at hi
      cases hi

include ho in
theorem Synced.free_step (hS : Synced g γ num s) {i : Inst}
    (hi : (s'.mem (.state i)).pending = false) :
    nextNum s s' num i = s'.mem (.forwardSeq i) := by
  by_cases hopen : Opened s s' i
  · have hst := ((trans_of_step hstep).state_of_opened hopen).1
    rw [nextNum_of_opened hopen, hI.forwardSeq_eq hstep (by simp [hst])]
  · have hpend := hI.pending_step hstep ho hopen hi
    rw [nextNum_of_not_opened hopen, hS.free i hpend]
    refine (hI.forwardSeq_eq hstep fun hst => ?_).symm
    rw [hst] at hpend
    cases hpend

theorem Synced.opening_step (hS : Synced g γ num s) {q : ℕ} (hp' : s'.phase c = .initSeq q) :
    nextNum s s' num (g.inst c) = s'.mem (.forwardSeq (g.inst c)) := by
  have ht := trans_of_step hstep
  have hprev : s.phase c = .initSeq q ∨ s.mem (.state (g.inst c)) = .idle := by
    rcases ht.kept_or_moved c with ⟨hp, -⟩ | ⟨-, hc⟩
    · exact .inl (hp ▸ hp')
    · exact hc.initSeq_of hp'
  rcases hprev with hp | hst
  · have hst := hI.opening c (by rw [hp]; rfl)
    have hopen : ¬Opened s s' (g.inst c) := fun h => by
      simp [(ht.state_of_opened h).1] at hst
    rw [nextNum_of_not_opened hopen, hS.opening c q hp]
    rcases ht.forwardSeq (g.inst c) with h | ⟨d, q', hd, hdp, hdp'⟩
    · exact h.symm
    · obtain rfl := hI.opener d c (by rw [hdp]; rfl) (by rw [hp]; rfl) hd
      rw [hdp'] at hp'
      cases hp'
  · have hopen : ¬Opened s s' (g.inst c) := fun h => by
      simp [(ht.state_of_opened h).1] at hst
    rw [nextNum_of_not_opened hopen, hS.free _ (by rw [hst]; rfl),
      hI.forwardSeq_eq hstep (by simp [hst])]

theorem Synced.compared_step
    (hT : TenuredBy g γ s.mem s.coordPhase s.phase fun d => Inside d tr) (hS : Synced g γ num s)
    {q : ℕ} (hq : (s'.ctx c).call.compared = some q) (hslot : InSlot g s' c) :
    q = nextNum s s' num (g.inst c) := by
  have ht := trans_of_step hstep
  have hslot : InSlot g s c := by
    refine (ht.inSlot hslot).resolve_right fun hp => ?_
    have := CallPc.isSaw_of_compared hq
    rw [← State.phase, hp] at this
    cases this
  have hcomp := compared_of_step hstep hq
  have hsaw : (s.phase c).isSaw = true := hcomp.elim CallPc.isSaw_of_compared fun h => h.1
  have hrun := (hI.running_of_saw hT hsaw hslot).2
  have hopen : ¬Opened s s' (g.inst c) := fun h => by
    simp [(ht.state_of_opened h).1] at hrun
  rw [nextNum_of_not_opened hopen]
  rcases hcomp with hcomp | ⟨-, hseq⟩
  · exact hS.compared c q hcomp hslot
  · rw [← hseq]
    exact (hS.free _ (by rw [hrun]; rfl)).symm

omit hI in
/-- Who validates itself is at the number of its group. -/
theorem Synced.validated
    (hT : TenuredBy g γ s.mem s.coordPhase s.phase fun d => Inside d tr) (hS : Synced g γ num s)
    (hslot : InSlot g s c) (hv : Validated g s s' (g.inst c) (g.rank c)) :
    (s'.locals c).nextSeq = nextNum s s' num (g.inst c) := by
  have ht := trans_of_step hstep
  obtain ⟨d, ⟨hsaw, hhold⟩, hi, hr⟩ := hv
  rcases ht.kept_or_moved d with ⟨hp, -⟩ | ⟨ha, hd⟩
  · rw [hp] at hhold
    simpa [hsaw, hhold] using Phase.not_validates (Phase.rolesLe_refl (s.phase d))
  have hopen : ¬Opened s s' (g.inst c) := ht.not_opened (by rintro rfl; cases ha) _
  rw [nextNum_of_not_opened hopen]
  have hcheck := hd.validated hsaw hhold
  obtain ⟨q, gr, hpd, hses, hx⟩ := hcheck
  obtain rfl : d = c := hT.registered_unique d c hses hslot ⟨hi.symm, hr.symm⟩
  rw [hx, ← hS.number d q (by rw [hpd]; rfl)]
  exact hS.compared d q (CallPc.compared_of_sawOwner hpd) hslot

include ho in
/-- What a context knows of its number stays right while it does nothing. -/
theorem Synced.keep (hS : Synced g γ num s) (hopen : ¬Opened s s' (g.inst c)) {n : ℕ}
    (hn : n = num (g.inst c) ∨ n = s.mem (.forwardSeq (g.inst c)) ∧
      (s.mem (.state (g.inst c))).pending = true) :
    n = nextNum s s' num (g.inst c) ∨ n = s'.mem (.forwardSeq (g.inst c)) ∧
      (s'.mem (.state (g.inst c))).pending = true := by
  rw [nextNum_of_not_opened hopen]
  rcases hn with hn | ⟨hn, hpend⟩
  · exact .inl hn
  · rcases (trans_of_step hstep).forwardSeq (g.inst c) with h | ⟨d, q, hd, hp, -⟩
    · refine .inr ⟨h ▸ hn, ?_⟩
      by_contra hnot
      rw [hI.pending_step hstep ho hopen (by simpa using hnot)] at hpend
      cases hpend
    · -- the opener is about to overwrite the sequence, which still is the number
      refine .inl (hn.trans ?_)
      rw [← hd]
      exact (hS.opening d q hp).symm

include ho in
theorem Synced.settled_step (hs : Support g tr s)
    (hT : TenuredBy g γ s.mem s.coordPhase s.phase fun d => Inside d tr)
    (hγ : γ.Follows γ' (Opened s s') (Validated g s s') (Reported g e)) (hA : CloseApart g s)
    (hC : ClosingOk (s.mem (.stopping c)) (s.ctx c)) (hS : Synced g γ num s)
    (hc : (s'.ctx c).call.settled = true) (hslot : InSlot g s' c)
    (hst : (s'.mem .status).state = .running) (hcur : γ'.Current (g.inst c) (g.rank c)) :
    (s'.locals c).nextSeq = nextNum s s' num (g.inst c) ∨
      (s'.locals c).nextSeq = s'.mem (.forwardSeq (g.inst c)) ∧
        (s'.mem (.state (g.inst c))).pending = true := by
  have ht := trans_of_step hstep
  have hslot : InSlot g s c :=
    (ht.inSlot hslot).resolve_right (CallPc.not_registering_of_settled hc)
  have hst₀ : (s.mem .status).state = .running := by
    by_contra hne
    exact hne (ht.status_stable hne ▸ hst)
  rcases (hγ.current _ _).mp hcur with hv | ⟨hcur, hopen⟩
  · exact .inl (hS.validated hstep hT hslot hv)
  have hkeep : (s.ctx c).call.settled = true → (s'.locals c).nextSeq = (s.locals c).nextSeq →
      (s'.locals c).nextSeq = nextNum s s' num (g.inst c) ∨
        (s'.locals c).nextSeq = s'.mem (.forwardSeq (g.inst c)) ∧
          (s'.mem (.state (g.inst c))).pending = true := fun hc hx =>
    hS.keep hstep hI ho hopen (hx ▸ hS.settled c hc hslot hst₀ hcur)
  rcases settled_of_step hstep hc with ⟨hc, hx⟩ | ⟨ha, hp'⟩
  · exact hkeep hc hx
  obtain ⟨b, rfl⟩ := Act.eq_call_of_isCallOf ha
  generalize event s (.call c b) s' = e' at ht
  cases ht with
  | other ht _ _ _ _ _ _ ha => cases ha
  | call _ _ hk ht =>
    rcases ht.settled hs.status hp' with ⟨hp, hx⟩ | ⟨-, hm, hx⟩ | ⟨q, gr, hp, -⟩ | hne | ⟨hp, hstop⟩
    · exact hkeep (CallPc.settled_of_phase hp) hx
    · -- `ps_open` has just copied the sequence
      rw [hx, hm, nextNum_of_not_opened hopen]
      cases hpend : (s.mem (.state (g.inst c))).pending with
      | false => exact .inl (hS.free _ hpend).symm
      | true => exact .inr ⟨rfl, rfl⟩
    · exact absurd hcur (hI.running_of_saw hT (by rw [hp]; rfl) hslot).1
    · exact absurd hst hne
    · -- nobody closes a context that is entering
      obtain ⟨pc, hpc⟩ := enter_of_waitsToEnter hp
      have hclose : (s.ctx c).close = none := by
        by_contra hcl
        have := hA.apart c c rfl hk hk hcl
        rw [hpc] at this
        cases this
      simp only [ClosingOk, hclose] at hC
      rcases hC hstop with hcl | hu
      · rw [hA.entering c pc hpc hk] at hcl
        cases hcl
      · rw [hpc] at hu
        cases hu

end Step

/-- **Every step keeps numbers and sequences in agreement.** -/
theorem Synced.step {γ γ' : Tenure.Ghost Inst ℕ} {num : Inst → ℕ}
    (hstep : PairSched.step g s a = some s') (hI : Staged g γ s) (hs : Support g tr s)
    (hT : TenuredBy g γ s.mem s.coordPhase s.phase fun d => Inside d tr)
    (hγ : γ.Follows γ' (Opened s s') (Validated g s s') (Reported g e)) (hA : CloseApart g s)
    (hC : ∀ c, ClosingOk (s.mem (.stopping c)) (s.ctx c)) (hS : Synced g γ num s) :
    Synced g γ' (nextNum s s' num) s' where
  free _ := hS.free_step hstep hI (hA.offlineIdle hstep)
  opening _ _ := hS.opening_step hstep hI
  number c q := by
    rcases (trans_of_step hstep).kept_or_moved c with ⟨hp, hx⟩ | ⟨-, hc⟩
    · rw [hp, hx]
      exact hS.number c q
    · exact hc.number (hS.number c)
  compared _ _ := hS.compared_step hstep hI hT
  settled c := hS.settled_step hstep hI (hA.offlineIdle hstep) hs hT hγ hA (hC c)

/-! ## Agreement -/

/-- The invariants together. -/
structure Agreeing (g : Generation) (tr : List Event) (γ : Tenure.Ghost Inst ℕ) (num : Inst → ℕ)
    (s : State) : Prop where
  support : Support g tr s
  tenured : TenuredBy g γ s.mem s.coordPhase s.phase fun d => Inside d tr
  staged : Staged g γ s
  closing : ∀ c, ClosingOk (s.mem (.stopping c)) (s.ctx c)
  apart : CloseApart g s
  synced : Synced g γ num s

theorem agreeing_initialState : Agreeing g [] initialGhost (fun _ => 0) (initialState g) where
  support := support_of_run (P := anyStep) .start
  tenured := tenuredBy_initialState
  staged := staged_initialState
  closing := closingOk_of_run (P := anyStep) .start
  apart := by
    have hclose : ∀ c, ((initialState g).ctx c).close = none := fun c => by
      by_cases hc : c = 0
      · subst hc; rfl
      · simp [initialState, hc, Ctx.absent]
    refine ⟨fun c d _ _ _ h => absurd (hclose c) h, fun c pc _ _ => ?_, fun c pc _ h => ?_⟩
    · by_cases hc : c = 0
      · subst hc; rfl
      · simp [initialState, hc, Ctx.absent]
    · rw [hclose] at h
      cases h
  synced := by
    have hcall : ∀ c, ((initialState g).ctx c).call.compared = none ∧
        ((initialState g).ctx c).call.settled = false := fun c => by
      by_cases hc : c = 0
      · subst hc; exact ⟨rfl, rfl⟩
      · simp [initialState, hc, Ctx.absent, CallPc.compared, CallPc.settled, phaseOf,
          Phase.settled]
    refine ⟨fun i _ => rfl, fun c q h => by simp at h, fun c q h => ?_, fun c q h => ?_,
      fun c h => ?_⟩
    · simp [Phase.number] at h
    · rw [(hcall c).1] at h
      cases h
    · rw [(hcall c).2] at h
      cases h

theorem agreeing_of_run (h : Run g (NoOverlap g) tr s) : ∃ γ num, Agreeing g tr γ num s := by
  refine h.invariant (I := fun tr s => ∃ γ num, Agreeing g tr γ num s)
    ⟨_, _, agreeing_initialState⟩ ?_
  rintro tr s a s' ⟨γ, num, hI⟩ hP hstep
  have ht := trans_of_step hstep
  obtain ⟨γ', hγ, hT'⟩ := ht.tenuredBy hI.support hI.tenured
  exact ⟨γ', nextNum s s' num, ht.support hI.support, hT',
    ht.staged hI.support hI.tenured hγ hI.staged (hI.apart.offlineIdle hstep),
    fun c => (hI.closing c).step hstep, hI.apart.step hI.staged hP hstep,
    hI.synced.step hstep hI.staged hI.support hI.tenured hγ hI.apart hI.closing⟩

/-- **Sequence agreement across restarts.** When no `ps_close` overlaps a `ps_open` or
`ps_enter_forward` of its instance, every registered context of an idle group that is not in
`ps_enter_forward` has the sequence of the group. -/
theorem sequence_agreement (h : Run g (NoOverlap g) tr s) (hst : (s.mem .status).state = .running)
    {i : Inst} (hi : s.mem (.state i) = .idle) {c : ℕ} (hc : g.inst c = i)
    (hopen : (s.ctx c).call.isOpen = true) (henter : ∀ pc, (s.ctx c).call ≠ .enter pc)
    (hslot : s.mem (.session i (g.rank c)) = g.session c) :
    (s.locals c).nextSeq = s.mem (.forwardSeq i) := by
  subst hc
  obtain ⟨γ, num, hI⟩ := agreeing_of_run h
  have hsettled : (s.ctx c).call.settled = true := by
    cases hpc : (s.ctx c).call with
    | idle r | leave q gid pc => rfl
    | enter pc => exact absurd hpc (henter pc)
    | _ => rw [hpc] at hopen; cases hopen
  have hcur := hI.staged.current (g.inst c) (by rw [hi]; nofun) _ (g.rank_lt c)
  rcases hI.synced.settled c hsettled hslot hst hcur with hn | ⟨-, hpend⟩
  · rw [hn]
    exact hI.synced.free _ (by rw [hi]; rfl)
  · rw [hi] at hpend
    cases hpend

/-- `NoOverlap`, looking at the first `n` contexts only. -/
def apartBelow (g : Generation) (n : ℕ) (s : State) : Act → Bool
  | .closeCall c => (List.range n).all fun d =>
      !decide (g.inst d = g.inst c) || (s.ctx d).killed || !(s.ctx d).call.opensOrEnters
  | .openCall c => decide (c < n) && (List.range n).all fun d =>
      !decide (g.inst d = g.inst c) || (s.ctx d).killed || (s.ctx d).close.isNone
  | .enterCall c => (List.range n).all fun d =>
      !decide (g.inst d = g.inst c) || (s.ctx d).killed || (s.ctx d).close.isNone
  | _ => true

/-- It is enough when no other contexts are opened. -/
theorem noOverlap_of_apartBelow {n : ℕ} (hn : 0 < n)
    (h : Run g (fun s a => apartBelow g n s a = true) tr s) :
    Run g (NoOverlap g) tr s ∧ ∀ c, n ≤ c → (s.ctx c).call = .absent := by
  induction h with
  | start =>
    refine ⟨.start, fun c hc => ?_⟩
    have hc0 : c ≠ 0 := by omega
    simp [initialState, hc0, Ctx.absent]
  | @next tr s s' a h hP hs ih =>
    obtain ⟨hrun, habs⟩ := ih
    have hclose : ∀ c, n ≤ c → (s.ctx c).close = none := fun c hc => by
      by_contra hne
      have := ((closingOk_of_run h c).isOpen hne).1
      rw [habs c hc] at this
      cases this
    refine ⟨.next hrun ?_ hs, fun c hc => absent_of_step hs ?_ (habs c hc)⟩
    · cases a with
      | closeCall c =>
        intro d hd hk
        by_cases hdn : d < n
        · simpa [hd, hk] using List.all_eq_true.mp hP d (List.mem_range.mpr hdn)
        · rw [habs d (by omega)]
          rfl
      | openCall c =>
        intro d hd hk
        by_cases hdn : d < n
        · simp only [apartBelow, Bool.and_eq_true] at hP
          simpa [hd, hk] using List.all_eq_true.mp hP.2 d (List.mem_range.mpr hdn)
        · exact hclose d (by omega)
      | enterCall c =>
        intro d hd hk
        by_cases hdn : d < n
        · simpa [hd, hk] using List.all_eq_true.mp hP d (List.mem_range.mpr hdn)
        · exact hclose d (by omega)
      | _ => trivial
    · rintro rfl
      simp only [apartBelow, Bool.and_eq_true, decide_eq_true_eq] at hP
      omega

/-- In `pairOfTwo`, rank `1` of A leaves a round first, is closed and opened again as context `6`
while the group is still draining; then rank `0` leaves, and the group is idle. -/
def restartedRank : List Act :=
  halfBarrier ++ .enterCall 2 :: calls 21 2 ++ ticks 42 ++ calls 15 0 ++ calls 15 2 ++
    .leaveCall 0 1 1 :: calls 19 0 ++ .leaveCall 2 1 1 :: calls 22 2 ++ ticks 39 ++ calls 9 2 ++
    .closeCall 2 :: closes 4 2 ++ [.beat 2, .beat 2, .beat 2] ++ closes 11 2 ++
    .openCall 6 :: calls 16 6 ++ calls 16 0

/-- The restarted rank is at the sequence of the group, which has had one round. -/
theorem sequence_agreement_restartedRank :
    ∃ tr s, Run pairOfTwo (NoOverlap pairOfTwo) tr s ∧ s.mem (.forwardSeq .A) = 1 ∧
      (s.locals 6).nextSeq = s.mem (.forwardSeq .A) := by
  obtain ⟨tr, s, h, htest⟩ := exists_run pairOfTwo (fun _ _ => id) restartedRank
    (fun _ s => (s.mem .status).state == .running && s.mem (.state .A) == .idle &&
      (s.ctx 6).call.isIdle && s.mem (.session .A 1) == pairOfTwo.session 6 &&
      s.mem (.forwardSeq .A) == 1)
    (p := apartBelow pairOfTwo 8) (by decide +kernel)
  simp only [Bool.and_eq_true, beq_iff_eq] at htest
  obtain ⟨⟨⟨⟨hst, hidle⟩, hcall⟩, hslot⟩, hseq⟩ := htest
  have hrun := (noOverlap_of_apartBelow (by decide) h).1
  cases hpc : (s.ctx 6).call with
  | idle r =>
    exact ⟨tr, s, hrun, hseq, sequence_agreement hrun hst hidle rfl (by rw [hpc]; rfl)
      (by rw [hpc]; rintro _ ⟨⟩) hslot⟩
  | _ => rw [hpc] at hcall; cases hcall

end YellowZone.PairSched
