import YellowZone.PairSched.Calls
import YellowZone.PairSched.Footprint

/-!
# Contexts that are being closed

What the stopping flag of a context says about its `ps_close`, and what a closing context still
knows of the round state it has loaded. The flag is raised by the first access of `ps_close`, which
at most one thread passes; the only other writer is a `ps_open` that fails after it has registered,
and its caller never gets the context.

## Main results

* `stopping_written` — who raises the stopping flag
* `CloseNext`, `closeNext_of_exec` — where `ps_close` goes
* `ClosingOk`, `closingOk_of_run` — the flag, the close in progress and the released context agree
* `ClosePc.seen`, `seen_of_step` — the round state a closing context has loaded
-/

namespace YellowZone.PairSched

open Machine

variable {g : Generation} {tr : List Event} {s s' : State} {a : Act} {c : ℕ}

/-! ## Who raises the stopping flag -/

/-- The steps that write the stopping flag of `c`. -/
theorem stopping_written (h : written g s a = some (.stopping c)) :
    a = .close c ∧ (s.ctx c).close = some .exchange ∨
      ∃ b e, a = .call c b ∧ (s.ctx c).call = .opening (.undoStopping e) := by
  cases a with
  | call d b =>
    obtain ⟨cmd, hc, ht⟩ := Option.bind_eq_some_iff.mp h
    cases hpc : (s.ctx d).call with
    | opening pc =>
      rw [hpc] at hc
      cases hc
      rw [Cmd.target_map] at ht
      cases pc with
      | undoStopping e => cases ht; exact .inr ⟨b, e, rfl, hpc⟩
      | _ => cases ht
    | enter pc =>
      rw [hpc] at hc
      cases hc
      rw [Cmd.target_map] at ht
      rcases enter_target ht with hl | ⟨-, hl⟩ <;> cases hl
    | leave q gid pc =>
      rw [hpc] at hc
      cases hc
      rw [Cmd.target_map] at ht
      cases leave_target ht
    | _ => rw [hpc] at hc; cases hc
  | close d =>
    obtain ⟨pc, hpc, ht⟩ := Option.bind_eq_some_iff.mp h
    cases pc with
    | exchange => cases ht; exact .inl ⟨rfl, hpc⟩
    | fail st f =>
      rw [psClose, Cmd.target_map] at ht
      cases failPair_target ht
    | shutdownWake w => rcases w with _ | _ | _ <;> cases ht
    | _ => cases ht
  | fail d =>
    obtain ⟨pc, -, ht⟩ := Option.bind_eq_some_iff.mp h
    cases failPair_target ht
  | beat d =>
    change (heartbeatMain g d (s.ctx d).heartbeat).target = _ at h
    cases hpc : (s.ctx d).heartbeat <;> rw [hpc] at h <;> cases h
  | coord => cases coord_target h
  | _ => cases h

/-! ## The flag and the close in progress -/

/-- `ps_open` fails although it has registered. -/
def CallPc.undone : CallPc → Bool
  | .openFailed _ | .opening (.undoJoin _) | .opening (.undoOnline _) => true
  | _ => false

theorem CallPc.undone_of_isOpen {pc : CallPc} (h : pc.isOpen = true) : pc.undone = false := by
  cases pc <;> first
    | rfl
    | cases h

theorem Ctx.isOpen_of_canCall {x : Ctx} (h : x.canCall = true) : x.call.isOpen = true := by
  simp only [Ctx.canCall, Bool.and_eq_true] at h
  cases hpc : x.call <;> rw [hpc] at h <;> first
    | rfl
    | cases h.2

/-- The stopping flag of a context is up exactly while its `ps_close` is past its first access,
and after it. -/
def ClosingOk (stopping : Bool) (x : Ctx) : Prop :=
  match x.close with
  | none => stopping = true → x.closed = true ∨ x.call.undone = true
  | some .exchange => (x.call.isOpen = true ∧ x.closed = false) ∧ stopping = false
  | some _ => (x.call.isOpen = true ∧ x.closed = false) ∧ stopping = true

/-- A context that is being closed has been opened and not been released. -/
theorem ClosingOk.isOpen {b : Bool} {x : Ctx} (h : ClosingOk b x) (hc : x.close ≠ none) :
    x.call.isOpen = true ∧ x.closed = false := by
  unfold ClosingOk at h
  split at h
  · exact absurd ‹_› hc
  · exact h.1
  · exact h.1

theorem ClosingOk.stopping {b : Bool} {x : Ctx} (h : ClosingOk b x) {pc : ClosePc}
    (hc : x.close = some pc) (hpc : pc ≠ .exchange) : b = true := by
  unfold ClosingOk at h
  rw [hc] at h
  cases pc <;> first
    | exact h.2
    | exact absurd rfl hpc

/-! ## Where `ps_close` goes -/

/-- `ps_close` has waited for the calls in progress. -/
def ClosePc.drained : ClosePc → Bool
  | .exchange | .wakeGroup | .wakeCoordinator | .coordinatorStarted | .joinCoordinator => false
  | .heartbeatStarted | .joinHeartbeat | .calls | .callsWake | .callsWait _ => false
  | _ => true

/-- The points behind which `ps_close` may be finished. -/
def ClosePc.last : ClosePc → Bool
  | .session _ _ _ | .online _ | .storeOffline => true
  | _ => false

/-- Where a step of `ps_close` leads from a point, with what it has found in the memory. -/
inductive CloseNext (g : Generation) (c : ℕ) (m : Memory) (x : Locals) :
    ClosePc → Ctl ClosePc Bool → Prop
  | already : CloseNext g c m x .exchange (.ret false)
  | drained (h : m (.activeCalls c) = (0 : ℤ)) : CloseNext g c m x .calls (.goto .owner)
  | owner : CloseNext g c m x .owner (.goto (.state (m .owner)))
  | state (o : ℤ) : CloseNext g c m x (.state o) (.goto (.ready o (m (.state (g.inst c)))))
  | ready (o : ℤ) (st : RoundState) :
      CloseNext g c m x (.ready o st) (.goto (.session o st (m (.readyMask (g.inst c)))))
  | active {o : ℤ} {st : RoundState} {rd : BitVec 64}
      (hses : m (.session (g.inst c) (g.rank c)) = g.session c)
      (hwhy : x.activeSeq ≠ 0 ∨ o = (g.inst c).idx ∨
        ((st = .collecting ∨ st = .ready) ∧ BitMask.HasBit rd (g.rank c))) :
      CloseNext g c m x (.session o st rd) (.goto (.fail st (.cas failCloseActive)))
  | clear (o : ℤ) (st : RoundState) (rd : BitVec 64) :
      CloseNext g c m x (.session o st rd) (.goto (.clearOnline st))
  | failing (st : RoundState) (f : FailPc) (w : WakePc) :
      CloseNext g c m x (.fail st f) (.goto (.fail st (.wake w)))
  | failed (st : RoundState) (f : FailPc) : CloseNext g c m x (.fail st f) (.goto (.clearOnline st))
  | clearOnline (st : RoundState) :
      CloseNext g c m x (.clearOnline st) (.goto (.clearHeartbeat st))
  | clearHeartbeat (st : RoundState) :
      CloseNext g c m x (.clearHeartbeat st) (.goto (.clearPid st))
  | clearPid (st : RoundState) : CloseNext g c m x (.clearPid st) (.goto (.clearSession st))
  | clearSession (st : RoundState) : CloseNext g c m x (.clearSession st) (.goto (.online st))
  | vacant (h : m (.onlineMask (g.inst c)) = 0#64) :
      CloseNext g c m x (.online .idle) (.goto .storeOffline)
  | shutdown : CloseNext g c m x .shutdown (.goto (.shutdownWake .coordinator))
  | waking (w w' : WakePc) : CloseNext g c m x (.shutdownWake w) (.goto (.shutdownWake w'))
  | woken (w : WakePc) : CloseNext g c m x (.shutdownWake w) (.ret true)
  | finish {pc : ClosePc} (hpc : pc.last = true) (hc : c ≠ 0) : CloseNext g c m x pc (.ret true)
  | finishPair {pc : ClosePc} (hpc : pc.last = true) (hc : c = 0) :
      CloseNext g c m x pc (.goto .shutdown)
  | early {pc pc' : ClosePc} (hpc : pc.drained = false) (hpc' : pc'.drained = false)
      (hne : pc' ≠ .exchange) : CloseNext g c m x pc (.goto pc')

theorem closeNext_of_exec {x : Locals} {m : Memory} {t : ℕ} {b : Bool} {pc : ClosePc}
    {r : Memory × Ctl ClosePc Bool} (h : (psClose g c x pc).exec m t b = some r) :
    CloseNext g c m x pc r.2 := by
  have hfin : pc.last = true → CloseNext g c m x pc (closeFinish c) := by
    intro hpc
    unfold closeFinish
    split
    · exact .finishPair hpc ‹_›
    · exact .finish hpc ‹_›
  cases pc with
  | exchange =>
    cases h
    dsimp only
    split
    · exact .already
    · exact .early rfl rfl (by rintro ⟨⟩)
  | wakeCoordinator | coordinatorStarted | heartbeatStarted =>
    cases h
    dsimp only
    split <;> exact .early rfl rfl (by rintro ⟨⟩)
  | joinCoordinator | joinHeartbeat =>
    rw [psClose, Cmd.exec_await] at h
    obtain ⟨-, rfl⟩ := h
    exact .early rfl rfl (by rintro ⟨⟩)
  | calls =>
    cases h
    dsimp only
    split
    · exact .early rfl rfl (by rintro ⟨⟩)
    · exact .drained (not_not.mp ‹_›)
  | wakeGroup | callsWake | callsWait w =>
    cases h
    exact .early rfl rfl (by rintro ⟨⟩)
  | session o st rd =>
    cases h
    dsimp only
    split
    · split
      · exact .active ‹_› ‹_›
      · exact .clear o st rd
    · exact hfin rfl
  | fail st f => rcases f with reason | (_ | _ | _) <;> cases h <;> constructor
  | online st =>
    cases h
    dsimp only
    split
    · next hidle =>
      obtain ⟨hmask, rfl⟩ := hidle
      exact .vacant hmask
    · exact hfin rfl
  | storeOffline =>
    cases h
    exact hfin rfl
  | shutdownWake w => rcases w with _ | _ | _ <;> cases h <;> constructor
  | _ =>
    cases h
    constructor

/-- Only the first access of `ps_close` turns a second caller away. -/
theorem psClose_next {x : Locals} {m : Memory} {t : ℕ} {b : Bool} {pc : ClosePc}
    (hpc : pc ≠ .exchange) {r : Memory × Ctl ClosePc Bool}
    (h : (psClose g c x pc).exec m t b = some r) :
    (∃ pc', r.2 = .goto pc' ∧ pc' ≠ .exchange) ∨ r.2 = .ret true := by
  have hnext := closeNext_of_exec h
  generalize r.2 = ctl at hnext
  cases hnext with
  | already => exact absurd rfl hpc
  | woken | finish => exact .inr rfl
  | early _ _ hne => exact .inl ⟨_, rfl, hne⟩
  | _ => exact .inl ⟨_, rfl, by rintro ⟨⟩⟩

/-- A failing `ps_open` goes on failing. -/
theorem undone_of_step {b : Bool} (h : step g s (.call c b) = some s')
    (hu : (s.ctx c).call.undone = true) : (s'.ctx c).call.undone = true := by
  cases hpc : (s.ctx c).call with
  | opening pc =>
    obtain ⟨r, hr, -, -, hpc'⟩ := open_of_step h hpc
    rw [hpc']
    rw [hpc] at hu
    cases pc with
    | undoJoin e =>
      rw [psOpen, Cmd.exec_await] at hr
      obtain ⟨-, rfl⟩ := hr
      rfl
    | undoOnline e => cases hr; rfl
    | _ => cases hu
  | openFailed e =>
    obtain ⟨cmd, -, hc, -⟩ := call_of_step h
    rw [hpc] at hc
    cases hc
  | _ => rw [hpc] at hu; cases hu

/-- What keeps the context open, or failing, keeps the agreement. -/
theorem ClosingOk.mono {b : Bool} {x y : Ctx} (h : ClosingOk b x) (hclose : y.close = x.close)
    (hclosed : y.closed = x.closed) (hopen : x.call.isOpen = true → y.call.isOpen = true)
    (hundone : x.call.undone = true → y.call.undone = true) : ClosingOk b y := by
  unfold ClosingOk at h ⊢
  rw [hclose, hclosed]
  split at h
  · exact fun hb => (h hb).imp id hundone
  · exact ⟨⟨hopen h.1.1, h.1.2⟩, h.2⟩
  · exact ⟨⟨hopen h.1.1, h.1.2⟩, h.2⟩

/-- Only a step of its own close changes the close of a context that is being closed. -/
theorem ClosingOk.frame {b : Bool} (hI : ClosingOk b (s.ctx c)) (h : PairSched.step g s a = some s')
    (ha : a ≠ .close c) : ClosingOk b (s'.ctx c) := by
  by_cases hcc : a = .closeCall c
  · subst hcc
    simp only [PairSched.step] at h
    split at h <;> cases h
    rename_i hcan
    simp only [Ctx.canUse, Bool.and_eq_true, Bool.not_eq_true', Option.isNone_iff_eq_none] at hcan
    obtain ⟨⟨⟨-, hclosed⟩, hopen⟩, hnone⟩ := hcan
    rw [State.setCtx_ctx_self]
    refine ⟨⟨hopen, hclosed⟩, ?_⟩
    by_contra hb
    simp only [ClosingOk, hnone] at hI
    rcases hI (by simpa using hb) with hc | hu
    · rw [hclosed] at hc
      cases hc
    · rw [CallPc.undone_of_isOpen hopen] at hu
      cases hu
  · have hstep := ctxStep_of_step (c := c) h
    have hopen := isOpen_of_step (c := c) h
    have hundone : ∀ b, a = .call c b → (s.ctx c).call.undone = true →
        (s'.ctx c).call.undone = true := by
      rintro b rfl
      exact undone_of_step h
    generalize s'.ctx c = y at hstep hopen hundone ⊢
    cases hstep with
    | openCall hpc => exact hI.mono rfl rfl hopen (by rw [hpc]; rintro ⟨⟩)
    | enterCall hcan | leaveCall hcan =>
      refine hI.mono rfl rfl hopen fun hu => ?_
      rw [CallPc.undone_of_isOpen (Ctx.isOpen_of_canCall hcan)] at hu
      cases hu
    | closeCall => exact absurd rfl hcc
    | call hc hr => exact hI.mono rfl rfl hopen (hundone _ rfl)
    | close hpc => exact absurd rfl ha
    | _ => exact hI.mono rfl rfl id id

/-- **The flag and the close in progress agree.** -/
theorem ClosingOk.step (h : PairSched.step g s a = some s')
    (hI : ClosingOk (s.mem (.stopping c)) (s.ctx c)) :
    ClosingOk (s'.mem (.stopping c)) (s'.ctx c) := by
  by_cases hclose : a = .close c
  · subst hclose
    obtain ⟨pc, r, hpc, hr, hm, hpc', hclosed, hcall⟩ := closing_of_step h
    by_cases hex : pc = .exchange
    · subst hex
      simp only [ClosingOk, hpc] at hI
      cases hr
      simp only [hI.2] at hpc'
      simp [ClosingOk, hpc', hclosed, hcall, hm, hI.1, hI.2]
    · have hframe : s'.mem (.stopping c) = s.mem (.stopping c) := by
        refine frame_of_step h fun hw => ?_
        rcases stopping_written hw with ⟨-, hc⟩ | ⟨b, e, hc, -⟩
        · rw [hpc] at hc
          exact hex (Option.some.inj hc)
        · cases hc
      have hstop := hI.stopping hpc hex
      have hopen := hI.isOpen (by rw [hpc]; rintro ⟨⟩)
      rcases psClose_next hex hr with ⟨pc'', hgo, hne⟩ | hret
      · rw [hgo] at hpc' hclosed
        rw [hframe]
        simp only [ClosingOk, hpc', Ctl.elim]
        cases pc'' <;> first
          | exact absurd rfl hne
          | exact ⟨⟨hcall ▸ hopen.1, by simp [hclosed, hopen.2]⟩, hstop⟩
      · rw [hret] at hpc' hclosed
        simp [ClosingOk, hpc', hclosed]
  · by_cases hw : written g s a = some (.stopping c)
    · -- a failing `ps_open`, whose context nobody can close
      obtain ⟨hc, -⟩ | ⟨b, e, rfl, hpc⟩ := stopping_written hw
      · exact absurd hc hclose
      · have hnone : (s.ctx c).close = none := by
          by_contra hne
          have := (hI.isOpen hne).1
          rw [hpc] at this
          cases this
        obtain ⟨r, hr, -, -, hpc'⟩ := open_of_step h hpc
        have hclose' := close_of_step h (by rintro ⟨⟩) hnone
        simp only [ClosingOk, hclose', hpc']
        refine fun _ => .inr ?_
        cases hr
        dsimp only
        split <;> rfl
    · rw [frame_of_step h hw]
      exact hI.frame h hclose

theorem closingOk_of_run {P : State → Act → Prop} (h : Run g P tr s) (c : ℕ) :
    ClosingOk (s.mem (.stopping c)) (s.ctx c) := by
  refine h.invariant (I := fun _ s => ClosingOk (s.mem (.stopping c)) (s.ctx c)) ?_
    fun _ _ _ _ hI _ hs => hI.step hs
  by_cases hc : c = 0
  · subst hc
    nofun
  · simp [ClosingOk, initialState, hc, Ctx.absent, initialMemory]

theorem close_initialState (g : Generation) (c : ℕ) : ((initialState g).ctx c).close = none := by
  by_cases hc : c = 0
  · subst hc
    rfl
  · simp [initialState, hc, Ctx.absent]

/-- How a `ps_close` in progress comes to a point: it has just been called, it has moved there, or
it was there. -/
theorem close_cases (h : step g s a = some s') {pc : ClosePc}
    (hpc : (s'.ctx c).close = some pc) :
    pc = .exchange ∨
      (a = .close c ∧ ∃ pc₀ r, (s.ctx c).close = some pc₀ ∧
        (psClose g c (s.locals c) pc₀).exec s.mem s.now false = some r ∧ r.2 = .goto pc ∧
        (s'.ctx c).call = (s.ctx c).call ∧ s'.mem = r.1) ∨
      a ≠ .close c ∧ (s.ctx c).close = some pc := by
  by_cases ha : a = .close c
  · subst ha
    obtain ⟨pc₀, r, hpc₀, hr, hm, hpc', -, hcall⟩ := closing_of_step h
    refine .inr (.inl ⟨rfl, pc₀, r, hpc₀, hr, ?_, hcall, hm⟩)
    rw [hpc] at hpc'
    cases hctl : r.2 with
    | ret res => rw [hctl] at hpc'; cases hpc'
    | goto pc₁ => rw [hctl] at hpc'; cases hpc'; rfl
  · by_cases hcl : (s.ctx c).close = none
    · by_cases hcall : a = .closeCall c
      · subst hcall
        simp only [step] at h
        split at h <;> cases h
        simp only [State.setCtx_ctx_self, Option.some.injEq] at hpc
        exact .inl hpc.symm
      · rw [close_of_step h hcall hcl] at hpc
        cases hpc
    · exact .inr (.inr ⟨ha, (close_eq_of_step h ha hcl).symm.trans hpc⟩)

/-! ## The round state a closing context has loaded -/

/-- The round state that decides about OFFLINE at the end. -/
def ClosePc.seen : ClosePc → Option RoundState
  | .ready _ st | .session _ st _ | .fail st _ | .clearOnline st | .clearHeartbeat st => some st
  | .clearPid st | .clearSession st | .online st => some st
  | .storeOffline => some .idle
  | _ => none

/-- It is loaded once. -/
theorem seen_of_step (h : step g s (.close c) = some s') {pc' : ClosePc} {st : RoundState}
    (hpc' : (s'.ctx c).close = some pc') (hst : pc'.seen = some st) :
    (∃ pc, (s.ctx c).close = some pc ∧ pc.seen = some st) ∨
      s'.mem (.state (g.inst c)) = st := by
  rcases close_cases h hpc' with rfl | ⟨-, pc, r, hpc, hr, hctl, -, hm⟩ | ⟨ha, -⟩
  · cases hst
  · have hnext := closeNext_of_exec hr
    rw [hctl] at hnext
    cases hnext with
    | state o =>
      cases hst
      exact .inr (by rw [hm]; cases hr; rfl)
    | early _ hpc₁ => cases pc' <;> first | (cases hst; done) | cases hpc₁
    | drained | owner | shutdown | waking | finishPair => cases hst
    | _ => exact .inl ⟨_, hpc, hst⟩
  · exact absurd rfl ha

end YellowZone.PairSched
