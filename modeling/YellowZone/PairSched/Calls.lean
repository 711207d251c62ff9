import YellowZone.PairSched.Inversion

/-!
# Following the calls of one context

A run interleaves the calls of one context with the steps of everybody else. These are the facts
that let a proof follow one context through it: which steps are its own, what such a step is, and
that no other step moves it.

## Main results

* `call_of_step`, `open_of_step`, `beat_of_step`, `closing_of_step` — steps, taken apart
* `CtxStep`, `ctxStep_of_step` — what a step can make of a context
* `call_eq_of_step`, `Trans.phase_eq` — what is not its own step does not move a context
* `isOpen_of_step` — a context that has been opened stays open
* `exec_of_first` — runs on finitely many contexts
-/

namespace YellowZone.PairSched

open Machine

variable {g : Generation} {s s' : State} {a : Act} {c : ℕ}

/-- The calling thread of `c` moves. -/
def Act.isCallOf (c : ℕ) : Act → Bool
  | .call d _ => d == c
  | _ => false

/-- A forward call on `c` is started. -/
def Act.startsCall (c : ℕ) : Act → Bool
  | .enterCall d | .leaveCall d _ _ => d == c
  | _ => false

theorem Act.eq_call_of_isCallOf (h : a.isCallOf c = true) : ∃ b, a = .call c b := by
  cases a with
  | call d b => exact ⟨b, by simpa [Act.isCallOf] using h⟩
  | _ => cases h

/-- An action moves the calling thread of one context at most. -/
theorem Act.isCallOf_unique {c d : ℕ} (hc : a.isCallOf c = true) (hd : a.isCallOf d = true) :
    c = d := by
  obtain ⟨b, rfl⟩ := Act.eq_call_of_isCallOf hc
  simpa [Act.isCallOf] using hd

/-- A step of the calling thread of `c`, taken apart. -/
theorem call_of_step {b : Bool} (h : step g s (.call c b) = some s') :
    ∃ cmd r, callCode g c (s.locals c) (s.ctx c).call = some cmd ∧
      cmd.exec s.mem s.now b = some r ∧ s'.mem = r.1 ∧ s'.locals c = r.2.1 ∧
      (s'.ctx c).call = r.2.2 := by
  cases steps_of_step h with
  | call _ _ hk hc hr => exact ⟨_, _, hc, hr, rfl, by simp [State.locals], by simp⟩

/-- A step of `ps_open`, taken apart. -/
theorem open_of_step {b : Bool} (h : step g s (.call c b) = some s') {pc : OpenPc}
    (hpc : (s.ctx c).call = .opening pc) :
    ∃ r, (psOpen g c (s.locals c) pc).exec s.mem s.now b = some r ∧ s'.mem = r.1 ∧
      s'.locals c = r.2.1 ∧ (s'.ctx c).call = r.2.2.elim .opening fun res =>
        match res with
        | .ok _ => .idle .opened
        | .error e => .openFailed e := by
  obtain ⟨cmd, r, hc, hr, hm, hx, hpc'⟩ := call_of_step h
  rw [hpc] at hc
  cases hc
  obtain ⟨r', hr', rfl⟩ := Cmd.exec_map_eq_some.mp hr
  exact ⟨r', hr', hm, hx, hpc'⟩

/-- A step of a heartbeat thread, taken apart. -/
theorem beat_of_step (h : step g s (.beat c) = some s') :
    ∃ r, (heartbeatMain g c (s.ctx c).heartbeat).exec s.mem s.now false = some r ∧
      s'.mem = r.1 ∧ (s'.ctx c).heartbeat = r.2 := by
  cases steps_of_step h with
  | beat _ hk hr => exact ⟨_, hr, rfl, by simp⟩

/-- A step of `ps_close`, taken apart. -/
theorem closing_of_step (h : step g s (.close c) = some s') :
    ∃ pc r, (s.ctx c).close = some pc ∧
      (psClose g c (s.locals c) pc).exec s.mem s.now false = some r ∧ s'.mem = r.1 ∧
      (s'.ctx c).close = r.2.elim some (fun _ => none) ∧
      (s'.ctx c).closed = ((s.ctx c).closed || r.2.elim (fun _ => false) id) ∧
      (s'.ctx c).call = (s.ctx c).call := by
  cases steps_of_step h with
  | close _ hk hpc hr => exact ⟨_, _, hpc, hr, rfl, by simp, by simp, by simp⟩

/-! ## What a step does to a context -/

/-- What a step can make of context `c`. -/
inductive CtxStep (g : Generation) (s : State) (c : ℕ) : Act → Ctx → Prop
  | same {a : Act} : CtxStep g s c a (s.ctx c)
  | kill : CtxStep g s c (.kill c) { s.ctx c with killed := true }
  | openCall (h : (s.ctx c).call = .absent) :
      CtxStep g s c (.openCall c) { s.ctx c with call := .opening .primary }
  | enterCall (h : (s.ctx c).canCall = true) :
      CtxStep g s c (.enterCall c) { s.ctx c with call := .enter (.begin .stopping) }
  | leaveCall {q gid : ℕ} (h : (s.ctx c).canCall = true) :
      CtxStep g s c (.leaveCall c q gid) { s.ctx c with call := .leave q gid (.begin .stopping) }
  | closeCall (h : (s.ctx c).canUse = true) :
      CtxStep g s c (.closeCall c) { s.ctx c with close := some .exchange }
  | failCall {reason : Reason} (h : (s.ctx c).canUse = true) :
      CtxStep g s c (.failCall c reason) { s.ctx c with fail := some (.cas reason) }
  | call {b : Bool} {cmd : Cmd Val (Locals × CallPc)} {r : Memory × Locals × CallPc}
      (hc : callCode g c (s.ctx c).locals (s.ctx c).call = some cmd)
      (hr : cmd.exec s.mem s.now b = some r) :
      CtxStep g s c (.call c b) { s.ctx c with locals := r.2.1, call := r.2.2 }
  | close {pc : ClosePc} (h : (s.ctx c).close = some pc) (pc' : Option ClosePc) (closed : Bool) :
      CtxStep g s c (.close c) { s.ctx c with close := pc', closed := closed }
  | fail (pc : Option FailPc) : CtxStep g s c (.fail c) { s.ctx c with fail := pc }
  | beat (pc : HeartbeatPc) : CtxStep g s c (.beat c) { s.ctx c with heartbeat := pc }

theorem ctxStep_of_step (h : step g s a = some s') : CtxStep g s c a (s'.ctx c) := by
  -- an action on another context leaves this one alone
  have hset : ∀ (s₁ : State) (d : ℕ) (y : Ctx), s₁.ctx = s.ctx →
      (d = c → CtxStep g s c a y) → CtxStep g s c a ((s₁.setCtx d y).ctx c) := by
    intro s₁ d y h₁ hy
    by_cases hd : c = d
    · subst hd
      simpa using hy rfl
    · rw [State.setCtx_ctx_of_ne _ _ hd, h₁]
      exact .same
  cases steps_of_step h with
  | tick d | coord hk hr => exact .same
  | kill d => exact hset s d _ rfl (by rintro rfl; exact .kill)
  | openCall d hc => exact hset s d _ rfl (by rintro rfl; exact .openCall hc)
  | enterCall d hc => exact hset s d _ rfl (by rintro rfl; exact .enterCall hc)
  | leaveCall d q gid hc => exact hset s d _ rfl (by rintro rfl; exact .leaveCall hc)
  | closeCall d hc => exact hset s d _ rfl (by rintro rfl; exact .closeCall hc)
  | failCall d reason hc => exact hset s d _ rfl (by rintro rfl; exact .failCall hc)
  | call d b hk hc hr => exact hset { s with mem := _ } d _ rfl (by rintro rfl; exact .call hc hr)
  | close d hk hpc hr =>
    exact hset { s with mem := _ } d _ rfl (by rintro rfl; exact .close hpc _ _)
  | fail d hk hpc hr => exact hset { s with mem := _ } d _ rfl (by rintro rfl; exact .fail _)
  | beat d hk hr => exact hset { s with mem := _ } d _ rfl (by rintro rfl; exact .beat _)

/-- What is not done by the calling thread of `c` does not move it. -/
theorem call_eq_of_step (h : step g s a = some s') (hc : a.isCallOf c = false)
    (hs : a.startsCall c = false) (ho : (s.ctx c).call.isOpen = true) :
    (s'.ctx c).call = (s.ctx c).call := by
  have hstep := ctxStep_of_step (c := c) h
  clear h
  generalize s'.ctx c = y at hstep
  cases hstep with
  | openCall h => rw [h] at ho; cases ho
  | enterCall h | leaveCall h => simp [Act.startsCall] at hs
  | call h hr => simp [Act.isCallOf] at hc
  | _ => rfl

/-- A context nobody has opened stays so until somebody does. -/
theorem absent_of_step (h : step g s a = some s') (ha : a ≠ .openCall c)
    (hc : (s.ctx c).call = .absent) : (s'.ctx c).call = .absent := by
  have hstep := ctxStep_of_step (c := c) h
  clear h
  generalize s'.ctx c = y at hstep
  cases hstep with
  | openCall h => exact absurd rfl ha
  | enterCall h | leaveCall h => simp [Ctx.canCall, hc, CallPc.isIdle] at h
  | call h hr => rw [hc] at h; cases h
  | _ => exact hc

/-- Nothing closes a context but a call of `ps_close`. -/
theorem close_of_step (h : step g s a = some s') (ha : a ≠ .closeCall c)
    (hc : (s.ctx c).close = none) : (s'.ctx c).close = none := by
  have hstep := ctxStep_of_step (c := c) h
  clear h
  generalize s'.ctx c = y at hstep
  cases hstep with
  | closeCall h => exact absurd rfl ha
  | close h => rw [hc] at h; cases h
  | _ => exact hc

/-- A `ps_close` in progress is moved by its own steps only. -/
theorem close_eq_of_step (h : step g s a = some s') (ha : a ≠ .close c)
    (hc : (s.ctx c).close ≠ none) : (s'.ctx c).close = (s.ctx c).close := by
  by_cases hcc : a = .closeCall c
  · subst hcc
    simp [step, hc] at h
  · have hstep := ctxStep_of_step (c := c) h
    clear h
    generalize s'.ctx c = y at hstep ⊢
    cases hstep with
    | closeCall => exact absurd rfl hcc
    | close => exact absurd rfl ha
    | _ => rfl

/-- A process that is killed takes no step. -/
theorem alive_of_call {b : Bool} (h : step g s (.call c b) = some s') :
    (s.ctx c).killed = false := by
  cases steps_of_step h with
  | call _ _ hk _ _ => exact hk

theorem alive_of_close (h : step g s (.close c) = some s') : (s.ctx c).killed = false := by
  cases steps_of_step h with
  | close _ hk _ _ => exact hk

/-- A process that lives after a step has lived before it. -/
theorem killed_of_step (h : step g s a = some s') (hk : (s'.ctx c).killed = false) :
    (s.ctx c).killed = false := by
  have hstep := ctxStep_of_step (c := c) h
  clear h
  generalize s'.ctx c = y at hstep hk
  cases hstep <;> first
    | exact hk
    | cases hk

/-- What is not a step of the calling thread of `d` leaves its phase and fields alone. -/
theorem Trans.phase_eq {e : Event} (h : Trans g s a e s') {d : ℕ} (hd : a.isCallOf d = false) :
    s'.phase d = s.phase d ∧ s'.locals d = s.locals d := by
  cases h with
  | call c b hk ht hctx =>
    have hne : d ≠ c := by rintro rfl; simp [Act.isCallOf] at hd
    exact ⟨by simp only [State.phase, hctx d hne], by simp only [State.locals, hctx d hne]⟩
  | coord hk ht hctx => exact ⟨by simp only [State.phase, hctx], by simp only [State.locals, hctx]⟩
  | other ht hphase hlocals => exact ⟨hphase d, hlocals d⟩

/-- A context is kept as it is, or its calling thread has moved it. -/
theorem Trans.kept_or_moved {e : Event} (h : Trans g s a e s') (d : ℕ) :
    (s'.phase d = s.phase d ∧ s'.locals d = s.locals d) ∨
      a.isCallOf d = true ∧
        CallTrans g d s.now s.mem (s.locals d) (s.phase d) e s'.mem (s'.locals d) (s'.phase d) := by
  by_cases hd : a.isCallOf d = true
  · obtain ⟨b, rfl⟩ := Act.eq_call_of_isCallOf hd
    cases h with
    | call _ _ hk ht => exact .inr ⟨hd, ht⟩
    | other ht _ _ _ _ _ _ ha => cases ha
  · exact .inl (h.phase_eq (by simpa using hd))

theorem locals_eq_of_step (h : step g s a = some s') (hc : a.isCallOf c = false) :
    s'.locals c = s.locals c :=
  ((trans_of_step h).phase_eq hc).2

/-- The steps of a forward call stay in it until it has returned. -/
theorem isOpen_of_callCode {x : Locals} {pc : CallPc} {cmd : Cmd Val (Locals × CallPc)}
    (hc : callCode g c x pc = some cmd) (ho : pc.isOpen = true) {m : Memory} {t : ℕ} {b : Bool}
    {r : Memory × Locals × CallPc} (hr : cmd.exec m t b = some r) : r.2.2.isOpen = true := by
  cases pc with
  | enter pc | leave q gid pc =>
    cases hc
    rw [Cmd.exec_map, Option.map_eq_some_iff] at hr
    obtain ⟨⟨m', x', pc' | res⟩, -, rfl⟩ := hr <;> rfl
  | idle res => cases hc
  | _ => cases ho

/-- A context that has been handed to its caller stays so. -/
theorem isOpen_of_step (h : step g s a = some s') (ho : (s.ctx c).call.isOpen = true) :
    (s'.ctx c).call.isOpen = true := by
  by_cases hs : a.startsCall c = true
  · cases a with
    | enterCall d | leaveCall d q gid =>
      simp only [Act.startsCall, beq_iff_eq] at hs
      subst hs
      simp only [step] at h
      split at h <;> cases h
      simp [CallPc.isOpen]
    | _ => cases hs
  · by_cases hc : a.isCallOf c = true
    · obtain ⟨b, rfl⟩ := Act.eq_call_of_isCallOf hc
      obtain ⟨cmd, r, hcmd, hr, -, -, hpc⟩ := call_of_step h
      rw [hpc]
      exact isOpen_of_callCode hcmd ho hr
    · rw [call_eq_of_step h (by simpa using hc) (by simpa using hs) ho]
      exact ho

/-! ## Runs on finitely many contexts -/

/-- A guard that speaks of all contexts may be replaced by one that looks at the first `n`, if no
others are opened. -/
theorem exec_of_first {ε : Type} {L : Lts State Act ε} (hL : L.step = step g) {n : ℕ} (hn : 0 < n)
    {P : State → Act → Prop} {p : State → Act → Bool}
    (hopen : ∀ s c, p s (.openCall c) = true → c < n)
    (hp : ∀ s a, (∀ c, n ≤ c → (s.ctx c).call = .absent) → p s a = true → P s a) {tr : List ε}
    (h : L.Exec (fun s a => p s a = true) (initialState g) tr s) :
    L.Exec P (initialState g) tr s := by
  have hI : (∀ c, n ≤ c → (s.ctx c).call = .absent) ∧ L.Exec P (initialState g) tr s := by
    refine h.invariant (I := fun tr s => (∀ c, n ≤ c → (s.ctx c).call = .absent) ∧
      L.Exec P (initialState g) tr s) ⟨fun c hc => ?_, .start⟩ ?_
    · have hc0 : c ≠ 0 := by omega
      simp [initialState, hc0, Ctx.absent]
    · rintro tr s a s' ⟨habs, hrun⟩ hpa hs
      refine ⟨fun c hc => absent_of_step (hL ▸ hs) ?_ (habs c hc), .next hrun (hp s a habs hpa) hs⟩
      rintro rfl
      exact absurd (hopen s c hpa) (by omega)
  exact hI.2

end YellowZone.PairSched
