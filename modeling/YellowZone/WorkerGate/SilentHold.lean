import YellowZone.Machine.Raising
import YellowZone.WorkerGate.NativeContract

/-!
# Exceptions and rounds that stay held

When a gated call raises, the round it was in must not stay held behind everybody's back: either
the native context is in no round any more, or the pair is no longer RUNNING, so that the peer
instance does not wait for it.

The `try` blocks of the wrappers see to that for everything they enclose: their handlers call
`gate.fail`. Two things are outside of them. `gate.enter_forward` writes to the trace file after
the native call has taken the round, and it is called before the `try`. And `execute_model` on an
empty plan is passed through, whatever round is pending (`Leaks`).

## Main results

* `raisesHolding_iff` — one call, in any state of an open gate
* `no_silent_hold_iff` — every call of every sequence
* `trace_write_leaves_round_held` — the trace write after the native call
-/

namespace YellowZone.WorkerGate

open Machine

variable {V : Type} {env : Env V} {c : GateCall} {g : GateState} {s : Closure GateState}

/-! ## What the gate's functions do -/

/-- A round is held and the pair has not been told. -/
def Native.HeldSilently (v : Native) : Prop := v.activeSeq ≠ 0 ∧ v.running = true

/-- The gate is as open, and traces as much, as before. -/
def Stays (g g' : GateState) : Prop := g'.isOpen = g.isOpen ∧ g'.tracing = g.tracing

theorem Stays.refl (g : GateState) : Stays g g := ⟨rfl, rfl⟩

theorem Stays.trans {g₁ g₂ g₃ : GateState} (h : Stays g₁ g₂) (h' : Stays g₂ g₃) : Stays g₁ g₃ :=
  ⟨h'.1.trans h.1, h'.2.trans h.2⟩

/-- The trace write `p` raises. -/
def TraceRaises (env : Env V) (g : GateState) (p : TracePoint) : Prop :=
  g.tracing = true ∧ env.traceFails p = true

theorem TraceRaises.of_stays {g' : GateState} {p : TracePoint} (h : TraceRaises env g' p)
    (hs : Stays g g') : TraceRaises env g p :=
  ⟨hs.2 ▸ h.1, h.2⟩

theorem traceEvent_meets (p : TracePoint) (round : Token) :
    Meets (traceEvent env p round) g (fun _ g' => Stays g g' ∧ g'.native = g.native)
      (fun _ g' => g' = g ∧ TraceRaises env g p) := by
  cases ht : g.tracing with
  | false => simp [Meets, traceEvent, ht, Stays.refl]
  | true =>
    cases hf : env.traceFails p with
    | false => simp [Meets, traceEvent, ht, hf, Stays]
    | true => simp [Meets, traceEvent, ht, hf, TraceRaises]

/-- A trace write raises after the native call has taken a round. -/
def EnterTraceRaises (env : Env V) (g : GateState) : Prop :=
  (∃ round, (env.native.enter g.native).1 = .ok round) ∧
    (TraceRaises env g .enterBegin ∨ TraceRaises env g .enterEnd)

theorem context_meets (ho : g.isOpen = true) :
    Meets context g (fun _ g' => g' = g) (fun _ _ => False) := by
  simp [Meets, context, ho]

/-- `enter_forward` raises because the native call failed, and then the pair is not running, or
because a trace write did, and then the native call is done. -/
theorem enterForward_meets (ho : g.isOpen = true) :
    Meets (enterForward env) g (fun _ g' => Stays g g')
      (fun _ g' => Stays g g' ∧ (g'.native.running = false ∨
        EnterTraceRaises env g ∧ g'.native = (env.native.enter g.native).2)) := by
  have hspec := env.native.enter_spec g.native
  cases hr : env.native.enter g.native with
  | mk r v =>
    rw [hr] at hspec
    cases r with
    | error e =>
      have hrun : enterForward env g = .error (.failed e) { g with native := v } := by
        simp [enterForward, context, ho, hr]
      simp only [Meets, hrun]
      exact ⟨⟨rfl, rfl⟩, .inl hspec.2.2⟩
    | ok round =>
      have hrun : enterForward env g = (do
          traceEvent env .enterBegin round
          traceEvent env .enterEnd round
          return round : PyM GateState Token)
            { g with native := v, activeRound := some round } := by
        simp [enterForward, context, ho, hr]
      have hok : ∃ round, (env.native.enter g.native).1 = .ok round := ⟨round, by rw [hr]⟩
      simp only [Meets, hrun]
      refine Meets.bind ((traceEvent_meets _ _).mono (fun _ _ h => h) ?_) ?_
      · rintro _ _ ⟨rfl, h⟩
        exact ⟨⟨rfl, rfl⟩, .inr ⟨⟨hok, .inl h⟩, rfl⟩⟩
      · rintro _ g₁ ⟨h₁, hn₁⟩
        refine Meets.bind ((traceEvent_meets _ _).mono (fun _ _ h => h) ?_) ?_
        · rintro _ _ ⟨rfl, h⟩
          exact ⟨h₁, .inr ⟨⟨hok, .inr (h.of_stays h₁)⟩, hn₁⟩⟩
        · rintro _ g₂ ⟨h₂, -⟩
          exact (h₁.trans h₂ : Stays g g₂)

theorem leaveForward_meets (ho : g.isOpen = true) (round : Token) :
    Meets (leaveForward env round) g (fun _ g' => Stays g g') (fun _ g' => Stays g g') := by
  refine Meets.bind ((traceEvent_meets _ _).mono (fun _ _ h => h) ?_) ?_
  · rintro _ _ ⟨rfl, -⟩
    exact .refl _
  · rintro _ g₁ ⟨h₁, -⟩
    refine Meets.bind ((context_meets (h₁.1.trans ho)).mono (fun _ _ h => h) nofun) ?_
    rintro _ g₂ rfl
    cases hr : env.native.leave round g₂.native with
    | mk r v =>
      cases r with
      | error e =>
        simp only [Meets, bind_apply, get_apply, hr, set_apply, throw_apply]
        exact h₁
      | ok _ =>
        simp only [Meets, bind_apply, get_apply, hr, set_apply]
        refine Meets.mono (traceEvent_meets _ _) ?_ ?_
        · rintro _ _ ⟨h₂, -⟩
          exact h₁.trans h₂
        · rintro _ _ ⟨rfl, -⟩
          exact h₁

/-- `fail` on an open gate always ends RUNNING. -/
theorem gateFail_meets (ho : g.isOpen = true) (reason : ℕ) :
    Meets (gateFail env reason) g (fun _ g' => Stays g g' ∧ g'.native.running = false)
      (fun _ _ => False) := by
  have hspec := env.native.fail_spec reason g.native
  simp only [Meets, gateFail, bind_apply, get_apply, ho, if_true, set_apply]
  exact ⟨⟨ho.symm, rfl⟩, hspec.2.2⟩

theorem underlying_meets : Meets (underlying env) g (fun _ g' => Stays g g')
    (fun e g' => Stays g g' ∧ env.work = .error e ∧
      g'.native = { g.native with running := g.native.running && !env.pairFails }) := by
  unfold Meets underlying
  cases hw : env.work with
  | ok output => exact ⟨rfl, rfl⟩
  | error e => exact ⟨⟨rfl, rfl⟩, rfl, rfl⟩

/-! ## What the wrappers do -/

theorem inner_meets {α : Type} {x : PyM GateState α} {Q : α → GateState → Prop}
    {E : PyError → GateState → Prop} (h : Meets x s.gate Q E) :
    Meets (inner x) s (fun a t => Q a t.gate) (fun e t => E e t.gate) := by
  unfold Meets inner at *
  cases hx : x s.gate with
  | ok a t => rw [hx] at h; exact h
  | error e t => rw [hx] at h; exact h

/-- Run on an open gate, the computation leaves it open, however it ends. -/
def KeepsOpen {α : Type} (x : PyM (Closure GateState) α) : Prop :=
  ∀ s, s.gate.isOpen = true →
    Meets x s (fun _ t => t.gate.isOpen = true) (fun _ t => t.gate.isOpen = true)

theorem KeepsOpen.bind {α β : Type} {x : PyM (Closure GateState) α}
    {f : α → PyM (Closure GateState) β} (hx : KeepsOpen x) (hf : ∀ a, KeepsOpen (f a)) :
    KeepsOpen (x >>= f) :=
  fun s ho => Meets.bind (hx s ho) fun a t ht => hf a t ht

theorem keepsOpen_pure {α : Type} (a : α) : KeepsOpen (pure a) := fun _ ho => ho

theorem keepsOpen_setRound (r : Option Token) : KeepsOpen (setRound r) := fun _ ho => ho

theorem keepsOpen_trace (p : TracePoint) (round : Token) :
    KeepsOpen (inner (traceEvent env p round)) := by
  intro s ho
  refine (inner_meets (traceEvent_meets p round)).mono (fun _ _ h => h.1.1.trans ho) ?_
  rintro _ t ⟨h, -⟩
  rw [h]
  exact ho

theorem keepsOpen_underlying : KeepsOpen (inner (underlying env)) := fun _ ho =>
  (inner_meets underlying_meets).mono (fun _ _ h => h.1.trans ho) fun _ _ h => h.1.1.trans ho

theorem keepsOpen_leave (round : Token) : KeepsOpen (inner (leaveForward env round)) :=
  fun _ ho => (inner_meets (leaveForward_meets ho round)).mono (fun _ _ h => h.1.trans ho)
    fun _ _ h => h.1.trans ho

/-- **The `try` blocks.** Whatever raises in one of them, the pair is no longer running when the
exception goes on. -/
theorem guarded_meets {α : Type} {body : PyM (Closure GateState) α} (reason : ℕ)
    (hb : KeepsOpen body) (ho : s.gate.isOpen = true) :
    Meets (tryCatch body fun e => do
        setRound none
        inner (gateFail env reason)
        throw e) s
      (fun _ t => t.gate.isOpen = true)
      (fun _ t => t.gate.isOpen = true ∧ t.gate.native.running = false) := by
  refine Meets.tryCatch (hb s ho) fun e t ht => ?_
  change Meets (inner (gateFail env reason) >>= fun _ => throw e) { t with activeRound := none } _ _
  refine Meets.bind ((inner_meets (s := { t with activeRound := none })
    (gateFail_meets ht reason)).mono (fun _ _ h => h) nofun) ?_
  rintro _ t' ⟨hs, hr⟩
  exact ⟨hs.1.trans ht, hr⟩

/-- What raises without failing the pair while a round is held: a trace write of `enter_forward`
after the native call has taken the round, and the underlying work on an empty plan. -/
inductive Leaks (env : Env V) (s : Closure GateState) : GateCall → Prop
  | enterTrace {c : GateCall} (hc : c.gated) (hn : s.activeRound = none)
      (ht : EnterTraceRaises env s.gate)
      (hr : (env.native.enter s.gate.native).2.running = true) : Leaks env s c
  | emptyPlan {n : ℤ} (hn : n ≤ 0) {e : PyError} (hw : env.work = .error e)
      (hh : s.gate.native.HeldSilently) (hp : env.pairFails = false) : Leaks env s (.executeModel n)

/-- Entering, from a wrapper that has no round pending. -/
theorem enter_leaks (ho : s.gate.isOpen = true) (hn : s.activeRound = none) (hc : c.gated) :
    Meets (inner (enterForward env)) s (fun _ t => t.gate.isOpen = true)
      (fun _ t => t.gate.isOpen = true ∧ (t.gate.native.HeldSilently → Leaks env s c)) := by
  refine (inner_meets (enterForward_meets ho)).mono (fun _ _ h => h.1.trans ho) ?_
  rintro e t ⟨hs, hf | ⟨ht, hv⟩⟩
  · exact ⟨hs.1.trans ho, fun hh => absurd hh.2 (by simp [hf])⟩
  · exact ⟨hs.1.trans ho, fun hh => .enterTrace hc hn ht (by rw [← hv]; exact hh.2)⟩

/-- One gated call on an open gate. -/
theorem workerCall_meets (ho : s.gate.isOpen = true) (c : GateCall) :
    Meets (workerCall c env) s (fun _ t => t.gate.isOpen = true)
      (fun _ t => t.gate.isOpen = true ∧ (t.gate.native.HeldSilently → Leaks env s c)) := by
  -- what went through a handler is not held silently
  have hguard : ∀ {t : Closure GateState},
      t.gate.isOpen = true ∧ t.gate.native.running = false →
      t.gate.isOpen = true ∧ (t.gate.native.HeldSilently → Leaks env s c) :=
    fun h => ⟨h.1, fun hh => absurd hh.2 (by simp [h.2])⟩
  cases c with
  | executeModel n =>
    simp only [workerCall, gatedCall, gatedExecuteModel]
    split
    case isTrue hn =>
      refine (inner_meets underlying_meets).mono (fun _ _ h => h.1.trans ho) ?_
      rintro e t ⟨hs, hw, hv⟩
      refine ⟨hs.1.trans ho, fun hh => ?_⟩
      rw [hv] at hh
      have hr : s.gate.native.running = true ∧ env.pairFails = false := by simpa using hh.2
      exact .emptyPlan hn hw ⟨hh.1, hr.1⟩ hr.2
    case isFalse hn =>
      refine meets_get_bind ?_
      cases ha : s.activeRound with
      | some r =>
        refine Meets.bind ((inner_meets (gateFail_meets ho 203)).mono (fun _ _ h => h) nofun) ?_
        rintro _ t ⟨hs, hr⟩
        exact hguard ⟨hs.1.trans ho, hr⟩
      | none =>
        refine Meets.bind (enter_leaks (c := .executeModel n) ho ha hn) fun round t ht => ?_
        refine Meets.bind (Q := fun _ t => t.gate.isOpen = true) (by exact ht) fun _ t ht => ?_
        refine (guarded_meets 201 ?_ ht).mono (fun _ _ h => h) fun _ _ h => hguard h
        refine (keepsOpen_trace _ _).bind fun _ => keepsOpen_underlying.bind fun output =>
          (keepsOpen_trace _ _).bind fun _ => ?_
        split
        · exact (keepsOpen_leave round).bind fun _ => (keepsOpen_setRound none).bind fun _ =>
            keepsOpen_pure _
        · exact keepsOpen_pure _
  | sampleTokens =>
    simp only [workerCall, gatedCall, gatedSampleTokens]
    refine Meets.bind (Q := fun _ t => t.gate.isOpen = true) ?_ fun round t ht => ?_
    · refine meets_get_bind ?_
      cases ha : s.activeRound with
      | some r => exact ho
      | none =>
        exact Meets.bind (enter_leaks (c := .sampleTokens) ho ha trivial) fun round t ht =>
          ht
    · refine (guarded_meets 202 ?_ ht).mono (fun _ _ h => h) fun _ _ h => hguard h
      exact (keepsOpen_trace _ _).bind fun _ => keepsOpen_underlying.bind fun output =>
        (keepsOpen_trace _ _).bind fun _ => (keepsOpen_leave round).bind fun _ =>
          (keepsOpen_setRound none).bind fun _ => keepsOpen_pure _

/-! ## The calls that leak -/

theorem enterForward_raises (ho : g.isOpen = true) (h : EnterTraceRaises env g) :
    ∃ g', enterForward env g = .error .traceWrite g' ∧
      g'.native = (env.native.enter g.native).2 := by
  obtain ⟨⟨round, hok⟩, hf⟩ := h
  obtain ⟨v, hr⟩ : ∃ v, env.native.enter g.native = (.ok round, v) := ⟨_, Prod.ext hok rfl⟩
  by_cases hb : env.traceFails .enterBegin = true
  · have ht : g.tracing = true := hf.elim And.left And.left
    exact ⟨{ g with native := v, activeRound := some round },
      by simp [enterForward, context, traceEvent, ho, hr, ht, hb], by rw [hr]⟩
  · obtain ⟨ht, he⟩ := hf.resolve_left fun h => hb h.2
    exact ⟨{ g with
        native := v, activeRound := some round
        trace := (TracePoint.enterBegin.text, round) :: g.trace },
      by simp [enterForward, context, traceEvent, ho, hr, ht, hb, he], by rw [hr]⟩

/-- Such a call does raise with a round held silently. -/
theorem Leaks.raises (ho : s.gate.isOpen = true) (h : Leaks env s c) :
    ∃ e t, workerCall c env s = .error e t ∧ t.gate.native.HeldSilently := by
  cases h with
  | enterTrace hc hn ht hr =>
    obtain ⟨g', hg, hv⟩ := enterForward_raises ho ht
    refine ⟨.traceWrite, { s with gate := g' }, ?_, ?_, by rw [hv]; exact hr⟩
    · cases c with
      | executeModel n =>
        simp [workerCall, gatedCall, gatedExecuteModel, if_neg hc, hn, sharedMemoryGate,
          inner_of_error hg]
      | sampleTokens =>
        simp [workerCall, gatedCall, gatedSampleTokens, samplingRound, hn, sharedMemoryGate,
          inner_of_error hg]
    · obtain ⟨⟨round, hok⟩, -⟩ := ht
      have hspec := env.native.enter_spec s.gate.native
      rw [hok] at hspec
      rw [hv, hspec.1]
      exact hspec.2.2.1
  | @emptyPlan n hn e hw hh hp =>
    refine ⟨e, { s with gate := { s.gate with native.running := s.gate.native.running && !false } },
      ?_, hh.1, by simpa using hh.2⟩
    rw [workerCall, gatedCall, gatedExecuteModel_of_nonpos _ _ hn]
    refine inner_of_error ?_
    simp only [underlying, hw, hp]

/-- **One gated call**, in any state of an open gate. -/
theorem raisesHolding_iff (ho : s.gate.isOpen = true) :
    (∃ e t, workerCall c env s = .error e t ∧ t.gate.native.HeldSilently) ↔ Leaks env s c := by
  refine ⟨?_, Leaks.raises ho⟩
  rintro ⟨e, t, hx, hh⟩
  exact ((workerCall_meets ho c).raise hx).2 hh

/-! ## Sequences of calls -/

/-- The state in which a call leaves the closures and the gate. -/
def stateAfter {α : Type} : EStateM.Result PyError (Closure GateState) α → Closure GateState
  | .ok _ t => t
  | .error _ t => t

/-- A sequence of gated calls, each with its own environment. -/
def runWorker (s : Closure GateState) : List (GateCall × Env V) → Closure GateState
  | [] => s
  | (c, env) :: calls => runWorker (stateAfter (workerCall c env s)) calls

/-- The gate as `_install_pair_worker_gate` finds it: open, and in no round. -/
def installedWorker (tracing : Bool) : Closure GateState where
  gate := ⟨true, tracing, none, ⟨0, 0, true⟩, []⟩
  activeRound := none

/-- No sequence of calls closes the gate. -/
theorem isOpen_runWorker (calls : List (GateCall × Env V)) (ho : s.gate.isOpen = true) :
    (runWorker s calls).gate.isOpen = true := by
  induction calls generalizing s with
  | nil => exact ho
  | cons ce calls ih =>
    refine ih ?_
    cases hx : workerCall ce.1 ce.2 s with
    | ok a t => exact (workerCall_meets ho ce.1).return hx
    | error e t => exact ((workerCall_meets ho ce.1).raise hx).1

/-- **No exception leaves a round silently held**, unless it is one of those that leak. In every
sequence of gated calls, with or without tracing: the calls that raise leave the native context
in no round or the pair no longer RUNNING, if and only if none of them raises from a trace write
of `enter_forward` after the native call, or from the work on an empty plan while a round is
held. -/
theorem no_silent_hold_iff (tracing : Bool) (calls : List (GateCall × Env V)) :
    (∀ pre c env post, calls = pre ++ (c, env) :: post → ∀ e t,
      workerCall c env (runWorker (installedWorker tracing) pre) = .error e t →
        t.gate.native.activeSeq = 0 ∨ t.gate.native.running = false) ↔
    ∀ pre c env post, calls = pre ++ (c, env) :: post →
      ¬Leaks env (runWorker (installedWorker tracing) pre) c := by
  have ho : ∀ pre : List (GateCall × Env V),
      (runWorker (installedWorker tracing) pre).gate.isOpen = true :=
    fun pre => isOpen_runWorker pre rfl
  constructor
  · intro h pre c env post hc hleak
    obtain ⟨e, t, hx, hh⟩ := hleak.raises (ho pre)
    rcases h pre c env post hc e t hx with h0 | hr
    · exact hh.1 h0
    · exact absurd hh.2 (by simp [hr])
  · intro h pre c env post hc e t hx
    by_contra hne
    simp only [not_or, Bool.not_eq_false] at hne
    exact h pre c env post hc ((raisesHolding_iff (ho pre)).mp ⟨e, t, hx, hne⟩)

/-- Native functions that grant a first round and then only accept a failure. -/
def grantOnce : NativeOps where
  enter v := if v.activeSeq = 0 then (.ok (1, 1), { v with activeSeq := 1, activeGrantId := 1 })
    else (.error .alreadyOwns, { v with running := false })
  leave _ v := (.error .leaveFencing, { v with running := false })
  fail _ v := { v with running := false }
  enter_spec v := by
    split
    · exact ⟨rfl, rfl, Nat.one_ne_zero, ‹_›⟩
    · exact ⟨rfl, rfl, rfl⟩
  leave_spec _ _ := ⟨rfl, rfl, rfl⟩
  fail_spec _ _ := ⟨rfl, rfl, rfl⟩

/-- **A trace write that fails leaves a round held.** On the first forward pass the native call
grants round `1`, and the write of `enter_begin` raises: the call raises with the round held and
the pair RUNNING, as the context is once its first round has been granted. -/
theorem trace_write_leaves_round_held :
    ∃ (env : Env Unit) (t : Closure GateState),
      workerCall (.executeModel 1) env (installedWorker true) = .error .traceWrite t ∧
      t.gate.native.activeSeq ≠ 0 ∧ t.gate.native.running = true ∧
      ∃ tr s, PairSched.Run PairSched.pairOfOne PairSched.anyStep tr s ∧
        nativeOf s 0 = t.gate.native := by
  refine ⟨⟨grantOnce, fun p => p == .enterBegin, .ok none, false⟩, _, rfl, Nat.one_ne_zero, rfl, ?_⟩
  obtain ⟨tr, s, h, hv⟩ := PairSched.exists_run PairSched.pairOfOne PairSched.anyStep_of_allowed
    PairSched.firstRound (fun _ s => decide (nativeOf s 0 = ⟨1, 1, true⟩)) (by decide +kernel)
  exact ⟨tr, s, h, of_decide_eq_true hv⟩

end YellowZone.WorkerGate
