import YellowZone.PairSched.Routines

/-!
# The two closures of `_install_pair_worker_gate`

The patch wraps a worker's `execute_model` and `sample_tokens`. The wrappers share one variable,
`active_round`: the token of a round that was entered for a forward pass whose sampling is still
to come. They are written here as they stand in the patch, over any gate and any underlying work.

Python's exceptions keep the state that was reached when they were raised; `EStateM` does the
same, and `try ... except Exception` is its `tryCatch`. `BaseException`s that are no `Exception`
(an interrupt from the keyboard) are not modelled.

`diagnostics.call` returns or raises what the underlying `sample_tokens` does; it is part of the
underlying work here. The configuration tests of `_install_pair_worker_gate`, which run once
before any call, are left out.
-/

namespace YellowZone.WorkerGate

/-- A round as Python code passes it on: sequence and grant. -/
abbrev Token : Type := ℕ × ℕ

/-- The exceptions that can surface in a gated call. -/
inductive PyError where
  /-- `RuntimeError` of the wrapper itself. -/
  | runtime (message : String)
  /-- `PairSchedulerError` of a closed gate. -/
  | closed
  /-- `PairSchedulerFailed`, with the message of the native call. -/
  | failed (e : PairSched.CallError)
  /-- `OSError` of a write to the trace file. -/
  | traceWrite
  /-- Whatever the underlying work raises. -/
  | work (code : ℕ)
  deriving DecidableEq, Repr

/-- A Python computation over a state. -/
abbrev PyM (σ : Type) : Type → Type := EStateM PyError σ

/-- The events the wrappers trace. -/
inductive TraceEvent where
  | executeBegin
  | executeEnd
  | sampleBegin
  | sampleEnd
  deriving DecidableEq, Repr

/-- The name under which an event is written. -/
def TraceEvent.text : TraceEvent → String
  | .executeBegin => "execute_begin"
  | .executeEnd => "execute_end"
  | .sampleBegin => "sample_begin"
  | .sampleEnd => "sample_end"

/-- What the wrappers use of a gate. -/
structure Gate (σ : Type) where
  enterForward : PyM σ Token
  leaveForward : Token → PyM σ Unit
  traceEvent : TraceEvent → Token → PyM σ Unit
  fail : ℕ → PyM σ Unit

/-- The state the closures work on: that of the gate and everything behind it, and the variable
they share. -/
structure Closure (σ : Type) where
  gate : σ
  activeRound : Option Token

variable {σ V : Type}

/-- A computation of the gate, or of the underlying worker, in a closure. -/
def inner {α : Type} (x : PyM σ α) : PyM (Closure σ) α := fun s =>
  match x s.gate with
  | .ok a t => .ok a { s with gate := t }
  | .error e t => .error e { s with gate := t }

/-- Assign `active_round`. -/
def setRound (r : Option Token) : PyM (Closure σ) Unit :=
  modify fun s => { s with activeRound := r }

/-- `gated_execute_model`, on a plan with `n` scheduled tokens. The result is `None` when sampling
is still to come. -/
def gatedExecuteModel (G : Gate σ) (executeModel : PyM σ (Option V)) (n : ℤ) :
    PyM (Closure σ) (Option V) := do
  if n ≤ 0 then
    inner executeModel
  else
    match (← get).activeRound with
    | some _ =>
      inner (G.fail 203)
      throw (.runtime "pair scheduler received execute_model before sampling completed")
    | none =>
      let round ← inner G.enterForward
      setRound (some round)
      tryCatch
        (do
          inner (G.traceEvent .executeBegin round)
          let output ← inner executeModel
          inner (G.traceEvent .executeEnd round)
          if output.isSome then
            inner (G.leaveForward round)
            setRound none
          return output)
        fun e => do
          setRound none
          inner (G.fail 201)
          throw e

/-- The round `gated_sample_tokens` works in: the one that is pending, or a new one. -/
def samplingRound (G : Gate σ) : PyM (Closure σ) Token := do
  match (← get).activeRound with
  | some round => return round
  | none =>
    let round ← inner G.enterForward
    setRound (some round)
    return round

/-- `gated_sample_tokens`. -/
def gatedSampleTokens (G : Gate σ) (sampleTokens : PyM σ (Option V)) :
    PyM (Closure σ) (Option V) := do
  let round ← samplingRound G
  tryCatch
    (do
      inner (G.traceEvent .sampleBegin round)
      let output ← inner sampleTokens
      inner (G.traceEvent .sampleEnd round)
      inner (G.leaveForward round)
      setRound none
      return output)
    fun e => do
      setRound none
      inner (G.fail 202)
      throw e

/-- A call the engine core makes on the wrapped worker. -/
inductive GateCall where
  | executeModel (n : ℤ)
  | sampleTokens
  deriving DecidableEq, Repr

/-- The call runs gated work: anything but a forward pass on an empty plan. -/
def GateCall.gated : GateCall → Prop
  | .executeModel n => ¬n ≤ 0
  | .sampleTokens => True

/-- A wrapped call, with what the underlying worker does in it. -/
def gatedCall (G : Gate σ) (work : PyM σ (Option V)) : GateCall → PyM (Closure σ) (Option V)
  | .executeModel n => gatedExecuteModel G work n
  | .sampleTokens => gatedSampleTokens G work

/-! ## How computations run

One equation per construct, so that a closure can be followed step by step. -/

section Run

variable {α β : Type}

@[simp] theorem bind_apply (x : PyM σ α) (f : α → PyM σ β) (s : σ) :
    (x >>= f) s = match x s with
      | .ok a t => f a t
      | .error e t => .error e t := by
  change EStateM.bind x f s = _
  unfold EStateM.bind
  cases x s <;> rfl

@[simp] theorem map_apply (f : α → β) (x : PyM σ α) (s : σ) :
    (f <$> x) s = match x s with
      | .ok a t => .ok (f a) t
      | .error e t => .error e t := by
  change EStateM.map f x s = _
  unfold EStateM.map
  cases x s <;> rfl

@[simp] theorem pure_apply (a : α) (s : σ) : (pure a : PyM σ α) s = .ok a s := rfl

@[simp] theorem get_apply (s : σ) : (get : PyM σ σ) s = .ok s s := rfl

@[simp] theorem set_apply (s t : σ) : (set t : PyM σ PUnit) s = .ok ⟨⟩ t := rfl

@[simp] theorem throw_apply (e : PyError) (s : σ) : (throw e : PyM σ α) s = .error e s := rfl

@[simp] theorem setRound_apply (r : Option Token) (s : Closure σ) :
    setRound r s = .ok () { s with activeRound := r } := rfl

@[simp] theorem inner_of_error {x : PyM σ α} {s : Closure σ} {e : PyError} {t : σ}
    (h : x s.gate = .error e t) : inner x s = .error e { s with gate := t } := by
  rw [inner, h]

end Run

/-- On an empty plan the wrapper is the underlying call: the gate is not touched. -/
theorem gatedExecuteModel_of_nonpos (G : Gate σ) (work : PyM σ (Option V)) {n : ℤ} (hn : n ≤ 0) :
    gatedExecuteModel G work n = inner work := by
  simp [gatedExecuteModel, hn]

end YellowZone.WorkerGate
