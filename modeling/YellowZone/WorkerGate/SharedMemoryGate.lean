import YellowZone.WorkerGate.Closures

/-!
# The gate over the native context

`SharedMemoryForwardGate` of `gate.py`: `enter_forward`, `leave_forward`, `fail` and
`trace_event`, over a native context. A native call holds the gate's lock, so nothing else is
done with the context meanwhile; what other processes do to the pair meanwhile is part of what
the native call is found to have done when it returns.

## What is known of the native calls

`Native` is what the worker can tell of its context and of the pair: the round the context is in
(`active_seq`, `active_grant_id`), and whether the status is RUNNING. `NativeOps` collects the
three native functions as they answer in one gated call, with the contract they keep as fields;
that `pair_sched.c` keeps it is proved in `NativeContract`.

The return code `-2`, for which `enter_forward` has a branch, is not in the model: no native call
returns it.
-/

namespace YellowZone.WorkerGate

open PairSched (CallError)

/-- The worker's context and the pair, as far as the gate is concerned. -/
structure Native where
  activeSeq : ℕ
  activeGrantId : ℕ
  /-- The status of the pair is RUNNING. -/
  running : Bool
  deriving DecidableEq, Repr

/-- What a call of `ps_enter_forward` may do: it returns a round that the context is in from then
on, or `-1` with the context as it was and the pair no longer RUNNING. -/
def NativeEnter (v : Native) : Except CallError Token → Native → Prop
  | .ok round, v' => v'.activeSeq = round.1 ∧ v'.activeGrantId = round.2 ∧ round.1 ≠ 0 ∧
      v.activeSeq = 0
  | .error _, v' => v'.activeSeq = v.activeSeq ∧ v'.activeGrantId = v.activeGrantId ∧
      v'.running = false

/-- What a call of `ps_leave_forward` may do: it returns with the context in no round, or `-1` with
the pair no longer RUNNING. -/
def NativeLeave (v : Native) : Except CallError Unit → Native → Prop
  | .ok _, v' => v'.activeSeq = 0 ∧ v'.activeGrantId = 0
  | .error _, v' => v'.activeSeq = v.activeSeq ∧ v'.activeGrantId = v.activeGrantId ∧
      v'.running = false

/-- What a call of `ps_fail` does. -/
def NativeFail (v v' : Native) : Prop :=
  v'.activeSeq = v.activeSeq ∧ v'.activeGrantId = v.activeGrantId ∧ v'.running = false

/-- The native functions, as they answer in one gated call. -/
structure NativeOps where
  enter : Native → Except CallError Token × Native
  leave : Token → Native → Except CallError Unit × Native
  fail : ℕ → Native → Native
  enter_spec : ∀ v, NativeEnter v (enter v).1 (enter v).2
  leave_spec : ∀ round v, NativeLeave v (leave round v).1 (leave round v).2
  fail_spec : ∀ reason v, NativeFail v (fail reason v)

/-- The places where the gate writes to the trace file. -/
inductive TracePoint where
  | enterBegin
  | enterEnd
  | leaveBegin
  | leaveEnd
  | wrapper (e : TraceEvent)
  deriving DecidableEq, Repr

/-- The name under which it is written. -/
def TracePoint.text : TracePoint → String
  | .enterBegin => "enter_begin"
  | .enterEnd => "enter_end"
  | .leaveBegin => "leave_begin"
  | .leaveEnd => "leave_end"
  | .wrapper e => e.text

/-- Everything that is not up to the gate in one gated call. -/
structure Env (V : Type) where
  native : NativeOps
  /-- The writes to the trace file that raise. -/
  traceFails : TracePoint → Bool
  /-- What the underlying work returns or raises. -/
  work : Except PyError (Option V)
  /-- Some other process fails the pair while the underlying work runs. -/
  pairFails : Bool

/-- The state of a `SharedMemoryForwardGate`. -/
structure GateState where
  /-- `_ctx` is not `None`. -/
  isOpen : Bool
  /-- `_trace_fd` is not `None`. -/
  tracing : Bool
  /-- `_active_round`. -/
  activeRound : Option Token
  native : Native
  /-- The event and round of each line of the trace file, the last one first. -/
  trace : List (String × Token)
  deriving DecidableEq, Repr

variable {V : Type}

/-- `trace_event`: without a trace file it does nothing; otherwise it writes one line, or
raises. -/
def traceEvent (env : Env V) (p : TracePoint) (round : Token) : PyM GateState Unit := do
  let s ← get
  if s.tracing then
    if env.traceFails p then throw .traceWrite
    else set { s with trace := (p.text, round) :: s.trace }

/-- `_context`. -/
def context : PyM GateState Unit := do
  if (← get).isOpen then pure () else throw .closed

/-- `enter_forward`. The two trace writes come after the native call has returned. -/
def enterForward (env : Env V) : PyM GateState Token := do
  context
  let s ← get
  match env.native.enter s.native with
  | (.error e, v) =>
    set { s with native := v }
    throw (.failed e)
  | (.ok round, v) =>
    set { s with native := v, activeRound := some round }
    traceEvent env .enterBegin round
    traceEvent env .enterEnd round
    return round

/-- `leave_forward`. -/
def leaveForward (env : Env V) (round : Token) : PyM GateState Unit := do
  traceEvent env .leaveBegin round
  context
  let s ← get
  match env.native.leave round s.native with
  | (.error e, v) =>
    set { s with native := v }
    throw (.failed e)
  | (.ok _, v) =>
    set { s with
      native := v, activeRound := if s.activeRound = some round then none else s.activeRound }
    traceEvent env .leaveEnd round

/-- `fail`, which does nothing on a closed gate. -/
def gateFail (env : Env V) (reason : ℕ) : PyM GateState Unit := do
  let s ← get
  if s.isOpen then set { s with native := env.native.fail reason s.native }

/-- The gate, as the wrappers use it. -/
def sharedMemoryGate (env : Env V) : Gate GateState where
  enterForward := enterForward env
  leaveForward := leaveForward env
  traceEvent e := traceEvent env (.wrapper e)
  fail := gateFail env

/-- The underlying work. It does not use the gate. -/
def underlying (env : Env V) : PyM GateState (Option V) := fun s =>
  let s' := { s with native.running := s.native.running && !env.pairFails }
  match env.work with
  | .ok output => .ok output s'
  | .error e => .error e s'

/-- A gated call on the worker. -/
def workerCall (c : GateCall) (env : Env V) : PyM (Closure GateState) (Option V) :=
  gatedCall (sharedMemoryGate env) (underlying env) c

end YellowZone.WorkerGate
