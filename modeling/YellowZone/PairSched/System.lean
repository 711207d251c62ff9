import YellowZone.Machine.Execution
import YellowZone.PairSched.Coordinator
import YellowZone.PairSched.Lifecycle

/-!
# The pair of instances as one system

All threads of all processes over one shared memory: for every context the thread that opens it
and then makes its calls, the heartbeat thread, a thread that may close it and one that may call
`ps_fail`; and the coordinator thread of context `0`. An action names the thread that takes its
next atomic step, starts a call, lets time pass or kills a process. Nothing orders the actions,
so the executions of `system` are all interleavings.

There is no bound on the number of contexts: a rank may be opened, closed, killed and taken over
again and again, and an old context of a slot keeps running beside its successor until it is
closed or killed. A context makes one forward call at a time, since its `next_seq` and
`active_seq` are plain fields; `ps_close` and `ps_fail` may come from other threads meanwhile.

`Event` is what is observed of a run: a rank announcing itself, calls returning, the coordinator
drawing a grant.
-/

namespace YellowZone.PairSched

open Machine

/-! ## Contexts and states -/

/-- What the last call on a context handed back. -/
inductive CallResult where
  | opened
  | entered (r : EnterResult)
  | left (q : ℕ) (r : LeaveResult)

/-- Where the thread that opens a context and makes its calls is. -/
inductive CallPc where
  /-- Not opened yet. -/
  | absent
  | opening (pc : OpenPc)
  /-- `ps_open` returned `NULL`. -/
  | openFailed (e : OpenError)
  /-- Between calls. -/
  | idle (r : CallResult)
  | enter (pc : EnterPc)
  | leave (q gid : ℕ) (pc : LeavePc)

/-- The caller holds a context: `ps_open` has returned one. -/
def CallPc.isOpen : CallPc → Bool
  | .idle _ | .enter _ | .leave _ _ _ => true
  | _ => false

/-- No call is in progress. -/
def CallPc.isIdle : CallPc → Bool
  | .idle _ => true
  | _ => false

/-- One context with the threads that work on it. -/
structure Ctx where
  locals : Locals
  call : CallPc
  /-- A `ps_close` in progress. -/
  close : Option ClosePc
  /-- `ps_close` has released the context. -/
  closed : Bool
  heartbeat : HeartbeatPc
  /-- A `ps_fail` in progress. -/
  fail : Option FailPc
  killed : Bool

/-- A context nobody has opened. -/
def Ctx.absent : Ctx where
  locals := ⟨0, 0, 0⟩
  call := .absent
  close := none
  closed := false
  heartbeat := .start
  fail := none
  killed := false

/-- The state of the pair. -/
structure State where
  mem : Memory
  now : ℕ
  ctx : ℕ → Ctx
  coord : CoordPc

/-- `s` with context `c` replaced. -/
def State.setCtx (s : State) (c : ℕ) (x : Ctx) : State :=
  { s with ctx := Function.update s.ctx c x }

@[simp] theorem State.setCtx_ctx_self (s : State) (c : ℕ) (x : Ctx) : (s.setCtx c x).ctx c = x := by
  simp [State.setCtx]

theorem State.setCtx_ctx_of_ne (s : State) {c d : ℕ} (x : Ctx) (h : d ≠ c) :
    (s.setCtx c x).ctx d = s.ctx d := by
  simp [State.setCtx, h]

@[simp] theorem State.setCtx_mem (s : State) (c : ℕ) (x : Ctx) : (s.setCtx c x).mem = s.mem := rfl

@[simp] theorem State.setCtx_now (s : State) (c : ℕ) (x : Ctx) : (s.setCtx c x).now = s.now := rfl

@[simp] theorem State.setCtx_coord (s : State) (c : ℕ) (x : Ctx) :
    (s.setCtx c x).coord = s.coord := rfl

/-- The state in which the creator has initialized the memory and is about to register. -/
def initialState (g : Generation) : State where
  mem := initialMemory g
  now := g.startNs
  ctx := Function.update (fun _ => Ctx.absent) 0 { Ctx.absent with call := .opening .primary }
  coord := .start

/-! ## Steps -/

/-- One action. -/
inductive Act where
  /-- The clock advances by `d` nanoseconds. -/
  | tick (d : ℕ)
  /-- The process of context `c` is killed. -/
  | kill (c : ℕ)
  /-- `ps_open` is called for context `c`. -/
  | openCall (c : ℕ)
  /-- `ps_enter_forward` is called. -/
  | enterCall (c : ℕ)
  /-- `ps_leave_forward` is called, on any sequence and grant. -/
  | leaveCall (c q gid : ℕ)
  /-- `ps_close` is called. -/
  | closeCall (c : ℕ)
  /-- `ps_fail` is called. -/
  | failCall (c : ℕ) (reason : Reason)
  /-- The calling thread of `c` takes a step; `b` settles its choices. -/
  | call (c : ℕ) (b : Bool)
  /-- The closing thread of `c` takes a step. -/
  | close (c : ℕ)
  /-- The failing thread of `c` takes a step. -/
  | fail (c : ℕ)
  /-- The heartbeat thread of `c` takes a step. -/
  | beat (c : ℕ)
  /-- The coordinator thread takes a step. -/
  | coord

/-- The next command of a calling thread, with the context it leaves behind. -/
def callCode (g : Generation) (c : ℕ) (x : Locals) : CallPc → Option (Cmd Val (Locals × CallPc))
  | .opening pc => some <| (psOpen g c x pc).map fun r =>
      (r.1, r.2.elim .opening fun res =>
        match res with
        | .ok _ => .idle .opened
        | .error e => .openFailed e)
  | .enter pc => some <| (psEnterForward g c x pc).map fun r =>
      (r.1, r.2.elim .enter fun res => .idle (.entered res))
  | .leave q gid pc => some <| (psLeaveForward g c x q gid pc).map fun r =>
      (r.1, r.2.elim (.leave q gid) fun res => .idle (.left q res))
  | _ => none

/-- One step of a calling thread. -/
def stepCall (g : Generation) (s : State) (c : ℕ) (b : Bool) : Option State :=
  (callCode g c (s.ctx c).locals (s.ctx c).call).bind fun cmd =>
    (cmd.exec s.mem s.now b).map fun r =>
      { s with mem := r.1 }.setCtx c { s.ctx c with locals := r.2.1, call := r.2.2 }

/-- One step of a closing thread. -/
def stepClose (g : Generation) (s : State) (c : ℕ) : Option State :=
  (s.ctx c).close.bind fun pc =>
    ((psClose g c (s.ctx c).locals pc).exec s.mem s.now false).map fun r =>
      { s with mem := r.1 }.setCtx c <| r.2.elim (fun pc' => { s.ctx c with close := some pc' })
        fun released => { s.ctx c with close := none, closed := (s.ctx c).closed || released }

/-- One step of a thread in `ps_fail`. -/
def stepFail (s : State) (c : ℕ) : Option State :=
  (s.ctx c).fail.bind fun pc =>
    ((failPair pc).exec s.mem s.now false).map fun r =>
      { s with mem := r.1 }.setCtx c <|
        r.2.elim (fun pc' => { s.ctx c with fail := some pc' })
          fun _ => { s.ctx c with fail := none }

/-- One step of a heartbeat thread. -/
def stepBeat (g : Generation) (s : State) (c : ℕ) : Option State :=
  ((heartbeatMain g c (s.ctx c).heartbeat).exec s.mem s.now false).map fun r =>
    { s with mem := r.1 }.setCtx c { s.ctx c with heartbeat := r.2 }

/-- One step of the coordinator thread. -/
def stepCoord (g : Generation) (s : State) : Option State :=
  ((coordinatorMain g s.coord).exec s.mem s.now false).map fun r =>
    { s with mem := r.1, coord := r.2 }

/-- A call may be started: the process lives, it holds the context, and no call is in
progress. -/
def Ctx.canCall (x : Ctx) : Bool := !x.killed && !x.closed && x.call.isIdle

/-- The context may be closed or failed from another thread. -/
def Ctx.canUse (x : Ctx) : Bool := !x.killed && !x.closed && x.call.isOpen

/-- The step of an action. -/
def step (g : Generation) (s : State) : Act → Option State
  | .tick d => some { s with now := s.now + d }
  | .kill c => some (s.setCtx c { s.ctx c with killed := true })
  | .openCall c =>
    match (s.ctx c).call with
    | .absent => some (s.setCtx c { s.ctx c with call := .opening .primary })
    | _ => none
  | .enterCall c =>
    if (s.ctx c).canCall then some (s.setCtx c { s.ctx c with call := .enter (.begin .stopping) })
    else none
  | .leaveCall c q gid =>
    if (s.ctx c).canCall then
      some (s.setCtx c { s.ctx c with call := .leave q gid (.begin .stopping) })
    else none
  | .closeCall c =>
    if (s.ctx c).canUse && (s.ctx c).close.isNone then
      some (s.setCtx c { s.ctx c with close := some .exchange })
    else none
  | .failCall c reason =>
    if (s.ctx c).canUse && (s.ctx c).fail.isNone then
      some (s.setCtx c { s.ctx c with fail := some (.cas reason) })
    else none
  | .call c b => if (s.ctx c).killed then none else stepCall g s c b
  | .close c => if (s.ctx c).killed then none else stepClose g s c
  | .fail c => if (s.ctx c).killed then none else stepFail s c
  | .beat c => if (s.ctx c).killed then none else stepBeat g s c
  | .coord => if (s.ctx 0).killed then none else stepCoord g s

/-- The steps, by what happens in them: a call starts, or a thread runs one command of its code. -/
inductive Steps (g : Generation) (s : State) : Act → State → Prop
  | tick (d : ℕ) : Steps g s (.tick d) { s with now := s.now + d }
  | kill (c : ℕ) : Steps g s (.kill c) (s.setCtx c { s.ctx c with killed := true })
  | openCall (c : ℕ) (h : (s.ctx c).call = .absent) :
      Steps g s (.openCall c) (s.setCtx c { s.ctx c with call := .opening .primary })
  | enterCall (c : ℕ) (h : (s.ctx c).canCall = true) :
      Steps g s (.enterCall c) (s.setCtx c { s.ctx c with call := .enter (.begin .stopping) })
  | leaveCall (c q gid : ℕ) (h : (s.ctx c).canCall = true) :
      Steps g s (.leaveCall c q gid)
        (s.setCtx c { s.ctx c with call := .leave q gid (.begin .stopping) })
  | closeCall (c : ℕ) (h : (s.ctx c).canUse = true) (hnone : (s.ctx c).close = none) :
      Steps g s (.closeCall c) (s.setCtx c { s.ctx c with close := some .exchange })
  | failCall (c : ℕ) (reason : Reason) (h : (s.ctx c).canUse = true)
      (hnone : (s.ctx c).fail = none) :
      Steps g s (.failCall c reason) (s.setCtx c { s.ctx c with fail := some (.cas reason) })
  | call (c : ℕ) (b : Bool) {cmd : Cmd Val (Locals × CallPc)} {r : Memory × Locals × CallPc}
      (hk : (s.ctx c).killed = false)
      (hc : callCode g c (s.ctx c).locals (s.ctx c).call = some cmd)
      (hr : cmd.exec s.mem s.now b = some r) :
      Steps g s (.call c b)
        ({ s with mem := r.1 }.setCtx c { s.ctx c with locals := r.2.1, call := r.2.2 })
  | close (c : ℕ) {pc : ClosePc} {m : Memory} {ctl : Ctl ClosePc Bool}
      (hk : (s.ctx c).killed = false) (hpc : (s.ctx c).close = some pc)
      (hr : (psClose g c (s.ctx c).locals pc).exec s.mem s.now false = some (m, ctl)) :
      Steps g s (.close c) ({ s with mem := m }.setCtx c { s.ctx c with
        close := ctl.elim some fun _ => none
        closed := (s.ctx c).closed || ctl.elim (fun _ => false) id })
  | fail (c : ℕ) {pc : FailPc} {m : Memory} {ctl : Ctl FailPc Unit}
      (hk : (s.ctx c).killed = false) (hpc : (s.ctx c).fail = some pc)
      (hr : (failPair pc).exec s.mem s.now false = some (m, ctl)) :
      Steps g s (.fail c)
        ({ s with mem := m }.setCtx c { s.ctx c with fail := ctl.elim some fun _ => none })
  | beat (c : ℕ) {r : Memory × HeartbeatPc} (hk : (s.ctx c).killed = false)
      (hr : (heartbeatMain g c (s.ctx c).heartbeat).exec s.mem s.now false = some r) :
      Steps g s (.beat c) ({ s with mem := r.1 }.setCtx c { s.ctx c with heartbeat := r.2 })
  | coord {r : Memory × CoordPc} (hk : (s.ctx 0).killed = false)
      (hr : (coordinatorMain g s.coord).exec s.mem s.now false = some r) :
      Steps g s .coord { s with mem := r.1, coord := r.2 }

/-- **A step, taken apart.** -/
theorem steps_of_step {g : Generation} {s s' : State} {a : Act} (h : step g s a = some s') :
    Steps g s a s' := by
  cases a with
  | tick d => cases h; exact .tick d
  | kill c => cases h; exact .kill c
  | openCall c =>
    simp only [step] at h
    split at h <;> cases h
    exact .openCall c ‹_›
  | enterCall c =>
    obtain ⟨hc, h⟩ := Option.ite_none_right_eq_some.mp h
    cases h
    exact .enterCall c hc
  | leaveCall c q gid =>
    obtain ⟨hc, h⟩ := Option.ite_none_right_eq_some.mp h
    cases h
    exact .leaveCall c q gid hc
  | closeCall c =>
    obtain ⟨hc, h⟩ := Option.ite_none_right_eq_some.mp h
    rw [Bool.and_eq_true, Option.isNone_iff_eq_none] at hc
    cases h
    exact .closeCall c hc.1 hc.2
  | failCall c reason =>
    obtain ⟨hc, h⟩ := Option.ite_none_right_eq_some.mp h
    rw [Bool.and_eq_true, Option.isNone_iff_eq_none] at hc
    cases h
    exact .failCall c reason hc.1 hc.2
  | call c b =>
    obtain ⟨hk, h⟩ := Option.ite_none_left_eq_some.mp h
    simp only [stepCall, Option.bind_eq_some_iff, Option.map_eq_some_iff] at h
    obtain ⟨cmd, hc, r, hr, rfl⟩ := h
    exact .call c b (by simpa using hk) hc hr
  | close c =>
    obtain ⟨hk, h⟩ := Option.ite_none_left_eq_some.mp h
    simp only [stepClose, Option.bind_eq_some_iff, Option.map_eq_some_iff] at h
    obtain ⟨pc, hpc, ⟨m, ctl⟩, hr, rfl⟩ := h
    have := Steps.close c (by simpa using hk) hpc hr
    cases ctl <;> simpa [Ctl.elim] using this
  | fail c =>
    obtain ⟨hk, h⟩ := Option.ite_none_left_eq_some.mp h
    simp only [stepFail, Option.bind_eq_some_iff, Option.map_eq_some_iff] at h
    obtain ⟨pc, hpc, ⟨m, ctl⟩, hr, rfl⟩ := h
    have := Steps.fail (g := g) c (by simpa using hk) hpc hr
    cases ctl <;> exact this
  | beat c =>
    obtain ⟨hk, h⟩ := Option.ite_none_left_eq_some.mp h
    obtain ⟨r, hr, rfl⟩ := Option.map_eq_some_iff.mp h
    exact .beat c (by simpa using hk) hr
  | coord =>
    obtain ⟨hk, h⟩ := Option.ite_none_left_eq_some.mp h
    obtain ⟨r, hr, rfl⟩ := Option.map_eq_some_iff.mp h
    exact .coord (by simpa using hk) hr

/-! ## Observations -/

/-- What the claims about runs observe. -/
inductive Event where
  /-- A rank ORs its bit into the ready mask in a call with sequence `q`. -/
  | readyOr (c q : ℕ)
  /-- A rank ORs its bit into the complete mask in a call on sequence `q`. -/
  | completeOr (c q : ℕ)
  | enterReturn (c : ℕ) (r : EnterResult)
  | leaveReturn (c q : ℕ) (r : LeaveResult)
  /-- The coordinator draws a grant for the round of `i` that it has just set RUNNING; `q` is
  the sequence of that round. -/
  | grant (i : Inst) (q gr : ℕ)
  /-- Anything else. -/
  | silent

/-- The observation of a step of a calling thread, by the points before and after it. -/
def callEvent (c : ℕ) : CallPc → CallPc → Event
  | .enter (.orReady q), _ => .readyOr c q
  | .leave q _ .orComplete, _ => .completeOr c q
  | .enter _, .idle (.entered r) => .enterReturn c r
  | .leave q _ _, .idle (.left _ r) => .leaveReturn c q r
  | _, _ => .silent

/-- The observation of a step of the coordinator. -/
def coordEvent (m : Memory) : CoordPc → Event
  | .tick _ (.dispatch _ (.nextGrant sel)) =>
    .grant sel (m (.forwardSeq sel)) (m .nextGrantId + 1)
  | _ => .silent

/-- The observation of a step. -/
def event (s : State) (a : Act) (s' : State) : Event :=
  match a with
  | .call c _ => callEvent c (s.ctx c).call (s'.ctx c).call
  | .coord => coordEvent s.mem s.coord
  | _ => .silent

/-- The system of one generation. -/
def system (g : Generation) : Lts State Act Event where
  step := step g
  event := event

/-- Every run of the generation under the guard `P`, with its observations. -/
abbrev Run (g : Generation) (P : State → Act → Prop) (tr : List Event) (s : State) : Prop :=
  (system g).Exec P (initialState g) tr s

/-- No condition on the steps. -/
def anyStep (_ : State) (_ : Act) : Prop := True

/-! ## A small generation

For concrete runs: `n` ranks per instance, contexts taking turns between A and B and going round
the ranks, so that contexts `c` and `c + 2 * n` are for the same slot. -/

/-- A generation with `n` ranks per instance. -/
def sampleGeneration (n : ℕ) (h₀ : 0 < n) (h₁ : n ≤ 64) : Generation where
  workerCount := n
  workerCount_pos := h₀
  workerCount_le := h₁
  heartbeatMs := 1
  peerTimeoutMs := 10
  forwardTimeoutMs := 100
  heartbeatMs_pos := by decide
  peerTimeoutMs_gt := by decide
  forwardTimeoutMs_pos := by decide
  startNs := 1
  startNs_pos := by decide
  inst c := if c % 2 = 0 then .A else .B
  rank c := c / 2 % n
  rank_lt _ := Nat.mod_lt _ h₀
  session c := c + 1
  session_ne_zero _ := Nat.succ_ne_zero _
  session_inj _ _ _ _ h := Nat.succ.inj h
  pid c := c + 1
  pid_pos _ := Nat.succ_pos _
  inst_zero := rfl
  rank_zero := Nat.zero_mod _

/-- One rank per instance: context `0` is A's, context `1` is B's. -/
abbrev pairOfOne : Generation := sampleGeneration 1 (by decide) (by decide)

/-- Two ranks per instance: contexts `0` and `2` are A's, contexts `1` and `3` are B's. -/
abbrev pairOfTwo : Generation := sampleGeneration 2 (by decide) (by decide)

/-- A list of actions that has been evaluated is a run, and what was found at its end holds. -/
theorem exists_run (g : Generation) {P : State → Act → Prop} {p : State → Act → Bool}
    (hp : ∀ s a, p s a = true → P s a) (acts : List Act) (test : List Event → State → Bool)
    (h : ((system g).run p (initialState g) [] acts).any (fun r => test r.1 r.2) = true) :
    ∃ tr s, Run g P tr s ∧ test tr s = true :=
  Lts.exists_exec hp acts test h

/-- The same, with everything recorded. -/
theorem exists_recorded (g : Generation) {P : State → Act → Prop} {p : State → Act → Bool}
    (hp : ∀ s a, p s a = true → P s a) (acts : List Act) (test : List (State × Act) → State → Bool)
    (h : ((system g).recorded.run p (initialState g) [] acts).any (fun r => test r.1 r.2) = true) :
    ∃ hist s, (system g).recorded.Exec P (initialState g) hist s ∧ test hist s = true :=
  Lts.exists_exec hp acts test h

/-- Any action may be taken. -/
def allowed (_ : State) (_ : Act) : Bool := true

theorem anyStep_of_allowed (s : State) (a : Act) (_ : allowed s a = true) : anyStep s a := trivial

/-- The calling thread of `c` takes `n` steps. -/
def calls (n c : ℕ) : List Act := List.replicate n (.call c true)

/-- The coordinator takes `n` steps. -/
def ticks (n : ℕ) : List Act := List.replicate n .coord

/-- The closing thread of `c` takes `n` steps. -/
def closes (n c : ℕ) : List Act := List.replicate n (.close c)

/-- Both contexts of `pairOfOne` are opened. -/
def openBoth : List Act := calls 17 0 ++ .openCall 1 :: calls 17 1

/-- A's rank enters a round, the coordinator grants it, and the call returns. -/
def firstRound : List Act := openBoth ++ .enterCall 0 :: calls 19 0 ++ ticks 38 ++ calls 16 0

/-- In `pairOfTwo`, both ranks of A are opened and rank `0` enters, up to its wait for the
grant. -/
def halfBarrier : List Act :=
  calls 17 0 ++ .openCall 2 :: calls 16 2 ++ .enterCall 0 :: calls 27 0

/-- Rank `1` enters too, the round is granted and completed by both, and the coordinator recycles
it; rank `0` has left it, rank `1` is still waiting for the drain. -/
def halfDrained : List Act :=
  halfBarrier ++ .enterCall 2 :: calls 21 2 ++ ticks 42 ++ calls 15 0 ++ calls 15 2 ++
    .leaveCall 0 1 1 :: calls 19 0 ++ .leaveCall 2 1 1 :: calls 22 2 ++ ticks 39 ++ calls 9 0

end YellowZone.PairSched
