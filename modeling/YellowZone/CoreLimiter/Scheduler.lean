import YellowZone.Machine.Execution
import YellowZone.Machine.SharedMemory

/-!
# The scheduler threads of the vNPUs

The part of `core_limiter.c` that hands the device from one vNPU to the next. Every vNPU runs
`vnpu_scheduler_thread` in its own process, over one shared context: the word `owner` says whose
turn it is. The owner spends its time slice, stores the next owner and drains its streams. A vNPU
that finds the owner dead stores the next owner in its place.

Each vNPU has one process. An action lets one thread take its next atomic step, lets time pass,
lets a vNPU die, or is a step of somebody else: `enpu-ctl` storing a quota, a user thread entering
or leaving prefill.

## Liveness

`is_vnpu_alive` compares a heartbeat with the clock. Here it gives the right answer, the word
`alive v`: a vNPU is alive until it dies, and one that does not exist is not alive.

## Integers

Times and balances are unbounded: nanosecond counters in 64 bits do not wrap within the lifetime
of a machine. Turn counters are bytes and do wrap.

## Main definitions

* `selectNextOwner`, `setVnpuAndIdle`, `schedulerThread` — the code
* `SchedState`, `SchedAct`, `schedulerSystem` — all threads together
* `SchedEvent` — what is observed of a step
-/

namespace YellowZone.CoreLimiter

open Machine

/-- `MAX_VNPU`. -/
def maxVnpu : ℕ := 100

/-- The id of a vNPU. -/
abbrev Vnpu : Type := Fin 100

scoped instance neZeroVnpu : NeZero 100 := ⟨by decide⟩

scoped instance neZeroByte : NeZero 256 := ⟨by decide⟩

/-- The scheduling policies that limit cores. -/
inductive Policy where
  /-- `SCHED_POLICY_FIXED_SHARE`. -/
  | fixedShare
  /-- `SCHED_POLICY_ELASTIC`. -/
  | elastic
  deriving DecidableEq, Repr

/-- The words of the shared context that the threads use. -/
inductive SchedLoc where
  | owner
  /-- What `is_vnpu_alive` answers. -/
  | alive (v : Vnpu)
  /-- `vnpu_core_limit_quota`. -/
  | quota (v : Vnpu)
  /-- `vnpu_schedule_turn`. -/
  | turn (v : Vnpu)
  /-- `prefill_state[v].in_prefill`. -/
  | inPrefill (v : Vnpu)
  deriving DecidableEq, Repr

/-- What the words hold. Quotas and turns are bytes. -/
abbrev SchedVal : SchedLoc → Type
  | .owner => ℤ
  | .alive _ | .inPrefill _ => Bool
  | .quota _ | .turn _ => Fin 256

/-- The shared context. -/
abbrev SchedMem : Type := Mem SchedVal

/-- A command on the shared context. -/
abbrev SchedCmd (α : Type) : Type := Cmd SchedVal α

/-- `is_vnpu_alive`, which refuses ids out of range. -/
def isVnpuAlive {α : Type} (id : ℤ) (k : Bool → α) : SchedCmd α :=
  if 0 ≤ id ∧ id < maxVnpu then .load (.alive (Fin.ofNat 100 id.toNat)) k else .skip (k false)

/-! ## Choosing and storing the next owner -/

/-- Where `select_next_owner(id)` is: about to look at the vNPU `i` places on. -/
structure SelectPc where
  id : ℤ
  i : ℕ
  deriving DecidableEq, Repr

/-- The vNPU it looks at. -/
def SelectPc.candidate (pc : SelectPc) : ℤ := (pc.id + pc.i).tmod maxVnpu

/-- `select_next_owner`; it returns `-1` if nobody is alive. -/
def selectNextOwner (pc : SelectPc) : SchedCmd (Ctl SelectPc ℤ) :=
  isVnpuAlive pc.candidate fun alive =>
    if alive then .ret pc.candidate
    else if pc.i < maxVnpu then .goto ⟨pc.id, pc.i + 1⟩ else .ret (-1)

/-- Program points of `set_vnpu_and_idle` behind its tests, with `vnpu_idling` inlined: `i` is the
loop index and `sum` the quota added up so far. -/
inductive SetPc where
  | alive (next : ℤ) (i sum : ℕ)
  | quota (next : ℤ) (i sum : ℕ)
  | sleep (next : ℤ)
  | store (next : ℤ)
  deriving DecidableEq, Repr

/-- The end of the loop body of `vnpu_idling`. -/
def idlingNext (next : ℤ) (i sum : ℕ) : SetPc :=
  if 100 < sum then .store next
  else if i + 1 < maxVnpu then .alive next (i + 1) sum else .sleep next

/-- The tests of `set_vnpu_and_idle(id, next)`. -/
def setVnpuAndIdle (p : Policy) (id next : ℤ) : Ctl SetPc Unit :=
  if next = -1 then .ret ()
  else if p = .fixedShare ∧ next ≤ id then .goto (.alive next 0 0)
  else .goto (.store next)

/-- `set_vnpu_and_idle`, behind its tests. -/
def setOwner : SetPc → SchedCmd (Ctl SetPc Unit)
  | .alive next i sum => isVnpuAlive i fun alive =>
      if alive then .goto (.quota next i sum) else .goto (idlingNext next i sum)
  | .quota next i sum => .load (.quota (Fin.ofNat 100 i)) fun q =>
      .goto (idlingNext next i (sum + q.val))
  | .sleep next => .skip (.goto (.store next))
  | .store next => .store .owner next (.ret ())

/-! ## The thread -/

/-- `VNPU_SCHEULE_PERIOD`, in nanoseconds. -/
def vnpuSchedulePeriod : ℕ := 100 * 1000000

/-- `quota_timeslice`: the share of the period, in nanoseconds. -/
def quotaTimeslice (quota : Fin 256) : ℤ := ((quota.val * vnpuSchedulePeriod / 100 : ℕ) : ℤ)

/-- What `add_and_consume_time_slice` keeps in local variables while the slice runs: its end, and
the arguments of the `set_vnpu_and_idle` behind it. -/
structure Slice where
  fin : ℤ
  id : ℤ
  next : ℤ
  deriving DecidableEq, Repr

/-- Program points of `vnpu_scheduler_thread`, with `add_and_consume_time_slice` and
`compensate_delta_time` inlined. -/
inductive SchedPc where
  | top
  | borrow (owner : ℤ)
  | ownerAlive (owner : ℤ)
  | reload
  | takeSelect (pc : SelectPc)
  | takeSet (pc : SetPc)
  | sleep
  | start
  | quota (now : ℕ)
  | debtOwner
  | debtSelect (pc : SelectPc)
  | debtSet (pc : SetPc)
  | turn (now : ℕ) (fin : ℤ)
  | owner (now : ℕ) (fin : ℤ)
  | select (now : ℕ) (fin : ℤ) (pc : SelectPc)
  | prefill (now : ℕ) (sl : Slice)
  | loopClock (sl : Slice) (inPrefill : Bool)
  | loopSkip (now : ℕ) (sl : Slice) (inPrefill : Bool)
  | loopPrefill (now : ℕ) (sl : Slice)
  | endClock (sl : Slice)
  | lock (sl : Slice)
  | set (pc : SetPc)
  | turnAgain (flag : Bool)
  | drainBegin
  | drain (begin : ℕ)
  | storeTurn
  deriving DecidableEq, Repr

/-- What a process keeps between turns: `core_cur_timeslice` of its device, and the variable
`turn_id` of the thread. -/
structure SchedLocals where
  curTimeslice : ℤ
  turnId : Fin 256
  deriving DecidableEq, Repr

/-- The test of the loop that spends the slice. -/
def consumeTest (now : ℕ) (sl : Slice) (inPrefill : Bool) : SchedPc :=
  if (now : ℤ) < sl.fin ∨ inPrefill then .loopClock sl inPrefill else .endClock sl

/-- The scheduling loop goes on if the owner is this vNPU. -/
def ownerTest (v : Vnpu) (owner : ℤ) : SchedPc :=
  if owner = v.val then .start else .ownerAlive owner

/-- `vnpu_scheduler_thread` of vNPU `v`. Taking and releasing `g_sched_mutex` and the turn mutex,
which no other process of this vNPU holds, is part of the neighbouring steps; `vnpu_has_work` is
an answer of the environment. -/
def schedulerThread (p : Policy) (v : Vnpu) (x : SchedLocals) :
    SchedPc → SchedCmd (SchedLocals × SchedPc)
  | .top => .load .owner fun owner =>
      (x, if p = .elastic ∧ owner ≠ v.val then .borrow owner else ownerTest v owner)
  | .borrow owner => .skip (x, ownerTest v owner)
  | .ownerAlive owner => isVnpuAlive owner fun alive => (x, if alive then .sleep else .reload)
  | .reload => .load .owner fun id => (x, .takeSelect ⟨id, 1⟩)
  | .takeSelect pc => (selectNextOwner pc).map <| Ctl.elim (fun pc' => (x, .takeSelect pc'))
      fun next => (x, (setVnpuAndIdle p pc.id next).elim .takeSet fun _ => .sleep)
  | .takeSet pc => (setOwner pc).map <| Ctl.elim (fun pc' => (x, .takeSet pc'))
      fun _ => (x, .sleep)
  | .sleep => .skip (x, .top)
  | .start => .clock fun now => (x, .quota now)
  | .quota now => .load (.quota v) fun q =>
      let timeslice := x.curTimeslice + quotaTimeslice q
      if timeslice ≤ 0 then ({ x with curTimeslice := timeslice }, .debtOwner)
      else ({ x with curTimeslice := 0 }, .turn now (now + timeslice))
  | .debtOwner => .load .owner fun id => (x, .debtSelect ⟨id, 1⟩)
  | .debtSelect pc => (selectNextOwner pc).map <| Ctl.elim (fun pc' => (x, .debtSelect pc'))
      fun next => (x, (setVnpuAndIdle p pc.id next).elim .debtSet fun _ => .turnAgain false)
  | .debtSet pc => (setOwner pc).map <| Ctl.elim (fun pc' => (x, .debtSet pc'))
      fun _ => (x, .turnAgain false)
  | .turn now fin => .load (.turn v) fun turn => ({ x with turnId := turn }, .owner now fin)
  | .owner now fin => .load .owner fun id => (x, .select now fin ⟨id, 1⟩)
  | .select now fin pc => (selectNextOwner pc).map <|
      Ctl.elim (fun pc' => (x, .select now fin pc'))
        fun next => (x, .prefill now ⟨fin, pc.id, next⟩)
  | .prefill now sl => .load (.inPrefill v) fun inPrefill => (x, consumeTest now sl inPrefill)
  | .loopClock sl inPrefill => .clock fun now => (x, .loopSkip now sl inPrefill)
  | .loopSkip now sl inPrefill => .ask fun hasWork =>
      (x, if (p = .elastic ∧ hasWork = false) ∧ inPrefill = false then .endClock sl
        else .loopPrefill now sl)
  | .loopPrefill now sl => .load (.inPrefill v) fun inPrefill => (x, consumeTest now sl inPrefill)
  | .endClock sl => .clock fun now =>
      (if sl.fin < (now : ℤ) then { x with curTimeslice := sl.fin - now } else x, .lock sl)
  | .lock sl => .skip (x, (setVnpuAndIdle p sl.id sl.next).elim .set fun _ => .turnAgain true)
  | .set pc => (setOwner pc).map <| Ctl.elim (fun pc' => (x, .set pc'))
      fun _ => (x, .turnAgain true)
  | .turnAgain flag => .load (.turn v) fun turn =>
      (x, if turn = x.turnId then (if flag then .drainBegin else .storeTurn) else .top)
  | .drainBegin => .clock fun begin => (x, .drain begin)
  | .drain begin => .clock fun now =>
      ({ x with curTimeslice := -((now - begin : ℕ) : ℤ) }, .storeTurn)
  | .storeTurn => .store (.turn v) (x.turnId + 1) (x, .top)

/-! ## All vNPUs together -/

/-- The scheduler thread of one vNPU. -/
structure Sched where
  pc : SchedPc
  locals : SchedLocals

/-- All processes, the shared context and the clock. -/
structure SchedState where
  mem : SchedMem
  now : ℕ
  thread : Vnpu → Sched

/-- One step of the system. -/
inductive SchedAct where
  /-- The thread of `v` takes its next step; `hasWork` is the environment's answer. -/
  | thread (v : Vnpu) (hasWork : Bool)
  | tick (d : ℕ)
  | die (v : Vnpu)
  /-- `enpu-ctl` stores a quota. -/
  | setQuota (v : Vnpu) (q : Fin 256)
  /-- A user thread of `v` enters or leaves prefill. -/
  | setPrefill (v : Vnpu) (b : Bool)
  deriving DecidableEq, Repr

/-- `s` with the thread of `v` replaced. -/
def SchedState.setThread (s : SchedState) (v : Vnpu) (t : Sched) : SchedState :=
  { s with thread := Function.update s.thread v t }

/-- The step function. A dead vNPU does not run. -/
def schedStep (p : Policy) (s : SchedState) : SchedAct → Option SchedState
  | .thread v hasWork =>
    if s.mem (.alive v) then
      ((schedulerThread p v (s.thread v).locals (s.thread v).pc).exec s.mem s.now hasWork).map
        fun r => { s with mem := r.1 }.setThread v ⟨r.2.2, r.2.1⟩
    else none
  | .tick d => some { s with now := s.now + d }
  | .die v => some { s with mem := s.mem.set (.alive v) false }
  | .setQuota v q => some { s with mem := s.mem.set (.quota v) q }
  | .setPrefill v b => some { s with mem := s.mem.set (.inPrefill v) b }

/-- What is observed of a step. -/
inductive SchedEvent where
  /-- The thread of `v` reads `owner` equal to its own id. -/
  | enter (v : Vnpu)
  /-- The thread of `v` stores the next owner, at the end of its slice or instead of it. -/
  | handOn (v : Vnpu)
  /-- `add_and_consume_time_slice` of `v` adds the quota slice `q` to the balance `b`; it began at
  time `t`. -/
  | slice (v : Vnpu) (b q : ℤ) (t : ℕ)
  /-- The slice of `v` ends at time `t`. -/
  | sliceEnd (v : Vnpu) (t : ℕ)
  /-- `synchronize_and_clear_streams` of `v` took the time `e`. -/
  | drained (v : Vnpu) (e : ℕ)
  | other
  deriving DecidableEq, Repr

/-- What is observed of a thread step. -/
def threadEvent (s : SchedState) (v : Vnpu) : SchedPc → SchedEvent
  | .top => if s.mem .owner = v.val then .enter v else .other
  | .debtSet (.store _) | .set (.store _) => .handOn v
  | .quota now => .slice v (s.thread v).locals.curTimeslice (quotaTimeslice (s.mem (.quota v))) now
  | .endClock _ => .sliceEnd v s.now
  | .drain begin => .drained v (s.now - begin)
  | _ => .other

/-- The vNPUs as one system. -/
def schedulerSystem (p : Policy) : Lts SchedState SchedAct SchedEvent where
  step := schedStep p
  event s a _ := match a with
    | .thread v _ => threadEvent s v (s.thread v).pc
    | _ => .other

/-- The threads have just been created, over the context `share_mem_init` leaves, with the quotas
the processes stored. The vNPUs of `present` exist. -/
def schedInitial (present : Vnpu → Bool) (quota : Vnpu → Fin 256) (now : ℕ) : SchedState where
  mem
    | .owner => (-1 : ℤ)
    | .alive v => present v
    | .quota v => quota v
    | .turn _ => (0 : Fin 256)
    | .inPrefill _ => false
  now := now
  thread _ := ⟨.top, ⟨0, 255⟩⟩

/-- The runs of the system under a guard. -/
abbrev SchedRun (p : Policy) (P : SchedState → SchedAct → Prop) (present : Vnpu → Bool)
    (quota : Vnpu → Fin 256) (now : ℕ) (tr : List SchedEvent) (s : SchedState) : Prop :=
  (schedulerSystem p).Exec P (schedInitial present quota now) tr s

/-- The vNPUs below `n` exist. -/
def firstVnpus (n : ℕ) (v : Vnpu) : Bool := v.val < n

/-- The thread of `v` takes `n` steps. -/
def threadSteps (n : ℕ) (v : Vnpu) : List SchedAct := List.replicate n (.thread v true)

/-- A run of the system that has been evaluated. -/
theorem exists_schedRun (p : Policy) (present : Vnpu → Bool) (quota : Vnpu → Fin 256) (now : ℕ)
    {P : SchedState → SchedAct → Prop} {q : SchedState → SchedAct → Bool}
    (hq : ∀ s a, q s a = true → P s a) (acts : List SchedAct)
    (test : List SchedEvent → SchedState → Bool)
    (h : ((schedulerSystem p).run q (schedInitial present quota now) [] acts).any
      (fun r => test r.1 r.2) = true) :
    ∃ tr s, SchedRun p P present quota now tr s ∧ test tr s = true :=
  Lts.exists_exec hq acts test h

/-! ## One step -/

variable {p : Policy} {s s' : SchedState} {a : SchedAct} {v w : Vnpu}

@[simp] theorem setThread_thread_self (t : Sched) : (s.setThread v t).thread v = t :=
  Function.update_self _ _ _

theorem setThread_thread_of_ne (t : Sched) (h : w ≠ v) :
    (s.setThread v t).thread w = s.thread w :=
  Function.update_of_ne h _ _

/-- **What a thread step is.** -/
theorem thread_of_schedStep {b : Bool} (h : schedStep p s (.thread v b) = some s') :
    s.mem (.alive v) = true ∧ ∃ m x pc,
      (schedulerThread p v (s.thread v).locals (s.thread v).pc).exec s.mem s.now b
        = some (m, x, pc) ∧
      s' = { s with mem := m }.setThread v ⟨pc, x⟩ := by
  simp only [schedStep] at h
  split at h
  · rename_i halive
    obtain ⟨⟨m, x, pc⟩, hr, rfl⟩ := Option.map_eq_some_iff.mp h
    exact ⟨halive, m, x, pc, hr, rfl⟩
  · cases h

theorem isVnpuAlive_target {α : Type} (id : ℤ) (k : Bool → α) :
    (isVnpuAlive id k).target = none := by
  unfold isVnpuAlive
  split <;> rfl

/-- A thread stores owners and its own turn. -/
theorem schedulerThread_target (p : Policy) (v : Vnpu) (x : SchedLocals) (pc : SchedPc) :
    (schedulerThread p v x pc).target = none ∨
      (schedulerThread p v x pc).target = some .owner ∨
      (schedulerThread p v x pc).target = some (.turn v) := by
  have hselect : ∀ sel, (selectNextOwner sel).target = none := fun _ => isVnpuAlive_target _ _
  have hset : ∀ st, (setOwner st).target = none ∨ (setOwner st).target = some .owner := by
    intro st
    cases st with
    | alive next i sum => exact .inl (isVnpuAlive_target _ _)
    | store next => exact .inr rfl
    | _ => exact .inl rfl
  cases pc with
  | ownerAlive o => exact .inl (isVnpuAlive_target _ _)
  | takeSelect sel | debtSelect sel | select _ _ sel =>
    exact .inl ((Cmd.target_map _ _).trans (hselect sel))
  | takeSet st | debtSet st | set st =>
    rw [schedulerThread, Cmd.target_map]
    exact (hset st).imp id .inl
  | storeTurn => exact .inr (.inr rfl)
  | _ => exact .inl rfl

end YellowZone.CoreLimiter
