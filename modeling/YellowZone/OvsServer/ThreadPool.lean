import YellowZone.Machine.Threads

/-!
# Stopping the thread pool

The workers of the pool wait on a condition variable for a task or for the end. They test
`running_` under the mutex, and `TryEnqueue` pushes and notifies under the mutex. `Stop` does not
take the mutex: it clears `running_` and notifies everyone.

A step is one access to shared data. Waiting on the condition variable releases the mutex and
blocks in one step, and a notification reaches the threads that are blocked at that moment. Wakeups
without a notification are possible at any time. The number of workers, the size of the queue and
the callers of `TryEnqueue` are arbitrary.

## What goes wrong

A worker that holds the mutex, has seen no task and has seen `running_` set will block in its next
step. If `Stop` clears the flag and notifies in between, the notification is lost on it: it blocks
afterwards, and `Stop` waits for it to end. All others test the flag once more before they block.

## Main results

* `sound_of_run` — the mutex, and what is known to the worker that has it
* `Roused.step` — after a notification that was lost on nobody, nobody blocks again
* `Roused.inevitable_stopped` — and then `Stop` returns
* `stop_rouses_iff` — exactly if no worker was about to block
* `stop_loses_worker` — one worker, and a lost notification
-/

namespace YellowZone.OvsServer

namespace ThreadPool

open Machine

/-! ## The pool -/

/-- Where a worker is. -/
inductive WorkerPc where
  /-- `while (running_)`. -/
  | loop
  | lock
  /-- The predicate of the wait, first half: `!tasks_.empty()`. -/
  | testTasks
  /-- The predicate of the wait, second half: `!running_`. -/
  | testRunning
  /-- The predicate was false. -/
  | wait
  /-- In the wait, with no notification pending. -/
  | blocked
  /-- Notified, and to take the mutex again. -/
  | woken
  /-- `if (!running_)`. -/
  | checkRunning
  | pop
  | unlock (task : ℕ)
  /-- `break`. -/
  | leave
  | run (task : ℕ)
  | exited
  deriving DecidableEq, Repr

/-- Where a caller of `TryEnqueue` is. -/
inductive CallerPc where
  | idle
  | lock (task : ℕ)
  | push (task : ℕ)
  | notify
  | unlock (result : Bool)
  deriving DecidableEq, Repr

/-- Where `Stop` is. -/
inductive StopPc where
  | idle
  | clearRunning
  | notifyAll
  /-- The workers before `k` have been joined. -/
  | join (k : ℕ)
  | stopped
  deriving DecidableEq, Repr

/-- Who may own the mutex, in a pool of `n` workers. -/
inductive Thread (n : ℕ) where
  | worker (i : Fin n)
  | caller (k : ℕ)
  deriving DecidableEq

structure Pool (n : ℕ) where
  running : Bool
  tasks : List ℕ
  mutex : Option (Thread n)
  worker : Fin n → WorkerPc
  caller : ℕ → CallerPc
  stop : StopPc

namespace Pool

variable {n : ℕ}

def gotoWorker (s : Pool n) (i : Fin n) (pc : WorkerPc) : Pool n :=
  { s with worker := Function.update s.worker i pc }

def gotoCaller (s : Pool n) (k : ℕ) (pc : CallerPc) : Pool n :=
  { s with caller := Function.update s.caller k pc }

def take (s : Pool n) (t : Thread n) : Pool n := { s with mutex := some t }

def release (s : Pool n) : Pool n := { s with mutex := none }

/-- `notify_all`: every blocked worker is notified. -/
def notifyAll (s : Pool n) : Pool n :=
  { s with
    worker := fun i => if s.worker i = .blocked then .woken else s.worker i
    stop := .join 0 }

/-- One step of a worker, if it is not blocked. -/
def workerStep (s : Pool n) (i : Fin n) : Option (Pool n) :=
  match s.worker i with
  | .loop => some (s.gotoWorker i (if s.running then .lock else .exited))
  | .lock | .woken =>
    if s.mutex = none then some ((s.gotoWorker i .testTasks).take (.worker i)) else none
  | .testTasks => some (s.gotoWorker i (if s.tasks = [] then .testRunning else .checkRunning))
  | .testRunning => some (s.gotoWorker i (if s.running then .wait else .checkRunning))
  | .wait => some (s.gotoWorker i .blocked).release
  | .blocked => none
  | .checkRunning => some (s.gotoWorker i (if s.running then .pop else .leave))
  | .pop =>
    match s.tasks with
    | [] => none
    | task :: rest => some ({ s with tasks := rest }.gotoWorker i (.unlock task))
  | .unlock task => some (s.gotoWorker i (.run task)).release
  | .leave => some (s.gotoWorker i .exited).release
  | .run _ => some (s.gotoWorker i .loop)
  | .exited => none

/-- `notify_one`: some blocked worker is notified, if there is one. -/
def notifyOne (s : Pool n) : Option (Fin n) → Option (Pool n)
  | some i => if s.worker i = .blocked then some (s.gotoWorker i .woken) else none
  | none => if ∀ i, s.worker i ≠ .blocked then some s else none

/-- One step of a call of `TryEnqueue`. -/
def callerStep (maxQueueSize : ℕ) (s : Pool n) (k : ℕ) (wakes : Option (Fin n)) :
    Option (Pool n) :=
  match s.caller k with
  | .idle => none
  | .lock task =>
    if s.mutex = none then some ((s.gotoCaller k (.push task)).take (.caller k)) else none
  | .push task =>
    if maxQueueSize ≤ s.tasks.length then some (s.gotoCaller k (.unlock false))
    else some ({ s with tasks := s.tasks ++ [task] }.gotoCaller k .notify)
  | .notify => (s.notifyOne wakes).map fun s => s.gotoCaller k (.unlock true)
  | .unlock _ => some (s.gotoCaller k .idle).release

/-- One step of `Stop`. -/
def stopStep (s : Pool n) : Option (Pool n) :=
  match s.stop with
  | .idle => some { s with stop := .clearRunning }
  | .clearRunning => some { s with running := false, stop := .notifyAll }
  | .notifyAll => some s.notifyAll
  | .join k =>
    if h : k < n then
      if s.worker ⟨k, h⟩ = .exited then some { s with stop := .join (k + 1) } else none
    else some { s with stop := .stopped }
  | .stopped => none

end Pool

/-- Who takes the next step. -/
inductive Action (n : ℕ) where
  | worker (i : Fin n)
  /-- A caller that is idle calls `TryEnqueue`. -/
  | tryEnqueue (k task : ℕ)
  | caller (k : ℕ) (wakes : Option (Fin n))
  /-- A blocked worker wakes up without a notification. -/
  | spurious (i : Fin n)
  | stop
  deriving DecidableEq

/-- A pool of `n` workers. -/
def system (n maxQueueSize : ℕ) : Lts (Pool n) (Action n) (Action n) where
  step s a :=
    match a with
    | .worker i => s.workerStep i
    | .tryEnqueue k task =>
      if s.caller k = .idle then some (s.gotoCaller k (.lock task)) else none
    | .caller k wakes => s.callerStep maxQueueSize k wakes
    | .spurious i => if s.worker i = .blocked then some (s.gotoWorker i .woken) else none
    | .stop => s.stopStep
  event _ a _ := a

/-- After `Start`. -/
def started (n : ℕ) : Pool n where
  running := true
  tasks := []
  mutex := none
  worker _ := .loop
  caller _ := .idle
  stop := .idle

/-- A run of the pool. -/
abbrev Run (n maxQueueSize : ℕ) (tr : List (Action n)) (s : Pool n) : Prop :=
  (system n maxQueueSize).Exec (fun _ _ => True) (started n) tr s

/-! ## The mutex -/

/-- The worker has the mutex. -/
def WorkerPc.holds : WorkerPc → Prop
  | .testTasks | .testRunning | .wait | .checkRunning | .pop | .unlock _ | .leave => True
  | _ => False

def CallerPc.holds : CallerPc → Prop
  | .push _ | .notify | .unlock _ => True
  | _ => False

/-- `running_` has been cleared. -/
def StopPc.cleared : StopPc → Bool
  | .idle | .clearRunning => false
  | _ => true

variable {n maxQueueSize : ℕ} {s s' : Pool n} {a : Action n} {i : Fin n} {k : ℕ}

/-- The thread has the mutex, by where it is. -/
def Pool.inside (s : Pool n) : Thread n → Prop
  | .worker i => (s.worker i).holds
  | .caller k => (s.caller k).holds

/-- What a worker knows of the queue when it is about to take a task. -/
def Pool.knows (s : Pool n) : WorkerPc → Prop
  | .checkRunning => s.tasks ≠ [] ∨ s.running = false
  | .pop => s.tasks ≠ []
  | _ => True

/-- **The invariant.** -/
structure Sound (s : Pool n) : Prop where
  exclusive : Exclusive s.mutex s.inside
  knows : ∀ i, s.knows (s.worker i)
  running_eq : s.running = !s.stop.cleared

theorem sound_started (n : ℕ) : Sound (started n) where
  exclusive t := by
    cases t with
    | worker i => exact iff_of_false (fun h => h) nofun
    | caller k => exact iff_of_false (fun h => h) nofun
  knows _ := trivial
  running_eq := rfl

/-! ## What a step does -/

/-- What a thread does with the mutex: nothing, taking it or releasing it. -/
def MutexStep (t : Thread n) (held held' : Prop) (s s' : Pool n) : Prop :=
  (s'.mutex = s.mutex ∧ (held' ↔ held)) ∨ (s.mutex = none ∧ s'.mutex = some t ∧ held') ∨
    (held ∧ s'.mutex = none ∧ ¬ held')

/-- How many steps a worker takes to the end once `running_` is cleared, if it does not block. -/
def WorkerPc.rank : WorkerPc → ℕ
  | .lock | .woken => 5
  | .testTasks | .pop => 4
  | .testRunning | .unlock _ => 3
  | .checkRunning | .run _ => 2
  | .leave | .loop => 1
  | .wait | .blocked | .exited => 0

def CallerPc.rank : CallerPc → ℕ
  | .push _ => 3
  | .notify => 2
  | .unlock _ => 1
  | .idle | .lock _ => 0

/-- A step of worker `i`, to `pc`. -/
structure WorkerTrans (s : Pool n) (i : Fin n) (pc : WorkerPc) (s' : Pool n) : Prop where
  worker_eq : s'.worker = Function.update s.worker i pc
  caller_eq : s'.caller = s.caller
  stop_eq : s'.stop = s.stop
  running_eq : s'.running = s.running
  mutex : MutexStep (.worker i) (s.worker i).holds pc.holds s s'
  tasks : s'.tasks = s.tasks ∨ (s.worker i).holds
  knows : s'.knows pc
  blocks : pc = .blocked → s.worker i = .wait
  waits : pc = .wait → s.running = true
  rank : s.running = false → s.worker i ≠ .wait → pc.rank < (s.worker i).rank

theorem trans_of_workerStep (hknows : s.knows (s.worker i)) (h : s.workerStep i = some s') :
    ∃ pc, WorkerTrans s i pc s' := by
  rw [Pool.workerStep] at h
  cases hpc : s.worker i with
  | loop =>
    rw [hpc] at h
    obtain rfl := Option.some.inj h
    refine ⟨_, ⟨rfl, rfl, rfl, rfl, Or.inl ⟨rfl, ?_⟩, Or.inl rfl, ?_, ?_, ?_, ?_⟩⟩ <;>
      cases s.running <;> simp [hpc, WorkerPc.holds, WorkerPc.rank, Pool.knows]
  | lock | woken =>
    rw [hpc] at h
    simp only at h
    split at h
    · next hfree =>
      obtain rfl := Option.some.inj h
      exact ⟨_, ⟨rfl, rfl, rfl, rfl, Or.inr (Or.inl ⟨hfree, rfl, trivial⟩), Or.inl rfl, trivial,
        nofun, nofun, by simp [hpc, WorkerPc.rank]⟩⟩
    · cases h
  | testTasks =>
    rw [hpc] at h
    obtain rfl := Option.some.inj h
    refine ⟨_, ⟨rfl, rfl, rfl, rfl, Or.inl ⟨rfl, ?_⟩, Or.inl rfl, ?_, ?_, ?_, ?_⟩⟩ <;>
      by_cases ht : s.tasks = [] <;>
      simp [hpc, ht, WorkerPc.holds, WorkerPc.rank, Pool.knows, Pool.gotoWorker]
  | testRunning =>
    rw [hpc] at h
    obtain rfl := Option.some.inj h
    refine ⟨_, ⟨rfl, rfl, rfl, rfl, Or.inl ⟨rfl, ?_⟩, Or.inl rfl, ?_, ?_, ?_, ?_⟩⟩ <;>
      cases hr : s.running <;>
      simp [hpc, hr, WorkerPc.holds, WorkerPc.rank, Pool.knows, Pool.gotoWorker]
  | wait =>
    rw [hpc] at h
    obtain rfl := Option.some.inj h
    refine ⟨_, ⟨rfl, rfl, rfl, rfl, Or.inr (Or.inr ⟨?_, rfl, id⟩), Or.inl rfl, trivial,
      fun _ => hpc, nofun, fun _ hne => absurd hpc hne⟩⟩
    rw [hpc]
    trivial
  | checkRunning =>
    -- a worker that has seen `running_` set has seen a task
    rw [hpc] at h hknows
    obtain rfl := Option.some.inj h
    refine ⟨_, ⟨rfl, rfl, rfl, rfl, Or.inl ⟨rfl, ?_⟩, Or.inl rfl, ?_, ?_, ?_, ?_⟩⟩ <;>
      cases hr : s.running <;>
      simp_all [WorkerPc.holds, WorkerPc.rank, Pool.knows, Pool.gotoWorker]
  | pop =>
    rw [hpc] at h
    simp only at h
    split at h
    · cases h
    · obtain rfl := Option.some.inj h
      refine ⟨_, ⟨rfl, rfl, rfl, rfl, Or.inl ⟨rfl, ?_⟩, Or.inr ?_, trivial, nofun, nofun, ?_⟩⟩ <;>
        simp [hpc, WorkerPc.holds, WorkerPc.rank]
  | unlock task | leave =>
    rw [hpc] at h
    obtain rfl := Option.some.inj h
    refine ⟨_, ⟨rfl, rfl, rfl, rfl, Or.inr (Or.inr ⟨?_, rfl, id⟩), Or.inl rfl, trivial, nofun,
      nofun, ?_⟩⟩ <;> simp [hpc, WorkerPc.holds, WorkerPc.rank]
  | run task =>
    rw [hpc] at h
    obtain rfl := Option.some.inj h
    refine ⟨_, ⟨rfl, rfl, rfl, rfl, Or.inl ⟨rfl, ?_⟩, Or.inl rfl, trivial, nofun, nofun, ?_⟩⟩ <;>
      simp [hpc, WorkerPc.holds, WorkerPc.rank]
  | blocked | exited =>
    rw [hpc] at h
    cases h

/-- A step of a call of `TryEnqueue`, to `pc`. -/
structure CallerTrans (s : Pool n) (k : ℕ) (pc : CallerPc) (s' : Pool n) : Prop where
  caller_eq : s'.caller = Function.update s.caller k pc
  worker_eq : ∀ i, s'.worker i = s.worker i ∨ s.worker i = .blocked ∧ s'.worker i = .woken
  stop_eq : s'.stop = s.stop
  running_eq : s'.running = s.running
  mutex : MutexStep (.caller k) (s.caller k).holds pc.holds s s'
  tasks : s.tasks ≠ [] → s'.tasks ≠ []
  rank : (s.caller k).holds → pc.rank < (s.caller k).rank

/-- `notify_one` changes nothing but a blocked worker. -/
theorem notifyOne_eq {wakes : Option (Fin n)} (h : s.notifyOne wakes = some s') :
    ∃ worker, s' = { s with worker := worker } ∧
      ∀ i, worker i = s.worker i ∨ s.worker i = .blocked ∧ worker i = .woken := by
  cases wakes with
  | none =>
    simp only [Pool.notifyOne] at h
    split at h
    · obtain rfl := Option.some.inj h
      exact ⟨s.worker, rfl, fun i => Or.inl rfl⟩
    · cases h
  | some j =>
    simp only [Pool.notifyOne] at h
    split at h
    · next hj =>
      obtain rfl := Option.some.inj h
      refine ⟨_, rfl, fun i => ?_⟩
      by_cases hi : i = j
      · subst hi
        exact Or.inr ⟨hj, Function.update_self _ _ _⟩
      · exact Or.inl (Function.update_of_ne hi _ _)
    · cases h

theorem trans_of_callerStep {wakes : Option (Fin n)}
    (h : s.callerStep maxQueueSize k wakes = some s') : ∃ pc, CallerTrans s k pc s' := by
  rw [Pool.callerStep] at h
  cases hpc : s.caller k with
  | idle =>
    rw [hpc] at h
    cases h
  | lock task =>
    rw [hpc] at h
    simp only at h
    split at h
    · next hfree =>
      obtain rfl := Option.some.inj h
      refine ⟨_, ⟨rfl, fun i => Or.inl rfl, rfl, rfl, Or.inr (Or.inl ⟨hfree, rfl, trivial⟩), id,
        ?_⟩⟩
      rw [hpc]
      exact False.elim
    · cases h
  | push task =>
    rw [hpc] at h
    simp only at h
    split at h
    · obtain rfl := Option.some.inj h
      refine ⟨_, ⟨rfl, fun i => Or.inl rfl, rfl, rfl, Or.inl ⟨rfl, ?_⟩, id, ?_⟩⟩ <;>
        simp [hpc, CallerPc.holds, CallerPc.rank]
    · obtain rfl := Option.some.inj h
      refine ⟨_, ⟨rfl, fun i => Or.inl rfl, rfl, rfl, Or.inl ⟨rfl, ?_⟩, fun _ => ?_, ?_⟩⟩
      · simp [hpc, CallerPc.holds]
      · exact List.append_ne_nil_of_right_ne_nil _ (List.cons_ne_nil _ _)
      · simp [hpc, CallerPc.rank]
  | notify =>
    rw [hpc] at h
    obtain ⟨s₁, hs₁, rfl⟩ := Option.map_eq_some_iff.mp h
    obtain ⟨worker, rfl, hworker⟩ := notifyOne_eq hs₁
    refine ⟨_, ⟨rfl, hworker, rfl, rfl, Or.inl ⟨rfl, ?_⟩, id, ?_⟩⟩ <;>
      simp [hpc, CallerPc.holds, CallerPc.rank]
  | unlock result =>
    rw [hpc] at h
    obtain rfl := Option.some.inj h
    refine ⟨_, ⟨rfl, fun i => Or.inl rfl, rfl, rfl, Or.inr (Or.inr ⟨?_, rfl, id⟩), id, ?_⟩⟩ <;>
      simp [hpc, CallerPc.holds, CallerPc.rank]

/-! ## The invariant is kept -/

theorem knows_of_not_holds {pc : WorkerPc} (h : ¬ pc.holds) : s.knows pc := by
  cases pc <;> first | trivial | exact absurd trivial h

/-- One thread moves, and the others are where they were. -/
theorem Sound.exclusive_step (h : Sound s) {t : Thread n} {held' : Prop}
    (hm : MutexStep t (s.inside t) held' s s') (ht : s'.inside t ↔ held')
    (hsame : ∀ t', t' ≠ t → (s'.inside t' ↔ s.inside t')) : Exclusive s'.mutex s'.inside := by
  rcases hm with ⟨hmutex, hiff⟩ | ⟨hfree, hmutex, hin⟩ | ⟨hin, hmutex, hout⟩
  · rw [hmutex]
    refine h.exclusive.keep fun t' => ?_
    by_cases heq : t' = t
    · subst heq
      exact ht.trans hiff
    · exact hsame t' heq
  · rw [hmutex]
    have hex := h.exclusive
    rw [hfree] at hex
    exact hex.take (ht.mpr hin) hsame
  · rw [hmutex]
    exact h.exclusive.release hin (fun hin' => hout (ht.mp hin')) hsame

theorem Sound.worker (h : Sound s) (hs : s.workerStep i = some s') : Sound s' := by
  obtain ⟨pc, ht⟩ := trans_of_workerStep (h.knows i) hs
  have hself : s'.worker i = pc := by rw [ht.worker_eq, Function.update_self]
  have hother : ∀ j, j ≠ i → s'.worker j = s.worker j := by
    intro j hj
    rw [ht.worker_eq, Function.update_of_ne hj]
  refine ⟨h.exclusive_step ht.mutex (by rw [Pool.inside, hself]) fun t' hne => ?_, fun j => ?_, ?_⟩
  · cases t' with
    | worker j => rw [Pool.inside, Pool.inside, hother j fun hj => hne (hj ▸ rfl)]
    | caller k => rw [Pool.inside, Pool.inside, ht.caller_eq]
  · by_cases hj : j = i
    · subst hj
      rw [hself]
      exact ht.knows
    · rw [hother j hj]
      rcases ht.tasks with htasks | hin
      · have hknows := h.knows j
        cases hpc : s.worker j <;> simp_all [Pool.knows, ht.running_eq]
      · -- the worker that took a task had the mutex, so no other one relies on the queue
        refine knows_of_not_holds fun hin' => hj ?_
        have hj' : s.inside (.worker j) := hin'
        exact Thread.worker.inj (h.exclusive.unique hj' hin)
  · rw [ht.running_eq, ht.stop_eq]
    exact h.running_eq

theorem Sound.caller (h : Sound s) {wakes : Option (Fin n)}
    (hs : s.callerStep maxQueueSize k wakes = some s') : Sound s' := by
  obtain ⟨pc, ht⟩ := trans_of_callerStep hs
  have hself : s'.caller k = pc := by rw [ht.caller_eq, Function.update_self]
  refine ⟨h.exclusive_step ht.mutex (by rw [Pool.inside, hself]) fun t' hne => ?_, fun i => ?_, ?_⟩
  · cases t' with
    | worker i =>
      rcases ht.worker_eq i with heq | ⟨hblocked, hwoken⟩
      · rw [Pool.inside, Pool.inside, heq]
      · rw [Pool.inside, Pool.inside, hblocked, hwoken]
        exact Iff.rfl
    | caller k' =>
      have hk : k' ≠ k := fun hk => hne (hk ▸ rfl)
      rw [Pool.inside, Pool.inside, ht.caller_eq, Function.update_of_ne hk]
  · rcases ht.worker_eq i with heq | ⟨-, hwoken⟩
    · rw [heq]
      have hknows := h.knows i
      have htasks := ht.tasks
      cases hpc : s.worker i <;> simp_all [Pool.knows, ht.running_eq]
      exact hknows.imp_left htasks
    · rw [hwoken]
      trivial
  · rw [ht.running_eq, ht.stop_eq]
    exact h.running_eq

/-- Blocked workers are woken, and `Stop` goes on. -/
theorem Sound.wake (h : Sound s) {running : Bool} {worker : Fin n → WorkerPc} {stop : StopPc}
    (hworker : ∀ i, worker i = s.worker i ∨ s.worker i = .blocked ∧ worker i = .woken)
    (hrunning : running = !stop.cleared) (hle : s.running = false → running = false) :
    Sound { s with running := running, worker := worker, stop := stop } := by
  refine ⟨h.exclusive.keep fun t => ?_, fun i => ?_, hrunning⟩
  · cases t with
    | worker i =>
      rcases hworker i with heq | ⟨hblocked, hwoken⟩
      · simp only [Pool.inside, heq]
      · simp only [Pool.inside, hblocked, hwoken]
        exact Iff.rfl
    | caller k => exact Iff.rfl
  · rcases hworker i with heq | ⟨-, hwoken⟩
    · simp only [heq]
      have hknows := h.knows i
      cases hpc : s.worker i <;> simp_all [Pool.knows]
      exact hknows.imp_right hle
    · simp only [hwoken]
      trivial

theorem Sound.stopping (h : Sound s) (hs : s.stopStep = some s') : Sound s' := by
  rw [Pool.stopStep] at hs
  have hrunning := h.running_eq
  cases hstop : s.stop with
  | idle =>
    rw [hstop] at hs hrunning
    obtain rfl := Option.some.inj hs
    exact h.wake (fun i => Or.inl rfl) hrunning id
  | clearRunning =>
    rw [hstop] at hs
    obtain rfl := Option.some.inj hs
    exact h.wake (fun i => Or.inl rfl) rfl fun _ => rfl
  | notifyAll =>
    rw [hstop] at hs hrunning
    obtain rfl := Option.some.inj hs
    refine h.wake (fun i => ?_) hrunning id
    by_cases hi : s.worker i = .blocked
    · exact Or.inr ⟨hi, if_pos hi⟩
    · exact Or.inl (if_neg hi)
  | join k =>
    rw [hstop] at hs hrunning
    simp only at hs
    split at hs
    · split at hs
      · obtain rfl := Option.some.inj hs
        exact h.wake (fun i => Or.inl rfl) hrunning id
      · cases hs
    · obtain rfl := Option.some.inj hs
      exact h.wake (fun i => Or.inl rfl) hrunning id
  | stopped =>
    rw [hstop] at hs
    cases hs

/-- **The invariant is kept.** -/
theorem Sound.step (h : Sound s) (hs : (system n maxQueueSize).step s a = some s') : Sound s' := by
  cases a with
  | worker i => exact h.worker hs
  | tryEnqueue k task =>
    simp only [system] at hs
    split at hs
    · next hidle =>
      obtain rfl := Option.some.inj hs
      refine ⟨h.exclusive.keep fun t => ?_, h.knows, h.running_eq⟩
      cases t with
      | worker i => exact Iff.rfl
      | caller k' =>
        by_cases hk : k' = k
        · subst hk
          simp [Pool.inside, Pool.gotoCaller, hidle, CallerPc.holds]
        · simp [Pool.inside, Pool.gotoCaller, Function.update_of_ne hk]
    · cases hs
  | caller k wakes => exact h.caller hs
  | spurious i =>
    simp only [system] at hs
    split at hs
    · next hblocked =>
      obtain rfl := Option.some.inj hs
      refine h.wake (fun j => ?_) h.running_eq id
      by_cases hj : j = i
      · subst hj
        exact Or.inr ⟨hblocked, Function.update_self _ _ _⟩
      · exact Or.inl (Function.update_of_ne hj _ _)
    · cases hs
  | stop => exact h.stopping hs

/-- **Every run keeps the invariant.** -/
theorem sound_of_run {tr : List (Action n)} (h : Run n maxQueueSize tr s) : Sound s :=
  h.invariant (I := fun _ s => Sound s) (sound_started n) fun _ _ _ _ hI _ hs => hI.step hs

/-! ## After the notification -/

/-- `Stop` has notified everyone, and nobody blocks any more. -/
structure Roused (s : Pool n) : Prop where
  sound : Sound s
  notified : (∃ k, s.stop = .join k) ∨ s.stop = .stopped
  awake : ∀ i, s.worker i ≠ .wait ∧ s.worker i ≠ .blocked

theorem Roused.running_eq (h : Roused s) : s.running = false := by
  rw [h.sound.running_eq]
  rcases h.notified with ⟨k, hk⟩ | hk <;> rw [hk] <;> rfl

/-- `running_` is cleared: whoever tests it goes on to the end. -/
theorem Roused.worker (h : Roused s) (hs : s.workerStep i = some s') : Roused s' := by
  obtain ⟨pc, ht⟩ := trans_of_workerStep (h.sound.knows i) hs
  refine ⟨h.sound.worker hs, ht.stop_eq ▸ h.notified, fun j => ?_⟩
  by_cases hj : j = i
  · subst hj
    rw [ht.worker_eq, Function.update_self]
    refine ⟨fun hwait => ?_, fun hblocked => (h.awake j).1 (ht.blocks hblocked)⟩
    exact absurd (h.running_eq.symm.trans (ht.waits hwait)) (by decide)
  · rw [ht.worker_eq, Function.update_of_ne hj]
    exact h.awake j

theorem Roused.caller (h : Roused s) {wakes : Option (Fin n)}
    (hs : s.callerStep maxQueueSize k wakes = some s') : Roused s' := by
  obtain ⟨pc, ht⟩ := trans_of_callerStep hs
  refine ⟨h.sound.caller hs, ht.stop_eq ▸ h.notified, fun i => ?_⟩
  rcases ht.worker_eq i with heq | ⟨hblocked, -⟩
  · rw [heq]
    exact h.awake i
  · exact absurd hblocked (h.awake i).2

/-- What remains of `Stop` after the notification. -/
theorem stopStep_of_join (h : s.stop = .join k) (hs : s.stopStep = some s') :
    (∃ hk : k < n, s.worker ⟨k, hk⟩ = .exited ∧ s' = { s with stop := .join (k + 1) }) ∨
      n ≤ k ∧ s' = { s with stop := .stopped } := by
  rw [Pool.stopStep, h] at hs
  simp only at hs
  split at hs
  · next hk =>
    split at hs
    · next hexit => exact Or.inl ⟨hk, hexit, (Option.some.inj hs).symm⟩
    · cases hs
  · next hk => exact Or.inr ⟨Nat.le_of_not_lt hk, (Option.some.inj hs).symm⟩

/-- **Nobody blocks again.** -/
theorem Roused.step (h : Roused s) (hs : (system n maxQueueSize).step s a = some s') :
    Roused s' := by
  have hsound := h.sound.step hs
  cases a with
  | worker i => exact h.worker hs
  | tryEnqueue k task =>
    simp only [system] at hs
    split at hs
    · obtain rfl := Option.some.inj hs
      exact ⟨hsound, h.notified, h.awake⟩
    · cases hs
  | caller k wakes => exact h.caller hs
  | spurious i =>
    simp only [system] at hs
    split at hs
    · next hblocked => exact absurd hblocked (h.awake i).2
    · cases hs
  | stop =>
    rcases h.notified with ⟨k, hk⟩ | hk
    · rcases stopStep_of_join hk hs with ⟨-, -, rfl⟩ | ⟨-, rfl⟩
      · exact ⟨hsound, Or.inl ⟨_, rfl⟩, h.awake⟩
      · exact ⟨hsound, Or.inr rfl, h.awake⟩
    · simp [system, Pool.stopStep, hk] at hs

theorem Roused.exec (h : Roused s) {P : Pool n → Action n → Prop} {tr : List (Action n)}
    (hrun : (system n maxQueueSize).Exec P s tr s') : Roused s' :=
  hrun.invariant (I := fun _ s' => Roused s') h fun _ _ _ _ hI _ hs => hI.step hs

/-! ## `Stop` returns -/

/-- The steps that bring the pool to its end: those of the workers and of `Stop`, and of a call of
`TryEnqueue` that has the mutex. -/
def Settling (s : Pool n) : Action n → Prop
  | .worker _ | .stop => True
  | .caller k _ => s.mutex = some (.caller k)
  | .tryEnqueue .. | .spurious _ => False

def StopPc.rank (n : ℕ) : StopPc → ℕ
  | .join k => n - k + 1
  | _ => 0

/-- What the call that has the mutex still has to do. -/
def Pool.holderRank (s : Pool n) : ℕ :=
  match s.mutex with
  | some (.caller k) => (s.caller k).rank
  | _ => 0

def Pool.rank (s : Pool n) : ℕ := ∑ i, (s.worker i).rank + s.holderRank + s.stop.rank n

theorem Roused.rank_worker (h : Roused s) (hs : s.workerStep i = some s') : s'.rank < s.rank := by
  obtain ⟨pc, ht⟩ := trans_of_workerStep (h.sound.knows i) hs
  have hlt := ht.rank h.running_eq (h.awake i).1
  have hsum : ∑ j, (s'.worker j).rank < ∑ j, (s.worker j).rank := by
    refine Finset.sum_lt_sum (fun j _ => ?_) ⟨i, Finset.mem_univ i, ?_⟩
    · by_cases hj : j = i
      · subst hj
        rw [ht.worker_eq, Function.update_self]
        exact hlt.le
      · rw [ht.worker_eq, Function.update_of_ne hj]
    · rw [ht.worker_eq, Function.update_self]
      exact hlt
  have hholder : s'.holderRank ≤ s.holderRank := by
    rcases ht.mutex with ⟨hmutex, -⟩ | ⟨-, hmutex, -⟩ | ⟨-, hmutex, -⟩
    · rw [Pool.holderRank, Pool.holderRank, hmutex, ht.caller_eq]
    · rw [Pool.holderRank, hmutex]
      exact Nat.zero_le _
    · rw [Pool.holderRank, hmutex]
      exact Nat.zero_le _
  rw [Pool.rank, Pool.rank, ht.stop_eq]
  omega

theorem Roused.rank_caller (h : Roused s) {wakes : Option (Fin n)}
    (hmutex : s.mutex = some (.caller k))
    (hs : s.callerStep maxQueueSize k wakes = some s') : s'.rank < s.rank := by
  obtain ⟨pc, ht⟩ := trans_of_callerStep hs
  have hworker : s'.worker = s.worker := by
    funext i
    exact (ht.worker_eq i).resolve_right fun hi => (h.awake i).2 hi.1
  have hlt := ht.rank ((h.sound.exclusive (.caller k)).mpr hmutex)
  have hholder : s'.holderRank < s.holderRank := by
    have hold : s.holderRank = (s.caller k).rank := by rw [Pool.holderRank, hmutex]
    rcases ht.mutex with ⟨hsame, -⟩ | ⟨hfree, -⟩ | ⟨-, hnone, -⟩
    · rw [hold, Pool.holderRank, hsame, hmutex, ht.caller_eq]
      simp only [Function.update_self]
      exact hlt
    · exact absurd (hmutex.symm.trans hfree) nofun
    · rw [hold, Pool.holderRank, hnone]
      exact Nat.zero_lt_of_lt hlt
  rw [Pool.rank, Pool.rank, hworker, ht.stop_eq]
  omega

theorem Roused.rank_stop (h : Roused s) (hs : s.stopStep = some s') : s'.rank < s.rank := by
  rcases h.notified with ⟨k, hk⟩ | hk
  · rcases stopStep_of_join hk hs with ⟨hlt, -, rfl⟩ | ⟨-, rfl⟩ <;>
      simp only [Pool.rank, Pool.holderRank, hk, StopPc.rank] <;> omega
  · simp [Pool.stopStep, hk] at hs

/-- A worker that has the mutex, or for which it is free, can go on. -/
theorem Roused.workerStep_ne_none (h : Roused s) (hexit : s.worker i ≠ .exited)
    (hmutex : s.mutex = none ∨ s.mutex = some (.worker i)) : ∃ s', s.workerStep i = some s' := by
  have hknows := h.sound.knows i
  have hfree : ¬ (s.worker i).holds → s.mutex = none := fun hout =>
    hmutex.resolve_right fun hown => hout ((h.sound.exclusive (.worker i)).mpr hown)
  rw [Pool.workerStep]
  cases hpc : s.worker i with
  | lock | woken =>
    rw [hpc] at hfree
    exact ⟨_, if_pos (hfree id)⟩
  | pop =>
    rw [hpc] at hknows
    obtain ⟨task, rest, htasks⟩ := List.exists_cons_of_ne_nil hknows
    rw [htasks]
    exact ⟨_, rfl⟩
  | blocked => exact absurd hpc (h.awake i).2
  | exited => exact absurd hpc hexit
  | loop | testTasks | testRunning | wait | checkRunning | unlock | leave | run => exact ⟨_, rfl⟩

/-- A call that has the mutex can go on. -/
theorem Roused.callerStep_ne_none (h : Roused s) (hmutex : s.mutex = some (.caller k)) (size : ℕ) :
    ∃ s', s.callerStep size k none = some s' := by
  have hin : (s.caller k).holds := (h.sound.exclusive (.caller k)).mpr hmutex
  rw [Pool.callerStep]
  cases hpc : s.caller k with
  | idle | lock =>
    rw [hpc] at hin
    exact hin.elim
  | push =>
    simp only
    split <;> exact ⟨_, rfl⟩
  | notify => exact ⟨_, by rw [Pool.notifyOne, if_pos fun i => (h.awake i).2]; rfl⟩
  | unlock => exact ⟨_, rfl⟩

/-- **There is always a next step** until `Stop` has returned. -/
theorem Roused.next (h : Roused s) : s.stop = .stopped ∨
    ∃ a s', Settling s a ∧ (system n maxQueueSize).step s a = some s' := by
  rcases h.notified with ⟨k, hk⟩ | hk
  · right
    rcases hmutex : s.mutex with _ | ⟨i⟩ | ⟨k'⟩
    · by_cases hlt : k < n
      · by_cases hexit : s.worker ⟨k, hlt⟩ = .exited
        · exact ⟨.stop, _, trivial, by simp [system, Pool.stopStep, hk, hlt, hexit]; rfl⟩
        · obtain ⟨s', hs⟩ := h.workerStep_ne_none hexit (Or.inl hmutex)
          exact ⟨.worker _, s', trivial, hs⟩
      · exact ⟨.stop, _, trivial, by simp [system, Pool.stopStep, hk, hlt]; rfl⟩
    · have hin : (s.worker i).holds := (h.sound.exclusive (.worker i)).mpr hmutex
      have hexit : s.worker i ≠ .exited := fun hpc => by
        rw [hpc] at hin
        exact hin
      obtain ⟨s', hs⟩ := h.workerStep_ne_none hexit (Or.inr hmutex)
      exact ⟨.worker i, s', trivial, hs⟩
    · obtain ⟨s', hs⟩ := h.callerStep_ne_none hmutex maxQueueSize
      exact ⟨.caller k' none, s', hmutex, hs⟩
  · exact Or.inl hk

/-- **`Stop` returns** once nobody blocks any more: whoever is scheduled, the workers come to their
end and are joined. -/
theorem Roused.inevitable_stopped (h : Roused s) :
    (system n maxQueueSize).Inevitable Settling s fun s' => s'.stop = .stopped := by
  refine Lts.inevitable_of_rank Pool.rank h (fun s a s' hI hP hs => ⟨hI.step hs, ?_⟩)
    fun s hI => hI.next
  cases a with
  | worker i => exact hI.rank_worker hs
  | tryEnqueue => exact hP.elim
  | caller k wakes => exact hI.rank_caller hP hs
  | spurious => exact hP.elim
  | stop => exact hI.rank_stop hs

/-! ## The lost notification -/

/-- A notification that finds no worker about to block is lost on nobody. -/
theorem roused_notifyAll (h : Sound s) (hstop : s.stop = .notifyAll)
    (hnone : ∀ i, s.worker i ≠ .wait) : Roused s.notifyAll := by
  have hs : s.stopStep = some s.notifyAll := by rw [Pool.stopStep, hstop]
  refine ⟨h.stopping hs, Or.inl ⟨0, rfl⟩, fun i => ?_⟩
  simp only [Pool.notifyAll]
  split
  · exact ⟨nofun, nofun⟩
  · next hi => exact ⟨hnone i, hi⟩

/-- **`Stop` rouses every worker exactly if none is about to block.** Let `Stop` be at its
`notify_all`, in any run. That no worker is ever blocked after it, with no notification pending, is
the same as that no worker is between its predicate, which saw no task and `running_` set, and its
wait. In this case the workers end and `Stop` returns, from whatever state the pool gets to. -/
theorem stop_rouses_iff {tr : List (Action n)} (h : Run n maxQueueSize tr s)
    (hstop : s.stop = .notifyAll) :
    ((∀ tr' s', (system n maxQueueSize).Exec (fun _ _ => True) s.notifyAll tr' s' →
        ∀ i, s'.worker i ≠ .blocked) ↔ ∀ i, s.worker i ≠ .wait) ∧
      ((∀ i, s.worker i ≠ .wait) →
        ∀ tr' s', (system n maxQueueSize).Exec (fun _ _ => True) s.notifyAll tr' s' →
          (system n maxQueueSize).Inevitable Settling s' fun s' => s'.stop = .stopped) := by
  have hsound := sound_of_run h
  refine ⟨⟨fun hnever i hwait => ?_, fun hnone tr' s' hrun i => ?_⟩, fun hnone tr' s' hrun => ?_⟩
  · -- the worker blocks in its next step
    have hpc : s.notifyAll.worker i = .wait := by
      simp only [Pool.notifyAll, hwait]
      rfl
    have hs : (system n maxQueueSize).step s.notifyAll (.worker i) =
        some (s.notifyAll.gotoWorker i .blocked).release := by
      simp only [system, Pool.workerStep, hpc]
    exact hnever _ _ (.next .start trivial hs) i (Function.update_self _ _ _)
  · exact ((roused_notifyAll hsound hstop hnone).exec hrun).awake i |>.2
  · exact ((roused_notifyAll hsound hstop hnone).exec hrun).inevitable_stopped

/-- A list of actions that has been evaluated, for its end. -/
theorem exists_run (as : List (Action n)) (test : Pool n → Bool)
    (h : ((system n maxQueueSize).run (fun _ _ => true) (started n) [] as).any
      (fun r => test r.2) = true) : ∃ tr s, Run n maxQueueSize tr s ∧ test s = true :=
  Lts.exists_exec (fun _ _ _ => trivial) as (fun _ s => test s) h

/-- Two workers, one blocked and one that runs a task. -/
theorem stop_rouses_iff_two : ∃ tr s, Run 2 8 tr s ∧ s.stop = .notifyAll ∧
    s.worker 0 = .blocked ∧ s.worker 1 = .run 7 ∧
    ∀ tr' s', (system 2 8).Exec (fun _ _ => True) s.notifyAll tr' s' →
      ∀ i, s'.worker i ≠ .blocked := by
  obtain ⟨tr, s, h, htest⟩ : ∃ tr s, Run 2 8 tr s ∧ _ := exists_run
    [.worker 0, .worker 0, .worker 0, .worker 0, .worker 0, .worker 1, .tryEnqueue 0 7,
      .caller 0 none, .caller 0 none, .caller 0 (some 0), .caller 0 none, .worker 1, .worker 1,
      .worker 1, .worker 1, .worker 1, .worker 0, .worker 0, .worker 0, .worker 0, .stop, .stop]
    (fun s => decide (s.stop = .notifyAll ∧ s.worker 0 = .blocked ∧ s.worker 1 = .run 7 ∧
      ∀ i, s.worker i ≠ .wait)) (by decide +kernel)
  obtain ⟨hstop, h₀, h₁, hnone⟩ := of_decide_eq_true htest
  exact ⟨tr, s, h, hstop, h₀, h₁, (stop_rouses_iff h hstop).1.mpr hnone⟩

/-- **A lost notification.** The only worker has found no task and `running_` set; `Stop` clears the
flag and notifies; the worker blocks. -/
theorem stop_loses_worker : ∃ tr s, Run 1 8 tr s ∧ s.stop = .join 0 ∧ s.worker 0 = .blocked := by
  obtain ⟨tr, s, h, htest⟩ : ∃ tr s, Run 1 8 tr s ∧ _ := exists_run
    [.worker 0, .worker 0, .worker 0, .worker 0, .stop, .stop, .stop, .worker 0]
    (fun s => decide (s.stop = .join 0 ∧ s.worker 0 = .blocked)) (by decide +kernel)
  exact ⟨tr, s, h, of_decide_eq_true htest⟩

end ThreadPool

end YellowZone.OvsServer
