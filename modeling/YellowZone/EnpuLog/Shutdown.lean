import YellowZone.Machine.Execution
import YellowZone.Machine.RingBuffer

/-!
# Shutting down the log

Threads push messages into a ring, one thread takes them out and writes them to the log file, and
`log_shutdown` ends it all. The ring is under a mutex with two condition variables, and after its
`shutdown` was set, `log_queue_pop` still returns what is in it.

A step is one critical section, one access to `g_log_running` or one message written. A thread that
waits on a condition variable may wake up at any time, tests again and waits on, which is what a
wakeup without a signal does; a push that waits for space may time out instead. Writing succeeds.

## What goes wrong

The consumer asks `g_log_running` after every message. `log_shutdown` clears that flag first, before
it tells the ring. The consumer then writes the message it is at, or takes one more if it is in
`log_queue_pop`, and leaves. Whatever else is in the ring, or is pushed before the ring is told, was
accepted and is never written.

## Main results

* `accounted_of_run` — what was accepted is written, at hand or in the ring, in this order
* `Ending.step` — how many messages the consumer still takes after the flag is cleared
* `shutdown_writes_all_iff` — everything is written exactly if that is enough
* `shutdown_loses_message` — two messages, one of which is lost
-/

namespace YellowZone.EnpuLog

open Machine

/-! ## The threads -/

/-- `LOG_QUEUE_SIZE`. -/
def logQueueSize : ℕ := 256

/-- Where a thread is that logs. -/
inductive PushPc (Msg : Type) where
  | idle
  | lock (msg : Msg)
  /-- In `log_queue_wait_for_space`. -/
  | waiting (msg : Msg)

/-- Where the consumer is. -/
inductive ConsumerPc (Msg : Type) where
  | pop
  /-- In the wait of `log_queue_pop`. -/
  | waiting
  | write (msg : Msg)
  /-- `if (g_log_running)`, before the compression of old files. -/
  | testCompress
  /-- `while (g_log_running)`. -/
  | testLoop
  | exited
  deriving DecidableEq

/-- Where `log_shutdown` is. -/
inductive ShutdownPc where
  | idle
  | testShutdown
  | clearRunning
  /-- `log_queue_destroy`. -/
  | destroy
  | join
  | returned
  deriving DecidableEq

structure Log (Msg : Type) where
  queue : RingBuffer Msg
  shutdown : Bool
  running : Bool
  push : ℕ → PushPc Msg
  consumer : ConsumerPc Msg
  stop : ShutdownPc

variable {Msg : Type}

/-- After `log_init`. -/
def logInit [Inhabited Msg] : Log Msg where
  queue := ⟨fun _ => default, 0, 0⟩
  shutdown := false
  running := true
  push _ := .idle
  consumer := .pop
  stop := .idle

/-- Who takes the next step. -/
inductive Action (Msg : Type) where
  /-- An idle thread calls `log_queue_push`. -/
  | call (k : ℕ) (msg : Msg)
  /-- A push goes on; a push that waits may time out. -/
  | push (k : ℕ) (timedOut : Bool)
  | consume
  | stop

/-- What is observed of a step. -/
inductive Event (Msg : Type) where
  /-- A push puts a message into the ring, and will return `ENPU_SUCCESS`. -/
  | accept (msg : Msg)
  | write (msg : Msg)
  | other
  deriving DecidableEq

namespace Log

def gotoPush (s : Log Msg) (k : ℕ) (pc : PushPc Msg) : Log Msg :=
  { s with push := Function.update s.push k pc }

def gotoConsumer (s : Log Msg) (pc : ConsumerPc Msg) : Log Msg := { s with consumer := pc }

/-- The push finds space. -/
def accept (s : Log Msg) (k : ℕ) (msg : Msg) : Log Msg :=
  { s.gotoPush k .idle with queue := s.queue.push logQueueSize msg }

/-- `log_queue_push`, and its loop in `log_queue_wait_for_space`. -/
def pushStep (s : Log Msg) (k : ℕ) (timedOut : Bool) : Option (Log Msg × Event Msg) :=
  match s.push k with
  | .idle => none
  | .lock msg =>
    if s.shutdown then some (s.gotoPush k .idle, .other)
    else if s.queue.IsFull logQueueSize then some (s.gotoPush k (.waiting msg), .other)
    else some (s.accept k msg, .accept msg)
  | .waiting msg =>
    if timedOut then some (s.gotoPush k .idle, .other)
    else if s.queue.IsFull logQueueSize ∧ s.shutdown = false then some (s, .other)
    else if s.shutdown then some (s.gotoPush k .idle, .other)
    else some (s.accept k msg, .accept msg)

/-- `log_queue_pop` from its lock, or from a wakeup. -/
def popStep (s : Log Msg) : Log Msg :=
  if s.queue.head = s.queue.tail then
    if s.shutdown then s.gotoConsumer .exited else s.gotoConsumer .waiting
  else { s with queue := s.queue.pop logQueueSize, consumer := .write s.queue.front }

/-- `log_consumer_thread`. -/
def consumerStep (s : Log Msg) : Option (Log Msg × Event Msg) :=
  match s.consumer with
  | .pop | .waiting => some (s.popStep, .other)
  | .write msg => some (s.gotoConsumer .testCompress, .write msg)
  | .testCompress => some (s.gotoConsumer .testLoop, .other)
  | .testLoop => some (s.gotoConsumer (if s.running then .pop else .exited), .other)
  | .exited => none

/-- `log_shutdown`. -/
def stopStep (s : Log Msg) : Option (Log Msg) :=
  match s.stop with
  | .idle => some { s with stop := .testShutdown }
  | .testShutdown => some { s with stop := if s.shutdown then .returned else .clearRunning }
  | .clearRunning => some { s with running := false, stop := .destroy }
  | .destroy => some { s with shutdown := true, stop := .join }
  | .join =>
    match s.consumer with
    | .exited => some { s with stop := .returned }
    | _ => none
  | .returned => none

/-- One step with its event. -/
def stepEvent (s : Log Msg) : Action Msg → Option (Log Msg × Event Msg)
  | .call k msg =>
    match s.push k with
    | .idle => some (s.gotoPush k (.lock msg), .other)
    | _ => none
  | .push k timedOut => s.pushStep k timedOut
  | .consume => s.consumerStep
  | .stop => s.stopStep.map fun s' => (s', .other)

end Log

/-- The log with its threads. -/
def system (Msg : Type) : Lts (Log Msg) (Action Msg) (Event Msg) where
  step s a := (s.stepEvent a).map (·.1)
  event s a _ := ((s.stepEvent a).map (·.2)).getD .other

/-- A run of the log. -/
abbrev Run [Inhabited Msg] (tr : List (Event Msg)) (s : Log Msg) : Prop :=
  (system Msg).Exec (fun _ _ => True) logInit tr s

/-- The messages whose push succeeded, in the order in which the pushes took effect. -/
def accepted (tr : List (Event Msg)) : List Msg :=
  (tr.filterMap fun
    | .accept msg => some msg
    | _ => none).reverse

/-- The messages that were written, in their order. -/
def written (tr : List (Event Msg)) : List Msg :=
  (tr.filterMap fun
    | .write msg => some msg
    | _ => none).reverse

section Traces

variable {tr tr' : List (Event Msg)} {msg : Msg}

@[simp] theorem accepted_accept : accepted (.accept msg :: tr) = accepted tr ++ [msg] := by
  simp [accepted]

@[simp] theorem accepted_write : accepted (.write msg :: tr) = accepted tr := by simp [accepted]

@[simp] theorem accepted_other : accepted (.other :: tr) = accepted tr := by simp [accepted]

@[simp] theorem written_accept : written (.accept msg :: tr) = written tr := by simp [written]

@[simp] theorem written_write : written (.write msg :: tr) = written tr ++ [msg] := by
  simp [written]

@[simp] theorem written_other : written (.other :: tr) = written tr := by simp [written]

end Traces

/-! ## What a step does -/

/-- The message that the consumer has at hand. -/
def ConsumerPc.hand : ConsumerPc Msg → List Msg
  | .write msg => [msg]
  | _ => []

/-- What is in the ring. -/
def Log.contents (s : Log Msg) : List Msg := s.queue.contents logQueueSize

@[simp] theorem contents_gotoConsumer (s : Log Msg) (pc : ConsumerPc Msg) :
    (s.gotoConsumer pc).contents = s.contents := rfl

@[simp] theorem consumer_gotoConsumer (s : Log Msg) (pc : ConsumerPc Msg) :
    (s.gotoConsumer pc).consumer = pc := rfl

/-- The ways in which a step changes the ring, the consumer and the flags. -/
inductive Trans (s : Log Msg) : Event Msg → Log Msg → Prop
  /-- Neither the ring nor the consumer. -/
  | aside {s' : Log Msg} (hqueue : s'.queue = s.queue) (hconsumer : s'.consumer = s.consumer)
      (hshutdown : s'.shutdown = s.shutdown) (hrunning : s'.running = s.running)
      (hstop : s'.stop = s.stop) : Trans s .other s'
  /-- A push succeeds. -/
  | accept {s' : Log Msg} (msg : Msg) (hopen : s.shutdown = false)
      (hfull : ¬ s.queue.IsFull logQueueSize) (hqueue : s'.queue = s.queue.push logQueueSize msg)
      (hconsumer : s'.consumer = s.consumer) (hshutdown : s'.shutdown = s.shutdown)
      (hrunning : s'.running = s.running) (hstop : s'.stop = s.stop) : Trans s (.accept msg) s'
  /-- The consumer is in `log_queue_pop`. -/
  | pop (hat : s.consumer = .pop ∨ s.consumer = .waiting) : Trans s .other s.popStep
  | write (msg : Msg) (hat : s.consumer = .write msg) :
      Trans s (.write msg) (s.gotoConsumer .testCompress)
  | testCompress (hat : s.consumer = .testCompress) : Trans s .other (s.gotoConsumer .testLoop)
  | testLoop (hat : s.consumer = .testLoop) :
      Trans s .other (s.gotoConsumer (if s.running then .pop else .exited))
  | stop {s' : Log Msg} (hs : s.stopStep = some s') : Trans s .other s'

theorem trans_of_pushStep {s s' : Log Msg} {k : ℕ} {timedOut : Bool} {e : Event Msg}
    (h : s.pushStep k timedOut = some (s', e)) : Trans s e s' := by
  rw [Log.pushStep] at h
  cases hpc : s.push k with
  | idle =>
    rw [hpc] at h
    cases h
  | lock msg =>
    rw [hpc] at h
    simp only at h
    split at h
    · cases h
      exact .aside rfl rfl rfl rfl rfl
    · next hopen =>
      split at h
      · cases h
        exact .aside rfl rfl rfl rfl rfl
      · next hfull =>
        cases h
        exact .accept msg (Bool.eq_false_iff.mpr hopen) hfull rfl rfl rfl rfl rfl
  | waiting msg =>
    rw [hpc] at h
    simp only at h
    split at h
    · cases h
      exact .aside rfl rfl rfl rfl rfl
    · split at h
      · cases h
        exact .aside rfl rfl rfl rfl rfl
      · next hspace =>
        split at h
        · cases h
          exact .aside rfl rfl rfl rfl rfl
        · next hopen =>
          have hopen : s.shutdown = false := Bool.eq_false_iff.mpr hopen
          cases h
          exact .accept msg hopen (fun hfull => hspace ⟨hfull, hopen⟩) rfl rfl rfl rfl rfl

theorem trans_of_consumerStep {s s' : Log Msg} {e : Event Msg}
    (h : s.consumerStep = some (s', e)) : Trans s e s' := by
  rw [Log.consumerStep] at h
  cases hpc : s.consumer with
  | pop =>
    rw [hpc] at h
    cases h
    exact .pop (Or.inl hpc)
  | waiting =>
    rw [hpc] at h
    cases h
    exact .pop (Or.inr hpc)
  | write msg =>
    rw [hpc] at h
    cases h
    exact .write msg hpc
  | testCompress =>
    rw [hpc] at h
    cases h
    exact .testCompress hpc
  | testLoop =>
    rw [hpc] at h
    cases h
    exact .testLoop hpc
  | exited =>
    rw [hpc] at h
    cases h

/-- **What a step does**, with its event. -/
theorem trans_of_step {s s' : Log Msg} {a : Action Msg} (hs : (system Msg).step s a = some s') :
    Trans s ((system Msg).event s a s') s' := by
  obtain ⟨⟨s₁, e⟩, hstep, rfl⟩ := Option.map_eq_some_iff.mp hs
  have hevent : (system Msg).event s a s₁ = e := by
    simp only [system, hstep, Option.map_some, Option.getD_some]
  rw [hevent]
  cases a with
  | call k msg =>
    simp only [Log.stepEvent] at hstep
    split at hstep
    · cases hstep
      exact .aside rfl rfl rfl rfl rfl
    · cases hstep
  | push k timedOut => exact trans_of_pushStep hstep
  | consume => exact trans_of_consumerStep hstep
  | stop =>
    obtain ⟨s₂, hs₂, heq⟩ := Option.map_eq_some_iff.mp hstep
    cases heq
    exact .stop hs₂

/-- `log_shutdown` leaves the ring and the consumer alone. -/
theorem frame_of_stopStep {s s' : Log Msg} (h : s.stopStep = some s') :
    s'.queue = s.queue ∧ s'.consumer = s.consumer ∧
      (s.shutdown = true → s'.shutdown = true) ∧ (s.running = false → s'.running = false) := by
  rw [Log.stopStep] at h
  cases hpc : s.stop with
  | idle | testShutdown =>
    rw [hpc] at h
    cases h
    exact ⟨rfl, rfl, id, id⟩
  | clearRunning =>
    rw [hpc] at h
    cases h
    exact ⟨rfl, rfl, id, fun _ => rfl⟩
  | destroy =>
    rw [hpc] at h
    cases h
    exact ⟨rfl, rfl, fun _ => rfl, id⟩
  | join =>
    rw [hpc] at h
    simp only at h
    split at h
    · cases h
      exact ⟨rfl, rfl, id, id⟩
    · cases h
  | returned =>
    rw [hpc] at h
    cases h

/-! ## Nothing is lost before the end -/

variable {s s' : Log Msg} {tr tr' : List (Event Msg)} {e : Event Msg}

/-- **The invariant.** What was accepted is written, at hand or in the ring. -/
structure Accounted (tr : List (Event Msg)) (s : Log Msg) : Prop where
  valid : s.queue.Valid logQueueSize
  all : written tr ++ s.consumer.hand ++ s.contents = accepted tr

theorem hand_of_popping (h : s.consumer = .pop ∨ s.consumer = .waiting) :
    s.consumer.hand = [] := by
  rcases h with h | h <;> rw [h] <;> rfl

/-- A pop moves the oldest message from the ring to the hand of the consumer. -/
theorem Accounted.pop (h : Accounted tr s) (hat : s.consumer = .pop ∨ s.consumer = .waiting) :
    Accounted (.other :: tr) s.popStep := by
  have hall := h.all
  rw [hand_of_popping hat, List.append_nil] at hall
  rw [Log.popStep]
  split
  · split
    · exact ⟨h.valid, by simpa [ConsumerPc.hand] using hall⟩
    · exact ⟨h.valid, by simpa [ConsumerPc.hand] using hall⟩
  · next hne =>
    refine ⟨h.valid.pop, ?_⟩
    rw [Log.contents, RingBuffer.contents_pop h.valid hne] at hall
    simpa [Log.contents, ConsumerPc.hand] using hall

theorem Accounted.trans (h : Accounted tr s) (ht : Trans s e s') : Accounted (e :: tr) s' := by
  have hall := h.all
  cases ht with
  | aside hqueue hconsumer hshutdown hrunning hstop =>
    refine ⟨hqueue ▸ h.valid, ?_⟩
    rw [hconsumer, Log.contents, hqueue, written_other, accepted_other]
    exact hall
  | accept msg hopen hfull hqueue hconsumer hshutdown hrunning hstop =>
    refine ⟨hqueue ▸ h.valid.push msg, ?_⟩
    rw [hconsumer, Log.contents, hqueue, RingBuffer.contents_push h.valid hfull, written_accept,
      accepted_accept, ← hall, Log.contents, List.append_assoc, List.append_assoc,
      List.append_assoc]
  | pop hat => exact h.pop hat
  | write msg hat =>
    refine ⟨h.valid, ?_⟩
    rw [hat] at hall
    simpa [ConsumerPc.hand] using hall
  | testCompress hat =>
    refine ⟨h.valid, ?_⟩
    rw [hat] at hall
    simpa [ConsumerPc.hand] using hall
  | testLoop hat =>
    refine ⟨h.valid, ?_⟩
    rw [hat] at hall
    cases hr : s.running <;>
      simpa [ConsumerPc.hand] using hall
  | stop hs =>
    obtain ⟨hqueue, hconsumer, -, -⟩ := frame_of_stopStep hs
    refine ⟨hqueue ▸ h.valid, ?_⟩
    rw [hconsumer, Log.contents, hqueue, written_other, accepted_other]
    exact hall

/-- **Runs keep the account.** -/
theorem accounted_of_run [Inhabited Msg] (h : Run tr s) : Accounted tr s :=
  h.invariant (I := Accounted) ⟨⟨Nat.zero_lt_succ 255, Nat.zero_lt_succ 255⟩, rfl⟩
    fun _ _ _ _ hI _ hs => hI.trans (trans_of_step hs)

/-! ## After the flag is cleared -/

/-- How many messages the consumer still takes out of the ring. -/
def ConsumerPc.allowance : ConsumerPc Msg → ℕ
  | .pop | .waiting => 1
  | _ => 0

/-- What is left of `n` messages, of which the consumer may take as many as allowed. If it leaves
without having done so, it has found the ring empty and shut down. -/
def Log.Left (s : Log Msg) (allow n : ℕ) : ConsumerPc Msg → Prop
  | .pop | .waiting => allow = 1 ∧ s.contents.length = n
  | .write _ | .testCompress | .testLoop => s.contents.length + allow = n
  | .exited => s.contents.length + allow = n ∨ s.contents = [] ∧ n = 0 ∧ s.shutdown = true

/-- `g_log_running` is cleared, and of `n` messages in the ring at that time or accepted since, some
are left. -/
structure Ending (allow n : ℕ) (s : Log Msg) : Prop where
  valid : s.queue.Valid logQueueSize
  cleared : s.running = false
  left : s.Left allow n s.consumer

theorem Log.Left.of_eq {allow n : ℕ} {pc : ConsumerPc Msg} (h : s.Left allow n pc)
    (hcontents : s'.contents = s.contents) (hshutdown : s.shutdown = true → s'.shutdown = true) :
    s'.Left allow n pc := by
  cases pc with
  | exited =>
    refine h.imp (fun hlen => hcontents ▸ hlen) ?_
    rintro ⟨hnil, hn, hdown⟩
    exact ⟨hcontents.trans hnil, hn, hshutdown hdown⟩
  | pop | waiting => exact ⟨h.1, hcontents ▸ h.2⟩
  | write | testCompress | testLoop =>
    change s'.contents.length + allow = n
    rw [hcontents]
    exact h

/-- A message more in the ring is a message more that may be left. -/
theorem Log.Left.accept {allow n : ℕ} {pc : ConsumerPc Msg} (h : s.Left allow n pc) (msg : Msg)
    (hopen : s.shutdown = false) (hcontents : s'.contents = s.contents ++ [msg]) :
    s'.Left allow (n + 1) pc := by
  have hlen : s'.contents.length = s.contents.length + 1 := by
    rw [hcontents, List.length_append, List.length_singleton]
  cases pc with
  | exited =>
    rcases h with h | ⟨-, -, hdown⟩
    · exact Or.inl (by omega)
    · exact absurd (hopen.symm.trans hdown) (by decide)
  | pop | waiting => exact ⟨h.1, by rw [hlen, h.2]⟩
  | write | testCompress | testLoop =>
    change s'.contents.length + allow = n + 1
    change s.contents.length + allow = n at h
    omega

/-- The consumer takes a message, or finds none. -/
theorem Ending.pop {allow n : ℕ} (h : Ending allow n s)
    (hat : s.consumer = .pop ∨ s.consumer = .waiting) : Ending allow n s.popStep := by
  obtain ⟨hallow, hlen⟩ : allow = 1 ∧ s.contents.length = n := by
    have hleft := h.left
    rcases hat with hat | hat <;> rw [hat] at hleft <;> exact hleft
  rw [Log.popStep]
  split
  · next heq =>
    have hnil : s.contents = [] := (RingBuffer.contents_eq_nil_iff h.valid).mpr heq
    split
    · next hdown =>
      refine ⟨h.valid, h.cleared, Or.inr ⟨hnil, ?_, hdown⟩⟩
      rw [← hlen, hnil, List.length_nil]
    · exact ⟨h.valid, h.cleared, hallow, hlen⟩
  · next hne =>
    refine ⟨h.valid.pop, h.cleared, ?_⟩
    rw [Log.contents, RingBuffer.contents_pop h.valid hne, List.length_cons] at hlen
    change ((s.queue.pop logQueueSize).contents logQueueSize).length + allow = n
    omega

/-- **After the flag is cleared**, the consumer takes no more than it is allowed. -/
theorem Ending.trans {allow n : ℕ} (h : Ending allow n s) (ht : Trans s e s') :
    Ending allow (n + (accepted [e]).length) s' := by
  cases ht with
  | aside hqueue hconsumer hshutdown hrunning hstop =>
    refine ⟨hqueue ▸ h.valid, hrunning ▸ h.cleared, ?_⟩
    rw [hconsumer]
    exact h.left.of_eq (by rw [Log.contents, hqueue, Log.contents]) fun hdown => hshutdown ▸ hdown
  | accept msg hopen hfull hqueue hconsumer hshutdown hrunning hstop =>
    refine ⟨hqueue ▸ h.valid.push msg, hrunning ▸ h.cleared, ?_⟩
    rw [hconsumer]
    refine h.left.accept msg hopen ?_
    rw [Log.contents, hqueue, RingBuffer.contents_push h.valid hfull, Log.contents]
  | pop hat => exact h.pop hat
  | write msg hat =>
    have hleft := h.left
    rw [hat] at hleft
    exact ⟨h.valid, h.cleared, hleft⟩
  | testCompress hat =>
    have hleft := h.left
    rw [hat] at hleft
    exact ⟨h.valid, h.cleared, hleft⟩
  | testLoop hat =>
    have hleft := h.left
    rw [hat] at hleft
    refine ⟨h.valid, h.cleared, ?_⟩
    simp only [h.cleared, Bool.false_eq_true, if_false]
    exact Or.inl hleft
  | stop hs =>
    obtain ⟨hqueue, hconsumer, hshutdown, hrunning⟩ := frame_of_stopStep hs
    refine ⟨hqueue ▸ h.valid, hrunning h.cleared, ?_⟩
    rw [hconsumer]
    exact h.left.of_eq (by rw [Log.contents, hqueue, Log.contents]) hshutdown

theorem accepted_append (tr tr' : List (Event Msg)) :
    accepted (tr' ++ tr) = accepted tr ++ accepted tr' := by
  simp [accepted]

theorem Ending.exec {allow n : ℕ} (h : Ending allow n s)
    (hrun : (system Msg).Exec (fun _ _ => True) s tr s') :
    Ending allow (n + (accepted tr).length) s' := by
  refine hrun.invariant (I := fun tr s' => Ending allow (n + (accepted tr).length) s') h ?_
  intro tr s a s' hI _ hs
  have hstep := hI.trans (trans_of_step hs)
  rw [← List.singleton_append, accepted_append, List.length_append, ← Nat.add_assoc]
  exact hstep

/-! ## The return of `log_shutdown` -/

/-- After it has gone past its test, `log_shutdown` returns only when the consumer has ended. -/
def Log.Joined (s : Log Msg) : Prop :=
  s.stop = .destroy ∨ s.stop = .join ∨ s.stop = .returned ∧ s.consumer = .exited

theorem Log.Joined.trans (h : s.Joined) (ht : Trans s e s') : s'.Joined := by
  have hkeep : s'.stop = s.stop → (s.consumer = .exited → s'.consumer = .exited) → s'.Joined := by
    intro hstop hconsumer
    rw [Log.Joined, hstop]
    exact h.imp_right (Or.imp_right fun hret => ⟨hret.1, hconsumer hret.2⟩)
  cases ht with
  | aside hqueue hconsumer hshutdown hrunning hstop => exact hkeep hstop fun hex => hconsumer ▸ hex
  | accept msg hopen hfull hqueue hconsumer hshutdown hrunning hstop =>
    exact hkeep hstop fun hex => hconsumer ▸ hex
  | pop hat =>
    refine hkeep ?_ fun hex => ?_
    · rw [Log.popStep]
      split
      · split <;> rfl
      · rfl
    · rw [hex] at hat
      rcases hat with hat | hat <;> cases hat
  | write msg hat | testCompress hat | testLoop hat =>
    refine hkeep rfl fun hex => ?_
    rw [hex] at hat
    cases hat
  | stop hs =>
    rw [Log.stopStep] at hs
    rcases h with h | h | ⟨h, -⟩
    · rw [h] at hs
      cases hs
      exact Or.inr (Or.inl rfl)
    · rw [h] at hs
      simp only at hs
      split at hs
      · next hex =>
        cases hs
        exact Or.inr (Or.inr ⟨rfl, hex⟩)
      · cases hs
    · rw [h] at hs
      cases hs

theorem ending_of_clear (hvalid : s.queue.Valid logQueueSize) (hne : s.consumer ≠ .exited) :
    Ending s.consumer.allowance s.contents.length
      { s with running := false, stop := ShutdownPc.destroy } := by
  refine ⟨hvalid, rfl, ?_⟩
  cases hpc : s.consumer with
  | pop | waiting => exact ⟨rfl, rfl⟩
  | write | testCompress | testLoop => exact Nat.add_zero _
  | exited => exact absurd hpc hne

/-- `log_shutdown` has not changed anything yet. -/
def ShutdownPc.early : ShutdownPc → Prop
  | .idle | .testShutdown | .clearRunning => True
  | _ => False

/-- As long as `log_shutdown` has not changed anything, the consumer is there. -/
def Log.Live (s : Log Msg) : Prop :=
  s.stop.early → s.running = true ∧ s.shutdown = false ∧ s.consumer ≠ .exited

theorem Log.Live.trans (h : s.Live) (ht : Trans s e s') : s'.Live := by
  intro hearly
  cases ht with
  | aside hqueue hconsumer hshutdown hrunning hstop =>
    rw [hrunning, hshutdown, hconsumer]
    exact h (hstop ▸ hearly)
  | accept msg hopen hfull hqueue hconsumer hshutdown hrunning hstop =>
    rw [hrunning, hshutdown, hconsumer]
    exact h (hstop ▸ hearly)
  | pop hat =>
    rw [Log.popStep] at hearly ⊢
    split at hearly
    · next hempty =>
      rw [if_pos hempty]
      split at hearly
      · next hdown =>
        obtain ⟨-, hopen, -⟩ := h hearly
        exact absurd (hopen.symm.trans hdown) (by decide)
      · next hopen =>
        rw [if_neg hopen]
        exact ⟨(h hearly).1, (h hearly).2.1, nofun⟩
    · next hne =>
      rw [if_neg hne]
      exact ⟨(h hearly).1, (h hearly).2.1, nofun⟩
  | write msg hat | testCompress hat => exact ⟨(h hearly).1, (h hearly).2.1, nofun⟩
  | testLoop hat =>
    obtain ⟨hrunning, hopen, -⟩ := h hearly
    refine ⟨hrunning, hopen, ?_⟩
    rw [hrunning]
    exact nofun
  | stop hs =>
    rw [Log.stopStep] at hs
    cases hpc : s.stop with
    | idle | testShutdown =>
      rw [hpc] at hs
      cases hs
      exact h (by rw [hpc]; trivial)
    | clearRunning | destroy =>
      rw [hpc] at hs
      cases hs
      exact hearly.elim
    | join =>
      rw [hpc] at hs
      simp only at hs
      split at hs
      · cases hs
        exact hearly.elim
      · cases hs
    | returned =>
      rw [hpc] at hs
      cases hs

theorem live_of_run [Inhabited Msg] (h : Run tr s) : s.Live :=
  h.invariant (I := fun _ s => s.Live) (fun _ => ⟨rfl, rfl, nofun⟩) fun _ _ _ _ hI _ hs =>
    hI.trans (trans_of_step hs)

/-- **Everything accepted is written exactly if the consumer may still take it.** Let `log_shutdown`
clear `g_log_running` in any run, and let it return some time later. Then the messages that were
accepted are written by then, each once and in their order, if and only if those in the ring at the
clearing and those accepted afterwards are together at most one, and none unless the consumer was in
`log_queue_pop`. -/
theorem shutdown_writes_all_iff [Inhabited Msg] (h : Run tr s) (hstop : s.stop = .clearRunning)
    (hrun : (system Msg).Exec (fun _ _ => True)
      { s with running := false, stop := ShutdownPc.destroy } tr' s')
    (hreturned : s'.stop = .returned) :
    written (tr' ++ .other :: tr) = accepted (tr' ++ .other :: tr) ↔
      s.contents.length + (accepted tr').length ≤ s.consumer.allowance := by
  have hs : (system Msg).step s .stop =
      some { s with running := false, stop := ShutdownPc.destroy } := by
    simp only [system, Log.stepEvent, Log.stopStep, hstop, Option.map_some]
  have hevent : (system Msg).event s .stop { s with running := false, stop := ShutdownPc.destroy } =
      .other := by
    simp only [system, Log.stepEvent, Log.stopStep, hstop, Option.map_some, Option.getD_some]
  have hclear := Lts.Exec.next h trivial hs
  rw [hevent] at hclear
  -- at the return the consumer has ended, and has nothing at hand
  have hexited : s'.consumer = .exited := by
    have hjoined : s'.Joined := hrun.invariant (I := fun _ s' => s'.Joined) (Or.inl rfl)
      fun _ _ _ _ hI _ hs => hI.trans (trans_of_step hs)
    rcases hjoined with hpc | hpc | ⟨-, hex⟩
    · exact absurd (hreturned.symm.trans hpc) nofun
    · exact absurd (hreturned.symm.trans hpc) nofun
    · exact hex
  have hall := (accounted_of_run (hclear.trans hrun)).all
  rw [hexited, show (ConsumerPc.exited : ConsumerPc Msg).hand = [] from rfl, List.append_nil]
    at hall
  have hlive := live_of_run h (by rw [hstop]; trivial)
  have hleft := ((ending_of_clear (accounted_of_run h).valid hlive.2.2).exec hrun).left
  rw [hexited] at hleft
  have hnil : written (tr' ++ .other :: tr) = accepted (tr' ++ .other :: tr) ↔
      s'.contents = [] := by
    rw [← hall]
    exact List.self_eq_append_right
  rw [hnil]
  rcases hleft with hlen | ⟨hempty, hnone, -⟩
  · rw [← List.length_eq_zero_iff]
    omega
  · exact iff_of_true hempty (by omega)

/-! ## Shutdowns with the consumer at its first message -/

/-- Messages are pushed, and `log_shutdown` comes to the clearing of the flag. -/
def upToClear (msgs : List ℕ) : List (Action ℕ) :=
  msgs.flatMap (fun msg => [.call 0 msg, .push 0 false]) ++ [.stop, .stop]

/-- The ring is told, the consumer takes and writes a message and leaves, and it is joined. -/
def upToReturn : List (Action ℕ) := [.stop, .consume, .consume, .consume, .consume, .stop]

/-- The run of a list of actions on which it does not get stuck. -/
def ran (s : Log ℕ) (as : List (Action ℕ))
    (h : ((system ℕ).run (fun _ _ => true) s [] as).isSome = true) : List (Event ℕ) × Log ℕ :=
  ((system ℕ).run (fun _ _ => true) s [] as).get h

theorem exec_ran (s : Log ℕ) (as : List (Action ℕ))
    (h : ((system ℕ).run (fun _ _ => true) s [] as).isSome = true) :
    (system ℕ).Exec (fun _ _ => True) s (ran s as h).1 (ran s as h).2 :=
  Lts.exec_of_run (fun _ _ _ => trivial) .start (Option.some_get h).symm

/-- One message, which the consumer takes. -/
theorem shutdown_writes_all_iff_one : ∃ (tr tr' : List (Event ℕ)) (s s' : Log ℕ), Run tr s ∧
    s.stop = .clearRunning ∧ (system ℕ).Exec (fun _ _ => True)
      { s with running := false, stop := ShutdownPc.destroy } tr' s' ∧
    s'.stop = .returned ∧ accepted (tr' ++ .other :: tr) = [7] ∧
    written (tr' ++ .other :: tr) = accepted (tr' ++ .other :: tr) := by
  have hrun := exec_ran logInit (upToClear [7]) (by decide +kernel)
  have hrun' := exec_ran { (ran logInit (upToClear [7]) (by decide +kernel)).2 with
    running := false, stop := ShutdownPc.destroy } upToReturn (by decide +kernel)
  refine ⟨_, _, _, _, hrun, by decide +kernel, hrun', by decide +kernel, by decide +kernel, ?_⟩
  exact (shutdown_writes_all_iff hrun (by decide +kernel) hrun' (by decide +kernel)).mpr
    (by decide +kernel)

/-- **A message is lost.** Two messages are in the ring when the flag is cleared; the consumer
writes one of them and leaves. -/
theorem shutdown_loses_message : ∃ (tr : List (Event ℕ)) (s : Log ℕ), Run tr s ∧
    s.stop = .returned ∧ accepted tr = [1, 2] ∧ written tr = [1] :=
  ⟨_, _, exec_ran logInit (upToClear [1, 2] ++ .stop :: upToReturn) (by decide +kernel),
    by decide +kernel, by decide +kernel, by decide +kernel⟩

end YellowZone.EnpuLog
