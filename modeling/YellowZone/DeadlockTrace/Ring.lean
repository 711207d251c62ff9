import YellowZone.DeadlockTrace.Layout
import YellowZone.Machine.Execution
import YellowZone.Machine.SharedMemory

/-!
# The trace ring

`vcann_trace_record_enabled` of `deadlock_trace.c`: any number of threads write records into a ring
of 4096 slots. A thread draws a sequence first, with no lock, and so a thread that is delayed may
come to its slot a whole lap late. What it does there is under the lock of the slot: it gives up if
a newer record is committed, and else withdraws the old record, stores the fields one by one and
commits.

Every access of shared memory is one step. The arguments of a call are arbitrary, and so is the
time that a thread reads. A run can be looked at after each of its steps.

## The argument

What the threads do is observed in three events: a sequence is drawn, the time is read for it, and
it is committed. `Drawn`, `Locked` and `Stamped` say that sequences are drawn once, by the thread
that uses them, that a slot is locked by one thread, and that a sequence has one time and is
committed once.

## Main definitions and results

* `recordEnabled`, `ringSystem` — the code, and the threads that run it
* `RingStep`, `ringStep_of_step` — what a step does
* `Drawn`, `Locked`, `Stamped` — the invariants, each with the steps that keep it
-/

namespace YellowZone.DeadlockTrace

open Machine

/-! ## The code -/

/-- The arguments of `vcann_trace_record_enabled`. -/
structure RecordArgs where
  kind : UInt32
  stream : UInt64
  object : UInt64
  auxiliary : UInt64
  value : UInt64
  blocks : UInt32
  argsSize : UInt32
  deriving DecidableEq

/-- The fields of a record, apart from its sequence. -/
inductive RecordField where
  | timestampNs
  | stream
  | object
  | auxiliary
  | value
  | kind
  | blocks
  | argsSize
  | tid
  deriving DecidableEq

/-- The type of a field. -/
abbrev RecordField.Val : RecordField → Type
  | .timestampNs | .stream | .object | .auxiliary | .value => UInt64
  | .kind | .blocks | .argsSize | .tid => UInt32

/-- The fields in the order in which they are stored. -/
def storedFields : List RecordField :=
  [.timestampNs, .stream, .object, .auxiliary, .value, .kind, .blocks, .argsSize, .tid]

/-- What is stored in a field. -/
def payload (args : RecordArgs) (timestampNs : UInt64) (tid : UInt32) : (f : RecordField) → f.Val
  | .timestampNs => timestampNs
  | .stream => args.stream
  | .object => args.object
  | .auxiliary => args.auxiliary
  | .value => args.value
  | .kind => args.kind
  | .blocks => args.blocks
  | .argsSize => args.argsSize
  | .tid => tid

/-- The words of `g_vcann_trace` that the threads use. -/
inductive RingLoc where
  | nextSequence
  | slotLock (slot : Fin 4096)
  | committedSequence (slot : Fin 4096)
  | field (slot : Fin 4096) (f : RecordField)
  deriving DecidableEq

/-- What they hold. A lock is taken or not; sequences are numbers, as there are fewer than `2 ^ 64`
records. -/
abbrev RingVal : RingLoc → Type
  | .nextSequence | .committedSequence _ => ℕ
  | .slotLock _ => Bool
  | .field _ f => f.Val

/-- The slot of a sequence. -/
def ringSlot (sequence : ℕ) : Fin 4096 := Fin.ofNat 4096 (sequence - 1)

/-- Program points of `vcann_trace_record_enabled`. -/
inductive RecordPc where
  | draw (args : RecordArgs)
  | lock (args : RecordArgs) (sequence : ℕ)
  | check (args : RecordArgs) (sequence : ℕ)
  | withdraw (args : RecordArgs) (sequence : ℕ)
  | clock (args : RecordArgs) (sequence : ℕ)
  /-- The fields that are still to be stored. The time is stored first, and then only remembered
  here. -/
  | store (args : RecordArgs) (sequence : ℕ) (timestampNs : UInt64) (fields : List RecordField)
  | unlock (sequence : ℕ)
  deriving DecidableEq

/-- `vcann_trace_record_enabled`. -/
def recordEnabled (tid : UInt32) : RecordPc → Cmd RingVal (Ctl RecordPc Unit)
  | .draw args => .rmw .nextSequence (· + 1) fun n => .goto (.lock args (n + 1))
  | .lock args sequence => .rmw (.slotLock (ringSlot sequence)) (fun _ => true) fun taken =>
      .goto (if taken then .lock args sequence else .check args sequence)
  | .check args sequence => .load (.committedSequence (ringSlot sequence)) fun committed =>
      -- a delayed writer must not overwrite a newer generation of this slot
      .goto (if committed > sequence then .unlock sequence else .withdraw args sequence)
  | .withdraw args sequence =>
      .store (.committedSequence (ringSlot sequence)) 0 (.goto (.clock args sequence))
  | .clock args sequence => .clock fun now =>
      .goto (.store args sequence (UInt64.ofNat now) storedFields)
  | .store args sequence timestampNs (f :: fields) =>
      .store (.field (ringSlot sequence) f) (payload args timestampNs tid f)
        (.goto (.store args sequence timestampNs fields))
  | .store _ sequence _ [] =>
      .store (.committedSequence (ringSlot sequence)) sequence (.goto (.unlock sequence))
  | .unlock sequence => .store (.slotLock (ringSlot sequence)) false (.ret ())

/-! ## Any number of threads -/

/-- A thread that is not in a call has no program point. -/
structure RingState where
  mem : Mem RingVal
  thread : ℕ → Option RecordPc

/-- The ring after `vcann_trace_init`. -/
def ringStart : RingState where
  mem
    | .nextSequence => 0
    | .slotLock _ => false
    | .committedSequence _ => 0
    | .field _ .timestampNs | .field _ .stream | .field _ .object | .field _ .auxiliary
    | .field _ .value => (0 : UInt64)
    | .field _ .kind | .field _ .blocks | .field _ .argsSize | .field _ .tid => (0 : UInt32)
  thread _ := none

/-- A thread calls the function, or takes a step in it, at a given time. -/
inductive RingAction where
  | call (thread : ℕ) (args : RecordArgs)
  | run (thread : ℕ) (now : ℕ)

/-- What is observed. -/
inductive RingEvent where
  /-- The thread has drawn the sequence, in a call with these arguments. -/
  | draw (sequence : ℕ) (thread : ℕ) (args : RecordArgs)
  /-- The time has been read for the record of the sequence. -/
  | stamp (sequence : ℕ) (timestampNs : UInt64)
  /-- The sequence has been stored in `committed_sequence`. -/
  | commit (sequence : ℕ)
  deriving DecidableEq

/-- The event of a step of a thread. -/
def recordEvent (m : Mem RingVal) (thread now : ℕ) : RecordPc → Option RingEvent
  | .draw args => some (.draw (m .nextSequence + 1) thread args)
  | .clock _ sequence => some (.stamp sequence (UInt64.ofNat now))
  | .store _ sequence _ [] => some (.commit sequence)
  | _ => none

/-- The threads with the ring. Each thread has its own `tid`. -/
def ringSystem (tid : ℕ → UInt32) : Lts RingState RingAction (Option RingEvent) where
  step s
    | .call t args =>
      match s.thread t with
      | none => some { s with thread := Function.update s.thread t (some (.draw args)) }
      | some _ => none
    | .run t now => do
      let pc ← s.thread t
      let (m, next) ← (recordEnabled (tid t) pc).exec s.mem now false
      return ⟨m, Function.update s.thread t (next.elim some fun _ => none)⟩
  event s a _ :=
    match a with
    | .call _ _ => none
    | .run t now => (s.thread t).bind (recordEvent s.mem t now)

/-- The thread goes on at `pc`, and the memory is `m`. -/
def RingState.goto (s : RingState) (m : Mem RingVal) (t : ℕ) (pc : Option RecordPc) : RingState :=
  ⟨m, Function.update s.thread t pc⟩

/-- What a step does. -/
inductive RingStep (tid : ℕ → UInt32) (s : RingState) : Option RingEvent → RingState → Prop
  | call {t : ℕ} (args : RecordArgs) (h : s.thread t = none) :
      RingStep tid s none (s.goto s.mem t (some (.draw args)))
  | draw {t : ℕ} {args : RecordArgs} (h : s.thread t = some (.draw args)) :
      RingStep tid s (some (.draw (s.mem .nextSequence + 1) t args))
        (s.goto (s.mem.set .nextSequence (s.mem .nextSequence + 1)) t
          (some (.lock args (s.mem .nextSequence + 1))))
  /-- The lock is taken, and nothing changes. -/
  | spin {t : ℕ} {args : RecordArgs} {q : ℕ} (h : s.thread t = some (.lock args q)) :
      RingStep tid s none (s.goto s.mem t (some (.lock args q)))
  | lock {t : ℕ} {args : RecordArgs} {q : ℕ} (h : s.thread t = some (.lock args q))
      (hfree : s.mem (.slotLock (ringSlot q)) = false) :
      RingStep tid s none (s.goto (s.mem.set (.slotLock (ringSlot q)) true) t
        (some (.check args q)))
  | stale {t : ℕ} {args : RecordArgs} {q : ℕ} (h : s.thread t = some (.check args q)) :
      RingStep tid s none (s.goto s.mem t (some (.unlock q)))
  | check {t : ℕ} {args : RecordArgs} {q : ℕ} (h : s.thread t = some (.check args q))
      (hle : s.mem (.committedSequence (ringSlot q)) ≤ q) :
      RingStep tid s none (s.goto s.mem t (some (.withdraw args q)))
  | withdraw {t : ℕ} {args : RecordArgs} {q : ℕ} (h : s.thread t = some (.withdraw args q)) :
      RingStep tid s none (s.goto (s.mem.set (.committedSequence (ringSlot q)) 0) t
        (some (.clock args q)))
  | clock {t : ℕ} {args : RecordArgs} {q : ℕ} (ns : UInt64)
      (h : s.thread t = some (.clock args q)) :
      RingStep tid s (some (.stamp q ns)) (s.goto s.mem t (some (.store args q ns storedFields)))
  | store {t : ℕ} {args : RecordArgs} {q : ℕ} {ns : UInt64} {f : RecordField}
      {fields : List RecordField} (h : s.thread t = some (.store args q ns (f :: fields))) :
      RingStep tid s none (s.goto (s.mem.set (.field (ringSlot q) f) (payload args ns (tid t) f)) t
        (some (.store args q ns fields)))
  | commit {t : ℕ} {args : RecordArgs} {q : ℕ} {ns : UInt64}
      (h : s.thread t = some (.store args q ns [])) :
      RingStep tid s (some (.commit q)) (s.goto (s.mem.set (.committedSequence (ringSlot q)) q) t
        (some (.unlock q)))
  | unlock {t : ℕ} {q : ℕ} (h : s.thread t = some (.unlock q)) :
      RingStep tid s none (s.goto (s.mem.set (.slotLock (ringSlot q)) false) t none)

variable {tid : ℕ → UInt32} {s s' : RingState} {tr : List (Option RingEvent)}

/-- **The steps of the system.** -/
theorem ringStep_of_step {a : RingAction} (h : (ringSystem tid).step s a = some s') :
    RingStep tid s ((ringSystem tid).event s a s') s' := by
  cases a with
  | call t args =>
    cases ht : s.thread t with
    | some pc => simp [ringSystem, ht] at h
    | none =>
      simp only [ringSystem, ht, Option.some.injEq] at h
      subst h
      exact .call args ht
  | run t now =>
    cases ht : s.thread t with
    | none => simp [ringSystem, ht] at h
    | some pc =>
      have hs : ((recordEnabled (tid t) pc).exec s.mem now false).map
          (fun r => s.goto r.1 t (r.2.elim some fun _ => none)) = some s' := by
        rw [← h]
        simp only [ringSystem, ht]
        exact Option.map_eq_bind
      have hev : (ringSystem tid).event s (.run t now) s' = recordEvent s.mem t now pc := by
        simp [ringSystem, ht]
      rw [hev]
      cases pc with
      | draw args =>
        obtain rfl := Option.some.inj hs
        exact .draw ht
      | lock args q =>
        obtain rfl := Option.some.inj hs
        cases hlock : s.mem (.slotLock (ringSlot q)) with
        | false => exact .lock ht hlock
        | true =>
          have hsame : s.mem.set (.slotLock (ringSlot q)) true = s.mem := by
            rw [← hlock, Mem.set_get]
          simp only [hsame]
          exact .spin ht
      | check args q =>
        obtain rfl := Option.some.inj hs
        by_cases hgt : s.mem (.committedSequence (ringSlot q)) > q
        · simp only [if_pos hgt, Ctl.elim_goto]
          exact .stale ht
        · simp only [if_neg hgt, Ctl.elim_goto]
          exact .check ht (Nat.le_of_not_gt hgt)
      | withdraw args q =>
        obtain rfl := Option.some.inj hs
        exact .withdraw ht
      | clock args q =>
        obtain rfl := Option.some.inj hs
        exact .clock _ ht
      | store args q ns fields =>
        cases fields with
        | nil =>
          obtain rfl := Option.some.inj hs
          exact .commit ht
        | cons f fields =>
          obtain rfl := Option.some.inj hs
          exact .store ht
      | unlock q =>
        obtain rfl := Option.some.inj hs
        exact .unlock ht

/-! ## What a thread has -/

namespace RecordPc

/-- The sequence that the thread has drawn and not committed yet, with its arguments. -/
def drew : RecordPc → Option (RecordArgs × ℕ)
  | .lock args q | .check args q | .withdraw args q | .clock args q | .store args q _ _ =>
    some (args, q)
  | .draw _ | .unlock _ => none

/-- The slot that the thread has locked. -/
def holds : RecordPc → Option (Fin 4096)
  | .check _ q | .withdraw _ q | .clock _ q | .store _ q _ _ | .unlock q => some (ringSlot q)
  | .draw _ | .lock _ _ => none

/-- The sequence for which the thread has not read the time yet. -/
def unstamped : RecordPc → Option ℕ
  | .lock _ q | .check _ q | .withdraw _ q | .clock _ q => some q
  | .draw _ | .store _ _ _ _ | .unlock _ => none

/-- The sequence whose record is being written. -/
def writes : RecordPc → Option ℕ
  | .clock _ q | .store _ q _ _ => some q
  | .draw _ | .lock _ _ | .check _ _ | .withdraw _ _ | .unlock _ => none

theorem holds_of_writes {pc : RecordPc} {q : ℕ} (h : pc.writes = some q) :
    pc.holds = some (ringSlot q) := by
  cases pc <;> simp_all [writes, holds]

theorem drew_of_writes {pc : RecordPc} {q : ℕ} (h : pc.writes = some q) :
    ∃ args, pc.drew = some (args, q) := by
  cases pc <;> simp_all [writes, drew]

theorem drew_of_unstamped {pc : RecordPc} {q : ℕ} (h : pc.unstamped = some q) :
    ∃ args, pc.drew = some (args, q) := by
  cases pc <;> simp_all [unstamped, drew]

end RecordPc

@[simp] theorem mem_goto (m : Mem RingVal) (t : ℕ) (next : Option RecordPc) :
    (s.goto m t next).mem = m := rfl

/-- A thread after a step of thread `t`. -/
theorem thread_goto {m : Mem RingVal} {t u : ℕ} {next : Option RecordPc} {pc : RecordPc}
    (h : (s.goto m t next).thread u = some pc) :
    u = t ∧ next = some pc ∨ u ≠ t ∧ s.thread u = some pc := by
  by_cases hu : u = t
  · subst hu
    have hself : (s.goto m u next).thread u = next := by simp [RingState.goto]
    exact Or.inl ⟨rfl, hself.symm.trans h⟩
  · have hother : (s.goto m t next).thread u = s.thread u := by simp [RingState.goto, hu]
    exact Or.inr ⟨hu, hother.symm.trans h⟩

/-! ## Sequences are drawn once -/

/-- The sequences that have been drawn. -/
structure Drawn (tr : List (Option RingEvent)) (s : RingState) : Prop where
  bound : ∀ {q t : ℕ} {args : RecordArgs}, some (.draw q t args) ∈ tr →
    1 ≤ q ∧ q ≤ s.mem .nextSequence
  unique : ∀ {q t t' : ℕ} {args args' : RecordArgs}, some (.draw q t args) ∈ tr →
    some (.draw q t' args') ∈ tr → t = t' ∧ args = args'
  drew : ∀ {t q : ℕ} {pc : RecordPc} {args : RecordArgs}, s.thread t = some pc →
    pc.drew = some (args, q) → some (.draw q t args) ∈ tr

namespace Drawn

/-- Two threads have drawn different sequences. -/
theorem other (h : Drawn tr s) {t u : ℕ} {pc pc' : RecordPc} {args args' : RecordArgs} {q : ℕ}
    (ht : s.thread t = some pc) (hu : s.thread u = some pc') (hq : pc.drew = some (args, q))
    (hq' : pc'.drew = some (args', q)) : t = u :=
  (h.unique (h.drew ht hq) (h.drew hu hq')).1

/-- A step that draws nothing. -/
theorem goto (h : Drawn tr s) {ev : Option RingEvent} {m : Mem RingVal} {t : ℕ}
    {next : Option RecordPc} (hm : m .nextSequence = s.mem .nextSequence)
    (hev : ∀ q t args, ev ≠ some (.draw q t args))
    (hnext : ∀ pc args q, next = some pc → pc.drew = some (args, q) →
      some (.draw q t args) ∈ tr) : Drawn (ev :: tr) (s.goto m t next) := by
  have hold : ∀ {q u : ℕ} {args : RecordArgs}, some (.draw q u args) ∈ ev :: tr →
      some (.draw q u args) ∈ tr := by
    intro q u args hmem
    exact (List.mem_cons.mp hmem).resolve_left fun he => hev _ _ _ he.symm
  refine ⟨?_, ?_, ?_⟩
  · intro q u args hmem
    show 1 ≤ q ∧ q ≤ m .nextSequence
    rw [hm]
    exact h.bound (hold hmem)
  · intro q u u' args args' hmem hmem'
    exact h.unique (hold hmem) (hold hmem')
  · intro u q pc args hu hq
    rcases thread_goto hu with ⟨rfl, hpc⟩ | ⟨-, hu⟩
    · exact List.mem_cons_of_mem _ (hnext pc args q hpc hq)
    · exact List.mem_cons_of_mem _ (h.drew hu hq)

/-- A sequence is drawn. -/
theorem draw (h : Drawn tr s) {t : ℕ} {args : RecordArgs} :
    Drawn (some (.draw (s.mem .nextSequence + 1) t args) :: tr)
      (s.goto (s.mem.set .nextSequence (s.mem .nextSequence + 1)) t
        (some (.lock args (s.mem .nextSequence + 1)))) := by
  have hnew : ∀ {u : ℕ} {args' : RecordArgs},
      some (.draw (s.mem .nextSequence + 1) u args') ∉ tr := by
    intro u args' hmem
    exact Nat.not_succ_le_self _ (h.bound hmem).2
  refine ⟨?_, ?_, ?_⟩
  · intro q u args' hmem
    show 1 ≤ q ∧ q ≤ s.mem.set .nextSequence (s.mem .nextSequence + 1) .nextSequence
    rw [Mem.set_self]
    rcases List.mem_cons.mp hmem with heq | hmem
    · injection heq with heq
      injection heq with hq
      exact ⟨hq ▸ Nat.succ_pos _, Nat.le_of_eq hq⟩
    · obtain ⟨hpos, hle⟩ := h.bound hmem
      exact ⟨hpos, Nat.le_succ_of_le hle⟩
  · intro q u u' args₁ args₂ hmem hmem'
    rcases List.mem_cons.mp hmem with heq | hmem <;> rcases List.mem_cons.mp hmem' with heq' | hmem'
    · injection heq.trans heq'.symm with heq
      injection heq with _ hu hargs
      exact ⟨hu, hargs⟩
    · injection heq with heq
      injection heq with hq
      exact (hnew (hq ▸ hmem')).elim
    · injection heq' with heq'
      injection heq' with hq
      exact (hnew (hq ▸ hmem)).elim
    · exact h.unique hmem hmem'
  · intro u pc args' q hu hq
    rcases thread_goto hu with ⟨rfl, hpc⟩ | ⟨-, hu⟩
    · cases hpc
      cases hq
      exact List.mem_cons_self
    · exact List.mem_cons_of_mem _ (h.drew hu hq)

/-- Every step keeps it. -/
theorem step {ev : Option RingEvent} (h : Drawn tr s) (hs : RingStep tid s ev s') :
    Drawn (ev :: tr) s' := by
  cases hs with
  | call args ht => exact h.goto rfl nofun fun pc _ _ hpc hq => by cases hpc; cases hq
  | draw ht => exact h.draw
  | stale ht => exact h.goto rfl nofun fun pc _ _ hpc hq => by cases hpc; cases hq
  | unlock ht => exact h.goto (by simp) nofun fun pc _ _ hpc hq => by cases hpc
  | commit ht => exact h.goto (by simp) nofun fun pc _ _ hpc hq => by cases hpc; cases hq
  | spin ht | lock ht | check ht | withdraw ht | clock _ ht | store ht =>
    exact h.goto (by simp) nofun fun pc _ _ hpc hq => by cases hpc; cases hq; exact h.drew ht rfl

end Drawn

/-! ## A slot is locked by one thread -/

/-- The locks. -/
structure Locked (s : RingState) : Prop where
  taken : ∀ {t pc k}, s.thread t = some pc → pc.holds = some k → s.mem (.slotLock k) = true
  unique : ∀ {t t' pc pc' k}, s.thread t = some pc → s.thread t' = some pc' →
    pc.holds = some k → pc'.holds = some k → t = t'

namespace Locked

theorem slot_ne (h : Locked s) {t u : ℕ} {pc pc' : RecordPc} {k k' : Fin 4096}
    (ht : s.thread t = some pc) (hu : s.thread u = some pc') (hne : u ≠ t)
    (hk : pc.holds = some k) (hk' : pc'.holds = some k') : k' ≠ k := by
  rintro rfl
  exact hne (h.unique hu ht hk' hk)

/-- A step that takes no lock. -/
theorem goto (h : Locked s) {m : Mem RingVal} {t : ℕ} {next : Option RecordPc}
    (hm : ∀ k, m (.slotLock k) = s.mem (.slotLock k))
    (hnext : ∀ pc k, next = some pc → pc.holds = some k →
      ∃ old, s.thread t = some old ∧ old.holds = some k) : Locked (s.goto m t next) := by
  have hold : ∀ {u pc k}, (s.goto m t next).thread u = some pc → pc.holds = some k →
      ∃ old, s.thread u = some old ∧ old.holds = some k := by
    intro u pc k hu hk
    rcases thread_goto hu with ⟨rfl, hpc⟩ | ⟨-, hu⟩
    · exact hnext pc k hpc hk
    · exact ⟨pc, hu, hk⟩
  refine ⟨?_, ?_⟩
  · intro u pc k hu hk
    obtain ⟨old, hold, hkold⟩ := hold hu hk
    exact (hm k).trans (h.taken hold hkold)
  · intro u u' pc pc' k hu hu' hk hk'
    obtain ⟨old, hold₁, hkold⟩ := hold hu hk
    obtain ⟨old', hold', hkold'⟩ := hold hu' hk'
    exact h.unique hold₁ hold' hkold hkold'

/-- A free lock is taken. -/
theorem lock (h : Locked s) {t q : ℕ} {args : RecordArgs}
    (hfree : s.mem (.slotLock (ringSlot q)) = false) :
    Locked (s.goto (s.mem.set (.slotLock (ringSlot q)) true) t (some (.check args q))) := by
  have hother : ∀ {u pc k}, s.thread u = some pc → pc.holds = some k → k ≠ ringSlot q := by
    rintro u pc k hu hk rfl
    exact Bool.false_ne_true (hfree.symm.trans (h.taken hu hk))
  refine ⟨?_, ?_⟩
  · intro u pc k hu hk
    show s.mem.set (.slotLock (ringSlot q)) true (.slotLock k) = true
    rcases thread_goto hu with ⟨rfl, hpc⟩ | ⟨-, hu⟩
    · cases hpc
      cases hk
      exact Mem.set_self _ _ _
    · rw [Mem.set_of_ne _ _ (by simpa using hother hu hk)]
      exact h.taken hu hk
  · intro u u' pc pc' k hu hu' hk hk'
    rcases thread_goto hu with ⟨hut, hpc⟩ | ⟨-, hold⟩ <;>
      rcases thread_goto hu' with ⟨hut', hpc'⟩ | ⟨-, hold'⟩
    · exact hut.trans hut'.symm
    · cases hpc
      cases hk
      exact (hother hold' hk' rfl).elim
    · cases hpc'
      cases hk'
      exact (hother hold hk rfl).elim
    · exact h.unique hold hold' hk hk'

/-- A lock is released. -/
theorem unlock (h : Locked s) {t q : ℕ} (ht : s.thread t = some (.unlock q)) :
    Locked (s.goto (s.mem.set (.slotLock (ringSlot q)) false) t none) := by
  have hold : ∀ {u pc}, (s.goto (s.mem.set (.slotLock (ringSlot q)) false) t none).thread u
      = some pc → u ≠ t ∧ s.thread u = some pc := by
    intro u pc hu
    rcases thread_goto hu with ⟨-, hpc⟩ | hu
    · cases hpc
    · exact hu
  refine ⟨?_, ?_⟩
  · intro u pc k hu hk
    obtain ⟨hne, hu⟩ := hold hu
    have hslot := h.slot_ne ht hu hne rfl hk
    show s.mem.set (.slotLock (ringSlot q)) false (.slotLock k) = true
    rw [Mem.set_of_ne _ _ (by simpa using hslot)]
    exact h.taken hu hk
  · intro u u' pc pc' k hu hu' hk hk'
    exact h.unique (hold hu).2 (hold hu').2 hk hk'

/-- Every step keeps it. -/
theorem step {ev : Option RingEvent} (h : Locked s) (hs : RingStep tid s ev s') : Locked s' := by
  cases hs with
  | call args ht => exact h.goto (fun _ => rfl) fun pc _ hpc hk => by cases hpc; cases hk
  | draw ht => exact h.goto (fun _ => by simp) fun pc _ hpc hk => by cases hpc; cases hk
  | spin ht => exact h.goto (fun _ => rfl) fun pc _ hpc hk => by cases hpc; cases hk
  | lock ht hfree => exact h.lock hfree
  | unlock ht => exact h.unlock ht
  | stale ht | check ht | withdraw ht | clock _ ht | store ht | commit ht =>
    exact h.goto (fun _ => by simp) fun pc _ hpc hk => by cases hpc; exact ⟨_, ht, hk⟩

end Locked

/-! ## A sequence is stamped and committed once -/

/-- The times and the commits. -/
structure Stamped (tr : List (Option RingEvent)) (s : RingState) : Prop where
  pending : ∀ {t q : ℕ} {pc : RecordPc} {args : RecordArgs}, s.thread t = some pc →
    pc.drew = some (args, q) → some (.commit q) ∉ tr
  unstamped : ∀ {t q : ℕ} {pc : RecordPc}, s.thread t = some pc → pc.unstamped = some q →
    ∀ ns, some (.stamp q ns) ∉ tr
  stamped : ∀ {t q : ℕ} {args : RecordArgs} {ns : UInt64} {fields : List RecordField},
    s.thread t = some (.store args q ns fields) → some (.stamp q ns) ∈ tr
  unique : ∀ {q : ℕ} {ns ns' : UInt64}, some (.stamp q ns) ∈ tr → some (.stamp q ns') ∈ tr →
    ns = ns'
  drawn : ∀ {q : ℕ} {ns : UInt64}, some (.stamp q ns) ∈ tr → ∃ t args, some (.draw q t args) ∈ tr
  committed : ∀ {q : ℕ}, some (.commit q) ∈ tr → ∃ ns, some (.stamp q ns) ∈ tr

namespace Stamped

/-- A step without a time and a commit. -/
theorem goto (h : Stamped tr s) {ev : Option RingEvent} {m : Mem RingVal} {t : ℕ}
    {next : Option RecordPc} (hstamp : ∀ q ns, ev ≠ some (.stamp q ns))
    (hcommit : ∀ q, ev ≠ some (.commit q))
    (hdrew : ∀ pc args q, next = some pc → pc.drew = some (args, q) → some (.commit q) ∉ tr)
    (hunstamped : ∀ pc q, next = some pc → pc.unstamped = some q → ∀ ns, some (.stamp q ns) ∉ tr)
    (hstamped : ∀ args q ns fields, next = some (.store args q ns fields) →
      some (.stamp q ns) ∈ tr) : Stamped (ev :: tr) (s.goto m t next) := by
  have hstamp' : ∀ {q : ℕ} {ns : UInt64}, some (.stamp q ns) ∈ ev :: tr ↔
      some (.stamp q ns) ∈ tr := by
    intro q ns
    exact List.mem_cons.trans (or_iff_right fun he => hstamp _ _ he.symm)
  have hcommit' : ∀ {q : ℕ}, some (.commit q) ∈ ev :: tr ↔ some (.commit q) ∈ tr := by
    intro q
    exact List.mem_cons.trans (or_iff_right fun he => hcommit _ he.symm)
  refine ⟨?_, ?_, ?_, ?_, ?_, ?_⟩
  · intro u q pc args hu hq
    rw [hcommit']
    rcases thread_goto hu with ⟨-, hpc⟩ | ⟨-, hu⟩
    · exact hdrew pc args q hpc hq
    · exact h.pending hu hq
  · intro u q pc hu hq ns
    rw [hstamp']
    rcases thread_goto hu with ⟨-, hpc⟩ | ⟨-, hu⟩
    · exact hunstamped pc q hpc hq ns
    · exact h.unstamped hu hq ns
  · intro u q args ns fields hu
    rw [hstamp']
    rcases thread_goto hu with ⟨-, hpc⟩ | ⟨-, hu⟩
    · exact hstamped args q ns fields hpc
    · exact h.stamped hu
  · intro q ns ns' hmem hmem'
    exact h.unique (hstamp'.mp hmem) (hstamp'.mp hmem')
  · intro q ns hmem
    obtain ⟨u, args, hdraw⟩ := h.drawn (hstamp'.mp hmem)
    exact ⟨u, args, List.mem_cons_of_mem _ hdraw⟩
  · intro q hmem
    obtain ⟨ns, hns⟩ := h.committed (hcommit'.mp hmem)
    exact ⟨ns, List.mem_cons_of_mem _ hns⟩

/-- The time is read. -/
theorem clock (h : Stamped tr s) (hd : Drawn tr s) {t q : ℕ} {args : RecordArgs} (ns : UInt64)
    (ht : s.thread t = some (.clock args q)) : Stamped (some (.stamp q ns) :: tr)
      (s.goto s.mem t (some (.store args q ns storedFields))) := by
  have hfirst : ∀ ns', some (.stamp q ns') ∉ tr := h.unstamped ht rfl
  have hcommit' : ∀ {p : ℕ}, some (.commit p) ∈ some (.stamp q ns) :: tr ↔
      some (.commit p) ∈ tr := by simp
  refine ⟨?_, ?_, ?_, ?_, ?_, ?_⟩
  · intro u p pc args' hu hp
    rw [hcommit']
    rcases thread_goto hu with ⟨-, hpc⟩ | ⟨-, hu⟩
    · cases hpc
      cases hp
      exact h.pending ht rfl
    · exact h.pending hu hp
  · intro u p pc hu hp ns'
    rcases thread_goto hu with ⟨-, hpc⟩ | ⟨hne, hu⟩
    · cases hpc
      cases hp
    · rintro hmem
      rcases List.mem_cons.mp hmem with heq | hmem
      · injection heq with heq
        injection heq with hpq
        obtain ⟨args', hdrew⟩ := RecordPc.drew_of_unstamped hp
        exact hne (hd.other hu ht (hpq ▸ hdrew) rfl)
      · exact h.unstamped hu hp ns' hmem
  · intro u p args' ns' fields hu
    rcases thread_goto hu with ⟨-, hpc⟩ | ⟨-, hu⟩
    · cases hpc
      exact List.mem_cons_self
    · exact List.mem_cons_of_mem _ (h.stamped hu)
  · intro p ns₁ ns₂ hmem hmem'
    rcases List.mem_cons.mp hmem with heq | hmem <;>
      rcases List.mem_cons.mp hmem' with heq' | hmem'
    · injection heq.trans heq'.symm with heq
      injection heq
    · injection heq with heq
      injection heq with hp
      exact (hfirst ns₂ (hp ▸ hmem')).elim
    · injection heq' with heq'
      injection heq' with hp
      exact (hfirst ns₁ (hp ▸ hmem)).elim
    · exact h.unique hmem hmem'
  · intro p ns' hmem
    rcases List.mem_cons.mp hmem with heq | hmem
    · injection heq with heq
      injection heq with hp
      exact ⟨t, args, List.mem_cons_of_mem _ (hd.drew ht (hp ▸ rfl))⟩
    · obtain ⟨u, args', hdraw⟩ := h.drawn hmem
      exact ⟨u, args', List.mem_cons_of_mem _ hdraw⟩
  · intro p hmem
    obtain ⟨ns', hns'⟩ := h.committed (hcommit'.mp hmem)
    exact ⟨ns', List.mem_cons_of_mem _ hns'⟩

/-- A record is committed. -/
theorem commit (h : Stamped tr s) (hd : Drawn tr s) {t q : ℕ} {args : RecordArgs} {ns : UInt64}
    {m : Mem RingVal} (ht : s.thread t = some (.store args q ns [])) :
    Stamped (some (.commit q) :: tr) (s.goto m t (some (.unlock q))) := by
  have hstamp' : ∀ {p : ℕ} {ns' : UInt64}, some (.stamp p ns') ∈ some (.commit q) :: tr ↔
      some (.stamp p ns') ∈ tr := by simp
  refine ⟨?_, ?_, ?_, ?_, ?_, ?_⟩
  · intro u p pc args' hu hp hmem
    rcases thread_goto hu with ⟨-, hpc⟩ | ⟨hne, hu⟩
    · cases hpc
      cases hp
    · rcases List.mem_cons.mp hmem with heq | hmem
      · injection heq with heq
        injection heq with hpq
        exact hne (hd.other hu ht (hpq ▸ hp) rfl)
      · exact h.pending hu hp hmem
  · intro u p pc hu hp ns'
    rw [hstamp']
    rcases thread_goto hu with ⟨-, hpc⟩ | ⟨-, hu⟩
    · cases hpc
      cases hp
    · exact h.unstamped hu hp ns'
  · intro u p args' ns' fields hu
    rw [hstamp']
    rcases thread_goto hu with ⟨-, hpc⟩ | ⟨-, hu⟩
    · cases hpc
    · exact h.stamped hu
  · intro p ns₁ ns₂ hmem hmem'
    exact h.unique (hstamp'.mp hmem) (hstamp'.mp hmem')
  · intro p ns' hmem
    obtain ⟨u, args', hdraw⟩ := h.drawn (hstamp'.mp hmem)
    exact ⟨u, args', List.mem_cons_of_mem _ hdraw⟩
  · intro p hmem
    rcases List.mem_cons.mp hmem with heq | hmem
    · injection heq with heq
      injection heq with hp
      exact ⟨ns, hstamp'.mpr (hp ▸ h.stamped ht)⟩
    · obtain ⟨ns', hns'⟩ := h.committed hmem
      exact ⟨ns', List.mem_cons_of_mem _ hns'⟩

/-- What has not been drawn has no time, and is not committed. -/
theorem fresh (h : Stamped tr s) (hd : Drawn tr s) {q : ℕ} (hq : s.mem .nextSequence < q) :
    (∀ ns, some (.stamp q ns) ∉ tr) ∧ some (.commit q) ∉ tr := by
  have hstamp : ∀ ns, some (.stamp q ns) ∉ tr := by
    intro ns hmem
    obtain ⟨t, args, hdraw⟩ := h.drawn hmem
    exact Nat.not_le_of_lt hq (hd.bound hdraw).2
  refine ⟨hstamp, fun hmem => ?_⟩
  obtain ⟨ns, hns⟩ := h.committed hmem
  exact hstamp ns hns

/-- Every step keeps it. -/
theorem step {ev : Option RingEvent} (h : Stamped tr s) (hd : Drawn tr s)
    (hs : RingStep tid s ev s') : Stamped (ev :: tr) s' := by
  cases hs with
  | call args ht =>
    exact h.goto nofun nofun (fun _ _ _ hpc hq => by cases hpc; cases hq)
      (fun _ _ hpc hq => by cases hpc; cases hq) nofun
  | draw ht =>
    obtain ⟨hstamp, hcommit⟩ := h.fresh hd (Nat.lt_succ_self _)
    exact h.goto nofun nofun (fun _ _ _ hpc hq => by cases hpc; cases hq; exact hcommit)
      (fun _ _ hpc hq => by cases hpc; cases hq; exact hstamp) nofun
  | spin ht | lock ht | check ht | withdraw ht =>
    exact h.goto nofun nofun (fun _ _ _ hpc hq => by cases hpc; cases hq; exact h.pending ht rfl)
      (fun _ _ hpc hq => by cases hpc; cases hq; exact h.unstamped ht rfl) nofun
  | stale ht =>
    exact h.goto nofun nofun (fun _ _ _ hpc hq => by cases hpc; cases hq)
      (fun _ _ hpc hq => by cases hpc; cases hq) nofun
  | clock ns ht => exact h.clock hd ns ht
  | store ht =>
    exact h.goto nofun nofun (fun _ _ _ hpc hq => by cases hpc; cases hq; exact h.pending ht rfl)
      (fun _ _ hpc hq => by cases hpc; cases hq)
      (fun _ _ _ _ hpc => by cases hpc; exact h.stamped ht)
  | commit ht => exact h.commit hd ht
  | unlock ht => exact h.goto nofun nofun nofun nofun nofun

end Stamped

end YellowZone.DeadlockTrace
