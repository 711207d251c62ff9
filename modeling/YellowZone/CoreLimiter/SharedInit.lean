import YellowZone.CoreLimiter.Scheduler

/-!
# Initializing the shared context

`share_mem_init` is run by every process of every vNPU that maps the shared memory. The first one
is to fill in the context, the others are to wait for it: a magic word says whether that has been
done, is being done, or has not been begun. A process that waits longer than 3 ms believes the
initializer dead and puts the word back.

The word is tested in two separate loads and then stored, so nothing is atomic about it. A process
that has not read INITIALIZED in its *first* load is on its way: if the second load does not find
INITIALIZING, and INITIALIZED is not INITIALIZING, it initializes. Two processes that come at the
same time both do, and so does one that is overtaken by the end of somebody's initialization
between its two loads.

It is over exactly when the word says INITIALIZED and every process that still runs is before its
first load, is back there next, or has nothing left to do but finish.

## Main definitions and results

* `InitLoc`, `shareMemInit`, `initSystem` — the context, the code, and any number of processes
* `Resets` — the next step of a process resets a word of the context
* `Settled`, `resets_no_more_iff` — when nobody ever will
* `context_reset_after_return` — a reset after a return
-/

namespace YellowZone.CoreLimiter

open Machine

/-! ## The code -/

/-- The values of the magic word. The context starts zeroed, as `MAGIC_UNINITIALIZED`. -/
inductive Magic where
  | uninitialized
  | initializing
  | initialized
  deriving DecidableEq, Repr

/-- The words of `vnpu_time_slice_sched_t` that `share_mem_init` uses. -/
inductive InitLoc where
  | magic
  | owner
  | lastAliveTime (i : ℕ)
  | lastKernelTime (i : ℕ)
  | quota (i : ℕ)
  | turn (i : ℕ)
  | inPrefill (i : ℕ)
  /-- `vnpu_schedule_mutex[i]`; initializing it is one step. -/
  | mutex (i : ℕ)
  deriving DecidableEq, Repr

/-- What the words hold; of a mutex, whether it has been initialized. -/
abbrev InitVal : InitLoc → Type
  | .magic => Magic
  | .owner => ℤ
  | .lastAliveTime _ | .lastKernelTime _ => ℕ
  | .quota _ | .turn _ => Fin 256
  | .inPrefill _ | .mutex _ => Bool

/-- Program points of `share_mem_init`; `begin` is the time the waiting is measured from, and `i`
the index of the loop that fills in the arrays. -/
inductive InitPc where
  | start
  | first (begin : ℕ)
  | second (begin : ℕ)
  | timeout (begin : ℕ)
  | giveUp (now : ℕ)
  | sleep (begin : ℕ)
  | claim
  | owner
  | lastAliveTime (i : ℕ)
  | lastKernelTime (i : ℕ)
  | quota (i : ℕ)
  | turn (i : ℕ)
  | inPrefill (i : ℕ)
  | mutex (i : ℕ)
  | publish
  | returned
  deriving DecidableEq, Repr

/-- `VNPU_TIMEOUT_PERIOD`, in nanoseconds. -/
def vnpuTimeoutPeriod : ℕ := 3 * 1000000

/-- `share_mem_init`. -/
def shareMemInit : InitPc → Cmd InitVal InitPc
  | .start => .clock .first
  | .first begin => .load .magic fun magic =>
      if magic = .initialized then .returned else .second begin
  | .second begin => .load .magic fun magic =>
      if magic = .initializing then .timeout begin else .claim
  | .timeout begin => .clock fun now =>
      if vnpuTimeoutPeriod < now - begin then .giveUp now else .sleep begin
  | .giveUp now => .store .magic .uninitialized (.sleep now)
  | .sleep begin => .skip (.first begin)
  | .claim => .store .magic .initializing .owner
  | .owner => .store .owner (-1 : ℤ) (.lastAliveTime 0)
  | .lastAliveTime i => .store (.lastAliveTime i) (0 : ℕ) (.lastKernelTime i)
  | .lastKernelTime i => .store (.lastKernelTime i) (0 : ℕ) (.quota i)
  | .quota i => .store (.quota i) (0 : Fin 256) (.turn i)
  | .turn i => .store (.turn i) (0 : Fin 256) (.inPrefill i)
  | .inPrefill i => .store (.inPrefill i) false (.mutex i)
  | .mutex i => .store (.mutex i) true
      (if i + 1 < maxVnpu then .lastAliveTime (i + 1) else .publish)
  | .publish => .store .magic .initialized .returned
  | .returned => .await .magic (fun _ => false) .returned

/-! ## The processes -/

/-- The processes, the context they share, and the clock. -/
structure InitState where
  mem : Mem InitVal
  now : ℕ
  pc : ℕ → InitPc
  killed : ℕ → Bool

/-- One step: of a process, of the clock, or the end of a process. -/
inductive InitAct where
  | proc (p : ℕ)
  | tick (d : ℕ)
  | kill (p : ℕ)
  deriving DecidableEq, Repr

/-- Process `p` goes on at `pc`, and leaves the context `m`. -/
def InitState.goto (s : InitState) (p : ℕ) (m : Mem InitVal) (pc : InitPc) : InitState :=
  { s with mem := m, pc := Function.update s.pc p pc }

/-- The step function. A process that has been killed does not run, nor does one that has
returned. -/
def initStep (s : InitState) : InitAct → Option InitState
  | .proc p =>
    if s.killed p then none
    else ((shareMemInit (s.pc p)).exec s.mem s.now false).map fun r => s.goto p r.1 r.2
  | .tick d => some { s with now := s.now + d }
  | .kill p => some { s with killed := Function.update s.killed p true }

/-- Any number of processes that run `share_mem_init`. -/
def initSystem : Lts InitState InitAct Unit where
  step := initStep
  event _ _ _ := ()

/-- The zeroed context; nobody has begun. -/
def initInitial : InitState where
  mem
    | .magic => Magic.uninitialized
    | .owner => (0 : ℤ)
    | .lastAliveTime _ | .lastKernelTime _ => (0 : ℕ)
    | .quota _ | .turn _ => (0 : Fin 256)
    | .inPrefill _ | .mutex _ => false
  now := 0
  pc _ := .start
  killed _ := false

/-- `s'` can come after `s`. -/
abbrev InitReaches (s s' : InitState) : Prop := ∃ tr, initSystem.Exec (fun _ _ => True) s tr s'

variable {s s' : InitState} {a : InitAct} {p q n t : ℕ} {m m' : Mem InitVal} {pc pc' : InitPc}

@[simp] theorem goto_mem : (s.goto p m pc).mem = m := rfl

@[simp] theorem goto_pc_self : (s.goto p m pc).pc p = pc := Function.update_self _ _ _

theorem goto_pc_of_ne (h : q ≠ p) : (s.goto p m pc).pc q = s.pc q := Function.update_of_ne h _ _

/-- The next step of process `p` resets a word of the context: `owner`, a time, a quota, a turn
counter, a prefill flag or a mutex. -/
def Resets (s : InitState) (p : ℕ) : Prop :=
  s.killed p = false ∧ ∃ l, (shareMemInit (s.pc p)).target = some l ∧ l ≠ .magic

/-! ## Settled states -/

/-- Before the first load, back there next, or with nothing left to reset. -/
def InitPc.harmless : InitPc → Bool
  | .start | .first _ | .sleep _ | .publish | .returned => true
  | _ => false

/-- The context has been initialized, and no process that still runs is on its way to do it
again. -/
structure Settled (s : InitState) : Prop where
  magic : s.mem .magic = .initialized
  harmless : ∀ p, s.killed p = false → (s.pc p).harmless = true

/-- A process in a settled state stays harmless, and leaves the magic word as it is. -/
theorem harmless_exec {b : Bool} (h : (shareMemInit pc).exec m t b = some (m', pc'))
    (hm : m .magic = .initialized) (hpc : pc.harmless = true) :
    m' .magic = .initialized ∧ pc'.harmless = true := by
  cases pc with
  | start | sleep begin =>
    simp only [shareMemInit, Cmd.exec, Option.some.injEq, Prod.mk.injEq] at h
    obtain ⟨rfl, rfl⟩ := h
    exact ⟨hm, rfl⟩
  | first begin =>
    simp only [shareMemInit, Cmd.exec, hm, if_true, Option.some.injEq, Prod.mk.injEq] at h
    obtain ⟨rfl, rfl⟩ := h
    exact ⟨hm, rfl⟩
  | publish =>
    simp only [shareMemInit, Cmd.exec, Option.some.injEq, Prod.mk.injEq] at h
    obtain ⟨rfl, rfl⟩ := h
    exact ⟨Mem.set_self _ _ _, rfl⟩
  | returned => cases h
  | _ => cases hpc

theorem Settled.step (hS : Settled s) (h : initStep s a = some s') : Settled s' := by
  cases a with
  | proc p =>
    simp only [initStep] at h
    split at h
    · cases h
    · rename_i hlive
      obtain ⟨⟨m, pc⟩, hr, rfl⟩ := Option.map_eq_some_iff.mp h
      obtain ⟨hm, hpc⟩ := harmless_exec hr hS.magic (hS.harmless p (by simpa using hlive))
      refine ⟨hm, fun q hq => ?_⟩
      by_cases hqp : q = p
      · subst hqp
        rw [goto_pc_self]
        exact hpc
      · rw [goto_pc_of_ne hqp]
        exact hS.harmless q hq
  | tick d =>
    cases h
    exact ⟨hS.magic, hS.harmless⟩
  | kill p =>
    cases h
    refine ⟨hS.magic, fun q hq => hS.harmless q ?_⟩
    by_cases hqp : q = p
    · subst hqp
      simp at hq
    · simpa [Function.update_of_ne hqp] using hq

theorem Settled.not_resets (hS : Settled s) (p : ℕ) : ¬ Resets s p := by
  rintro ⟨hlive, l, hl, hne⟩
  have hpc := hS.harmless p hlive
  generalize s.pc p = pc at hl hpc
  cases pc with
  | publish =>
    cases hl
    exact hne rfl
  | start | first _ | sleep _ | returned => cases hl
  | _ => cases hpc

/-- From a settled state on, nobody resets the context. -/
theorem Settled.stays (hS : Settled s) (h : InitReaches s s') : Settled s' := by
  obtain ⟨tr, h⟩ := h
  induction h with
  | start => exact hS
  | next _ _ hs ih => exact ih.step hs

/-! ## States that are not settled

Some process that still runs comes to reset the context by itself, if it is given the time. -/

/-- Some process may come to reset the context. -/
def MayReset (s : InitState) : Prop := ∃ s', InitReaches s s' ∧ ∃ p, Resets s' p

theorem MayReset.after (h : initStep s a = some s') (hr : MayReset s') : MayReset s := by
  obtain ⟨s'', ⟨tr, he⟩, hp⟩ := hr
  have hone : initSystem.Exec (fun _ _ => True) s [()] s' := .next (a := a) .start trivial h
  exact ⟨s'', ⟨_, hone.trans he⟩, hp⟩

theorem MayReset.proc (hlive : s.killed p = false)
    (hr : (shareMemInit (s.pc p)).exec s.mem s.now false = some (m', pc'))
    (h : MayReset (s.goto p m' pc')) : MayReset s := by
  refine MayReset.after (a := .proc p) ?_ h
  simp [initStep, hlive, hr]

/-- A process that claims the context resets it. -/
theorem mayReset_of_claim (hlive : s.killed p = false) (hpc : s.pc p = .claim) : MayReset s := by
  refine MayReset.proc hlive (by rw [hpc]; rfl) ⟨_, ⟨_, .start⟩, p, hlive, .owner, ?_, nofun⟩
  rw [goto_pc_self]
  rfl

/-- In its second load, a process that does not find INITIALIZING goes on to claim the
context. -/
theorem mayReset_of_second (hlive : s.killed p = false) (hpc : s.pc p = .second t)
    (hm : s.mem .magic ≠ .initializing) : MayReset s := by
  have hr : (shareMemInit (s.pc p)).exec s.mem s.now false = some (s.mem, .claim) := by
    simp [hpc, shareMemInit, Cmd.exec, hm]
  exact .proc hlive hr (mayReset_of_claim hlive goto_pc_self)

/-- So does a process whose first load finds neither. -/
theorem mayReset_of_first (hlive : s.killed p = false) (hpc : s.pc p = .first t)
    (hm : s.mem .magic = .uninitialized) : MayReset s := by
  have hr : (shareMemInit (s.pc p)).exec s.mem s.now false = some (s.mem, .second t) := by
    simp [hpc, shareMemInit, Cmd.exec, hm]
  refine .proc hlive hr (mayReset_of_second hlive goto_pc_self ?_)
  rw [goto_mem, hm]
  rintro ⟨⟩

theorem mayReset_of_sleep (hlive : s.killed p = false) (hpc : s.pc p = .sleep t)
    (hm : s.mem .magic = .uninitialized) : MayReset s := by
  have hr : (shareMemInit (s.pc p)).exec s.mem s.now false = some (s.mem, .first t) := by
    rw [hpc]
    rfl
  exact .proc hlive hr (mayReset_of_first hlive goto_pc_self hm)

/-- A process that gives up waiting claims the context itself. -/
theorem mayReset_of_giveUp (hlive : s.killed p = false) (hpc : s.pc p = .giveUp t) :
    MayReset s := by
  refine .proc hlive (by rw [hpc]; rfl) ?_
  exact mayReset_of_sleep hlive goto_pc_self (Mem.set_self s.mem .magic Magic.uninitialized)

/-- A process that waits gives up in the end. -/
theorem mayReset_of_timeout (hlive : s.killed p = false) (hpc : s.pc p = .timeout t) :
    MayReset s := by
  refine MayReset.after (a := .tick (t + vnpuTimeoutPeriod + 1)) rfl ?_
  have hlate : vnpuTimeoutPeriod < s.now + (t + vnpuTimeoutPeriod + 1) - t := by omega
  have hr : (shareMemInit (s.pc p)).exec s.mem (s.now + (t + vnpuTimeoutPeriod + 1)) false
      = some (s.mem, .giveUp (s.now + (t + vnpuTimeoutPeriod + 1))) := by
    simp [hpc, shareMemInit, Cmd.exec, hlate]
  exact MayReset.proc (p := p) hlive hr (mayReset_of_giveUp hlive goto_pc_self)

/-- Between its two loads a process is on its way, whatever the word says. -/
theorem mayReset_of_between (hlive : s.killed p = false) (hpc : s.pc p = .second t) :
    MayReset s := by
  by_cases hm : s.mem .magic = .initializing
  · have hr : (shareMemInit (s.pc p)).exec s.mem s.now false = some (s.mem, .timeout t) := by
      simp [hpc, shareMemInit, Cmd.exec, hm]
    exact .proc hlive hr (mayReset_of_timeout hlive goto_pc_self)
  · exact mayReset_of_second hlive hpc hm

/-- A process whose first load does not find INITIALIZED comes to its second. -/
theorem mayReset_of_unready (hlive : s.killed p = false) (hpc : s.pc p = .first t)
    (hm : s.mem .magic ≠ .initialized) : MayReset s := by
  have hr : (shareMemInit (s.pc p)).exec s.mem s.now false = some (s.mem, .second t) := by
    simp [hpc, shareMemInit, Cmd.exec, hm]
  exact .proc hlive hr (mayReset_of_between hlive goto_pc_self)

/-- As long as the word does not say INITIALIZED, a process that has just begun is enough. -/
theorem mayReset_of_start (hlive : s.killed p = false) (hpc : s.pc p = .start)
    (hm : s.mem .magic ≠ .initialized) : MayReset s := by
  have hr : (shareMemInit (s.pc p)).exec s.mem s.now false = some (s.mem, .first s.now) := by
    rw [hpc]
    rfl
  exact .proc hlive hr (mayReset_of_unready hlive goto_pc_self hm)

/-- A process that is not harmless is enough in any case. -/
theorem mayReset_of_not_harmless (hlive : s.killed p = false)
    (hpc : (s.pc p).harmless = false) : MayReset s := by
  cases h : s.pc p with
  | second t => exact mayReset_of_between hlive h
  | timeout t => exact mayReset_of_timeout hlive h
  | giveUp t => exact mayReset_of_giveUp hlive h
  | claim => exact mayReset_of_claim hlive h
  | owner | lastAliveTime i | lastKernelTime i | quota i | turn i | inPrefill i | mutex i =>
    refine ⟨s, ⟨_, .start⟩, p, hlive, ?_⟩
    rw [h]
    exact ⟨_, rfl, nofun⟩
  | start | first t | sleep t | publish | returned =>
    rw [h] at hpc
    cases hpc

/-! ## Runs -/

/-- The processes from `n` on have not begun. -/
def Unstarted (s : InitState) (n : ℕ) : Prop := ∀ p, n ≤ p → s.pc p = .start ∧ s.killed p = false

/-- A step of the clock, or of a process below `n`. -/
def InitAct.below (n : ℕ) : InitAct → Bool
  | .proc p | .kill p => p < n
  | .tick _ => true

theorem Unstarted.step (hn : Unstarted s n) (h : initStep s a = some s') (ha : a.below n = true) :
    Unstarted s' n := by
  intro q hq
  cases a with
  | proc p =>
    have hp : p < n := by simpa [InitAct.below] using ha
    simp only [initStep] at h
    split at h
    · cases h
    · obtain ⟨⟨m, pc⟩, -, rfl⟩ := Option.map_eq_some_iff.mp h
      rw [goto_pc_of_ne (by omega)]
      exact hn q hq
  | tick d =>
    cases h
    exact hn q hq
  | kill p =>
    have hp : p < n := by simpa [InitAct.below] using ha
    cases h
    have hne : q ≠ p := by omega
    simpa [Function.update_of_ne hne] using hn q hq

/-- There is always a process that has not begun. -/
theorem unstarted_of_reaches (h : InitReaches initInitial s) : ∃ n, Unstarted s n := by
  obtain ⟨tr, h⟩ := h
  induction h with
  | start => exact ⟨0, fun _ _ => ⟨rfl, rfl⟩⟩
  | @next _ s s' a _ _ hs ih =>
    obtain ⟨n, hn⟩ := ih
    obtain ⟨k, hk⟩ : ∃ k, a.below (n + k) = true := by
      cases a with
      | proc p | kill p =>
        refine ⟨p + 1, ?_⟩
        simp only [InitAct.below, decide_eq_true_eq]
        omega
      | tick d => exact ⟨0, rfl⟩
    have hn' : Unstarted s (n + k) := fun p hp => hn p (by omega)
    exact ⟨n + k, hn'.step hs hk⟩

/-- **When the context is safe.** In every run, at every moment: no process will reset the context
from now on, however the processes are scheduled, delayed or killed, if and only if the word says
INITIALIZED and no process that still runs is on its way from its first load to its last reset. -/
theorem resets_no_more_iff (h : InitReaches initInitial s) :
    (∀ s', InitReaches s s' → ∀ p, ¬ Resets s' p) ↔ Settled s := by
  constructor
  · intro hsafe
    have hno : ¬ MayReset s := by
      rintro ⟨s', hs, p, hp⟩
      exact hsafe s' hs p hp
    constructor
    · by_contra hm
      obtain ⟨n, hn⟩ := unstarted_of_reaches h
      obtain ⟨hpc, hlive⟩ := hn n (Nat.le_refl n)
      exact hno (mayReset_of_start hlive hpc hm)
    · intro p hlive
      by_contra hpc
      exact hno (mayReset_of_not_harmless hlive (by simpa using hpc))
  · intro hS s' hs p
    exact (hS.stays hs).not_resets p

/-! ## Two processes -/

/-- Process `p` takes `k` steps. -/
def procSteps (k p : ℕ) : List InitAct := List.replicate k (.proc p)

/-- A run of the first two processes that has been evaluated. -/
theorem exists_initRun (acts : List InitAct) (test : InitState → Bool)
    (h : (initSystem.run (fun _ a => a.below 2) initInitial [] acts).any
      (fun r => test r.2) = true) :
    ∃ s, InitReaches initInitial s ∧ Unstarted s 2 ∧ test s = true := by
  obtain ⟨tr, s, hrun, htest⟩ := Lts.exists_exec (L := initSystem) (p := fun _ a => a.below 2)
    (P := fun _ a => a.below 2 = true) (fun _ _ h => h) acts (fun _ s => test s) h
  have hun : Unstarted s 2 :=
    hrun.invariant (I := fun _ s => Unstarted s 2) (fun _ _ => ⟨rfl, rfl⟩)
      fun _ _ _ _ hI hP hs => hI.step hs hP
  exact ⟨s, ⟨tr, hrun.mono fun _ _ _ => trivial⟩, hun, htest⟩

/-- Process `0` initializes the context, from its claim to its return; process `1` waits
meanwhile and sleeps when process `0` returns. -/
def initialized : List InitAct :=
  procSteps 4 0 ++ procSteps 4 1 ++ procSteps 602 0

/-- Then nobody will reset the context. -/
theorem resets_no_more_iff_waiting :
    ∃ s, InitReaches initInitial s ∧ s.pc 0 = .returned ∧
      ∀ s', InitReaches s s' → ∀ p, ¬ Resets s' p := by
  obtain ⟨s, hs, hun, htest⟩ := exists_initRun initialized
    (fun s => decide (s.mem .magic = .initialized ∧ s.pc 0 = .returned ∧
      (s.pc 1).harmless = true)) (by decide +kernel)
  obtain ⟨hm, h0, h1⟩ := of_decide_eq_true htest
  refine ⟨s, hs, h0, (resets_no_more_iff hs).mpr ⟨hm, fun p _ => ?_⟩⟩
  match p with
  | 0 => rw [h0]; rfl
  | 1 => exact h1
  | p + 2 => rw [(hun (p + 2) (by omega)).1]; rfl

/-- The same, but process `0` returns between the two loads of process `1`. -/
def overtaken : List InitAct :=
  procSteps 4 0 ++ procSteps 2 1 ++ procSteps 602 0 ++ procSteps 2 1

/-- **A reset after a return.** Process `0` has initialized the context and returned. Process `1`
did not read INITIALIZED in its first load and does not read INITIALIZING in its second: its next
step stores `-1` to `owner`, and the rest of the context is to follow. -/
theorem context_reset_after_return :
    ∃ s, InitReaches initInitial s ∧ s.pc 0 = .returned ∧ Resets s 1 := by
  obtain ⟨s, hs, -, htest⟩ := exists_initRun overtaken
    (fun s => decide (s.pc 0 = .returned ∧ s.killed 1 = false ∧ s.pc 1 = .owner))
    (by decide +kernel)
  obtain ⟨h0, hlive, h1⟩ := of_decide_eq_true htest
  exact ⟨s, hs, h0, hlive, .owner, by rw [h1]; rfl, nofun⟩

end YellowZone.CoreLimiter
