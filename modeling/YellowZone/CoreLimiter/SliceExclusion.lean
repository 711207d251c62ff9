import YellowZone.CoreLimiter.Scheduler

/-!
# One vNPU in its slice at a time

A vNPU is in its slice from the moment its thread reads its own id from `owner` until the thread
stores the next owner. The owner passes the word on by a plain store, and so does every vNPU that
has found the owner dead: it reads `owner` again, looks for the next living vNPU, may sleep, and
stores what it has chosen then, whatever the word says by now.

That store is the only danger. As long as no live vNPU is in its slice when somebody takes over,
a live vNPU in its slice finds its own id in `owner`, and there is only one such id.

## Main definitions and results

* `InSlice` — in the slice, as the observations of a run tell
* `TakeoverApart` — no takeover is stored while a live vNPU is in its slice
* `one_in_slice` — then no two live vNPUs are in their slices together
* `two_in_slice` — a run in which they are
-/

namespace YellowZone.CoreLimiter

open Machine

variable {p : Policy} {s s' : SchedState} {a : SchedAct} {v w : Vnpu} {tr : List SchedEvent}
  {m m' : SchedMem} {t : ℕ} {b : Bool} {x x' : SchedLocals} {pc pc' : SchedPc}

/-- The thread of `v` has read its own id from `owner` and not stored the next owner since. -/
def InSlice (v : Vnpu) : List SchedEvent → Prop
  | [] => False
  | e :: tr => e = .enter v ∨ e ≠ .handOn v ∧ InSlice v tr

instance decidableInSlice (v : Vnpu) : (tr : List SchedEvent) → Decidable (InSlice v tr)
  | [] => inferInstanceAs (Decidable False)
  | e :: tr =>
    have := decidableInSlice v tr
    inferInstanceAs (Decidable (e = .enter v ∨ e ≠ .handOn v ∧ InSlice v tr))

/-- The program points between the two. -/
def SchedPc.inSlice : SchedPc → Bool
  | .start | .quota _ | .debtOwner | .debtSelect _ | .debtSet _ | .turn _ _ | .owner _ _
  | .select _ _ _ | .prefill _ _ | .loopClock _ _ | .loopSkip _ _ _ | .loopPrefill _ _
  | .endClock _ | .lock _ | .set _ => true
  | _ => false

/-- The owner that the thread is about to store. -/
def SchedPc.storing : SchedPc → Option ℤ
  | .takeSet (.store next) | .debtSet (.store next) | .set (.store next) => some next
  | _ => none

/-- **The guard.** A takeover is stored only while no live vNPU is in its slice. -/
def TakeoverApart (s : SchedState) (a : SchedAct) : Prop :=
  ∀ v b next, a = .thread v b → (s.thread v).pc = .takeSet (.store next) →
    ∀ w, s.mem (.alive w) = true → (s.thread w).pc.inSlice = false

/-! ## The next owner is a vNPU

A live vNPU that goes through all ids comes across its own, so the search never ends empty and
every owner that is passed on is stored. -/

/-- The value of a possible owner word. -/
def OwnerInRange (owner : ℤ) : Prop := -1 ≤ owner ∧ owner < maxVnpu

/-- The search of `v` has not come to its own id yet. -/
structure SelectPc.Ok (v : Vnpu) (pc : SelectPc) : Prop where
  id : OwnerInRange pc.id
  le : pc.i ≤ maxVnpu
  pos : 1 ≤ pc.i
  passed : ∀ j : ℕ, 1 ≤ j → j < pc.i → (pc.id + j).tmod maxVnpu ≠ v.val

/-- The owner that is going to be stored. -/
def SetPc.next : SetPc → ℤ
  | .alive next _ _ | .quota next _ _ | .sleep next | .store next => next

/-- The id of a vNPU. -/
def IsVnpu (id : ℤ) : Prop := 0 ≤ id ∧ id < maxVnpu

/-- What holds of a program point of `v`. -/
def SchedPc.Ok (v : Vnpu) : SchedPc → Prop
  | .borrow o => o ≠ v.val
  | .takeSelect pc | .debtSelect pc | .select _ _ pc => pc.Ok v
  | .takeSet pc | .debtSet pc | .set pc => IsVnpu pc.next
  | .prefill _ sl | .loopClock sl _ | .loopSkip _ sl _ | .loopPrefill _ sl | .endClock sl
  | .lock sl => IsVnpu sl.next
  | _ => True

theorem SelectPc.ok_start {id : ℤ} (h : OwnerInRange id) : SelectPc.Ok v ⟨id, 1⟩ where
  id := h
  le := by simp [maxVnpu]
  pos := Nat.le_refl 1
  passed := by
    intro j h1 hlt
    simp only at hlt
    omega

/-- Some id that is looked at is the own one. -/
theorem exists_own_candidate {id : ℤ} (h : OwnerInRange id) (v : Vnpu) :
    ∃ j : ℕ, 1 ≤ j ∧ j ≤ maxVnpu ∧ (id + j).tmod maxVnpu = v.val := by
  obtain ⟨hlo, hhi⟩ := h
  have hv := v.isLt
  simp only [maxVnpu] at *
  rcases Int.lt_or_le id v.val with hlt | hle
  · refine ⟨(v.val - id).toNat, by omega, by omega, ?_⟩
    rw [Int.tmod_eq_emod_of_nonneg (by omega)]
    omega
  · refine ⟨(v.val + 100 - id).toNat, by omega, by omega, ?_⟩
    rw [Int.tmod_eq_emod_of_nonneg (by omega)]
    omega

theorem candidate_isVnpu {pc : SelectPc} (h : pc.Ok v) : IsVnpu pc.candidate := by
  have hid := h.id
  have hpos := h.pos
  simp only [SelectPc.candidate, OwnerInRange, IsVnpu, maxVnpu] at *
  rw [Int.tmod_eq_emod_of_nonneg (by omega)]
  omega

/-- **One step of the search.** -/
theorem selectNextOwner_exec {pc : SelectPc} {ctl : Ctl SelectPc ℤ}
    (h : (selectNextOwner pc).exec m t b = some (m', ctl)) (hok : pc.Ok v)
    (halive : m (.alive v) = true) :
    m' = m ∧ ((∃ pc', ctl = .goto pc' ∧ pc'.Ok v) ∨ ∃ next, ctl = .ret next ∧ IsVnpu next) := by
  have hc := candidate_isVnpu hok
  have hc' : 0 ≤ pc.candidate ∧ pc.candidate < maxVnpu := hc
  simp only [selectNextOwner, isVnpuAlive, if_pos hc'] at h
  cases h
  refine ⟨rfl, ?_⟩
  dsimp only
  split
  · exact .inr ⟨_, rfl, hc⟩
  · rename_i hdead
    -- a dead candidate is another vNPU
    have hne : pc.candidate ≠ v.val := by
      intro he
      rw [he, Int.toNat_natCast, Fin.ofNat_val_eq_self] at hdead
      exact hdead halive
    have hpassed : ∀ j : ℕ, 1 ≤ j → j < pc.i + 1 → (pc.id + j).tmod maxVnpu ≠ v.val := by
      intro j h1 hlt
      rcases Nat.lt_or_ge j pc.i with hj | hj
      · exact hok.passed j h1 hj
      · obtain rfl : j = pc.i := by omega
        exact hne
    split
    · rename_i hi
      exact .inl ⟨_, rfl, hok.id, hi, Nat.le_add_left 1 _, hpassed⟩
    · rename_i hi
      obtain ⟨j, h1, hle, hj⟩ := exists_own_candidate hok.id v
      exact absurd hj (hpassed j h1 (by omega))

/-- A vNPU is stored as the owner. -/
theorem setVnpuAndIdle_of_isVnpu (p : Policy) (id : ℤ) {next : ℤ} (h : IsVnpu next) :
    ∃ pc, setVnpuAndIdle p id next = .goto pc ∧ IsVnpu pc.next := by
  have hne : next ≠ -1 := by
    have := h.1
    omega
  rw [setVnpuAndIdle, if_neg hne]
  split
  · exact ⟨_, rfl, h⟩
  · exact ⟨_, rfl, h⟩

theorem idlingNext_next (next : ℤ) (i sum : ℕ) : (idlingNext next i sum).next = next := by
  unfold idlingNext
  split
  · rfl
  · split <;> rfl

/-- **One step towards the store.** -/
theorem setOwner_exec {pc : SetPc} {ctl : Ctl SetPc Unit}
    (h : (setOwner pc).exec m t b = some (m', ctl)) :
    (pc = .store pc.next ∧ ctl = .ret () ∧ m' = m.set .owner pc.next) ∨
      ((∀ next, pc ≠ .store next) ∧ m' = m ∧ ∃ pc', ctl = .goto pc' ∧ pc'.next = pc.next) := by
  cases pc with
  | store next =>
    cases h
    exact .inl ⟨rfl, rfl, rfl⟩
  | sleep next =>
    cases h
    exact .inr ⟨by rintro _ ⟨⟩, rfl, _, rfl, rfl⟩
  | quota next i sum =>
    cases h
    exact .inr ⟨by rintro _ ⟨⟩, rfl, _, rfl, idlingNext_next _ _ _⟩
  | alive next i sum =>
    refine .inr ⟨by rintro _ ⟨⟩, ?_⟩
    simp only [setOwner, isVnpuAlive] at h
    split at h
    · cases h
      refine ⟨rfl, ?_⟩
      dsimp only
      split
      · exact ⟨_, rfl, rfl⟩
      · exact ⟨_, rfl, idlingNext_next _ _ _⟩
    · cases h
      exact ⟨rfl, _, rfl, idlingNext_next _ _ _⟩

/-! ## One step of a thread -/

/-- What a thread step does to the owner word and to the thread's place: it stores the owner it
was about to store and is out of its slice, or it leaves the word alone. -/
structure ThreadMove (v : Vnpu) (m m' : SchedMem) (pc pc' : SchedPc) : Prop where
  ok : pc'.Ok v
  move : (pc.storing = none ∧ m' .owner = m .owner ∧
      (pc'.inSlice = true ↔ pc.inSlice = true ∨ pc = .top ∧ m .owner = v.val)) ∨
    ∃ next, pc.storing = some next ∧ IsVnpu next ∧ m' .owner = next ∧ pc'.inSlice = false

/-- A step that does not touch memory and keeps its side of the boundary. -/
theorem ThreadMove.stay (hok : pc'.Ok v) (hs : pc.storing = none) (ht : pc ≠ .top)
    (hin : pc'.inSlice = pc.inSlice) : ThreadMove v m m pc pc' :=
  ⟨hok, .inl ⟨hs, rfl, by simp [hin, ht]⟩⟩

theorem ok_consumeTest {now : ℕ} {sl : Slice} {inPrefill : Bool} (h : IsVnpu sl.next) :
    (consumeTest now sl inPrefill).Ok v ∧ (consumeTest now sl inPrefill).inSlice = true := by
  unfold consumeTest
  split <;> exact ⟨h, rfl⟩

theorem ok_ownerTest (owner : ℤ) : (ownerTest v owner).Ok v ∧
    ((ownerTest v owner).inSlice = true ↔ owner = v.val) := by
  unfold ownerTest
  split
  · rename_i h
    exact ⟨trivial, by simp [SchedPc.inSlice, h]⟩
  · rename_i h
    exact ⟨trivial, by simp [SchedPc.inSlice, h]⟩

/-- The search for the next owner, as part of the thread: `f` places its program points, `g` the
rest of the thread. -/
theorem ThreadMove.select {sel : SelectPc} {f : SelectPc → SchedPc} {g : ℤ → SchedPc}
    (h : ((selectNextOwner sel).map (Ctl.elim (fun sel' => (x, f sel')) fun next => (x, g next))
      : SchedCmd (SchedLocals × SchedPc)).exec m t b = some (m', x', pc'))
    (hok : sel.Ok v) (halive : m (.alive v) = true) (hs : (f sel).storing = none)
    (ht : f sel ≠ .top)
    (hf : ∀ sel', sel'.Ok v → (f sel').Ok v ∧ (f sel').inSlice = (f sel).inSlice)
    (hg : ∀ next, IsVnpu next → (g next).Ok v ∧ (g next).inSlice = (f sel).inSlice) :
    ThreadMove v m m' (f sel) pc' := by
  obtain ⟨⟨m₁, ctl⟩, hr, he⟩ := Cmd.exec_map_eq_some.mp h
  obtain ⟨rfl, ⟨sel', rfl, hsel⟩ | ⟨next, rfl, hnext⟩⟩ := selectNextOwner_exec hr hok halive
  · cases he
    exact .stay (hf sel' hsel).1 hs ht (hf sel' hsel).2
  · cases he
    exact .stay (hg next hnext).1 hs ht (hg next hnext).2

/-- The store of the next owner, as part of the thread. -/
theorem ThreadMove.store {st : SetPc} {f : SetPc → SchedPc} {after : SchedPc}
    (h : ((setOwner st).map (Ctl.elim (fun st' => (x, f st')) fun _ => (x, after))
      : SchedCmd (SchedLocals × SchedPc)).exec m t b = some (m', x', pc'))
    (hok : IsVnpu st.next) (hs : ∀ next, (f (.store next)).storing = some next)
    (hn : (∀ next, st ≠ .store next) → (f st).storing = none) (ht : f st ≠ .top)
    (hf : ∀ st', IsVnpu st'.next → (f st').Ok v ∧ (f st').inSlice = (f st).inSlice)
    (ha : after.Ok v ∧ after.inSlice = false) :
    ThreadMove v m m' (f st) pc' := by
  obtain ⟨⟨m₁, ctl⟩, hr, he⟩ := Cmd.exec_map_eq_some.mp h
  obtain ⟨hst, rfl, rfl⟩ | ⟨hns, rfl, st', rfl, hnext⟩ := setOwner_exec hr
  · cases he
    refine ⟨ha.1, .inr ⟨st.next, ?_, hok, Mem.set_self m .owner st.next, ha.2⟩⟩
    rw [hst]
    exact hs _
  · cases he
    have hst' : IsVnpu st'.next := by rw [hnext]; exact hok
    exact .stay (hf st' hst').1 (hn hns) ht (hf st' hst').2

/-- **One step of a thread.** -/
theorem threadMove_of_exec
    (h : (schedulerThread p v x pc).exec m t b = some (m', x', pc')) (hok : pc.Ok v)
    (halive : m (.alive v) = true) (hm : OwnerInRange (m .owner)) : ThreadMove v m m' pc pc' := by
  cases pc with
  | top =>
    cases h
    split
    · rename_i he
      exact ⟨he.2, .inl ⟨rfl, rfl, by simp [SchedPc.inSlice, he.2]⟩⟩
    · have ho := ok_ownerTest (v := v) (m .owner)
      exact ⟨ho.1, .inl ⟨rfl, rfl, by rw [ho.2]; simp [SchedPc.inSlice]⟩⟩
  | borrow owner =>
    cases h
    have ho := ok_ownerTest (v := v) owner
    refine .stay ho.1 rfl (by rintro ⟨⟩) (Bool.eq_false_iff.mpr ?_)
    rw [ne_eq, ho.2]
    exact hok
  | ownerAlive owner =>
    simp only [schedulerThread, isVnpuAlive] at h
    split at h
    · cases h
      split <;> exact .stay trivial rfl (by rintro ⟨⟩) rfl
    · cases h
      exact .stay trivial rfl (by rintro ⟨⟩) rfl
  | reload | debtOwner | owner now fin =>
    cases h
    exact .stay (SelectPc.ok_start hm) rfl (by rintro ⟨⟩) rfl
  | takeSelect sel | debtSelect sel =>
    refine .select h hok halive rfl (by rintro ⟨⟩) (fun sel' hsel => ⟨hsel, rfl⟩)
      fun next hnext => ?_
    obtain ⟨st, hst, hn⟩ := setVnpuAndIdle_of_isVnpu p sel.id hnext
    rw [hst]
    exact ⟨hn, rfl⟩
  | select now fin sel =>
    exact .select h hok halive rfl (by rintro ⟨⟩) (fun sel' hsel => ⟨hsel, rfl⟩) fun next hnext =>
      ⟨hnext, rfl⟩
  | takeSet st | debtSet st | set st =>
    refine .store h hok (fun _ => rfl) (fun hns => ?_) (by rintro ⟨⟩) (fun st' hst => ⟨hst, rfl⟩)
      ⟨trivial, rfl⟩
    cases st with
    | store next => exact absurd rfl (hns next)
    | _ => rfl
  | sleep | start | drainBegin | drain begin | turn now fin =>
    cases h
    exact .stay trivial rfl (by rintro ⟨⟩) rfl
  | quota now =>
    simp only [schedulerThread, Cmd.exec, Option.some.injEq, Prod.mk.injEq] at h
    obtain ⟨rfl, he⟩ := h
    split at he <;> cases he <;> exact .stay trivial rfl (by rintro ⟨⟩) rfl
  | prefill now sl | loopPrefill now sl =>
    cases h
    obtain ⟨ho, hin⟩ := ok_consumeTest (v := v) hok
    exact .stay ho rfl (by rintro ⟨⟩) hin
  | loopClock sl inPrefill | endClock sl =>
    cases h
    exact .stay hok rfl (by rintro ⟨⟩) rfl
  | loopSkip now sl inPrefill =>
    cases h
    split <;> exact .stay hok rfl (by rintro ⟨⟩) rfl
  | lock sl =>
    cases h
    obtain ⟨st, hst, hn⟩ := setVnpuAndIdle_of_isVnpu p sl.id hok
    rw [hst]
    exact .stay hn rfl (by rintro ⟨⟩) rfl
  | turnAgain flag =>
    cases h
    split
    · split <;> exact .stay trivial rfl (by rintro ⟨⟩) rfl
    · exact .stay trivial rfl (by rintro ⟨⟩) rfl
  | storeTurn =>
    cases h
    exact ⟨trivial, .inl ⟨rfl, Mem.set_of_ne _ _ (by rintro ⟨⟩), by simp [SchedPc.inSlice]⟩⟩

/-- Nobody is brought back to life, or killed, by a thread. -/
theorem alive_of_exec (h : (schedulerThread p v x pc).exec m t b = some (m', x', pc'))
    (w : Vnpu) : m' (.alive w) = m (.alive w) := by
  refine Cmd.exec_frame h ?_
  rcases schedulerThread_target p v x pc with ht | ht | ht <;> rw [ht] <;> nofun

/-! ## Runs -/

theorem inSlice_cons {e : SchedEvent} (hin : e ≠ .enter v) (hout : e ≠ .handOn v) :
    InSlice v (e :: tr) ↔ InSlice v tr := by
  simp [InSlice, hin, hout]

theorem threadEvent_enter :
    threadEvent s v pc = .enter w ↔ w = v ∧ pc = .top ∧ s.mem .owner = v.val := by
  cases pc with
  | top =>
    simp only [threadEvent]
    split
    · rename_i h
      simp [h, eq_comm]
    · rename_i h
      simp [h]
  | debtSet st | set st => cases st <;> simp [threadEvent]
  | _ => simp [threadEvent]

theorem threadEvent_handOn :
    threadEvent s v pc = .handOn w ↔ w = v ∧ pc.inSlice = true ∧ pc.storing ≠ none := by
  cases pc with
  | top =>
    simp only [threadEvent]
    split <;> simp [SchedPc.inSlice]
  | debtSet st | set st =>
    cases st <;> simp [threadEvent, SchedPc.inSlice, SchedPc.storing, eq_comm]
  | _ => simp [threadEvent, SchedPc.inSlice, SchedPc.storing]

/-- **The invariant.** A live vNPU in its slice finds its own id in `owner`. -/
structure SliceInv (tr : List SchedEvent) (s : SchedState) : Prop where
  range : OwnerInRange (s.mem .owner)
  ok : ∀ v, (s.thread v).pc.Ok v
  observed : ∀ v, InSlice v tr ↔ (s.thread v).pc.inSlice = true
  own : ∀ v, s.mem (.alive v) = true → (s.thread v).pc.inSlice = true → s.mem .owner = v.val

theorem IsVnpu.inRange {id : ℤ} (h : IsVnpu id) : OwnerInRange id := by
  obtain ⟨h0, hlt⟩ := h
  exact ⟨by omega, hlt⟩

/-- A step of a thread keeps the invariant. -/
theorem SliceInv.thread (hI : SliceInv tr s) (hP : TakeoverApart s (.thread v b))
    (h : schedStep p s (.thread v b) = some s') :
    SliceInv (threadEvent s v (s.thread v).pc :: tr) s' := by
  obtain ⟨halive, m, x, pc, hr, rfl⟩ := thread_of_schedStep h
  obtain ⟨hok, hmove⟩ := threadMove_of_exec hr (hI.ok v) halive hI.range
  have hkept : ∀ w, m (.alive w) = s.mem (.alive w) := alive_of_exec hr
  constructor
  · rcases hmove with ⟨-, hm, -⟩ | ⟨next, -, hn, hm, -⟩
    · exact (congrArg OwnerInRange hm).mpr hI.range
    · exact (congrArg OwnerInRange hm).mpr hn.inRange
  · intro w
    by_cases hw : w = v
    · subst hw
      rw [setThread_thread_self]
      exact hok
    · rw [setThread_thread_of_ne _ hw]
      exact hI.ok w
  · intro w
    by_cases hw : w = v
    · subst hw
      rw [setThread_thread_self, InSlice, threadEvent_enter, hI.observed, ne_eq,
        threadEvent_handOn]
      rcases hmove with ⟨hs, -, hin⟩ | ⟨next, hs, -, -, hin⟩
      · rw [hin]
        simp [hs, or_comm]
      · -- the thread stores an owner, and had its slice or not before
        have htop : (s.thread w).pc ≠ .top := by
          intro he
          rw [he] at hs
          cases hs
        simp [hs, hin, htop]
    · rw [setThread_thread_of_ne _ hw]
      refine (inSlice_cons ?_ ?_).trans (hI.observed w)
      · rw [ne_eq, threadEvent_enter]
        exact fun he => hw he.1
      · rw [ne_eq, threadEvent_handOn]
        exact fun he => hw he.1
  · intro w hw hin
    have hw' : s.mem (.alive w) = true := (hkept w).symm.trans hw
    rcases hmove with ⟨-, hm, hiff⟩ | ⟨next, hs, -, hm, hout⟩
    · -- the owner word stands
      refine hm.trans ?_
      by_cases hwv : w = v
      · subst hwv
        rw [setThread_thread_self] at hin
        rcases hiff.mp hin with hin' | ⟨-, ho⟩
        · exact hI.own w hw' hin'
        · exact ho
      · rw [setThread_thread_of_ne _ hwv] at hin
        exact hI.own w hw' hin
    · -- an owner is stored: by the vNPU in its slice, or by one that takes over
      have hwv : w ≠ v := by
        intro he
        rw [he, setThread_thread_self] at hin
        exact absurd (hin.symm.trans hout) nofun
      rw [setThread_thread_of_ne _ hwv] at hin
      exfalso
      by_cases hv : (s.thread v).pc.inSlice = true
      · have h1 := hI.own v halive hv
        have h2 := hI.own w hw' hin
        exact hwv (Fin.ext (Int.ofNat_inj.mp (h2.symm.trans h1)))
      · have htake : (s.thread v).pc = .takeSet (.store next) := by
          generalize (s.thread v).pc = q at hs hv
          cases q with
          | takeSet st =>
            cases st <;> cases hs
            rfl
          | debtSet st | set st => exact absurd rfl hv
          | _ => cases hs
        exact absurd (hin.symm.trans (hP v b next rfl htake w hw')) nofun

/-- So does any other step: it may only take lives. -/
theorem SliceInv.other (hI : SliceInv tr s) (ht : s'.thread = s.thread)
    (ho : s'.mem .owner = s.mem .owner)
    (ha : ∀ w, s'.mem (.alive w) = true → s.mem (.alive w) = true) :
    SliceInv (.other :: tr) s' := by
  constructor
  · exact (congrArg OwnerInRange ho).mpr hI.range
  · intro w
    rw [ht]
    exact hI.ok w
  · intro w
    rw [ht]
    exact (inSlice_cons (e := .other) nofun nofun).trans (hI.observed w)
  · intro w hw hin
    rw [ht] at hin
    exact ho.trans (hI.own w (ha w hw) hin)

/-- **Every run keeps the invariant.** -/
theorem sliceInv_of_run {present : Vnpu → Bool} {quota : Vnpu → Fin 256} {now : ℕ}
    (h : SchedRun p TakeoverApart present quota now tr s) : SliceInv tr s := by
  refine Lts.Exec.invariant h ⟨⟨?_, ?_⟩, ?_, ?_, ?_⟩ ?_
  · exact Int.le_refl (-1)
  · simp [schedInitial, maxVnpu]
  · exact fun _ => trivial
  · exact fun _ => ⟨False.elim, by simp [schedInitial, SchedPc.inSlice]⟩
  · exact fun _ _ hin => by simp [schedInitial, SchedPc.inSlice] at hin
  · intro tr s a s' hI hP hs
    cases a with
    | thread v b => exact hI.thread hP hs
    | die v =>
      cases hs
      refine hI.other rfl rfl fun w hw => ?_
      by_cases hwv : w = v
      · subst hwv
        simp only [Mem.set_self] at hw
        cases hw
      · have hne : SchedLoc.alive w ≠ .alive v := by simpa using hwv
        exact (Mem.set_of_ne s.mem (l := .alive v) false hne).symm.trans hw
    | tick d | setQuota v q | setPrefill v q =>
      cases hs
      exact hI.other rfl rfl fun w hw => hw

/-- **One vNPU in its slice at a time**, in every run in which no takeover is stored while a live
vNPU is in its slice: any vNPUs, dying at any time, under either policy. -/
theorem one_in_slice {present : Vnpu → Bool} {quota : Vnpu → Fin 256} {now : ℕ}
    (h : SchedRun p TakeoverApart present quota now tr s) {v w : Vnpu} (hvw : v ≠ w)
    (hv : s.mem (.alive v) = true) (hw : s.mem (.alive w) = true) :
    ¬ (InSlice v tr ∧ InSlice w tr) := by
  rintro ⟨hin, hin'⟩
  have hI := sliceInv_of_run h
  have h1 := hI.own v hv ((hI.observed v).mp hin)
  have h2 := hI.own w hw ((hI.observed w).mp hin')
  exact hvw (Fin.ext (Int.ofNat_inj.mp (h1.symm.trans h2)))

/-! ## Runs of three vNPUs -/

/-- The guard, as a test. -/
def takeoverApartTest (s : SchedState) : SchedAct → Bool
  | .thread v _ =>
    match (s.thread v).pc with
    | .takeSet (.store _) => decide (∀ w, s.mem (.alive w) = true → (s.thread w).pc.inSlice = false)
    | _ => true
  | _ => true

theorem takeoverApart_of_test (s : SchedState) (a : SchedAct) (h : takeoverApartTest s a = true) :
    TakeoverApart s a := by
  rintro v b next rfl hpc
  simp only [takeoverApartTest, hpc, decide_eq_true_eq] at h
  exact h

/-- vNPU `0` dies in its slice, and vNPU `1` takes over. -/
def orderlyTakeover : List SchedAct :=
  threadSteps 13 0 ++ .die 0 :: threadSteps 7 1

/-- After an orderly takeover, only one of the two vNPUs that are left is in its slice. -/
theorem one_in_slice_takeover :
    ∃ tr s, SchedRun .fixedShare TakeoverApart (firstVnpus 3) (fun _ => 50) 0 tr s ∧
      InSlice 1 tr ∧ ¬ (InSlice 1 tr ∧ InSlice 2 tr) := by
  obtain ⟨tr, s, hrun, htest⟩ := exists_schedRun .fixedShare (firstVnpus 3) (fun _ => 50) 0
    takeoverApart_of_test orderlyTakeover
    (fun tr s => decide (InSlice 1 tr) && s.mem (.alive 1) && s.mem (.alive 2)) (by decide +kernel)
  simp only [Bool.and_eq_true, decide_eq_true_eq] at htest
  exact ⟨tr, s, hrun, htest.1.1, one_in_slice hrun (by decide) htest.1.2 htest.2⟩

/-- All three find that there is no owner. vNPU `2` has chosen vNPU `0` and stops before it stores
its choice. vNPU `0` makes the same choice, spends its slice and hands on to vNPU `1`, which
enters. Now vNPU `2` stores `0`, and vNPU `0` enters again. -/
def lateTakeover : List SchedAct :=
  threadSteps 4 2 ++ threadSteps 13 0 ++ .tick 60000000 :: threadSteps 6 0 ++ threadSteps 1 1 ++
    threadSteps 1 2 ++ threadSteps 5 0

/-- **Two vNPUs in their slices**, with nobody dead: a takeover that was decided on before vNPU
`0` had its slice is stored while vNPU `1` has its own. -/
theorem two_in_slice :
    ∃ tr s, SchedRun .fixedShare (fun _ _ => True) (firstVnpus 3) (fun _ => 50) 0 tr s ∧
      s.mem (.alive 0) = true ∧ s.mem (.alive 1) = true ∧ InSlice 0 tr ∧ InSlice 1 tr := by
  obtain ⟨tr, s, hrun, htest⟩ := exists_schedRun .fixedShare (firstVnpus 3) (fun _ => 50) 0
    (q := fun _ _ => true) (P := fun _ _ => True) (fun _ _ _ => trivial) lateTakeover
    (fun tr s => s.mem (.alive 0) && s.mem (.alive 1) && decide (InSlice 0 tr ∧ InSlice 1 tr))
    (by decide +kernel)
  simp only [Bool.and_eq_true, decide_eq_true_eq] at htest
  exact ⟨tr, s, hrun, htest.1.1, htest.1.2, htest.2⟩

end YellowZone.CoreLimiter
