import YellowZone.CoreLimiter.Scheduler

/-!
# The balance of the time slices

`core_cur_timeslice` is what a vNPU carries from one turn to the next, in nanoseconds. A turn adds
the quota slice to it. A balance that is still not positive passes the turn on at once; a positive
one is spent. Time used beyond the slice is meant to be a debt: prefill may go on behind the end
of the slice, and the streams that are still busy are drained at the end of the turn.

`add_and_consume_time_slice` does store the first of these debts. But `compensate_delta_time`
comes after it and stores the second one over it, instead of adding to it. So a turn charges the
drain time only, and the charge is right exactly if the slice was not overrun.

## Main definitions and results

* `Turn`, `lastTurn` — what a run shows of the last turn of a vNPU
* `Turn.owed` — the balance that charges every nanosecond
* `balance_conserved_iff` — when the balance after a turn is that one
* `overrun_forgotten` — a turn with an overrun that is not charged
-/

namespace YellowZone.CoreLimiter

open Machine

variable {p : Policy} {s s' : SchedState} {a : SchedAct} {v w : Vnpu} {tr : List SchedEvent}
  {m m' : SchedMem} {t : ℕ} {b : Bool} {x x' : SchedLocals} {pc pc' : SchedPc} {T : Turn}

/-! ## Turns -/

/-- One turn of a vNPU, as it is observed. -/
structure Turn where
  /-- `core_cur_timeslice` before the turn. -/
  balance : ℤ
  /-- The quota slice. -/
  quota : ℤ
  /-- The time read at the start of `add_and_consume_time_slice`. -/
  start : ℕ
  /-- The time read when the slice ends. -/
  fin : ℕ
  /-- The time measured around `synchronize_and_clear_streams`. -/
  drain : ℕ
  deriving DecidableEq, Repr

/-- What an observation adds to what is known of the last turn of `v`. -/
def noteTurn (v : Vnpu) (e : SchedEvent) (last : Option Turn) : Option Turn :=
  match e with
  | .slice w balance quota start => if w = v then some ⟨balance, quota, start, 0, 0⟩ else last
  | .sliceEnd w fin => if w = v then last.map fun T => { T with fin := fin } else last
  | .drained w drain => if w = v then last.map fun T => { T with drain := drain } else last
  | _ => last

/-- The last turn of `v` in a run. -/
def lastTurn (v : Vnpu) : List SchedEvent → Option Turn
  | [] => none
  | e :: tr => noteTurn v e (lastTurn v tr)

/-- The end that the slice should have. -/
def Turn.due (T : Turn) : ℤ := T.start + T.balance + T.quota

/-- The balance after the turn if all time beyond the slice is charged. -/
def Turn.owed (T : Turn) : ℤ :=
  if T.balance + T.quota ≤ 0 then T.balance + T.quota
  else -(max 0 (T.fin - T.due) + T.drain)

/-- The balance that the code leaves. -/
def Turn.left (T : Turn) : ℤ :=
  if T.balance + T.quota ≤ 0 then T.balance + T.quota else -T.drain

/-- The two agree if there is no slice to spend, or if it was not overrun. -/
theorem left_eq_owed_iff : T.left = T.owed ↔ T.balance + T.quota ≤ 0 ∨ T.fin ≤ T.due := by
  unfold Turn.left Turn.owed
  split
  · simp [*]
  · rename_i hpos
    constructor
    · intro h
      right
      omega
    · rintro (h | h)
      · exact absurd h hpos
      · omega

/-! ## What a turn has stored so far -/

/-- The balance `x` at a program point, given the last turn. -/
def SchedPc.Accounts (x : ℤ) (last : Option Turn) : SchedPc → Prop
  -- the balance was not positive, and the turn is being passed on
  | .debtOwner | .debtSelect _ | .debtSet _ | .turnAgain false =>
    ∃ T ∈ last, T.balance + T.quota ≤ 0 ∧ x = T.balance + T.quota
  -- the slice is being spent, or its streams are being drained
  | .turn _ _ | .owner _ _ | .select _ _ _ | .prefill _ _ | .loopClock _ _ | .loopSkip _ _ _
  | .loopPrefill _ _ | .endClock _ | .lock _ | .set _ | .turnAgain true | .drainBegin | .drain _ =>
    ∃ T ∈ last, 0 < T.balance + T.quota
  -- the turn is over
  | _ => ∀ T ∈ last, x = T.left

/-- Between loading the turn counter and comparing it again. -/
def SchedPc.hasTurn : SchedPc → Bool
  | .owner _ _ | .select _ _ _ | .prefill _ _ | .loopClock _ _ | .loopSkip _ _ _
  | .loopPrefill _ _ | .endClock _ | .lock _ | .set _ | .turnAgain true => true
  | _ => false

/-- **The invariant** of one vNPU. Only its own thread counts its turns, so the counter that a
turn loads is still there at its end and `compensate_delta_time` is reached. -/
structure BalanceInv (v : Vnpu) (tr : List SchedEvent) (s : SchedState) : Prop where
  accounts : (s.thread v).pc.Accounts (s.thread v).locals.curTimeslice (lastTurn v tr)
  turn : (s.thread v).pc.hasTurn = true → s.mem (.turn v) = (s.thread v).locals.turnId

/-! ## One step of a thread -/

/-- The search for the next owner, as part of the thread. -/
theorem select_places {sel : SelectPc} {f : SelectPc → SchedPc} {g : ℤ → SchedPc}
    (h : ((selectNextOwner sel).map (Ctl.elim (fun sel' => (x, f sel')) fun next => (x, g next))
      : SchedCmd (SchedLocals × SchedPc)).exec m t b = some (m', x', pc')) :
    m' = m ∧ x' = x ∧ ((∃ sel', pc' = f sel') ∨ ∃ next, pc' = g next) := by
  obtain ⟨⟨m₁, ctl⟩, hr, he⟩ := Cmd.exec_map_eq_some.mp h
  have hm : m₁ = m := by
    simp only [selectNextOwner, isVnpuAlive] at hr
    split at hr <;> cases hr <;> rfl
  subst hm
  cases ctl with
  | goto sel' => cases he; exact ⟨rfl, rfl, .inl ⟨sel', rfl⟩⟩
  | ret next => cases he; exact ⟨rfl, rfl, .inr ⟨next, rfl⟩⟩

/-- The store of the next owner, as part of the thread. -/
theorem set_places {st : SetPc} {f : SetPc → SchedPc} {after : SchedPc}
    (h : ((setOwner st).map (Ctl.elim (fun st' => (x, f st')) fun _ => (x, after))
      : SchedCmd (SchedLocals × SchedPc)).exec m t b = some (m', x', pc')) :
    m' (.turn v) = m (.turn v) ∧ x' = x ∧ ((∃ st', pc' = f st') ∨ pc' = after) := by
  obtain ⟨⟨m₁, ctl⟩, hr, he⟩ := Cmd.exec_map_eq_some.mp h
  have hm : m₁ (.turn v) = m (.turn v) := by
    refine Cmd.exec_frame hr ?_
    cases st with
    | alive next i sum =>
      simp only [setOwner, isVnpuAlive]
      split <;> nofun
    | _ => nofun
  cases ctl with
  | goto st' => cases he; exact ⟨hm, rfl, .inl ⟨st', rfl⟩⟩
  | ret u => cases he; exact ⟨hm, rfl, .inr rfl⟩

theorem consumeTest_accounts {y : ℤ} {last : Option Turn} {now : ℕ} {sl : Slice} {q : Bool}
    (h : ∃ T ∈ last, 0 < T.balance + T.quota) : (consumeTest now sl q).Accounts y last := by
  unfold consumeTest
  split <;> exact h

/-- **One step of the thread of `v`.** -/
theorem BalanceInv.exec {last : Option Turn} (hth : s.thread v = ⟨pc, x⟩)
    (h : (schedulerThread p v x pc).exec s.mem s.now b = some (m', x', pc'))
    (hacc : pc.Accounts x.curTimeslice last)
    (hturn : pc.hasTurn = true → s.mem (.turn v) = x.turnId) :
    pc'.Accounts x'.curTimeslice (noteTurn v (threadEvent s v pc) last) ∧
      (pc'.hasTurn = true → m' (.turn v) = x'.turnId) := by
  cases pc with
  | top =>
    cases h
    have hnote : noteTurn v (threadEvent s v .top) last = last := by
      simp only [threadEvent]
      split <;> rfl
    rw [hnote]
    unfold ownerTest
    split
    · exact ⟨hacc, by rintro ⟨⟩⟩
    · split <;> exact ⟨hacc, by rintro ⟨⟩⟩
  | borrow o =>
    cases h
    unfold ownerTest
    split <;> exact ⟨hacc, by rintro ⟨⟩⟩
  | ownerAlive o =>
    simp only [schedulerThread, isVnpuAlive] at h
    split at h
    · cases h
      split <;> exact ⟨hacc, by rintro ⟨⟩⟩
    · cases h
      exact ⟨hacc, by rintro ⟨⟩⟩
  | takeSelect sel =>
    obtain ⟨rfl, rfl, ⟨sel', rfl⟩ | ⟨next, rfl⟩⟩ := select_places h
    · exact ⟨hacc, by rintro ⟨⟩⟩
    · cases setVnpuAndIdle p sel.id next <;> exact ⟨hacc, by rintro ⟨⟩⟩
  | takeSet st =>
    obtain ⟨-, rfl, ⟨st', rfl⟩ | rfl⟩ := set_places (v := v) h <;> exact ⟨hacc, by rintro ⟨⟩⟩
  | reload | sleep | start | drainBegin | debtOwner =>
    cases h
    exact ⟨hacc, by rintro ⟨⟩⟩
  | quota now =>
    -- the turn begins: nothing of the last one is left but its balance
    simp only [schedulerThread, Cmd.exec, Option.some.injEq, Prod.mk.injEq] at h
    obtain ⟨rfl, he⟩ := h
    simp only [threadEvent, hth, noteTurn, if_true]
    split at he
    · rename_i hle
      cases he
      exact ⟨⟨_, rfl, hle, rfl⟩, by rintro ⟨⟩⟩
    · rename_i hpos
      cases he
      exact ⟨⟨_, rfl, Int.not_le.mp hpos⟩, by rintro ⟨⟩⟩
  | debtSelect sel =>
    obtain ⟨rfl, rfl, ⟨sel', rfl⟩ | ⟨next, rfl⟩⟩ := select_places h
    · exact ⟨hacc, by rintro ⟨⟩⟩
    · cases setVnpuAndIdle p sel.id next <;> exact ⟨hacc, by rintro ⟨⟩⟩
  | debtSet st =>
    have hnote : noteTurn v (threadEvent s v (.debtSet st)) last = last := by cases st <;> rfl
    rw [hnote]
    obtain ⟨-, rfl, ⟨st', rfl⟩ | rfl⟩ := set_places (v := v) h <;> exact ⟨hacc, by rintro ⟨⟩⟩
  | turn now fin =>
    cases h
    exact ⟨hacc, fun _ => rfl⟩
  | owner now fin | loopClock sl q =>
    cases h
    exact ⟨hacc, fun _ => hturn rfl⟩
  | select now fin sel =>
    obtain ⟨rfl, rfl, ⟨sel', rfl⟩ | ⟨next, rfl⟩⟩ := select_places h <;>
      exact ⟨hacc, fun _ => hturn rfl⟩
  | prefill now sl | loopPrefill now sl =>
    cases h
    exact ⟨consumeTest_accounts hacc, fun _ => hturn rfl⟩
  | loopSkip now sl q =>
    cases h
    split <;> exact ⟨hacc, fun _ => hturn rfl⟩
  | endClock sl =>
    cases h
    obtain ⟨T, hT, hpos⟩ := hacc
    cases hT
    refine ⟨⟨{ T with fin := s.now }, ?_, hpos⟩, fun _ => ?_⟩
    · simp [noteTurn, threadEvent]
    · split <;> exact hturn rfl
  | lock sl =>
    cases h
    cases setVnpuAndIdle p sl.id sl.next <;> exact ⟨hacc, fun _ => hturn rfl⟩
  | set st =>
    have hnote : noteTurn v (threadEvent s v (.set st)) last = last := by cases st <;> rfl
    rw [hnote]
    obtain ⟨hm, rfl, ⟨st', rfl⟩ | rfl⟩ := set_places (v := v) h <;>
      exact ⟨hacc, fun _ => hm.trans (hturn rfl)⟩
  | turnAgain flag =>
    cases h
    cases flag with
    | true =>
      -- the counter is still the one that was loaded, so the drain is not skipped
      rw [if_pos (hturn rfl)]
      exact ⟨hacc, by rintro ⟨⟩⟩
    | false =>
      obtain ⟨T, hT, hle, hx⟩ := hacc
      have hleft : ∀ T' ∈ last, x.curTimeslice = T'.left := by
        intro T' hT'
        obtain rfl : T = T' := Option.some.inj (hT.symm.trans hT')
        rw [hx, Turn.left, if_pos hle]
      split <;> exact ⟨hleft, by rintro ⟨⟩⟩
  | drain begin =>
    cases h
    obtain ⟨T, hT, hpos⟩ := hacc
    cases hT
    refine ⟨?_, by rintro ⟨⟩⟩
    intro T' hT'
    simp only [noteTurn, threadEvent, if_true, Option.map_some, Option.mem_def,
      Option.some.injEq] at hT'
    subst hT'
    rw [Turn.left, if_neg (by simpa using hpos)]
  | storeTurn =>
    cases h
    exact ⟨hacc, by rintro ⟨⟩⟩

/-! ## Runs -/

/-- What another vNPU does is no part of the turns of `v`. -/
theorem noteTurn_threadEvent (hw : w ≠ v) (last : Option Turn) (pc : SchedPc) :
    noteTurn v (threadEvent s w pc) last = last := by
  cases pc with
  | top =>
    simp only [threadEvent]
    split <;> rfl
  | quota now | endClock sl | drain begin => simp [threadEvent, noteTurn, hw]
  | debtSet st | set st => cases st <;> rfl
  | _ => rfl

/-- **Every run keeps the accounts** of every vNPU. -/
theorem balanceInv_of_run {P : SchedState → SchedAct → Prop} {present : Vnpu → Bool}
    {quota : Vnpu → Fin 256} {now : ℕ} (h : SchedRun p P present quota now tr s) (v : Vnpu) :
    BalanceInv v tr s := by
  refine Lts.Exec.invariant h ⟨nofun, nofun⟩ ?_
  intro tr s a s' hI _ hs
  cases a with
  | thread w b =>
    obtain ⟨-, m, x, pc, hr, rfl⟩ := thread_of_schedStep hs
    by_cases hw : w = v
    · subst hw
      obtain ⟨hacc, hturn⟩ := BalanceInv.exec rfl hr hI.accounts hI.turn
      constructor
      · rw [setThread_thread_self]
        exact hacc
      · rw [setThread_thread_self]
        exact hturn
    · have hth : ({ s with mem := m }.setThread w ⟨pc, x⟩).thread v = s.thread v :=
        setThread_thread_of_ne _ (Ne.symm hw)
      have hm : m (.turn v) = s.mem (.turn v) := by
        refine Cmd.exec_frame hr ?_
        rcases schedulerThread_target p w (s.thread w).locals (s.thread w).pc with ht | ht | ht
        · rw [ht]; nofun
        · rw [ht]; nofun
        · rw [ht]
          simpa using hw
      have hlast : lastTurn v ((schedulerSystem p).event s (.thread w b)
          ({ s with mem := m }.setThread w ⟨pc, x⟩) :: tr) = lastTurn v tr :=
        noteTurn_threadEvent hw _ _
      constructor
      · rw [hth, hlast]
        exact hI.accounts
      · rw [hth]
        exact fun hpc => hm.trans (hI.turn hpc)
  | tick d | die w | setQuota w q | setPrefill w q =>
    cases hs
    exact ⟨hI.accounts, hI.turn⟩

/-- **When the balance is conserved.** In every run, for every vNPU and each of its turns, once
the turn is over: the balance charges every nanosecond used beyond the slice if and only if there
was no slice to spend or the slice was not overrun. -/
theorem balance_conserved_iff {present : Vnpu → Bool} {quota : Vnpu → Fin 256} {now : ℕ}
    (h : SchedRun p (fun _ _ => True) present quota now tr s) (hT : lastTurn v tr = some T)
    (hover : (s.thread v).pc = .top) :
    (s.thread v).locals.curTimeslice = T.owed ↔ T.balance + T.quota ≤ 0 ∨ T.fin ≤ T.due := by
  have hacc := (balanceInv_of_run h v).accounts
  rw [hover] at hacc
  rw [hacc T hT]
  exact left_eq_owed_iff

/-! ## Two turns -/

/-- vNPU `0` takes the first slice, of 50 ms, spends exactly that, and needs 3 ms to drain its
streams. -/
def punctualTurn : List SchedAct :=
  threadSteps 13 0 ++ .tick 50000000 :: threadSteps 8 0 ++ .tick 3000000 :: threadSteps 2 0

/-- A turn without an overrun is charged in full. -/
theorem balance_conserved_iff_punctual :
    ∃ tr s T, SchedRun .fixedShare (fun _ _ => True) (firstVnpus 2) (fun _ => 50) 0 tr s ∧
      lastTurn 0 tr = some T ∧ (s.thread 0).locals.curTimeslice = T.owed := by
  obtain ⟨tr, s, hrun, htest⟩ := exists_schedRun .fixedShare (firstVnpus 2) (fun _ => 50) 0
    (q := fun _ _ => true) (P := fun _ _ => True) (fun _ _ _ => trivial) punctualTurn
    (fun tr s => decide ((s.thread 0).pc = .top ∧
      lastTurn 0 tr = some ⟨0, 50000000, 0, 50000000, 3000000⟩)) (by decide +kernel)
  obtain ⟨hover, hT⟩ := of_decide_eq_true htest
  exact ⟨tr, s, _, hrun, hT, (balance_conserved_iff hrun hT hover).mpr (.inr (by decide))⟩

/-- vNPU `0` is in prefill when its slice ends, for 20 ms more. -/
def prefillTurn : List SchedAct :=
  threadSteps 12 0 ++ .setPrefill 0 true :: threadSteps 1 0 ++ .tick 70000000 :: threadSteps 3 0 ++
    .setPrefill 0 false :: threadSteps 8 0 ++ .tick 3000000 :: threadSteps 2 0

/-- **An overrun that is forgotten.** The slice ends 20 ms late and the drain takes 3 ms; the
balance after the turn is -3 ms, not -23 ms. -/
theorem overrun_forgotten :
    ∃ tr s T, SchedRun .fixedShare (fun _ _ => True) (firstVnpus 2) (fun _ => 50) 0 tr s ∧
      lastTurn 0 tr = some T ∧ (s.thread 0).pc = .top ∧
      (s.thread 0).locals.curTimeslice = -3000000 ∧ T.owed = -23000000 := by
  obtain ⟨tr, s, hrun, htest⟩ := exists_schedRun .fixedShare (firstVnpus 2) (fun _ => 50) 0
    (q := fun _ _ => true) (P := fun _ _ => True) (fun _ _ _ => trivial) prefillTurn
    (fun tr s => decide ((s.thread 0).pc = .top ∧ (s.thread 0).locals.curTimeslice = -3000000 ∧
      lastTurn 0 tr = some ⟨0, 50000000, 0, 70000000, 3000000⟩)) (by decide +kernel)
  obtain ⟨hover, hx, hT⟩ := of_decide_eq_true htest
  exact ⟨tr, s, _, hrun, hT, hover, hx, by decide⟩

end YellowZone.CoreLimiter
