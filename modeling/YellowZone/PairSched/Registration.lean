import YellowZone.PairSched.Closing
import YellowZone.PairSched.Monitoring
import YellowZone.PairSched.Orderly

/-!
# Registered ranks

What a slot of the shared memory promises to the context that has registered in it. All three
promises are broken by the same kind of gap: `register_worker` and `ps_close` look at a slot, or
at its group, and act on what they saw some steps later, with no compare-exchange in between.

* A group with a registered rank is not OFFLINE, unless a registration races with the end of a
  close, or takes a slot that still has a context (`registered_not_offline`, `late_offline`).
* A rank has one owner at a time, unless two registrations overlap, or a registration overlaps
  the end of a close (`one_live_owner`, `two_owners`).
* The heartbeat in a slot is the heartbeat of the registered context, unless another context of
  the slot writes it: nothing stops the heartbeat thread of a context that has lost its slot
  (`silent_rank_not_alive`, `masked_by_old_owner`).

The second and the third are about the past of a run, and are stated on recorded runs.
-/

namespace YellowZone.PairSched

open Machine

variable {g : Generation} {tr : List Event} {s s' : State} {a : Act} {c d : ℕ}

/-! ## OFFLINE -/

/-- What a context in `ps_open` has of its slot: nothing, the slot, or the slot and its bit in the
online mask. -/
def OpenPc.seat : OpenPc → ℕ
  | .primary | .status _ | .clock _ | .regClock | .regOldSession _ | .regOldHeartbeat _ _ => 0
  | .regPid _ | .regLastSeq _ | .regHeartbeat _ | .regSession => 0
  | .regOnline => 1
  | _ => 2

@[inherit_doc OpenPc.seat]
def CallPc.seat : CallPc → ℕ
  | .opening pc => pc.seat
  | _ => 0

/-- What `ps_close` has left of it. -/
def ClosePc.seat : ClosePc → ℕ
  | .clearHeartbeat _ | .clearPid _ | .clearSession _ => 1
  | .online _ | .storeOffline | .shutdown | .shutdownWake _ => 0
  | _ => 2

/-- What a context has of its slot. A process that is killed never acts again. -/
def Ctx.seat (x : Ctx) : ℕ :=
  if x.killed then 0
  else if x.call.isOpen then if x.closed then 0 else x.close.elim 2 ClosePc.seat
  else x.call.seat

/-- The next step of its `ps_close` stores OFFLINE. -/
def Ctx.StoresOffline (x : Ctx) : Prop :=
  x.killed = false ∧ x.call.isOpen = true ∧ x.close = some .storeOffline

/-- Registrations do not race with `ps_close`. A context stores its session when no other context
has the slot: they are closed up to the store that clears it, have failed to open, or are dead. And
no bit is set in an online mask between the look at it in `ps_close` and the store of OFFLINE. -/
def unraced (g : Generation) (s : State) : Act → Prop
  | .call c _ =>
    ((s.ctx c).call = .opening .regSession → ∀ d, d ≠ c → g.SameSlot c d → (s.ctx d).seat = 0) ∧
      ((s.ctx c).call = .opening .regOnline → ∀ d, g.inst d = g.inst c →
        ¬(s.ctx d).StoresOffline)
  | _ => True

/-- `register_worker` has looked at the state of its group, and `ps_open` is not being undone. -/
def CallPc.looked : CallPc → Bool
  | .opening .regWake | .opening .loadSeq | .opening .startHeartbeat => true
  | .opening .heartbeatStarted | .opening .startCoordinator | .opening .coordinatorStarted => true
  | pc => pc.isOpen

/-- Only a closing context stores OFFLINE. -/
theorem Trans.state_offline {e : Event} (h : Trans g s a e s') {i : Inst}
    (hs' : s'.mem (.state i) = .offline) :
    s.mem (.state i) = .offline ∨
      ∃ c, a = .close c ∧ g.inst c = i ∧ (s.ctx c).close = some .storeOffline := by
  cases h with
  | call c b hk ht =>
    rcases ht.state i with heq | ⟨-, hmove⟩
    · exact .inl (heq ▸ hs')
    · cases hmove <;> rename_i h' <;> rw [h'] at hs' <;> cases hs'
  | coord hk ht =>
    rcases ht.state i with heq | ⟨-, -, h'⟩ | ⟨-, -, -, h'⟩
    · exact .inl (heq ▸ hs')
    · rw [h'] at hs'
      cases hs'
    · rw [h'] at hs'
      cases hs'
  | other ht =>
    rcases ht.state i with heq | ⟨c, rfl, rfl, hc, -⟩
    · exact .inl (heq ▸ hs')
    · exact .inr ⟨c, rfl, rfl, hc⟩

/-- A context comes to rely on the state of its group by looking at it. -/
theorem looked_of_step (h : step g s a = some s') (hl : (s'.ctx c).call.looked = true) :
    (s.ctx c).call.looked = true ∨ ∃ b, a = .call c b ∧ s'.mem (.state (g.inst c)) ≠ .offline := by
  by_cases ha : a.isCallOf c = true
  · obtain ⟨b, rfl⟩ := Act.eq_call_of_isCallOf ha
    cases hpc : (s.ctx c).call with
    | opening pc =>
      obtain ⟨r, hr, hm, -, hpc'⟩ := open_of_step h hpc
      rw [hpc'] at hl
      rw [hm]
      cases pc with
      | regState =>
        refine .inr ⟨b, rfl, ?_⟩
        cases hr
        dsimp only at hl ⊢
        split at hl
        · cases hl
        · assumption
      | regIdle =>
        refine .inr ⟨b, rfl, ?_⟩
        cases hr
        dsimp only
        rw [Mem.set_self]
        split
        · nofun
        · assumption
      | regWake | loadSeq | startHeartbeat | heartbeatStarted | startCoordinator
      | coordinatorStarted => exact .inl rfl
      | undoJoin e =>
        rw [psOpen, Cmd.exec_await] at hr
        obtain ⟨-, rfl⟩ := hr
        cases hl
      | primary | status hb | clock hb | regOldHeartbeat now v | undoStopping e =>
        cases hr
        dsimp only at hl
        split at hl <;> cases hl
      | _ =>
        cases hr
        cases hl
    | idle r | enter pc | leave q gid pc => exact .inl rfl
    | absent | openFailed e =>
      obtain ⟨cmd, -, hc, -⟩ := call_of_step h
      rw [hpc] at hc
      cases hc
  · left
    have hstep := ctxStep_of_step (c := c) h
    clear h
    generalize s'.ctx c = y at hstep hl
    cases hstep with
    | openCall h => cases hl
    | enterCall h | leaveCall h =>
      have hidle : (s.ctx c).call.isIdle = true := by
        simp only [Ctx.canCall, Bool.and_eq_true] at h
        exact h.2
      cases hpc : (s.ctx c).call <;> rw [hpc] at hidle <;> first | rfl | cases hidle
    | call hc hr => simp [Act.isCallOf] at ha
    | _ => exact hl

theorem psOpen_seat {m : Memory} {x : Locals} {t : ℕ} {b : Bool} {pc : OpenPc}
    {r : Memory × Locals × Ctl OpenPc OpenResult} (h : (psOpen g c x pc).exec m t b = some r)
    (hs : pc ≠ .regSession) (ho : pc ≠ .regOnline) :
    r.2.2.elim OpenPc.seat (fun res => if res.isOk then 2 else 0) ≤ pc.seat := by
  cases pc with
  | undoJoin e =>
    rw [psOpen, Cmd.exec_await] at h
    obtain ⟨-, rfl⟩ := h
    exact Nat.le_refl _
  | regSession => exact absurd rfl hs
  | regOnline => exact absurd rfl ho
  | primary | status hb | clock hb | regOldHeartbeat t v | regState | startHeartbeat
  | heartbeatStarted | startCoordinator | undoStopping e =>
    cases h
    dsimp only
    split <;> exact Nat.le_refl _
  | undoOnline e =>
    cases h
    exact Nat.zero_le _
  | _ =>
    cases h
    exact Nat.le_refl _

theorem ClosePc.seat_le (pc : ClosePc) : pc.seat ≤ 2 := by
  cases pc <;> first | exact Nat.le_refl _ | exact Nat.le_succ _ | exact Nat.zero_le _

theorem psClose_seat {m : Memory} {x : Locals} {t : ℕ} {b : Bool} {pc : ClosePc}
    {r : Memory × Ctl ClosePc Bool} (h : (psClose g c x pc).exec m t b = some r) :
    r.2.elim ClosePc.seat (fun released => if released then 0 else 2) ≤ pc.seat := by
  have hnext := closeNext_of_exec h
  generalize r.2 = ctl at hnext
  cases hnext with
  | early hpc =>
    refine Nat.le_trans (ClosePc.seat_le _) ?_
    cases pc <;> first | exact Nat.le_refl _ | cases hpc
  | clearOnline | clearSession => exact Nat.le_succ _
  | finish | finishPair => exact Nat.zero_le _
  | _ => exact Nat.le_refl _

/-- **A context gains a seat by registering.** -/
theorem seat_of_step (h : step g s a = some s') :
    (s'.ctx c).seat ≤ (s.ctx c).seat ∨ ∃ b, a = .call c b ∧
      ((s.ctx c).call = .opening .regSession ∧ (s'.ctx c).seat ≤ 1 ∨
        (s.ctx c).call = .opening .regOnline) := by
  have hclosing : a = .close c → (s'.ctx c).seat ≤ (s.ctx c).seat := by
    rintro rfl
    obtain ⟨pc, ⟨m, ctl⟩, hpc, hr, -, hclose', hclosed', hcall'⟩ := closing_of_step h
    have hseat := psClose_seat hr
    have hk := killed_of_step (c := c) h
    simp only [Ctx.seat, hcall', hclose', hclosed', hpc]
    cases hk' : (s'.ctx c).killed with
    | true => exact Nat.zero_le _
    | false =>
      rw [hk hk']
      simp only [Bool.false_eq_true, if_false]
      split
      · cases (s.ctx c).closed with
        | true => exact Nat.le_refl _
        | false => rcases ctl with pc' | ⟨_ | _⟩ <;> exact hseat
      · exact Nat.le_refl _
  have hnone : a = .closeCall c → (s.ctx c).close = none := by
    rintro rfl
    cases steps_of_step h with
    | closeCall _ _ hnone => exact hnone
  have hstep := ctxStep_of_step (c := c) h
  clear h
  generalize s'.ctx c = y at hstep hclosing ⊢
  cases hstep with
  | kill => exact .inl (by simp [Ctx.seat])
  | openCall hc => exact .inl (by simp [Ctx.seat, CallPc.isOpen, CallPc.seat, OpenPc.seat])
  | enterCall hc | leaveCall hc =>
    left
    rw [Ctx.seat, Ctx.seat, Ctx.isOpen_of_canCall hc]
    exact Nat.le_refl _
  | closeCall hc => exact .inl (by simp [Ctx.seat, hnone rfl, ClosePc.seat])
  | close => exact .inl (hclosing rfl)
  | @call b cmd r hc hr =>
    cases hpc : (s.ctx c).call with
    | opening pc =>
      rw [hpc] at hc
      cases hc
      obtain ⟨⟨m', x', ctl⟩, hr', rfl⟩ := Cmd.exec_map_eq_some.mp hr
      by_cases hs : pc = .regSession
      · subst hs
        cases hr'
        refine .inr ⟨b, rfl, .inl ⟨rfl, ?_⟩⟩
        simp only [Ctx.seat]
        split <;> simp [CallPc.isOpen, CallPc.seat, OpenPc.seat]
      by_cases ho : pc = .regOnline
      · exact .inr ⟨b, rfl, .inr (by rw [ho])⟩
      have hseat := psOpen_seat hr' hs ho
      left
      simp only [Ctx.seat, hpc]
      split
      · exact Nat.le_refl _
      rcases ctl with pc' | e | u
      · exact hseat
      · exact Nat.zero_le _
      · refine Nat.le_trans ?_ hseat
        change (if (s.ctx c).closed = true then 0 else (s.ctx c).close.elim 2 ClosePc.seat) ≤ 2
        split
        · exact Nat.zero_le _
        · cases (s.ctx c).close with
          | none => exact Nat.le_refl _
          | some pc => exact ClosePc.seat_le pc
    | enter pc | leave q gid pc =>
      rw [hpc] at hc
      cases hc
      obtain ⟨⟨m', x', ctl⟩, -, rfl⟩ := Cmd.exec_map_eq_some.mp hr
      left
      cases ctl <;> simp [Ctx.seat, hpc, CallPc.isOpen, Ctl.elim]
    | _ => rw [hpc] at hc; cases hc
  | _ => exact .inl (Nat.le_refl _)

/-- A context that clears its bit has its slot until then. -/
theorem seat_of_clears (h : step g s a = some s')
    (hC : ClosingOk (s.mem (.stopping d)) (s.ctx d)) (ha : ClearsOnline s d a) :
    0 < (s.ctx d).seat ∧ (s'.ctx d).seat < 2 := by
  cases ha with
  | undo b e hpc =>
    obtain ⟨r, hr, -, -, hpc'⟩ := open_of_step h hpc
    cases hr
    refine ⟨by simp [Ctx.seat, alive_of_call h, hpc, CallPc.isOpen, CallPc.seat, OpenPc.seat], ?_⟩
    rw [Ctx.seat, hpc']
    split
    · exact Nat.zero_lt_two
    · exact Nat.zero_lt_two
  | close st hpc =>
    obtain ⟨pc, r, hpc', hr, -, hclose', -, hcall'⟩ := closing_of_step h
    obtain ⟨hopen, hclosed⟩ := hC.isOpen (by rw [hpc]; rintro ⟨⟩)
    rw [hpc] at hpc'
    cases hpc'
    cases hr
    refine ⟨by simp [Ctx.seat, alive_of_close h, hopen, hclosed, hpc, ClosePc.seat], ?_⟩
    rw [Ctx.seat, hcall', hopen, hclose']
    split
    · exact Nat.zero_lt_two
    · change (if (s'.ctx d).closed = true then 0 else 1) < 2
      split <;> decide

/-- Before it stores OFFLINE, `ps_close` has seen an empty online mask. -/
theorem storesOffline_of_step (h : step g s a = some s')
    (hC : ClosingOk (s.mem (.stopping d)) (s.ctx d)) (hd : (s'.ctx d).StoresOffline) :
    (s.ctx d).StoresOffline ∨ s'.mem (.onlineMask (g.inst d)) = 0#64 := by
  obtain ⟨hk, -, hclose⟩ := hd
  rcases close_cases h hclose with hne | ⟨rfl, pc, r, -, hr, hctl, -, hm⟩ | ⟨-, hold⟩
  · cases hne
  · right
    have hnext := closeNext_of_exec hr
    rw [hctl] at hnext
    cases hnext with
    | vacant hmask =>
      cases hr
      rw [hm]
      exact hmask
    | early _ hpc' => cases hpc'
  · exact .inl ⟨killed_of_step h hk, (hC.isOpen (by rw [hold]; rintro ⟨⟩)).1, hold⟩

/-- A slot has one context at most, which has its bit in the online mask; a mask is empty while
OFFLINE is about to be stored; and a group with a context that has looked at its state is not
OFFLINE. -/
structure SeatsOk (g : Generation) (s : State) : Prop where
  unique : ∀ c d, g.SameSlot c d → 0 < (s.ctx c).seat → 0 < (s.ctx d).seat → c = d
  online : ∀ c, 2 ≤ (s.ctx c).seat →
    BitMask.HasBit (s.mem (.onlineMask (g.inst c))) (g.rank c)
  vacant : ∀ d, (s.ctx d).StoresOffline → s.mem (.onlineMask (g.inst d)) = 0#64
  state : ∀ c, 2 ≤ (s.ctx c).seat → (s.ctx c).call.looked = true →
    s.mem (.state (g.inst c)) ≠ .offline

theorem SeatsOk.unique_step (hI : SeatsOk g s) (hP : unraced g s a) (h : step g s a = some s')
    (hcd : g.SameSlot c d) (hc : 0 < (s'.ctx c).seat) (hd : 0 < (s'.ctx d).seat) : c = d := by
  have hnew : ∀ c, 0 < (s'.ctx c).seat → 0 < (s.ctx c).seat ∨
      ∃ b, a = .call c b ∧ (s.ctx c).call = .opening .regSession := by
    intro c hc
    rcases seat_of_step (c := c) h with hle | ⟨b, rfl, ⟨hpc, -⟩ | hpc⟩
    · exact .inl (Nat.lt_of_lt_of_le hc hle)
    · exact .inr ⟨b, rfl, hpc⟩
    · exact .inl (by simp [Ctx.seat, alive_of_call h, hpc, CallPc.isOpen, CallPc.seat, OpenPc.seat])
  rcases hnew c hc with hc | ⟨b, rfl, hpc⟩
  · rcases hnew d hd with hd | ⟨b, rfl, hpc⟩
    · exact hI.unique c d hcd hc hd
    · by_contra hne
      exact Nat.ne_of_gt hc (hP.1 hpc c hne hcd.symm)
  · rcases hnew d hd with hd | ⟨b', hb', -⟩
    · by_contra hne
      exact Nat.ne_of_gt hd (hP.1 hpc d (Ne.symm hne) hcd)
    · cases hb'
      rfl

theorem SeatsOk.online_step (hI : SeatsOk g s)
    (hC : ∀ d, ClosingOk (s.mem (.stopping d)) (s.ctx d)) (h : step g s a = some s')
    (hc : 2 ≤ (s'.ctx c).seat) :
    BitMask.HasBit (s'.mem (.onlineMask (g.inst c))) (g.rank c) := by
  have hrank : ∀ d, g.rank d < 64 := fun d => Nat.lt_of_lt_of_le (g.rank_lt d) g.workerCount_le
  have hset : ∀ m d, BitMask.HasBit (m ||| g.bitOf d) (g.rank c) ↔
      BitMask.HasBit m (g.rank c) ∨ g.rank c = g.rank d :=
    fun m d => BitMask.hasBit_or_bit (hrank d)
  rcases seat_of_step (c := c) h with hle | ⟨b, rfl, ⟨-, hle⟩ | hpc⟩
  · have hbit := hI.online c (Nat.le_trans hc hle)
    rcases online_of_step h (g.inst c) with heq | ⟨d, b, rfl, hpc, hi, heq⟩ | ⟨d, hd, hi, heq⟩
    · rw [heq]
      exact hbit
    · rw [heq]
      exact (hset _ d).mpr (.inl hbit)
    · -- whoever clears a bit has the slot, so the bit is another one
      obtain ⟨hseat, hlost⟩ := seat_of_clears h (hC d) hd
      have hne : g.rank c ≠ g.rank d := by
        intro hr
        obtain rfl := hI.unique c d ⟨hi.symm, hr⟩ (by omega) hseat
        omega
      rw [heq]
      rw [BitMask.hasBit_iff_getLsbD] at hbit ⊢
      rw [BitVec.getLsbD_and, hbit, BitVec.getLsbD_not, Generation.bitOf,
        BitMask.getLsbD_bit (hrank d)]
      simp [hne, hrank c]
  · omega
  · obtain ⟨r, hr, hm, -⟩ := open_of_step h hpc
    cases hr
    rw [hm]
    dsimp only
    rw [Mem.set_self]
    exact (hset _ c).mpr (.inr rfl)

theorem SeatsOk.state_step (hI : SeatsOk g s)
    (hC : ∀ d, ClosingOk (s.mem (.stopping d)) (s.ctx d)) (h : step g s a = some s')
    (hc : 2 ≤ (s'.ctx c).seat) (hl : (s'.ctx c).call.looked = true) :
    s'.mem (.state (g.inst c)) ≠ .offline := by
  intro hoff
  rcases looked_of_step h hl with hl | ⟨b, -, hne⟩
  · have hold : 2 ≤ (s.ctx c).seat := by
      rcases seat_of_step (c := c) h with hle | ⟨b, rfl, ⟨-, hle⟩ | hpc⟩
      · exact Nat.le_trans hc hle
      · omega
      · rw [hpc] at hl
        cases hl
    rcases (trans_of_step h).state_offline hoff with hoff | ⟨d, rfl, hi, hclose⟩
    · exact hI.state c hold hl hoff
    · -- the mask is empty when OFFLINE is stored, and has the bit of `c`
      have hopen := ((hC d).isOpen (by rw [hclose]; rintro ⟨⟩)).1
      have hbit := hI.online c hold
      rw [← hi, hI.vacant d ⟨alive_of_close h, hopen, hclose⟩] at hbit
      exact BitMask.not_hasBit_zero _ hbit
  · exact hne hoff

theorem seatsOk_of_run (h : Run g (unraced g) tr s) : SeatsOk g s := by
  induction h with
  | start =>
    have hseat : ∀ c, ((initialState g).ctx c).seat = 0 := fun c => by
      by_cases hc : c = 0
      · subst hc
        rfl
      · simp [initialState, hc, Ctx.absent, Ctx.seat, CallPc.isOpen, CallPc.seat]
    refine ⟨fun c d _ hc => ?_, fun c hc => ?_, fun d hd => ?_, fun c hc => ?_⟩
    · rw [hseat c] at hc
      cases hc
    · rw [hseat c] at hc
      cases hc
    · rw [Ctx.StoresOffline, close_initialState] at hd
      cases hd.2.2
    · rw [hseat c] at hc
      cases hc
  | next hrun hP hs ih =>
    have hC := closingOk_of_run hrun
    refine ⟨fun c d hcd => ih.unique_step hP hs hcd, fun c => ih.online_step hC hs,
      fun d hd => ?_, fun c => ih.state_step hC hs⟩
    rcases storesOffline_of_step hs (hC d) hd with hd | hmask
    · have hzero := ih.vacant d hd
      rcases online_of_step hs (g.inst d) with heq | ⟨c, b, rfl, hpc, hi, -⟩ | ⟨c, -, -, heq⟩
      · exact heq.trans hzero
      · exact absurd hd (hP.2 hpc d hi.symm)
      · rw [heq, hzero, BitVec.zero_and]
    · exact hmask

/-- **A registered group is not OFFLINE**, as long as registrations do not race with `ps_close`. -/
theorem registered_not_offline (h : Run g (unraced g) tr s)
    (ho : (s.ctx c).call.isOpen = true) (hk : (s.ctx c).killed = false)
    (hclosed : (s.ctx c).closed = false) (hclose : (s.ctx c).close = none) :
    s.mem (.state (g.inst c)) ≠ .offline := by
  refine (seatsOk_of_run h).state c ?_ ?_
  · simp [Ctx.seat, ho, hk, hclosed, hclose]
  · cases hpc : (s.ctx c).call <;> rw [hpc] at ho <;> first | rfl | cases ho

/-- `ps_close` of `c`, up to its look at the online mask; its heartbeat thread ends meanwhile. -/
def closeUpToOnline (c : ℕ) : List Act :=
  .closeCall c :: closes 4 c ++ [.beat c, .beat c, .beat c] ++ closes 10 c

/-- `unraced`, when only the first `n` contexts are opened. -/
def unracedFirst (g : Generation) (n : ℕ) (s : State) : Act → Bool
  | .openCall c => decide (c < n)
  | .call c _ => (List.range n).all fun d =>
      (!((s.ctx c).call matches .opening .regSession) || d == c ||
        decide (¬(g.inst c = g.inst d ∧ g.rank c = g.rank d)) || (s.ctx d).seat == 0) &&
      (!((s.ctx c).call matches .opening .regOnline) ||
        !((s.ctx d).close matches some .storeOffline))
  | _ => true

theorem unraced_of_unracedFirst {n : ℕ} (s : State) (a : Act)
    (habs : ∀ c, n ≤ c → (s.ctx c).call = .absent) (h : unracedFirst g n s a = true) :
    unraced g s a := by
  cases a with
  | call c b =>
    simp only [unracedFirst, List.all_eq_true, List.mem_range, Bool.and_eq_true] at h
    refine ⟨fun hpc d hne hcd => ?_, fun hpc d _ hd => ?_⟩
    · by_cases hd : d < n
      · simpa [hpc, hne, hcd.1, hcd.2] using (h d hd).1
      · simp [Ctx.seat, habs d (Nat.not_lt.mp hd), CallPc.isOpen, CallPc.seat]
    · by_cases hn : d < n
      · simpa [hpc, hd.2.2] using (h d hn).2
      · have hopen := hd.2.1
        rw [habs d (Nat.not_lt.mp hn)] at hopen
        cases hopen
  | _ => trivial

/-- Rank `0` of B is closed up to its store of OFFLINE and past it, and opened again. -/
theorem registered_not_offline_restart :
    ∃ tr s, Run pairOfOne (unraced pairOfOne) tr s ∧ (s.ctx 3).call.isOpen = true ∧
      s.mem (.state .B) ≠ .offline := by
  obtain ⟨tr, s, h, htest⟩ := exists_run pairOfOne (p := unracedFirst pairOfOne 4) (fun _ _ => id)
    (openBoth ++ closeUpToOnline 1 ++ closes 2 1 ++ .openCall 3 :: calls 17 3)
    (fun _ s => (s.ctx 3).call.isOpen && !(s.ctx 3).killed && !(s.ctx 3).closed &&
      (s.ctx 3).close.isNone) (by decide +kernel)
  simp only [Bool.and_eq_true, Bool.not_eq_true', Option.isNone_iff_eq_none] at htest
  obtain ⟨⟨⟨hopen, hk⟩, hclosed⟩, hclose⟩ := htest
  have hrun := exec_of_first rfl (by decide) (fun s c => of_decide_eq_true)
    unraced_of_unracedFirst h
  exact ⟨tr, s, hrun, hopen, registered_not_offline hrun hopen hk hclosed hclose⟩

/-- **OFFLINE under a registered rank.** The closing rank of B has seen an empty group; before it
stores OFFLINE, the rank is registered anew and finds the group IDLE. -/
theorem late_offline :
    ∃ tr s, Run pairOfOne anyStep tr s ∧ (s.mem .status).state = .running ∧
      (s.ctx 3).call.isOpen = true ∧ (s.ctx 3).close.isNone = true ∧
      s.mem (.stopping 3) = false ∧ s.mem (.state (pairOfOne.inst 3)) = .offline := by
  obtain ⟨tr, s, h, htest⟩ := exists_run pairOfOne anyStep_of_allowed
    (openBoth ++ closeUpToOnline 1 ++ closes 1 1 ++ .openCall 3 :: calls 16 3 ++ closes 1 1)
    (fun _ s => decide ((s.mem .status).state = .running ∧ (s.ctx 3).call.isOpen = true ∧
      (s.ctx 3).close.isNone = true ∧ s.mem (.stopping 3) = false ∧
      s.mem (.state (pairOfOne.inst 3)) = .offline)) (by decide +kernel)
  exact ⟨tr, s, h, of_decide_eq_true htest⟩

/-! ## Times

The clock is read before a heartbeat is stored, so what is in a slot is never ahead of it. -/

/-- The time a program point carries. -/
def OpenPc.time : OpenPc → ℕ
  | .regOldSession now | .regOldHeartbeat now _ | .regPid now => now
  | .regLastSeq now | .regHeartbeat now => now
  | _ => 0

@[inherit_doc OpenPc.time]
def CallPc.time : CallPc → ℕ
  | .opening pc => pc.time
  | _ => 0

@[inherit_doc OpenPc.time]
def HeartbeatPc.time : HeartbeatPc → ℕ
  | .store t => t
  | _ => 0

/-- No heartbeat is ahead of the clock, neither in a slot nor on its way there. -/
structure TimesOk (s : State) : Prop where
  slot : ∀ i r, s.mem (.heartbeatNs i r) ≤ s.now
  call : ∀ c, (s.ctx c).call.time ≤ s.now
  beat : ∀ c, (s.ctx c).heartbeat.time ≤ s.now

theorem now_le_of_step (h : step g s a = some s') : s.now ≤ s'.now := by
  have ht := trans_of_step h
  generalize event s a s' = e at ht
  cases ht with
  | call c b hk ht _ _ _ hnow => exact Nat.le_of_eq hnow.symm
  | coord hk ht _ hnow => exact Nat.le_of_eq hnow.symm
  | other ht _ _ _ _ hnow => exact hnow

theorem CallPc.time_of_isOpen {pc : CallPc} (h : pc.isOpen = true) : pc.time = 0 := by
  cases pc <;> first | rfl | cases h

theorem time_of_open {m : Memory} {x : Locals} {now : ℕ} {b : Bool} {pc : OpenPc}
    {r : Memory × Locals × Ctl OpenPc OpenResult} (h : (psOpen g c x pc).exec m now b = some r)
    (ht : pc.time ≤ now) {pc' : OpenPc} (hpc : r.2.2 = .goto pc') : pc'.time ≤ now := by
  cases pc with
  | undoJoin e =>
    rw [psOpen, Cmd.exec_await] at h
    obtain ⟨-, rfl⟩ := h
    cases hpc
    exact Nat.zero_le _
  | regClock =>
    cases h
    cases hpc
    exact Nat.le_refl _
  | primary | status hb | clock hb | regOldHeartbeat t v | regState | startHeartbeat
  | heartbeatStarted | startCoordinator | undoStopping e =>
    cases h
    dsimp only at hpc
    split at hpc <;> cases hpc <;> exact ht
  | _ =>
    cases h
    cases hpc <;> first | exact ht | exact Nat.zero_le _

theorem TimesOk.step (hI : TimesOk s) (h : step g s a = some s') : TimesOk s' := by
  have hnow := now_le_of_step h
  refine ⟨fun i r => ?_, fun c => ?_, fun c => ?_⟩
  · by_cases hw : written g s a = some (.heartbeatNs i r)
    · have hval : s'.mem (.heartbeatNs i r) ≤ s.now := by
        cases slotWriter_of_written hw rfl with
        | @regHeartbeat c now b hpc =>
          obtain ⟨r, hr, hm, -⟩ := open_of_step h hpc
          have ht := hI.call c
          rw [hpc] at ht
          cases hr
          rw [hm]
          dsimp only
          rw [Mem.set_self]
          exact ht
        | clearHeartbeat hpc =>
          obtain ⟨pc, r, hpc', hr, hm, -⟩ := closing_of_step h
          rw [hpc] at hpc'
          cases hpc'
          cases hr
          rw [hm]
          simp
        | @beat c t hpc =>
          obtain ⟨r, hr, hm, -⟩ := beat_of_step h
          have ht := hI.beat c
          rw [hpc] at hr ht
          cases hr
          rw [hm]
          dsimp only
          rw [Mem.set_self]
          exact ht
      exact Nat.le_trans hval hnow
    · rw [frame_of_step h hw]
      exact Nat.le_trans (hI.slot i r) hnow
  · have hstep := ctxStep_of_step (c := c) h
    by_cases ha : a.isCallOf c = true
    · obtain ⟨b, rfl⟩ := Act.eq_call_of_isCallOf ha
      cases hpc : (s.ctx c).call with
      | opening pc =>
        obtain ⟨r, hr, -, -, hpc'⟩ := open_of_step h hpc
        have ht := hI.call c
        rw [hpc] at ht
        rw [hpc']
        cases hctl : r.2.2 with
        | goto pc' => exact Nat.le_trans (time_of_open hr ht hctl) hnow
        | ret res => cases res <;> exact Nat.zero_le _
      | idle res | enter pc | leave q gid pc =>
        rw [CallPc.time_of_isOpen (isOpen_of_step h (by rw [hpc]; rfl))]
        exact Nat.zero_le _
      | absent | openFailed e =>
        obtain ⟨cmd, -, hc, -⟩ := call_of_step h
        rw [hpc] at hc
        cases hc
    · clear h
      generalize s'.ctx c = y at hstep
      cases hstep with
      | openCall h | enterCall h | leaveCall h => exact Nat.zero_le _
      | call hc hr => simp [Act.isCallOf] at ha
      | _ => exact Nat.le_trans (hI.call c) hnow
  · by_cases ha : a = .beat c
    · subst ha
      obtain ⟨r, hr, -, hpc'⟩ := beat_of_step h
      rw [hpc']
      cases hpc : (s.ctx c).heartbeat with
      | clock =>
        rw [hpc] at hr
        cases hr
        exact hnow
      | start | done =>
        rw [hpc, heartbeatMain, Cmd.exec_await] at hr
        obtain ⟨-, rfl⟩ := hr
        exact Nat.zero_le _
      | stopping =>
        rw [hpc] at hr
        cases hr
        dsimp only
        split <;> exact Nat.zero_le _
      | _ =>
        rw [hpc] at hr
        cases hr
        exact Nat.zero_le _
    · have hstep := ctxStep_of_step (c := c) h
      clear h
      generalize s'.ctx c = y at hstep
      cases hstep with
      | beat pc => exact absurd rfl ha
      | _ => exact Nat.le_trans (hI.beat c) hnow

theorem timesOk_of_run {P : State → Act → Prop} (h : Run g P tr s) : TimesOk s := by
  refine h.invariant (I := fun _ s => TimesOk s) ?_ fun _ _ _ _ hI _ hs => hI.step hs
  refine ⟨fun i r => Nat.zero_le _, fun c => ?_, fun c => ?_⟩ <;>
  · by_cases hc : c = 0
    · subst hc
      exact Nat.zero_le _
    · simp [initialState, hc, Ctx.absent, CallPc.time, HeartbeatPc.time]

/-! ## Owners of a slot -/

/-- The context has taken its slot. -/
def Registered (s : State) (c : ℕ) : Prop := (s.phase c).registered = true

/-- A context on its way to take its slot, which it has found free: it has seen no session, or
one whose heartbeat was too old. -/
def CallPc.foundFree : CallPc → Bool
  | .opening (.regOldHeartbeat _ v) => v == 0
  | .opening (.regPid _) | .opening (.regLastSeq _) | .opening (.regHeartbeat _) => true
  | .opening .regSession => true
  | _ => false

/-- Registrations of a slot do not overlap each other, nor the end of a close: a session is stored
when no other context has found the slot free, and zeroed when it still is the one of the closing
context. -/
def apart (g : Generation) (s : State) : Act → Prop
  | .call c _ => (s.ctx c).call = .opening .regSession → ∀ d, d ≠ c → g.SameSlot c d →
      (s.ctx d).killed = false → (s.ctx d).call.foundFree = false
  | .close c => (∃ st, (s.ctx c).close = some (.clearSession st)) →
      s.mem (.session (g.inst c) (g.rank c)) = g.session c
  | _ => True

/-- The heartbeat in the slot of `c` has expired. -/
def SlotExpired (g : Generation) (s : State) (c : ℕ) : Prop :=
  heartbeatExpired (s.mem (.heartbeatNs (g.inst c) (g.rank c))) s.now g.peerTimeoutMs = true

/-- The `ps_close` of `c` has been called, or the heartbeat in its slot has expired while it was
registered. -/
def GivenUp (g : Generation) (hist : List (State × Act)) (c : ℕ) : Prop :=
  (∃ s, (s, .closeCall c) ∈ hist) ∨ ∃ p ∈ hist, Registered p.1 c ∧ SlotExpired g p.1 c

section Owners

variable {hist : List (State × Act)} {p : State × Act}

theorem GivenUp.cons (h : GivenUp g hist c) : GivenUp g (p :: hist) c := by
  rcases h with ⟨s, hs⟩ | ⟨q, hq, hreg⟩
  · exact .inl ⟨s, .tail _ hs⟩
  · exact .inr ⟨q, .tail _ hq, hreg⟩

theorem claiming_iff : s.phase c = .claiming ↔ (s.ctx c).call = .opening .regSession := by
  refine ⟨fun h => ?_, fun h => by rw [State.phase, h]; rfl⟩
  have hopen := isOpen_of_claiming h
  rw [State.phase] at h
  cases hpc : (s.ctx c).call with
  | opening pc => rw [hpc] at h; cases pc <;> first | rfl | cases h
  | absent | openFailed e => rw [hpc] at h; cases h
  | _ => rw [hpc] at hopen; cases hopen

/-- Contexts register by storing their session. -/
theorem registered_of_step (h : step g s a = some s') (hr : Registered s' c) :
    Registered s c ∨ ∃ b, a = .call c b ∧ (s.ctx c).call = .opening .regSession := by
  have ht := trans_of_step h
  cases ha : a.isCallOf c with
  | false =>
    rw [Registered, (ht.phase_eq ha).1] at hr
    exact .inl hr
  | true =>
    obtain ⟨b, rfl⟩ := Act.eq_call_of_isCallOf ha
    generalize event s (.call c b) s' = e at ht
    cases ht with
    | call c b hk ht =>
      rw [Registered] at hr
      generalize s'.mem = m', s'.locals c = x', s'.phase c = p', hp : s.phase c = p at ht hr
      cases ht with
      | claim => exact .inr ⟨b, rfl, claiming_iff.mp hp⟩
      | quiet hm he => exact .inl (by rw [Registered, hp]; exact hr)
      | openClaim hm | undo hm => cases hr
      | drop hs hd | abort hd =>
        left
        rw [Registered, hp]
        revert hd
        cases p <;> simp [Phase.canDrop, Phase.canAbort, Phase.registered]
      | backOff hb => rcases hb with rfl | ⟨gr, rfl⟩ <;> exact .inl (by rw [Registered, hp]; rfl)
      | fence hf => rcases hf with rfl | ⟨rfl, -⟩ <;> exact .inl (by rw [Registered, hp]; rfl)
      | _ => exact .inl (by rw [Registered, hp]; rfl)
    | other ht _ _ _ _ _ _ hother => cases hother

/-- A context finds its slot free when it sees no session, or an old heartbeat. -/
theorem foundFree_of_step (h : step g s a = some s') (hf : (s'.ctx c).call.foundFree = true) :
    (s.ctx c).call.foundFree = true ∨ ∃ b, a = .call c b ∧
      (s.mem (.session (g.inst c) (g.rank c)) = 0 ∨
        ∃ now v, (s.ctx c).call = .opening (.regOldHeartbeat now v) ∧
          heartbeatExpired (s.mem (.heartbeatNs (g.inst c) (g.rank c))) now g.peerTimeoutMs =
            true) := by
  by_cases ha : a.isCallOf c = true
  · obtain ⟨b, rfl⟩ := Act.eq_call_of_isCallOf ha
    cases hpc : (s.ctx c).call with
    | opening pc =>
      obtain ⟨r, hr, -, -, hpc'⟩ := open_of_step h hpc
      rw [hpc'] at hf
      cases pc with
      | regOldSession now =>
        cases hr
        exact .inr ⟨b, rfl, .inl (by simpa [Ctl.elim, CallPc.foundFree] using hf)⟩
      | regOldHeartbeat now v =>
        cases hr
        dsimp only at hf
        split at hf
        · cases hf
        · rename_i hcheck
          by_cases hv : v = 0
          · exact .inl (by simp [CallPc.foundFree, hv])
          · exact .inr ⟨b, rfl, .inr ⟨now, v, rfl, by simpa [hv] using hcheck⟩⟩
      | regPid now | regLastSeq now | regHeartbeat now | regSession => exact .inl rfl
      | undoJoin e =>
        rw [psOpen, Cmd.exec_await] at hr
        obtain ⟨-, rfl⟩ := hr
        cases hf
      | primary | status hb | clock hb | regState | startHeartbeat | heartbeatStarted
      | startCoordinator | undoStopping e =>
        cases hr
        dsimp only at hf
        split at hf <;> cases hf
      | _ =>
        cases hr
        cases hf
    | idle res | enter pc | leave q gid pc =>
      have hopen := isOpen_of_step h (c := c) (by rw [hpc]; rfl)
      cases hpc' : (s'.ctx c).call <;> rw [hpc'] at hf hopen <;> first | cases hf | cases hopen
    | absent | openFailed e =>
      obtain ⟨cmd, -, hc, -⟩ := call_of_step h
      rw [hpc] at hc
      cases hc
  · have hstep := ctxStep_of_step (c := c) h
    clear h
    generalize s'.ctx c = y at hstep hf
    cases hstep with
    | openCall h | enterCall h | leaveCall h => cases hf
    | call hc hr => simp [Act.isCallOf] at ha
    | _ => exact .inl hf

/-- Whoever is registered is in its slot, or has been given up; and whoever has found a slot free
is right about it. -/
structure OwnersOk (g : Generation) (hist : List (State × Act)) (s : State) : Prop where
  close : ∀ c, (s.ctx c).close.isSome = true → ∃ s₀, (s₀, .closeCall c) ∈ hist
  holder : ∀ c, Registered s c →
    GivenUp g hist c ∨ s.mem (.session (g.inst c) (g.rank c)) = g.session c
  free : ∀ d, (s.ctx d).killed = false → (s.ctx d).call.foundFree = true →
    ∀ c, c ≠ d → g.SameSlot c d → Registered s c → GivenUp g hist c

theorem OwnersOk.holder_step (hI : OwnersOk g hist s) (hP : apart g s a)
    (h : step g s a = some s') (hr : Registered s' c) :
    GivenUp g ((s, a) :: hist) c ∨ s'.mem (.session (g.inst c) (g.rank c)) = g.session c := by
  rcases registered_of_step h hr with hr | ⟨b, rfl, hpc⟩
  · rcases hI.holder c hr with hup | hses
    · exact .inl hup.cons
    by_cases hw : written g s a = some (.session (g.inst c) (g.rank c))
    · left
      generalize hi : g.inst c = i, hrk : g.rank c = r at hw hses
      cases slotWriter_of_written hw rfl with
      | @regSession d b hpc =>
        -- somebody else registers in the slot of `c`, having found it free
        have hne : c ≠ d := by
          rintro rfl
          rw [Registered, claiming_iff.mpr hpc] at hr
          cases hr
        exact (hI.free d (alive_of_call h) (by rw [hpc]; rfl) c hne ⟨hi, hrk⟩ hr).cons
      | @clearSession d st hpc =>
        have hses' := hP ⟨st, hpc⟩
        rw [hses] at hses'
        obtain rfl := g.session_inj c d hi hrk hses'
        obtain ⟨s₀, hs₀⟩ := hI.close c (by rw [hpc]; rfl)
        exact .inl ⟨s₀, .tail _ hs₀⟩
    · exact .inr (by rw [frame_of_step h hw, hses])
  · obtain ⟨r, hr, hm, -⟩ := open_of_step h hpc
    cases hr
    exact .inr (by rw [hm]; simp)

theorem OwnersOk.free_step (hI : OwnersOk g hist s) (hT : TimesOk s) (hP : apart g s a)
    (h : step g s a = some s') (hk : (s'.ctx d).killed = false)
    (hf : (s'.ctx d).call.foundFree = true) (hne : c ≠ d) (hcd : g.SameSlot c d)
    (hr : Registered s' c) : GivenUp g ((s, a) :: hist) c := by
  have hk := killed_of_step h hk
  rcases foundFree_of_step h hf with hf | ⟨b, rfl, hseen⟩
  · rcases registered_of_step h hr with hr | ⟨b, rfl, hpc⟩
    · exact (hI.free d hk hf c hne hcd hr).cons
    · have := hP hpc d hne.symm hcd hk
      rw [hf] at this
      cases this
  · rcases registered_of_step h hr with hr | ⟨b', hb', -⟩
    · rcases hseen with h0 | ⟨now, v, hpc, hexp⟩
      · refine ((hI.holder c hr).resolve_right fun hses => ?_).cons
        rw [hcd.1, hcd.2, h0] at hses
        exact g.session_ne_zero c hses.symm
      · have hnow := hT.call d
        rw [hpc] at hnow
        refine .inr ⟨_, .head _, hr, ?_⟩
        rw [SlotExpired, hcd.1, hcd.2]
        exact heartbeatExpired_mono hnow hexp
    · cases hb'
      exact absurd rfl hne

theorem ownersOk_of_run
    (h : (system g).recorded.Exec (apart g) (initialState g) hist s) : OwnersOk g hist s := by
  induction h with
  | start =>
    have hcall : ∀ c, ((initialState g).ctx c).call.foundFree = false := fun c => by
      by_cases hc : c = 0
      · subst hc
        rfl
      · simp [initialState, hc, Ctx.absent, CallPc.foundFree]
    refine ⟨fun c hc => ?_, fun c hc => ?_, fun d _ hf => ?_⟩
    · rw [close_initialState] at hc
      cases hc
    · rw [Registered, initialState_phase] at hc
      cases hc
    · rw [hcall d] at hf
      cases hf
  | @next hist s s' a h hP hs ih =>
    obtain ⟨tr, hrun⟩ := Lts.exec_of_recorded h
    refine ⟨fun c hc => ?_, fun c => ih.holder_step hP hs,
      fun d hk hf c hne hcd => ih.free_step (timesOk_of_run hrun) hP hs hk hf hne hcd⟩
    by_cases ha : a = .closeCall c
    · subst ha
      exact ⟨s, .head _⟩
    · cases hclose : (s.ctx c).close with
      | none =>
        rw [close_of_step hs ha hclose] at hc
        cases hc
      | some pc =>
        obtain ⟨s₀, hs₀⟩ := ih.close c (by rw [hclose]; rfl)
        exact ⟨s₀, .tail _ hs₀⟩

/-- **One live owner per rank**, as long as registrations of a slot overlap neither each other nor
the end of a close: when a context is about to register, every other context that has registered
in its slot has been given up before. -/
theorem one_live_owner (h : (system g).recorded.Exec (apart g) (initialState g) hist s)
    (hcd : g.SameSlot c d) (hne : c ≠ d) (hc : Registered s c) (hk : (s.ctx d).killed = false)
    (hd : (s.ctx d).call = .opening .regSession) : GivenUp g hist c :=
  (ownersOk_of_run h).free d hk (by rw [hd]; rfl) c hne hcd hc

/-- `apart`, when only the first `n` contexts are opened. -/
def apartFirst (g : Generation) (n : ℕ) (s : State) : Act → Bool
  | .openCall c => decide (c < n)
  | .call c _ => !((s.ctx c).call matches .opening .regSession) ||
      (List.range n).all fun d => d == c || !(s.ctx d).call.foundFree
  | .close c => !((s.ctx c).close matches some (.clearSession _)) ||
      s.mem (.session (g.inst c) (g.rank c)) == g.session c
  | _ => true

theorem apart_of_apartFirst {n : ℕ} (s : State) (a : Act)
    (habs : ∀ c, n ≤ c → (s.ctx c).call = .absent) (h : apartFirst g n s a = true) :
    apart g s a := by
  cases a with
  | call c b =>
    intro hpc d hne hcd hk
    by_cases hd : d < n
    · simp only [apartFirst, hpc, Bool.not_true, Bool.false_or, List.all_eq_true,
        List.mem_range] at h
      simpa [hne] using h d hd
    · rw [habs d (Nat.not_lt.mp hd)]
      rfl
  | close c =>
    rintro ⟨st, hpc⟩
    simpa [apartFirst, hpc] using h
  | _ => trivial

/-- The heartbeat of B's rank expires, and another context takes its slot. -/
theorem one_live_owner_takeover :
    ∃ hist s, (system pairOfOne).recorded.Exec (apart pairOfOne) (initialState pairOfOne) hist s ∧
      Registered s 1 ∧ (s.ctx 3).call = .opening .regSession ∧ GivenUp pairOfOne hist 1 := by
  obtain ⟨hist, s, h, htest⟩ := exists_recorded pairOfOne (p := apartFirst pairOfOne 4)
    (fun _ _ => id)
    (openBoth ++ .tick 20000000 :: ticks 17 ++ .openCall 3 :: calls 9 3)
    (fun _ s => (s.phase 1).registered && !(s.ctx 3).killed &&
      ((s.ctx 3).call matches .opening .regSession)) (by decide +kernel)
  simp only [Bool.and_eq_true, Bool.not_eq_true'] at htest
  obtain ⟨⟨hreg, hk⟩, hpc⟩ := htest
  have hpc : (s.ctx 3).call = .opening .regSession := by
    split at hpc
    · assumption
    · cases hpc
  have hrun := exec_of_first rfl (by decide) (fun s c => of_decide_eq_true)
    apart_of_apartFirst h
  exact ⟨hist, s, hrun, hreg, hpc, one_live_owner hrun ⟨rfl, rfl⟩ (d := 3) (by decide) hreg hk hpc⟩

/-- **Two owners of a rank.** Two contexts find B's slot free before either has stored its
session; both are handed out, no `ps_close` has been called and no heartbeat has expired. -/
theorem two_owners :
    ∃ hist s, (system pairOfOne).recorded.Exec anyStep (initialState pairOfOne) hist s ∧
      (s.ctx 1).call.isOpen = true ∧ (s.ctx 3).call.isOpen = true ∧
      (∃ p ∈ hist, Registered p.1 1 ∧ ((p.1.ctx 3).call matches .opening .regSession) = true) ∧
      ¬GivenUp pairOfOne hist 1 := by
  obtain ⟨hist, s, h, htest⟩ := exists_recorded pairOfOne anyStep_of_allowed
    (calls 17 0 ++ .openCall 1 :: calls 6 1 ++ .openCall 3 :: calls 6 3 ++ calls 11 1 ++ calls 10 3)
    (fun hist s => (s.ctx 1).call.isOpen && (s.ctx 3).call.isOpen &&
      (hist.any fun p => (p.1.phase 1).registered &&
        ((p.1.ctx 3).call matches .opening .regSession)) &&
      (hist.all fun p => !(p.2 matches .closeCall _) && !((p.1.phase 1).registered &&
        heartbeatExpired (p.1.mem (.heartbeatNs .B 0)) p.1.now pairOfOne.peerTimeoutMs)))
    (by decide +kernel)
  simp only [Bool.and_eq_true, List.any_eq_true, List.all_eq_true] at htest
  obtain ⟨⟨⟨h1, h3⟩, p, hp, hreg, hpc⟩, hnot⟩ := htest
  refine ⟨hist, s, h, h1, h3, ⟨p, hp, hreg, hpc⟩, ?_⟩
  rintro (⟨s₀, hs₀⟩ | ⟨q, hq, hreg, hexp⟩)
  · cases (hnot _ hs₀).1
  · have hquiet := (hnot q hq).2
    rw [show (q.1.phase 1).registered = true from hreg,
      show heartbeatExpired (q.1.mem (.heartbeatNs .B 0)) q.1.now pairOfOne.peerTimeoutMs = true
        from hexp] at hquiet
    cases hquiet

end Owners

/-! ## Whose heartbeat it is -/

/-- In this step a context other than `c` writes a heartbeat into the slot of `c`: the heartbeat
thread of another context of the slot, or a context that registers (the registration of `c` is
over). -/
inductive Refreshes (g : Generation) (c : ℕ) : State × Act → Prop
  | beat {s : State} (d t : ℕ) (hd : d ≠ c) (hcd : g.SameSlot c d)
      (h : (s.ctx d).heartbeat = .store t) : Refreshes g c (s, .beat d)
  | register {s : State} (d now : ℕ) (b : Bool) (hcd : g.SameSlot c d)
      (h : (s.ctx d).call = .opening (.regHeartbeat now)) : Refreshes g c (s, .call d b)

/-- **A silent rank is not alive**, unless another context writes into its slot: if `c` has been
registered, and its heartbeat thread has taken no step, for longer than the timeout, then
`worker_alive` on its slot is false. -/
theorem silent_rank_not_alive {s₀ : State} {hist : List (State × Act)} (h₀ : Run g anyStep tr s₀)
    (h : (system g).recorded.Exec anyStep s₀ hist s)
    (hlong : g.peerTimeoutMs * 1000000 < s.now - s₀.now) (hquiet : ∀ p ∈ hist, p.2 ≠ .beat c)
    (hown : ∀ p ∈ hist, ¬Refreshes g c p) : ¬RankAlive g (g.inst c) s.now s.mem (g.rank c) := by
  -- what is in the slot was stored before the time in question
  have hle : s.mem (.heartbeatNs (g.inst c) (g.rank c)) ≤ s₀.now := by
    clear hlong
    induction h with
    | start => exact (timesOk_of_run h₀).slot _ _
    | @next hist s s' a h hP hs ih =>
      have ih := ih (fun p hp => hquiet p (.tail _ hp)) (fun p hp => hown p (.tail _ hp))
      have hs : step g s a = some s' := hs
      by_cases hw : written g s a = some (.heartbeatNs (g.inst c) (g.rank c))
      · generalize hi : g.inst c = i, hr : g.rank c = r at hw
        cases slotWriter_of_written hw rfl with
        | @regHeartbeat d now b hpc =>
          exact absurd (.register d now b ⟨hi, hr⟩ hpc) (hown _ (.head _))
        | @clearHeartbeat d st hpc =>
          obtain ⟨pc, r, hpc', hr, hm, -⟩ := closing_of_step hs
          rw [hpc] at hpc'
          cases hpc'
          cases hr
          rw [hm]
          simp
        | @beat d t hpc =>
          by_cases hd : d = c
          · subst hd
            exact absurd rfl (hquiet _ (.head _))
          · exact absurd (.beat d t hd ⟨hi, hr⟩ hpc) (hown _ (.head _))
      · rw [frame_of_step hs hw]
        exact ih
  have hexp : heartbeatExpired (s.mem (.heartbeatNs (g.inst c) (g.rank c))) s.now
      g.peerTimeoutMs = true := by
    simp only [heartbeatExpired, Bool.or_eq_true, beq_iff_eq, Bool.and_eq_true, decide_eq_true_eq]
    dsimp only [Val] at *
    omega
  simp [RankAlive, workerAlive, hexp]

/-- B's rank is opened and its process stops. -/
theorem silent_rank_not_alive_stopped :
    ∃ tr s₀ hist s, Run pairOfOne anyStep tr s₀ ∧ Registered s₀ 1 ∧
      (system pairOfOne).recorded.Exec anyStep s₀ hist s ∧ s.mem (.session .B 0) ≠ 0 ∧
      ¬RankAlive pairOfOne .B s.now s.mem 0 := by
  obtain ⟨tr, s₀, h₀, htest⟩ := exists_run pairOfOne anyStep_of_allowed openBoth
    (fun _ s => (s.phase 1).registered && s.mem (.session .B 0) != 0) (by decide +kernel)
  simp only [Bool.and_eq_true, bne_iff_ne] at htest
  have h : (system pairOfOne).recorded.Exec anyStep s₀ [(s₀, .tick 20000000)]
      { s₀ with now := s₀.now + 20000000 } := .next .start trivial rfl
  refine ⟨tr, s₀, _, _, h₀, htest.1, h, htest.2, ?_⟩
  have hten : pairOfOne.peerTimeoutMs = 10 := rfl
  refine silent_rank_not_alive (c := 1) h₀ h (by rw [hten]; dsimp only; omega) ?_ ?_ <;>
  · intro p hp
    obtain rfl := List.mem_singleton.mp hp
    nofun

/-- **A dead rank masked by an old owner of its slot.** The heartbeat of B's rank expires, another
context takes the slot and is killed; then the first one resumes, and its heartbeat makes the slot
look alive. -/
theorem masked_by_old_owner :
    ∃ tr s₀ hist s, Run pairOfOne anyStep tr s₀ ∧ Registered s₀ 3 ∧
      (system pairOfOne).recorded.Exec anyStep s₀ hist s ∧
      pairOfOne.peerTimeoutMs * 1000000 < s.now - s₀.now ∧
      (∀ p ∈ hist, p.2 ≠ .beat 3) ∧ s.mem (.session .B 0) = pairOfOne.session 3 ∧
      RankAlive pairOfOne .B s.now s.mem 0 := by
  let resumes : List Act := [.kill 3, .tick 20000000, .beat 1, .beat 1, .beat 1, .beat 1]
  let test (s₀ : State) (hist : List (State × Act)) (s : State) : Bool :=
    decide (pairOfOne.peerTimeoutMs * 1000000 < s.now - s₀.now) &&
      (hist.all fun p => !(p.2 matches .beat 3)) &&
      s.mem (.session .B 0) == pairOfOne.session 3 && decide (RankAlive pairOfOne .B s.now s.mem 0)
  obtain ⟨tr, s₀, h₀, htest⟩ := exists_run pairOfOne anyStep_of_allowed
    (openBoth ++ .tick 20000000 :: ticks 17 ++ .openCall 3 :: calls 16 3)
    (fun _ s₀ => (s₀.phase 3).registered && ((system pairOfOne).recorded.run allowed s₀ []
      resumes).any fun r => test s₀ r.1 r.2) (by decide +kernel)
  rw [Bool.and_eq_true] at htest
  obtain ⟨hist, s, h, hend⟩ := Lts.exists_exec anyStep_of_allowed resumes (test s₀) htest.2
  simp only [test, Bool.and_eq_true, decide_eq_true_eq, List.all_eq_true, beq_iff_eq] at hend
  obtain ⟨⟨⟨hlong, hquiet⟩, hses⟩, halive⟩ := hend
  refine ⟨tr, s₀, hist, s, h₀, htest.1, h, hlong, fun p hp hb => ?_, hses, halive⟩
  have hno := hquiet p hp
  rw [hb] at hno
  cases hno

end YellowZone.PairSched
