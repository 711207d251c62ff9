import YellowZone.PairSched.Orderly

/-!
# Round barrier and grant agreement

With a fixed set of contexts, what calls return is justified by what has been observed before: no
`ps_enter_forward` returns a round before every rank has announced itself in it, no
`ps_leave_forward` returns before every rank has completed it, all ranks of an instance get the
same grant for a round and each gets it once, and grants are drawn in increasing order, one for
each round.

## The argument

The barrier of a group says who has arrived and finished in its current round, and `History` ties
this to the observations. The rest is read off from what a context knows when it returns.

## Main results

* `fixedSlots`, `orderly_of_fixed` — runs with a fixed set of contexts are orderly
* `History`, `history_of_run` — barriers and observations agree in orderly runs
* `Justified`, `barrier_and_agreement` — every observation is justified by the earlier ones
-/

namespace YellowZone.PairSched

open Machine Barrier

variable {g : Generation} {tr : List Event} {s s' : State} {a : Act} {e : Event}

/-! ## A fixed set of contexts -/

/-- No context is closed, and no slot gets a second one. -/
def fixedSlots (g : Generation) (s : State) : Act → Prop
  | .openCall c => ∀ d, d ≠ c → g.SameSlot c d → (s.ctx d).call = .absent
  | .closeCall _ => False
  | _ => True

/-- At most one context of a slot has been opened, and none is being closed. -/
structure SlotsFixed (g : Generation) (s : State) : Prop where
  one : ∀ c d, g.SameSlot c d → c ≠ d → (s.ctx c).call = .absent ∨ (s.ctx d).call = .absent
  close : ∀ c, (s.ctx c).close = none

theorem SlotsFixed.step (hI : SlotsFixed g s) (hP : fixedSlots g s a) (h : step g s a = some s') :
    SlotsFixed g s' := by
  refine ⟨fun c d hcd hne => ?_, fun c => close_of_step h (by rintro rfl; exact hP) (hI.close c)⟩
  by_cases hc : a = .openCall c
  · subst hc
    exact .inr (absent_of_step h (by simpa using hne) (hP d (Ne.symm hne) hcd))
  by_cases hd : a = .openCall d
  · subst hd
    exact .inl (absent_of_step h (by simpa using Ne.symm hne) (hP c hne hcd.symm))
  exact (hI.one c d hcd hne).imp (absent_of_step h hc) (absent_of_step h hd)

theorem slotsFixed_initialState : SlotsFixed g (initialState g) := by
  have habsent : ∀ c, c ≠ 0 → (initialState g).ctx c = Ctx.absent := fun c hc => by
    simp [initialState, hc]
  refine ⟨fun c d _ hne => ?_, fun c => ?_⟩
  · by_cases hc : c = 0
    · exact .inr (by rw [habsent d (by omega)]; rfl)
    · exact .inl (by rw [habsent c hc]; rfl)
  · by_cases hc : c = 0
    · subst hc; rfl
    · rw [habsent c hc]; rfl

theorem SlotsFixed.orderly (hI : SlotsFixed g s) (a : Act) : Orderly g s a := by
  cases a with
  | call c b =>
    intro hp d hne hcd hl
    rcases hI.one c d hcd (Ne.symm hne) with habs | habs
    · rw [State.phase, habs] at hp
      cases hp
    · have hreg := hl.registered
      rw [State.phase, habs] at hreg
      cases hreg
  | close c =>
    intro hc
    rw [hI.close c] at hc
    cases hc
  | _ => trivial

/-- **Runs with a fixed set of contexts are orderly.** -/
theorem orderly_of_fixed (h : Run g (fixedSlots g) tr s) : Run g (Orderly g) tr s := by
  have hI : SlotsFixed g s ∧ Run g (Orderly g) tr s := by
    refine h.invariant (I := fun tr s => SlotsFixed g s ∧ Run g (Orderly g) tr s)
      ⟨slotsFixed_initialState, .start⟩ ?_
    intro tr s a s' ⟨hI, hrun⟩ hP hs
    exact ⟨hI.step hP hs, .next hrun (hI.orderly a) hs⟩
  exact hI.2

/-- Only contexts below `n` are opened, and none is closed. -/
def openedBelow (n : ℕ) (_ : State) : Act → Bool
  | .openCall c => decide (c < n)
  | .closeCall _ => false
  | _ => true

/-- If the contexts below `n` are for different slots, opening only these fixes the slots. -/
theorem fixed_of_openedBelow {n : ℕ} (hpos : 0 < n)
    (hn : ∀ c d, c < n → d < n → g.SameSlot c d → c = d)
    (h : Run g (fun s a => openedBelow n s a = true) tr s) : Run g (fixedSlots g) tr s := by
  refine exec_of_first rfl hpos (fun s c => of_decide_eq_true) (fun s a habs hP => ?_) h
  cases a with
  | openCall c =>
    intro d hne hcd
    have hc : c < n := of_decide_eq_true hP
    exact habs d (Nat.not_lt.mp fun hd => hne (hn c d hc hd hcd).symm)
  | closeCall c => cases hP
  | _ => trivial

/-- The first contexts of a sample generation are for different slots. -/
theorem sampleGeneration_slots {n : ℕ} (h₀ : 0 < n) (h₁ : n ≤ 64) (c d : ℕ) (hc : c < 2 * n)
    (hd : d < 2 * n) (h : (sampleGeneration n h₀ h₁).SameSlot c d) : c = d := by
  obtain ⟨hi, hr⟩ := h
  have hr : c / 2 % n = d / 2 % n := hr
  rw [Nat.mod_eq_of_lt (by omega), Nat.mod_eq_of_lt (by omega)] at hr
  have hpar : c % 2 = 0 ↔ d % 2 = 0 := by
    simp only [sampleGeneration] at hi
    split at hi <;> split at hi <;> simp_all
  omega

/-! ## Observations of a round -/

/-- Rank `r` of instance `i` has announced itself in round `q`. -/
def Announced (g : Generation) (tr : List Event) (i : Inst) (q : ℕ) (r : Fin g.workerCount) :
    Prop :=
  ∃ d, g.inst d = i ∧ rankOf g d = r ∧ .readyOr d q ∈ tr

/-- It has completed round `q`. -/
def Completed (g : Generation) (tr : List Event) (i : Inst) (q : ℕ) (r : Fin g.workerCount) :
    Prop :=
  ∃ d, g.inst d = i ∧ rankOf g d = r ∧ .completeOr d q ∈ tr

section Observed

variable {i : Inst} {q : ℕ} {r : Fin g.workerCount}

theorem Announced.cons (h : Announced g tr i q r) : Announced g (e :: tr) i q r :=
  let ⟨d, hi, hr, hd⟩ := h
  ⟨d, hi, hr, .tail _ hd⟩

theorem Completed.cons (h : Completed g tr i q r) : Completed g (e :: tr) i q r :=
  let ⟨d, hi, hr, hd⟩ := h
  ⟨d, hi, hr, .tail _ hd⟩

end Observed

/-- The context is winding up round `q`, which everybody has completed. -/
def Phase.windsUp (q : ℕ) : Phase → Prop
  | .resetReady q' | .resetComplete q' | .resetGrant q' | .resetPublish q' => q' = q
  | .resetState q' | .resetDone q' | .left q' => q' = q
  | _ => False

/-- The context has numbered the round it starts. -/
def Phase.numbers : Phase → Bool
  | .initGrant _ | .initReady _ | .initComplete _ | .initExit _ => true
  | .initClock _ | .initPublish _ _ | .initState _ => true
  | _ => false

/-- The context is in `ps_enter_forward` and has drawn its sequence number. -/
def Phase.entering : Phase → Bool
  | .seeking _ | .saw _ _ | .joined _ | .lastReady _ | .waiting _ => true
  | .initSeq _ | .initGrant _ | .initReady _ | .initComplete _ | .initExit _ => true
  | .initClock _ | .initPublish _ _ | .initState _ => true
  | .sawRunning _ | .sawGrant _ _ | .sawOwner _ _ | .checked _ _ | .granted _ _ => true
  | _ => false

/-- The current round of `i` has a number and no grant yet. -/
inductive Ungranted (g : Generation) (s : State) (i : Inst) : Prop
  | gathering (h : s.mem (.state i) = .collecting ∨ s.mem (.state i) = .ready)
  | drawing (h : s.coordPhase = .drawing i)
  | numbered (c : ℕ) (hc : g.inst c = i) (h : (s.phase c).numbers = true)

/-- Bounds on the rounds that have been returned to callers for the slot of a context. -/
def Returned (n q : ℕ) : Phase → Prop
  | .registering => True
  | p => if p.entering then q < n else q ≤ n

/-- Barriers and observations agree. -/
structure History (g : Generation) (tr : List Event) (s : State) : Prop where
  ready : ∀ i, ∀ r ∈ (barrierOf g s.mem i).arrived, Announced g tr i (barrierOf g s.mem i).seq r
  complete : ∀ i, ∀ r ∈ (barrierOf g s.mem i).done, Completed g tr i (barrierOf g s.mem i).seq r
  left : ∀ c q, (s.phase c).windsUp q → ∀ r, Completed g tr (g.inst c) q r
  token : ∀ i, (barrierOf g s.mem i).token ≠ 0 →
    .grant i (barrierOf g s.mem i).seq (barrierOf g s.mem i).token ∈ tr
  drawn : ∀ i gr, s.coordPhase = .storeGrant i gr → .grant i (barrierOf g s.mem i).seq gr ∈ tr
  grantSeq : ∀ i q gr, .grant i q gr ∈ tr → q ≤ (barrierOf g s.mem i).seq
  fresh : ∀ i, Ungranted g s i → ∀ gr, .grant i (barrierOf g s.mem i).seq gr ∉ tr
  unique : ∀ i q gr gr', .grant i q gr ∈ tr → .grant i q gr' ∈ tr → gr = gr'
  grantId : ∀ i q gr, .grant i q gr ∈ tr → gr ≤ s.mem .nextGrantId
  entered : ∀ c q gr, .enterReturn c (.ok (q, gr)) ∈ tr → .grant (g.inst c) q gr ∈ tr
  returned : ∀ c d, g.SameSlot c d → Live s c → ∀ q gr, .enterReturn d (.ok (q, gr)) ∈ tr →
    Returned (s.locals c).nextSeq q (s.phase c)

/-! ## What one step adds -/

section Call

variable {c t : ℕ} {m m' : Memory} {x x' : Locals} {p p' : Phase}

/-- Who has arrived has been observed to. -/
theorem CallTrans.arrived (h : CallTrans g c t m x p e m' x' p')
    (hw : (barrierOf g m (g.inst c)).WF) (hl : LockOk (barrierOf g m (g.inst c)) p)
    (hk : p.acts = true → Knows (rankOf g c) (barrierOf g m (g.inst c)) x (Inside c tr) p)
    {r : Fin g.workerCount} (hr : r ∈ (barrierOf g m' (g.inst c)).arrived) :
    r ∈ (barrierOf g m (g.inst c)).arrived ∧
        (barrierOf g m' (g.inst c)).seq = (barrierOf g m (g.inst c)).seq ∨
      r = rankOf g c ∧ e = .readyOr c (barrierOf g m' (g.inst c)).seq := by
  cases h with
  | quiet hm | openClaim hm | undo hm | entered hm | resetDone hm | leftReturn hm =>
    rw [hm.barrierOf] at hr ⊢
    exact .inl ⟨hr, rfl⟩
  | initSeq =>
    simp only [WF, hl.1] at hw
    rw [barrierOf_set_forwardSeq] at hr
    dsimp only at hr
    rw [hw.1] at hr
    exact absurd hr (Set.notMem_empty r)
  | initReady | resetReady =>
    rw [barrierOf_set_readyMask, ranksIn_zero] at hr
    exact absurd hr (Set.notMem_empty r)
  | dupReady hb | fullReady hb hf | orReady hb hf =>
    rw [barrierOf_set_readyMask, ranksIn_or_bitOf] at hr
    rw [barrierOf_set_readyMask]
    obtain ⟨-, -, hseq, -⟩ := hk rfl
    rcases hr with rfl | hr
    · exact .inr ⟨rfl, by rw [hseq]⟩
    · exact .inl ⟨hr, rfl⟩
  | _ => exact .inl ⟨hr, rfl⟩

/-- Who has finished has been observed to. -/
theorem CallTrans.done (h : CallTrans g c t m x p e m' x' p')
    (hw : (barrierOf g m (g.inst c)).WF) (hl : LockOk (barrierOf g m (g.inst c)) p)
    (hk : p.acts = true → Knows (rankOf g c) (barrierOf g m (g.inst c)) x (Inside c tr) p)
    (hi : ∀ q gr, p = .fenceRest q gr →
      Granted (rankOf g c) x.activeSeq x.activeGrantId (barrierOf g m (g.inst c)))
    {r : Fin g.workerCount} (hr : r ∈ (barrierOf g m' (g.inst c)).done) :
    r ∈ (barrierOf g m (g.inst c)).done ∧
        (barrierOf g m' (g.inst c)).seq = (barrierOf g m (g.inst c)).seq ∨
      r = rankOf g c ∧ e = .completeOr c (barrierOf g m' (g.inst c)).seq := by
  cases h with
  | quiet hm | openClaim hm | undo hm | entered hm | resetDone hm | leftReturn hm =>
    rw [hm.barrierOf] at hr ⊢
    exact .inl ⟨hr, rfl⟩
  | initSeq =>
    simp only [WF, hl.1] at hw
    rw [barrierOf_set_forwardSeq] at hr
    dsimp only at hr
    rw [hw.2.1] at hr
    exact absurd hr (Set.notMem_empty r)
  | initComplete | resetComplete =>
    rw [barrierOf_set_completeMask, ranksIn_zero] at hr
    exact absurd hr (Set.notMem_empty r)
  | dupComplete hb | fullComplete hb hf | orComplete hb hf =>
    rw [barrierOf_set_completeMask, ranksIn_or_bitOf] at hr
    rw [barrierOf_set_completeMask]
    have hseq := (hi _ _ rfl).1.2.2.1
    have hact := (hk rfl).2.1
    rcases hr with rfl | hr
    · exact .inr ⟨rfl, by rw [hseq, hact]⟩
    · exact .inl ⟨hr, rfl⟩
  | _ => exact .inl ⟨hr, rfl⟩

/-- A calling thread hands out no token. -/
theorem CallTrans.token (h : CallTrans g c t m x p e m' x' p')
    (hw : (barrierOf g m (g.inst c)).WF) (hl : LockOk (barrierOf g m (g.inst c)) p)
    (ht : (barrierOf g m' (g.inst c)).token ≠ 0) :
    (barrierOf g m' (g.inst c)).token = (barrierOf g m (g.inst c)).token ∧
      (barrierOf g m' (g.inst c)).seq = (barrierOf g m (g.inst c)).seq := by
  cases h with
  | quiet hm | openClaim hm | undo hm | entered hm | resetDone hm | leftReturn hm =>
    rw [hm.barrierOf]
    exact ⟨rfl, rfl⟩
  | initSeq =>
    simp only [WF, hl.1] at hw
    exact absurd hw.2.2 ht
  | initGrant | resetGrant => simp at ht
  | _ => exact ⟨rfl, rfl⟩

theorem CallTrans.windsUp (h : CallTrans g c t m x p e m' x' p') {q : ℕ} (hp : p'.windsUp q) :
    p.windsUp q ∨ p = .sawDraining q := by
  cases h with
  | fullExit hf | orExit hf =>
    cases hp
    exact .inr rfl
  | _ => first
    | exact .inl hp
    | exact False.elim hp

theorem CallTrans.numbers (h : CallTrans g c t m x p e m' x' p') (hp : p'.numbers = true) :
    p.numbers = true ∨ ∃ q, p = .initSeq q ∧ m' (.forwardSeq (g.inst c)) = q := by
  cases h with
  | @initSeq _ q => exact .inr ⟨q, rfl, by simp⟩
  | quiet hm he => exact .inl hp
  | _ => first | exact .inl rfl | cases hp

/-- Calling threads draw no grants. -/
theorem CallTrans.event_ne_grant (h : CallTrans g c t m x p e m' x' p') (i : Inst) (q gr : ℕ) :
    e ≠ .grant i q gr := by
  cases h with
  | quiet hm he => cases he <;> nofun
  | _ => nofun

/-- A call returns a round only as the last step of a successful `ps_enter_forward`. -/
theorem CallTrans.enterReturn (h : CallTrans g c t m x p e m' x' p') {d q gr : ℕ}
    (he : e = .enterReturn d (.ok (q, gr))) : d = c ∧ p = .granted q gr := by
  cases h with
  | quiet hm hmin => subst he; cases hmin
  | entered hm => cases he; exact ⟨rfl, rfl⟩
  | _ => cases he

/-- How far the rounds returned to a context have come. -/
theorem CallTrans.returned (h : CallTrans g c t m x p e m' x' p') {q : ℕ}
    (hp : p'.registered = true) (hq : q ≤ m (.forwardSeq (g.inst c)))
    (hr : Returned x.nextSeq q p) : Returned x'.nextSeq q p' := by
  have hle : ∀ {p}, p ≠ .registering → Returned x.nextSeq q p → q ≤ x.nextSeq := by
    intro p hne hr
    cases p <;> first
      | exact absurd rfl hne
      | exact hr
      | exact Nat.le_of_lt hr
  cases h with
  | quiet hm he => exact hr
  | openClaim hm | undo hm => cases hp
  | claim => trivial
  | setIdle hst => trivial
  | loadSeq => exact hq
  | drop hs hd | abort hd =>
    refine hle (by rintro rfl; cases hd) hr
  | backOff hb => rcases hb with rfl | ⟨gr, rfl⟩ <;> exact hr
  | fence hf ha hg => rcases hf with rfl | ⟨rfl, -⟩ <;> exact hr
  | refuse ha => exact Nat.le_succ_of_le hr
  | seek hs ha => exact Nat.lt_succ_of_le hr
  | dupReady hb | entered hm => exact Nat.le_of_lt hr
  | _ => exact hr

end Call

section Coord

variable {m m' : Memory} {p p' : CoordPhase} {i : Inst}

/-- The coordinator leaves the bits and the number of a round alone. -/
theorem CoordTrans.words (h : CoordTrans g m p e m' p') :
    (barrierOf g m' i).arrived = (barrierOf g m i).arrived ∧
      (barrierOf g m' i).done = (barrierOf g m i).done ∧
      (barrierOf g m' i).seq = (barrierOf g m i).seq := by
  cases h with
  | quiet hm =>
    rw [hm.barrierOf]
    exact ⟨rfl, rfl, rfl⟩
  | _ => exact ⟨rfl, rfl, rfl⟩

theorem CoordTrans.token (h : CoordTrans g m p e m' p') :
    (barrierOf g m' i).token = (barrierOf g m i).token ∨
      p = .storeGrant i (barrierOf g m' i).token := by
  cases h with
  | quiet hm =>
    rw [hm.barrierOf]
    exact .inl rfl
  | @storeGrant sel gr =>
    by_cases hi : i = sel
    · subst hi
      exact .inr (by simp)
    · exact .inl (by simp [barrierOf, hi])
  | _ => exact .inl rfl

/-- What the coordinator observes is the grant it draws. -/
theorem CoordTrans.event_grant (h : CoordTrans g m p e m' p') :
    e = .silent ∧ m' .nextGrantId = m .nextGrantId ∧
        (∀ i gr, p' = .storeGrant i gr → p = .storeGrant i gr) ∨
      ∃ i, p = .drawing i ∧ p' = .storeGrant i (m .nextGrantId + 1) ∧
        e = .grant i (m (.forwardSeq i)) (m .nextGrantId + 1) ∧
        m' .nextGrantId = m .nextGrantId + 1 := by
  cases h with
  | @draw sel => exact .inr ⟨sel, rfl, rfl, rfl, by simp⟩
  | quiet hm => exact .inl ⟨rfl, hm.core _ rfl, fun _ _ hp => hp⟩
  | _ => exact .inl ⟨rfl, rfl, by rintro _ _ ⟨⟩⟩

end Coord

theorem OtherTrans.words {m' : Memory} (h : OtherTrans g s m' a) (i : Inst) :
    (barrierOf g m' i).arrived = (barrierOf g s.mem i).arrived ∧
      (barrierOf g m' i).done = (barrierOf g s.mem i).done ∧
      (barrierOf g m' i).seq = (barrierOf g s.mem i).seq ∧
      (barrierOf g m' i).token = (barrierOf g s.mem i).token := by
  cases h with
  | quiet hm =>
    rw [hm.barrierOf]
    exact ⟨rfl, rfl, rfl, rfl⟩
  | fail reason h | shutdown h | clear c h | offline c hc h =>
    rw [h]
    exact ⟨rfl, rfl, rfl, rfl⟩

section Step

variable (h : Trans g s a e s') (hI : RoundsOk g tr s) (hs : Support g tr s) (i : Inst)
include h hI

theorem Trans.arrived {r : Fin g.workerCount} (hr : r ∈ (barrierOf g s'.mem i).arrived) :
    r ∈ (barrierOf g s.mem i).arrived ∧ (barrierOf g s'.mem i).seq = (barrierOf g s.mem i).seq ∨
      ∃ d, g.inst d = i ∧ rankOf g d = r ∧ e = .readyOr d (barrierOf g s'.mem i).seq := by
  cases h with
  | call c b hk ht =>
    by_cases hi : i = g.inst c
    · subst hi
      rcases ht.arrived (hI.wf _) (hI.lock c) (fun hp => hI.knows c (.of_acts hk hp)) hr with
        hold | ⟨rfl, he⟩
      · exact .inl hold
      · exact .inr ⟨c, rfl, rfl, he⟩
    · rw [ht.barrierOf_ne hi] at hr ⊢
      exact .inl ⟨hr, rfl⟩
  | coord hk ht =>
    obtain ⟨harr, -, hseq⟩ := ht.words (i := i)
    exact .inl ⟨harr ▸ hr, hseq⟩
  | other ht =>
    obtain ⟨harr, -, hseq, -⟩ := ht.words i
    exact .inl ⟨harr ▸ hr, hseq⟩

include hs in
theorem Trans.done {r : Fin g.workerCount} (hr : r ∈ (barrierOf g s'.mem i).done) :
    r ∈ (barrierOf g s.mem i).done ∧ (barrierOf g s'.mem i).seq = (barrierOf g s.mem i).seq ∨
      ∃ d, g.inst d = i ∧ rankOf g d = r ∧ e = .completeOr d (barrierOf g s'.mem i).seq := by
  cases h with
  | call c b hk ht =>
    by_cases hi : i = g.inst c
    · subst hi
      rcases ht.done (hI.wf _) (hI.lock c) (fun hp => hI.knows c (.of_acts hk hp))
        (fun q gr hp => (hI.granted_of_fenceRest hs hk hp).2) hr with hold | ⟨rfl, he⟩
      · exact .inl hold
      · exact .inr ⟨c, rfl, rfl, he⟩
    · rw [ht.barrierOf_ne hi] at hr ⊢
      exact .inl ⟨hr, rfl⟩
  | coord hk ht =>
    obtain ⟨-, hdone, hseq⟩ := ht.words (i := i)
    exact .inl ⟨hdone ▸ hr, hseq⟩
  | other ht =>
    obtain ⟨-, hdone, hseq, -⟩ := ht.words i
    exact .inl ⟨hdone ▸ hr, hseq⟩

/-- A token is the one that was there, or the one the coordinator has drawn. -/
theorem Trans.token (ht : (barrierOf g s'.mem i).token ≠ 0) :
    (barrierOf g s'.mem i).seq = (barrierOf g s.mem i).seq ∧
      ((barrierOf g s'.mem i).token = (barrierOf g s.mem i).token ∨
        s.coordPhase = .storeGrant i (barrierOf g s'.mem i).token) := by
  cases h with
  | call c b hk hc =>
    by_cases hi : i = g.inst c
    · subst hi
      obtain ⟨htok, hseq⟩ := hc.token (hI.wf _) (hI.lock c) ht
      exact ⟨hseq, .inl htok⟩
    · rw [hc.barrierOf_ne hi]
      exact ⟨rfl, .inl rfl⟩
  | coord hk hc => exact ⟨(hc.words (i := i)).2.2, hc.token⟩
  | other ho =>
    obtain ⟨-, -, hseq, htok⟩ := ho.words i
    exact ⟨hseq, .inl htok⟩

/-- The number of a round changes only while the round is opened. -/
theorem Trans.seq :
    (barrierOf g s'.mem i).seq = (barrierOf g s.mem i).seq ∨
      (barrierOf g s.mem i).seq < (barrierOf g s'.mem i).seq ∧
        (barrierOf g s.mem i).stage = .opening ∧
        ∃ c q, a.isCallOf c = true ∧ g.inst c = i ∧ s.phase c = .initSeq q := by
  cases h with
  | call c b hk ht =>
    rcases ht.forwardSeq i with heq | ⟨rfl, q, hp, -, hq⟩
    · exact .inl heq
    · have hl := hI.lock c
      rw [hp] at hl
      exact .inr ⟨by simpa only [barrierOf, hq] using hl.2, hl.1, c, q,
        by simp [Act.isCallOf], rfl, hp⟩
  | coord hk ht => exact .inl (ht.words (i := i)).2.2
  | other ht => exact .inl (ht.words i).2.2.1

omit hI in
theorem Trans.event_grant {q gr : ℕ} (he : e = .grant i q gr) :
    a = .coord ∧ s.coordPhase = .drawing i ∧ s'.coordPhase = .storeGrant i gr ∧
      q = (barrierOf g s.mem i).seq ∧ gr = s.mem .nextGrantId + 1 ∧
      s'.mem .nextGrantId = s.mem .nextGrantId + 1 := by
  cases h with
  | call c b hk ht => exact absurd he (ht.event_ne_grant i q gr)
  | coord hk ht =>
    rcases ht.event_grant with ⟨hsil, -⟩ | ⟨j, hp, hp', hev, hnext⟩
    · rw [he] at hsil
      cases hsil
    · rw [he] at hev
      cases hev
      exact ⟨rfl, hp, hp', rfl, rfl, hnext⟩
  | other ht => cases he

omit hI in
/-- A round that parties arrive in has no grant. -/
theorem Trans.ungranted_of_gathering
    (hst : s'.mem (.state i) = .collecting ∨ s'.mem (.state i) = .ready) : Ungranted g s i := by
  cases h with
  | call c b hk ht =>
    rcases ht.state i with heq | ⟨rfl, hmove⟩
    · exact .gathering (heq ▸ hst)
    · cases hmove with
      | collect q hp hp' h' => exact .numbered c rfl (by rw [hp]; rfl)
      | ready q hp hp' h h' => exact .gathering (.inl h)
      | setIdle hp hp' h h' | win q hp hp' h h' | complete q hp hp' h h' | reset q hp hp' h' =>
        rw [h'] at hst
        rcases hst with hst | hst <;> cases hst
  | coord hk ht =>
    rcases ht.state i with heq | ⟨-, -, h'⟩ | ⟨-, -, -, h'⟩
    · exact .gathering (heq ▸ hst)
    · rw [h'] at hst
      rcases hst with hst | hst <;> cases hst
    · rw [h'] at hst
      rcases hst with hst | hst <;> cases hst
  | other ht =>
    rcases ht.state i with heq | ⟨c, -, -, -, h'⟩
    · exact .gathering (heq ▸ hst)
    · rw [h'] at hst
      rcases hst with hst | hst <;> cases hst

omit hI in
theorem Trans.ungranted_of_drawing (hp : s'.coordPhase = .drawing i) : Ungranted g s i := by
  cases h with
  | call c b hk ht _ _ _ _ hcoord => exact .drawing (hcoord ▸ hp)
  | coord hk ht =>
    rw [hp] at ht
    generalize hm' : s'.mem = m', hp' : s.coordPhase = p at ht
    cases ht with
    | quiet hm => exact .drawing hp'
    | grant sel hst => exact .gathering (.inr hst)
  | other ht _ _ _ _ _ hcoord => exact .drawing (hcoord ▸ hp)

theorem Trans.ungranted_of_numbers {c : ℕ} (hc : g.inst c = i) (hp : (s'.phase c).numbers = true) :
    Ungranted g s i ∨ (barrierOf g s.mem i).seq < (barrierOf g s'.mem i).seq := by
  cases ha : a.isCallOf c with
  | false =>
    rw [(h.phase_eq ha).1] at hp
    exact .inl (.numbered c hc hp)
  | true =>
    obtain ⟨b, rfl⟩ := Act.eq_call_of_isCallOf ha
    cases h with
    | call c b hk ht =>
      rcases ht.numbers hp with hp | ⟨q, hp, hq⟩
      · exact .inl (.numbered c hc hp)
      · have hl := hI.lock c
        rw [hp] at hl
        subst hc
        exact .inr (by simpa only [barrierOf, hq] using hl.2)
    | other ht _ _ _ _ _ _ hother => cases hother

/-- A round without a grant had none before the step, or is a new one. -/
theorem Trans.ungranted (hI' : RoundsOk g (e :: tr) s') (hu : Ungranted g s' i) :
    (∀ q gr, e ≠ .grant i q gr) ∧
      (Ungranted g s i ∧ (barrierOf g s'.mem i).seq = (barrierOf g s.mem i).seq ∨
        (barrierOf g s.mem i).seq < (barrierOf g s'.mem i).seq) := by
  refine ⟨fun q gr he => ?_, ?_⟩
  · -- the round of a grant runs, and its grant has just been drawn
    obtain ⟨-, -, hp', -⟩ := h.event_grant i he
    have hrun := hI'.coord i
    rw [hp'] at hrun
    obtain ⟨hrun, -⟩ := hrun rfl
    cases hu with
    | gathering hst => rcases hst with hst | hst <;> simp [barrierOf, hst, RoundState.stage] at hrun
    | drawing hp => rw [hp'] at hp; cases hp
    | numbered c hc hp =>
      have hl := hI'.lock c
      have hopen : (barrierOf g s'.mem (g.inst c)).stage = .opening := by
        cases hpc : s'.phase c <;> rw [hpc] at hl hp <;> first | exact hl.1 | cases hp
      rw [hc, hrun] at hopen
      cases hopen
  · rcases h.seq hI i with hseq | ⟨hlt, -⟩
    · cases hu with
      | gathering hst => exact .inl ⟨h.ungranted_of_gathering i hst, hseq⟩
      | drawing hp => exact .inl ⟨h.ungranted_of_drawing i hp, hseq⟩
      | numbered c hc hp => exact (h.ungranted_of_numbers hI i hc hp).imp (⟨·, hseq⟩) id
    · exact .inr hlt

end Step

/-! ## Every orderly run -/

section Preservation

variable (h : Trans g s a e s') (hI : RoundsOk g tr s) (hI' : RoundsOk g (e :: tr) s')
  (hs : Support g tr s) (hH : History g tr s)
include h hI hH

theorem History.grantSeq_step {i : Inst} {q gr : ℕ} (hg : .grant i q gr ∈ e :: tr) :
    q ≤ (barrierOf g s'.mem i).seq := by
  have hle : (barrierOf g s.mem i).seq ≤ (barrierOf g s'.mem i).seq := by
    rcases h.seq hI i with hseq | ⟨hlt, -⟩ <;> omega
  rcases List.mem_cons.mp hg with he | hg
  · obtain ⟨-, -, -, hq, -⟩ := h.event_grant i he.symm
    omega
  · exact Nat.le_trans (hH.grantSeq i q gr hg) hle

include hI' in
theorem History.fresh_step {i : Inst} (hu : Ungranted g s' i) (gr : ℕ) :
    .grant i (barrierOf g s'.mem i).seq gr ∉ e :: tr := by
  obtain ⟨hne, hcases⟩ := h.ungranted hI i hI' hu
  intro hg
  rcases List.mem_cons.mp hg with he | hg
  · exact hne _ _ he.symm
  · rcases hcases with ⟨hu, hseq⟩ | hlt
    · exact hH.fresh i hu gr (hseq ▸ hg)
    · exact absurd (hH.grantSeq i _ gr hg) (Nat.not_le.mpr hlt)

omit hI in
theorem History.unique_step {i : Inst} {q gr gr' : ℕ} (hg : .grant i q gr ∈ e :: tr)
    (hg' : .grant i q gr' ∈ e :: tr) : gr = gr' := by
  -- a grant that has just been drawn is the first for its round
  have hnew : ∀ {gr gr'}, e = .grant i q gr → .grant i q gr' ∉ tr := fun he hg' => by
    obtain ⟨-, hp, -, hq, -⟩ := h.event_grant i he
    exact hH.fresh i (.drawing hp) _ (hq ▸ hg')
  rcases List.mem_cons.mp hg with he | hg
  · rcases List.mem_cons.mp hg' with he' | hg'
    · rw [← he] at he'
      cases he'
      rfl
    · exact absurd hg' (hnew he.symm)
  · rcases List.mem_cons.mp hg' with he' | hg'
    · exact absurd hg (hnew he'.symm)
    · exact hH.unique i q gr gr' hg hg'

omit hI in
theorem History.grantId_step {i : Inst} {q gr : ℕ} (hg : .grant i q gr ∈ e :: tr) :
    gr ≤ s'.mem .nextGrantId := by
  have hle : s.mem .nextGrantId ≤ s'.mem .nextGrantId := by
    cases h with
    | call c b hk ht => exact Nat.le_of_eq ht.nextGrantId.symm
    | coord hk ht =>
      rcases ht.event_grant with ⟨-, hnext, -⟩ | ⟨-, -, -, -, hnext⟩
      · exact Nat.le_of_eq hnext.symm
      · exact hnext ▸ Nat.le_succ _
    | other ht =>
      have hnext : s'.mem .nextGrantId = s.mem .nextGrantId := ht.core rfl nofun nofun nofun
      exact Nat.le_of_eq hnext.symm
  rcases List.mem_cons.mp hg with he | hg
  · obtain ⟨-, -, -, -, hgr, hnext⟩ := h.event_grant i he.symm
    exact Nat.le_of_eq (hgr.trans hnext.symm)
  · exact Nat.le_trans (hH.grantId i q gr hg) hle

theorem History.drawn_step {i : Inst} {gr : ℕ} (hp : s'.coordPhase = .storeGrant i gr) :
    .grant i (barrierOf g s'.mem i).seq gr ∈ e :: tr := by
  -- others leave the number of a running round alone
  have hother : s.coordPhase = .storeGrant i gr → a ≠ .coord →
      .grant i (barrierOf g s'.mem i).seq gr ∈ e :: tr := fun hp hne => by
    have hrun := hI.coord i
    rw [hp] at hrun
    rcases h.seq hI i with hseq | ⟨-, hopen, -⟩
    · rw [hseq]
      exact .tail _ (hH.drawn i gr hp)
    · rw [(hrun rfl).1] at hopen
      cases hopen
  cases h with
  | call c b hk ht _ _ _ _ hcoord => exact hother (hcoord ▸ hp) nofun
  | coord hk ht =>
    rw [(ht.words (i := i)).2.2]
    rcases ht.event_grant with ⟨-, -, hold⟩ | ⟨j, -, hp', he, -⟩
    · exact .tail _ (hH.drawn i gr (hold i gr hp))
    · rw [hp] at hp'
      cases hp'
      rw [he]
      exact .head _
  | other ht _ _ _ _ _ hcoord ha => exact hother (hcoord ▸ hp) (by rintro rfl; cases ha)

theorem History.token_step {i : Inst} (ht : (barrierOf g s'.mem i).token ≠ 0) :
    .grant i (barrierOf g s'.mem i).seq (barrierOf g s'.mem i).token ∈ e :: tr := by
  obtain ⟨hseq, htok | hp⟩ := h.token hI i ht
  · rw [htok] at ht
    rw [hseq, htok]
    exact .tail _ (hH.token i ht)
  · rw [hseq]
    exact .tail _ (hH.drawn i _ hp)

theorem History.left_step {c q : ℕ} (hp : (s'.phase c).windsUp q) (r : Fin g.workerCount) :
    Completed g (e :: tr) (g.inst c) q r := by
  cases ha : a.isCallOf c with
  | false =>
    rw [(h.phase_eq ha).1] at hp
    exact (hH.left c q hp r).cons
  | true =>
    obtain ⟨b, rfl⟩ := Act.eq_call_of_isCallOf ha
    cases h with
    | call c b hk ht =>
      rcases ht.windsUp hp with hp | hp
      · exact (hH.left c q hp r).cons
      · -- the round drains, so everybody has completed it
        have hknows := hI.knows c (.of_acts hk (by rw [hp]; rfl))
        have hw := hI.wf (g.inst c)
        rw [hp] at hknows
        obtain ⟨-, ⟨-, hseq, -, hno⟩, hst⟩ := hknows
        simp only [WF, hst] at hw
        have hdone := (hw.2 fun hu => hno (hu ▸ Set.mem_univ _)).2.1
        rw [← hseq]
        exact (hH.complete _ r (hdone ▸ Set.mem_univ r)).cons
    | other ht _ _ _ _ _ _ hother => cases hother

omit hH in
/-- A call that returns a round holds its token. -/
theorem RoundsOk.granted_of_enterReturn {c q gr : ℕ} (he : e = .enterReturn c (.ok (q, gr))) :
    Live s c ∧ s.phase c = .granted q gr ∧ q = (s.locals c).nextSeq ∧
      Granted (rankOf g c) q gr (barrierOf g s.mem (g.inst c)) := by
  cases h with
  | call d b hk ht =>
    obtain ⟨rfl, hp⟩ := ht.enterReturn he
    have hl : Live s c := ⟨hk, by rw [hp]; rfl, fun hr => by rw [hp] at hr; cases hr⟩
    have hknows := hI.knows c hl
    rw [hp] at hknows
    exact ⟨hl, hp, hknows.1, hknows.2.1⟩
  | coord hk ht =>
    rcases ht.event_grant with ⟨hsil, -⟩ | ⟨j, -, -, hev, -⟩
    · rw [he] at hsil
      cases hsil
    · rw [he] at hev
      cases hev
  | other ht => cases he

theorem History.entered_step {c q gr : ℕ} (hr : .enterReturn c (.ok (q, gr)) ∈ e :: tr) :
    .grant (g.inst c) q gr ∈ e :: tr := by
  rcases List.mem_cons.mp hr with he | hr
  · obtain ⟨-, -, -, ⟨-, -, hseq, -⟩, htok, h0⟩ := hI.granted_of_enterReturn h he.symm
    have hgrant := hH.token (g.inst c) (htok ▸ h0)
    rw [hseq, htok] at hgrant
    exact .tail _ hgrant
  · exact .tail _ (hH.entered c q gr hr)

theorem History.returned_step {c d q gr : ℕ} (hcd : g.SameSlot c d) (hl' : Live s' c)
    (hr : .enterReturn d (.ok (q, gr)) ∈ e :: tr) :
    Returned (s'.locals c).nextSeq q (s'.phase c) := by
  rcases h.live hl' with hl | ⟨hclaim, b, rfl⟩
  · rcases List.mem_cons.mp hr with he | hr
    · -- the call returns, and it is the one call of its slot
      obtain ⟨hld, hp, hq, -⟩ := hI.granted_of_enterReturn h he.symm
      obtain rfl := hI.slot c d hcd hl hld
      cases h with
      | call d b hk ht =>
        obtain ⟨rfl, -⟩ := ht.enterReturn he.symm
        rw [hp, ← he] at ht
        generalize s'.mem = m', s'.locals c = x', s'.phase c = p' at ht ⊢
        cases ht with
        | quiet hm hmin => cases hmin
        | entered hm => exact Nat.le_of_eq hq
      | coord hk ht =>
        rcases ht.event_grant with ⟨hsil, -⟩ | ⟨j, -, -, hev, -⟩
        · rw [← he] at hsil
          cases hsil
        · rw [← he] at hev
          cases hev
      | other ht => cases he
    · have hret := hH.returned c d hcd hl q gr hr
      cases ha : a.isCallOf c with
      | false => rwa [(h.phase_eq ha).1, (h.phase_eq ha).2]
      | true =>
        obtain ⟨b, rfl⟩ := Act.eq_call_of_isCallOf ha
        cases h with
        | call c b hk ht =>
          have hgrant := hH.grantSeq _ _ _ (hH.entered d q gr hr)
          rw [← hcd.1] at hgrant
          exact ht.returned hl'.registered hgrant hret
        | other ht _ _ _ _ _ _ hother => cases hother
  · -- it has just taken its slot
    cases h with
    | call c b hk ht =>
      rw [hclaim] at ht
      have hreg := hl'.registered
      generalize s'.mem = m', s'.locals c = x', s'.phase c = p' at ht hreg ⊢
      cases ht with
      | quiet hm he => cases hreg
      | drop _ hp | abort hp => cases hp
      | claim => trivial
      | backOff hp => rcases hp with hp | ⟨_, hp⟩ <;> cases hp
      | fence hp => rcases hp with hp | ⟨hp, -⟩ <;> cases hp
    | other ht _ _ _ _ _ _ hother => cases hother

include hI' hs in
/-- **Every step of an orderly run keeps barriers and observations in agreement.** -/
theorem History.step : History g (e :: tr) s' where
  ready i r hr := by
    rcases h.arrived hI i hr with ⟨hr, hseq⟩ | ⟨d, hi, hd, he⟩
    · rw [hseq]
      exact (hH.ready i r hr).cons
    · exact ⟨d, hi, hd, he ▸ .head _⟩
  complete i r hr := by
    rcases h.done hI hs i hr with ⟨hr, hseq⟩ | ⟨d, hi, hd, he⟩
    · rw [hseq]
      exact (hH.complete i r hr).cons
    · exact ⟨d, hi, hd, he ▸ .head _⟩
  left _ _ := hH.left_step h hI
  token _ := hH.token_step h hI
  drawn _ _ := hH.drawn_step h hI
  grantSeq _ _ _ := hH.grantSeq_step h hI
  fresh _ := hH.fresh_step h hI hI'
  unique _ _ _ _ := hH.unique_step h
  grantId _ _ _ := hH.grantId_step h
  entered _ _ _ := hH.entered_step h hI
  returned _ _ hcd hl _ _ := hH.returned_step h hI hcd hl

end Preservation

theorem history_initialState : History g [] (initialState g) where
  ready i r hr := by
    have h0 : ranksIn g 0#64 = ∅ := ranksIn_zero
    exact absurd (h0 ▸ hr : r ∈ (∅ : Set _)) (Set.notMem_empty r)
  complete i r hr := by
    have h0 : ranksIn g 0#64 = ∅ := ranksIn_zero
    exact absurd (h0 ▸ hr : r ∈ (∅ : Set _)) (Set.notMem_empty r)
  left c q hp := by
    rw [initialState_phase] at hp
    cases hp
  token i ht := absurd rfl ht
  drawn i gr hp := nomatch hp
  grantSeq _ _ _ := nofun
  fresh _ _ _ := nofun
  unique _ _ _ _ := nofun
  grantId _ _ _ := nofun
  entered _ _ _ := nofun
  returned _ _ _ _ _ _ := nofun

/-- **In every orderly run, barriers and observations agree.** -/
theorem history_of_run (h : Run g (Orderly g) tr s) : History g tr s := by
  induction h with
  | start => exact history_initialState
  | next h hP hs ih =>
    exact ih.step (trans_of_step hs) (roundsOk_of_run h) (roundsOk_of_run (.next h hP hs))
      (support_of_run h)

/-! ## Justified observations -/

/-- What has been observed before, `pre`, justifies the observation. -/
def Justified (g : Generation) (pre : List Event) : Event → Prop
  | .enterReturn c (.ok (q, gr)) =>
    (∀ r, Announced g pre (g.inst c) q r) ∧ .grant (g.inst c) q gr ∈ pre ∧
      (∀ d gr', g.inst d = g.inst c → .enterReturn d (.ok (q, gr')) ∈ pre → gr' = gr) ∧
      ∀ d gr', g.SameSlot c d → .enterReturn d (.ok (q, gr')) ∉ pre
  | .leaveReturn c q (.ok _) => ∀ r, Completed g pre (g.inst c) q r
  | .grant i q gr =>
    (∀ j q' gr', .grant j q' gr' ∈ pre → gr' < gr) ∧ ∀ gr', .grant i q gr' ∉ pre
  | _ => True

/-- The observation of a step is justified. -/
theorem History.justified (h : Trans g s a e s') (hI : RoundsOk g tr s) (hH : History g tr s) :
    Justified g tr e := by
  cases he : e with
  | enterReturn c res =>
    cases res with
    | error err => trivial
    | ok r =>
      obtain ⟨q, gr⟩ := r
      obtain ⟨hl, hp, hq, ⟨hst, -, hseq, -, -⟩, htok, h0⟩ := hI.granted_of_enterReturn h he
      have hw := hI.wf (g.inst c)
      simp only [WF, hst] at hw
      have hgrant := hH.token (g.inst c) (htok ▸ h0)
      rw [hseq, htok] at hgrant
      refine ⟨fun r => ?_, hgrant, fun d gr' hd hr => ?_, fun d gr' hcd hr => ?_⟩
      · rw [← hseq]
        exact hH.ready _ r (hw.1 ▸ Set.mem_univ r)
      · exact hH.unique _ q gr' gr (hd ▸ hH.entered d q gr' hr) hgrant
      · have hret := hH.returned c d hcd hl q gr' hr
        rw [hp, ← hq] at hret
        exact Nat.lt_irrefl q hret
  | leaveReturn c q res =>
    cases res with
    | error err => trivial
    | ok u =>
      subst he
      cases h with
      | call d b hk ht =>
        generalize hm' : s'.mem = m', hx' : s'.locals d = x', hp' : s'.phase d = p',
          hp : s.phase d = p at ht
        cases ht with
        | quiet hm hmin => cases hmin
        | leftReturn hm => exact hH.left _ _ (by rw [hp]; rfl)
      | coord hk ht =>
        rcases ht.event_grant with ⟨hsil, -⟩ | ⟨j, -, -, hev, -⟩
        · cases hsil
        · cases hev
  | grant i q gr =>
    obtain ⟨-, hp, -, hq, hgr, -⟩ := h.event_grant i he
    refine ⟨fun j q' gr' hg => ?_, fun gr' hg => hH.fresh i (.drawing hp) gr' (hq ▸ hg)⟩
    exact hgr ▸ Nat.lt_succ_of_le (hH.grantId j q' gr' hg)
  | _ => trivial

/-- **Round barrier and grant agreement.** With a fixed set of contexts, every observation is
justified by the earlier ones. -/
theorem barrier_and_agreement (h : Run g (fixedSlots g) tr s) {post pre : List Event}
    (htr : tr = post ++ e :: pre) : Justified g pre e := by
  have hall : ∀ {tr s}, Run g (Orderly g) tr s → ∀ post e pre, tr = post ++ e :: pre →
      Justified g pre e := by
    intro tr s h
    induction h with
    | start =>
      intro post e pre htr
      cases post <;> cases htr
    | next h hP hs ih =>
      intro post e pre htr
      cases post with
      | nil =>
        cases htr
        exact (history_of_run h).justified (trans_of_step hs) (roundsOk_of_run h)
      | cons e' post =>
        cases htr
        exact ih post e pre rfl
  exact hall (orderly_of_fixed h) post e pre htr

/-- Rank `0` has just entered the first round, with the first grant. -/
def enteredFirst : List Event → Bool
  | .enterReturn 0 (.ok (1, 1)) :: _ => true
  | _ => false

/-- Two ranks enter a round; rank `0` gets it back with the first grant. -/
theorem barrier_and_agreement_firstRound :
    ∃ pre s, Run pairOfTwo (fixedSlots pairOfTwo) (.enterReturn 0 (.ok (1, 1)) :: pre) s ∧
      Justified pairOfTwo pre (.enterReturn 0 (.ok (1, 1))) := by
  obtain ⟨tr, s, h, htest⟩ := exists_run pairOfTwo (fun _ _ => id)
    (halfBarrier ++ .enterCall 2 :: calls 21 2 ++ ticks 42 ++ calls 15 0)
    (fun tr _ => enteredFirst tr) (p := openedBelow 4) (by decide +kernel)
  simp only [enteredFirst] at htest
  have hfix := fixed_of_openedBelow (by decide) (sampleGeneration_slots _ _) h
  split at htest
  · exact ⟨_, s, hfix, barrier_and_agreement hfix (List.nil_append _).symm⟩
  · cases htest

end YellowZone.PairSched
