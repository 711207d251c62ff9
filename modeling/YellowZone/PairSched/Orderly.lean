import YellowZone.PairSched.Rounds

/-!
# Orderly runs

Two things can go wrong when ranks come and go. A context can be registered for a slot whose
previous context is still in a call, so that two contexts act for one rank; and `ps_close` can
store OFFLINE on the strength of an IDLE it loaded long before, over a round that has started
since. `Orderly` excludes just these two. Contexts may be killed, closed and replaced at any
point otherwise.

## Main results

* `Live`, `Orderly`
* `RoundsOk`, `roundsOk_of_run` — phases and barriers agree in every orderly run
-/

namespace YellowZone.PairSched

open Machine Barrier

variable {g : Generation} {tr : List Event} {s s' : State} {a : Act} {e : Event}

/-! ## Live contexts -/

/-- The context has taken its slot. -/
def Phase.registered : Phase → Bool
  | .absent | .claiming => false
  | _ => true

/-- The context is in no round, or on its way out. -/
def Phase.atRest : Phase → Bool
  | .out | .failing => true
  | _ => false

/-- The context may still move the barrier: it has its slot, its process lives, and if it is
being closed, it is in the middle of a call. -/
structure Live (s : State) (c : ℕ) : Prop where
  killed : (s.ctx c).killed = false
  registered : (s.phase c).registered = true
  stopping : (s.phase c).atRest = true → s.mem (.stopping c) = false

/-- What is assumed of the steps. A context takes its slot only when no other context of the slot
is live; a closing context that stores OFFLINE does so in state IDLE. -/
def Orderly (g : Generation) (s : State) : Act → Prop
  | .call c _ => s.phase c = .claiming → ∀ d, d ≠ c → g.SameSlot c d → ¬Live s d
  | .close c => (s.ctx c).close = some .storeOffline → s.mem (.state (g.inst c)) = .idle
  | _ => True

theorem CallTrans.live {c t : ℕ} {m m' : Memory} {x x' : Locals} {p p' : Phase}
    (h : CallTrans g c t m x p e m' x' p') (hp' : p'.registered = true)
    (hs' : p'.atRest = true → m' (.stopping c) = false) :
    p = .claiming ∨ p.registered = true ∧ (p.atRest = true → m (.stopping c) = false) := by
  have hmono : m' (.stopping c) = false → m (.stopping c) = false := fun hs' => by
    by_contra hs
    rw [h.stopping (by simpa using hs)] at hs'
    cases hs'
  cases h with
  | claim => exact .inl rfl
  | quiet hm he => exact .inr ⟨hp', fun hp => hmono (hs' hp)⟩
  | fail reason | refuse ha => exact .inr ⟨rfl, fun _ => hmono (hs' rfl)⟩
  | seek hs ha | begin hs => exact .inr ⟨rfl, fun _ => hs⟩
  | openClaim hm | undo hm => cases hp'
  | drop hs hp | abort hp =>
    right
    refine ⟨?_, fun hr => ?_⟩
    · revert hp; cases p <;> simp [Phase.canDrop, Phase.canAbort, Phase.registered]
    · revert hp; revert hr; cases p <;> simp [Phase.canDrop, Phase.canAbort, Phase.atRest]
  | backOff hp => rcases hp with rfl | ⟨gr, rfl⟩ <;> exact .inr ⟨rfl, by rintro ⟨⟩⟩
  | fence hp hq hg => rcases hp with rfl | ⟨rfl, -⟩ <;> exact .inr ⟨rfl, by rintro ⟨⟩⟩
  | _ => exact .inr ⟨rfl, by rintro ⟨⟩⟩

/-- Only taking a slot makes a context live. -/
theorem Trans.live (h : Trans g s a e s') {c : ℕ} (hl : Live s' c) :
    Live s c ∨ s.phase c = .claiming ∧ ∃ b, a = .call c b := by
  have hmono : s'.mem (.stopping c) = false → s.mem (.stopping c) = false := fun hs' => by
    by_contra hs
    rw [h.stopping (by simpa using hs)] at hs'
    cases hs'
  have hother : s'.phase c = s.phase c → (s.ctx c).killed = false → Live s c := fun hp hk =>
    ⟨hk, hp ▸ hl.registered, fun hr => hmono (hl.stopping (hp ▸ hr))⟩
  cases h with
  | call d b hk ht hctx =>
    by_cases hd : c = d
    · subst hd
      rcases ht.live hl.registered hl.stopping with hp | ⟨hp, hr⟩
      · exact .inr ⟨hp, b, rfl⟩
      · exact .inl ⟨hk, hp, hr⟩
    · exact .inl (hother (by simp only [State.phase, hctx c hd]) (hctx c hd ▸ hl.killed))
  | coord hk ht hctx => exact .inl (hother (by simp only [State.phase, hctx]) (hctx ▸ hl.killed))
  | other ht hphase hlocals hclosed hkilled =>
    refine .inl (hother (hphase c) ?_)
    by_contra hk
    have hk' := hkilled c (by simpa using hk)
    rw [hl.killed] at hk'
    cases hk'

/-! ## Contexts that have not been opened -/

/-- Nobody is observed inside a round by a step of somebody else. -/
theorem Trans.inside_of_ne (h : Trans g s a e s') {c : ℕ} (hc : a.isCallOf c = false) :
    Inside c (e :: tr) ↔ Inside c tr := by
  cases h with
  | call d b hk ht =>
    exact ht.inside_of_ne (by rintro rfl; simp [Act.isCallOf] at hc)
  | coord hk ht => exact ht.inside c
  | other ht => exact Iff.rfl

/-- A context that has not been handed to its caller has not been inside a round. -/
theorem not_inside_of_run {P : State → Act → Prop} (h : Run g P tr s) (c : ℕ)
    (hc : (s.ctx c).call.isOpen = false) : ¬Inside c tr := by
  revert hc
  refine h.invariant (I := fun tr s => (s.ctx c).call.isOpen = false → ¬Inside c tr)
    (fun _ => id) ?_
  intro tr s a s' hI _ hs hc'
  have hc : (s.ctx c).call.isOpen = false := by
    by_contra hne
    rw [isOpen_of_step hs (by simpa using hne)] at hc'
    cases hc'
  by_cases ha : a.isCallOf c = true
  · obtain ⟨b, rfl⟩ := Act.eq_call_of_isCallOf ha
    have he : (system g).event s (.call c b) s' = .silent := by
      change callEvent c (s.ctx c).call (s'.ctx c).call = .silent
      cases hpc : (s.ctx c).call <;> first | rfl | (rw [hpc] at hc; cases hc)
    rw [he]
    exact hI hc
  · exact fun hin => hI hc (((trans_of_step hs).inside_of_ne (by simpa using ha)).mp hin)

theorem isOpen_of_claiming {c : ℕ} (h : s.phase c = .claiming) : (s.ctx c).call.isOpen = false := by
  unfold State.phase at h
  cases hpc : (s.ctx c).call with
  | enter pc =>
    rw [hpc, phaseOf] at h
    unfold enterPhase at h
    split at h <;> first | cases h | (split at h <;> cases h)
  | leave q gid pc =>
    rw [hpc, phaseOf] at h
    unfold leavePhase at h
    split at h <;> first | cases h | (split at h <;> cases h)
  | idle r => rw [hpc] at h; cases h
  | _ => rfl

/-! ## Phases and barriers agree -/

/-- The invariant of orderly runs. -/
structure RoundsOk (g : Generation) (tr : List Event) (s : State) : Prop where
  wf : ∀ i, (barrierOf g s.mem i).WF
  lock : ∀ c, LockOk (barrierOf g s.mem (g.inst c)) (s.phase c)
  holder : ∀ c d, g.inst c = g.inst d → (s.phase c).holdsBarrier = true →
    (s.phase d).holdsBarrier = true → c = d
  slot : ∀ c d, g.SameSlot c d → Live s c → Live s d → c = d
  knows : ∀ c, Live s c → Knows (rankOf g c) (barrierOf g s.mem (g.inst c)) (s.locals c)
    (Inside c tr) (s.phase c)
  inside : ∀ c, Live s c → InsideOk (rankOf g c) (barrierOf g s.mem (g.inst c)) (s.locals c)
    (Inside c tr)
  coord : ∀ i, CoordOk (barrierOf g s.mem i) i s.coordPhase

theorem Live.of_acts {c : ℕ} (hk : (s.ctx c).killed = false) (h : (s.phase c).acts = true) :
    Live s c := by
  refine ⟨hk, ?_, ?_⟩ <;> revert h <;> cases s.phase c <;>
    simp [Phase.acts, Phase.registered, Phase.atRest]

/-- A context that is about to set its complete bit is inside a round and has its token. -/
theorem RoundsOk.granted_of_fenceRest {c q gr : ℕ} (hI : RoundsOk g tr s) (hs : Support g tr s)
    (hk : (s.ctx c).killed = false) (hp : s.phase c = .fenceRest q gr) :
    Inside c tr ∧ Granted (rankOf g c) (s.locals c).activeSeq (s.locals c).activeGrantId
      (barrierOf g s.mem (g.inst c)) := by
  have hin : Inside c tr := by
    have hl := hs.leave c
    rwa [hp] at hl
  exact ⟨hin, hI.inside c (.of_acts hk (by rw [hp]; rfl)) hin⟩

/-- Who moves the barrier of `i` in a step, and as whom. -/
inductive Mover (g : Generation) (s : State) (i : Inst) : Act → Actor (Fin g.workerCount) → Prop
  | call (c : ℕ) (b : Bool) {act : Actor (Fin g.workerCount)} (hc : g.inst c = i)
      (hk : (s.ctx c).killed = false) (h : ActsAs (rankOf g c) (s.phase c) act) :
      Mover g s i (.call c b) act
  | coord : Mover g s i .coord .controller
  | other {a : Act} (ha : a.isOther = true) : Mover g s i a .environment

/-- **Every step of an orderly run is a step of the barrier**, or leaves it alone. -/
theorem Trans.barrier_step (h : Trans g s a e s') (hI : RoundsOk g tr s) (hs : Support g tr s)
    (ho : Orderly g s a) (i : Inst) :
    barrierOf g s'.mem i = barrierOf g s.mem i ∨
      ∃ act, Step (barrierOf g s.mem i) act (barrierOf g s'.mem i) ∧ Mover g s i a act := by
  cases h with
  | call c b hk ht =>
    by_cases hi : i = g.inst c
    · subst hi
      rcases ht.barrier_step (hI.wf _) (hI.lock c)
        (fun hp => hI.knows c (.of_acts hk hp))
        (fun q gr hp => (hI.granted_of_fenceRest hs hk hp).2) with heq | ⟨act, hact, hstep⟩
      · exact .inl heq
      · exact .inr ⟨act, hstep, .call c b rfl hk hact⟩
    · exact .inl (ht.barrierOf_ne hi)
  | coord hk ht =>
    rcases ht.barrier_step (hI.wf i) (hI.coord i) with heq | hstep
    · exact .inl heq
    · exact .inr ⟨.controller, hstep, .coord⟩
  | other ht _ _ _ _ _ _ ha =>
    cases ht with
    | quiet hm => exact .inl (hm.barrierOf i)
    | fail reason h | shutdown h | clear c h => exact .inl (by rw [h]; rfl)
    | offline c hc h =>
      by_cases hi : i = g.inst c
      · subst hi
        have hst := ho hc
        refine .inr ⟨.environment, ?_, .other ha⟩
        rw [h, barrierOf_set_state]
        exact .offline (by simp [barrierOf, hst, RoundState.stage])
      · exact .inl (by rw [h]; simp [barrierOf, hi])

section Step

variable {i : Inst} {act : Actor (Fin g.workerCount)} {d : ℕ}

/-- A locked barrier is not moved by anybody but its holder. -/
theorem RoundsOk.not_mover_of_holder (hI : RoundsOk g tr s) (hd : (s.phase d).holdsBarrier = true)
    (hm : Mover g s (g.inst d) a act) (hs : Step (barrierOf g s.mem (g.inst d)) act b')
    (ha : a.isCallOf d = false) : False := by
  have hact := holder_of_locked (hI.wf _) ((hI.lock d).locked hd) hs
  subst hact
  cases hm with
  | call c b hc hk h =>
    obtain rfl := hI.holder c d hc h hd
    simp [Act.isCallOf] at ha

/-- Nobody else moves the barrier as the rank of a live context. -/
theorem RoundsOk.mover_ne_party (hI : RoundsOk g tr s) (hd : Live s d)
    (hm : Mover g s (g.inst d) a act) (ha : a.isCallOf d = false) :
    act ≠ .party (rankOf g d) := by
  rintro rfl
  cases hm with
  | call c b hc hk h =>
    obtain rfl := hI.slot c d ⟨hc, (Fin.ext_iff.mp h.1).symm⟩ (.of_acts hk h.2) hd
    simp [Act.isCallOf] at ha

theorem Mover.ne_controller (hm : Mover g s i a act) (ha : a ≠ .coord) : act ≠ .controller := by
  rintro rfl
  cases hm with
  | call c b hc hk h => exact h
  | coord => exact ha rfl

end Step

/-- What a context knows and relies on, in one state of a run. -/
def Informed (g : Generation) (tr : List Event) (s : State) (c : ℕ) : Prop :=
  Knows (rankOf g c) (barrierOf g s.mem (g.inst c)) (s.locals c) (Inside c tr) (s.phase c) ∧
    InsideOk (rankOf g c) (barrierOf g s.mem (g.inst c)) (s.locals c) (Inside c tr)

section Preservation

variable (h : Trans g s a e s') (hI : RoundsOk g tr s) (hs : Support g tr s) (ho : Orderly g s a)
include h hI hs ho

/-- The holder of a barrier, while others move. -/
theorem RoundsOk.lock_of_other {d : ℕ} (ha : a.isCallOf d = false) :
    LockOk (barrierOf g s'.mem (g.inst d)) (s'.phase d) := by
  rw [(h.phase_eq ha).1]
  rcases h.barrier_step hI hs ho (g.inst d) with heq | ⟨act, hstep, hm⟩
  · rw [heq]
    exact hI.lock d
  · refine .of_not_holder ?_
    by_contra hd
    exact hI.not_mover_of_holder (by simpa using hd) hm hstep ha

/-- A live context, while others move. -/
theorem RoundsOk.informed_of_other {d : ℕ} (ha : a.isCallOf d = false) (hd : Live s d) :
    Informed g (e :: tr) s' d := by
  unfold Informed
  rw [(h.phase_eq ha).1, (h.phase_eq ha).2]
  have hin : Inside d (e :: tr) → Inside d tr := (h.inside_of_ne ha).mp
  rcases h.barrier_step hI hs ho (g.inst d) with heq | ⟨act, hstep, hm⟩
  · rw [heq]
    exact ⟨(hI.knows d hd).of_inside hin, fun hi => hI.inside d hd (hin hi)⟩
  · have hne := hI.mover_ne_party hd hm ha
    exact ⟨((hI.knows d hd).step (hI.wf _) hstep hne).of_inside hin,
      fun hi => (hI.inside d hd).step hstep hne (hin hi)⟩

omit ho in
/-- The context that moves. -/
theorem RoundsOk.of_self (hv : Valid g s.mem) (hnew : ∀ c, s.phase c = .claiming → ¬Inside c tr)
    {c : ℕ} (ha : a.isCallOf c = true) :
    LockOk (barrierOf g s'.mem (g.inst c)) (s'.phase c) ∧
      ((s'.phase c).holdsBarrier = true →
        (s.phase c).holdsBarrier = true ∨ ¬(barrierOf g s.mem (g.inst c)).Locked) ∧
      (Live s' c → Informed g (e :: tr) s' c) := by
  have hlive := h.live (c := c)
  cases h with
  | call d b hk ht =>
    obtain rfl : d = c := by simpa [Act.isCallOf] using ha
    have hacts := fun hp => hI.knows d (.of_acts hk hp)
    have hrest := fun q gr (hp : s.phase d = .fenceRest q gr) => hI.granted_of_fenceRest hs hk hp
    refine ⟨ht.lockOk hv (hI.lock d) hacts fun q gr hp => (hrest q gr hp).2,
      ht.not_locked hacts fun q gr hp => (hrest q gr hp).2, fun hl => ?_⟩
    -- it was live before, or has just taken its slot
    have hbefore : Informed g tr s d := by
      rcases hlive hl with hl | ⟨hclaim, -⟩
      · exact ⟨hI.knows d hl, hI.inside d hl⟩
      · exact ⟨by rw [hclaim]; trivial, fun hi => absurd hi (hnew d hclaim)⟩
    exact ⟨ht.knows (hI.wf _) (hI.lock d) hbefore.1 hbefore.2 fun q gr hp => (hrest q gr hp).1,
      ht.insideOk (hI.lock d) hbefore.1 hbefore.2⟩
  | coord hk ht => cases ha
  | other ht _ _ _ _ _ _ hother => cases a <;> first | cases ha | cases hother

omit hs in
/-- Slots are handed over in order. -/
theorem RoundsOk.slot_of_step {c d : ℕ} (hcd : g.SameSlot c d) (hc : Live s' c) (hd : Live s' d) :
    c = d := by
  by_contra hne
  rcases h.live hc with hc | ⟨hclaim, b, rfl⟩
  · rcases h.live hd with hd | ⟨hclaim, b, rfl⟩
    · exact hne (hI.slot c d hcd hc hd)
    · exact ho hclaim c hne hcd.symm hc
  · rcases h.live hd with hd | ⟨-, b', hb'⟩
    · exact ho hclaim d (Ne.symm hne) hcd hd
    · cases hb'
      exact hne rfl

theorem RoundsOk.coord_of_step (i : Inst) : CoordOk (barrierOf g s'.mem i) i s'.coordPhase := by
  have hb := h.barrier_step hI hs ho i
  have hother : s'.coordPhase = s.coordPhase → a ≠ .coord →
      CoordOk (barrierOf g s'.mem i) i s'.coordPhase := by
    intro hp ha
    rw [hp]
    rcases hb with heq | ⟨act, hstep, hm⟩
    · rw [heq]
      exact hI.coord i
    · exact (hI.coord i).step (hI.wf i) hstep (hm.ne_controller ha)
  cases h with
  | call c b hk ht _ _ _ _ hcoord => exact hother hcoord nofun
  | coord hk ht => exact ht.coordOk (hI.wf i) (hI.coord i)
  | other ht _ _ _ _ _ hcoord ha => exact hother hcoord (by rintro rfl; cases ha)

/-- **Every step of an orderly run keeps phases and barriers in agreement.** -/
theorem RoundsOk.step (hv : Valid g s.mem) (hnew : ∀ c, s.phase c = .claiming → ¬Inside c tr) :
    RoundsOk g (e :: tr) s' := by
  have hself := fun {c} => hI.of_self h hs hv hnew (c := c)
  -- a new holder has moved, and found the barrier unlocked
  have hholder : ∀ c, (s'.phase c).holdsBarrier = true → (s.phase c).holdsBarrier = true ∨
      a.isCallOf c = true ∧ ¬(barrierOf g s.mem (g.inst c)).Locked := by
    intro c hc
    cases ha : a.isCallOf c with
    | true => exact ((hself ha).2.1 hc).imp id fun hl => ⟨rfl, hl⟩
    | false => exact .inl (by rwa [(h.phase_eq ha).1] at hc)
  have hinformed : ∀ c, Live s' c → Informed g (e :: tr) s' c := by
    intro c hc
    cases ha : a.isCallOf c with
    | true => exact (hself ha).2.2 hc
    | false =>
      rcases h.live hc with hl | ⟨-, b, rfl⟩
      · exact hI.informed_of_other h hs ho ha hl
      · simp [Act.isCallOf] at ha
  refine ⟨fun i => ?_, fun c => ?_, fun c d hcd hc hd => ?_,
    fun c d => hI.slot_of_step h ho, fun c hc => (hinformed c hc).1, fun c hc => (hinformed c hc).2,
    hI.coord_of_step h hs ho⟩
  · rcases h.barrier_step hI hs ho i with heq | ⟨act, hstep, -⟩
    · rw [heq]
      exact hI.wf i
    · exact (hI.wf i).step hstep
  · cases ha : a.isCallOf c with
    | true => exact (hself ha).1
    | false => exact hI.lock_of_other h hs ho ha
  · rcases hholder c hc with hc | ⟨hac, hlc⟩
    · rcases hholder d hd with hd | ⟨-, hld⟩
      · exact hI.holder c d hcd hc hd
      · exact absurd (hcd ▸ (hI.lock c).locked hc) hld
    · rcases hholder d hd with hd | ⟨had, -⟩
      · exact absurd (hcd ▸ (hI.lock d).locked hd) hlc
      · obtain ⟨b, rfl⟩ := Act.eq_call_of_isCallOf hac
        simpa [Act.isCallOf] using had

end Preservation

theorem roundsOk_initialState : RoundsOk g [] (initialState g) := by
  have hlive : ∀ c, ¬Live (initialState g) c := fun c hc => by simpa [Phase.registered] using hc.2
  refine ⟨fun i => ?_, fun c => ?_, fun c d _ hc => ?_, fun c d _ hc => absurd hc (hlive c),
    fun c hc => absurd hc (hlive c), fun c hc => absurd hc (hlive c), fun i => trivial⟩
  · exact ⟨ranksIn_zero, ranksIn_zero, rfl⟩
  · rw [initialState_phase]
    trivial
  · rw [initialState_phase] at hc
    cases hc

/-- **In every orderly run, phases and barriers agree.** -/
theorem roundsOk_of_run (h : Run g (Orderly g) tr s) : RoundsOk g tr s := by
  induction h with
  | start => exact roundsOk_initialState
  | next h hP hs ih =>
    exact ih.step (trans_of_step hs) (support_of_run h) hP (valid_of_run h)
      fun c hc => not_inside_of_run h c (isOpen_of_claiming hc)

end YellowZone.PairSched
