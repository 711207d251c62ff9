import YellowZone.Machine.Barrier
import YellowZone.PairSched.MutualExclusion

/-!
# The rounds of a group are a barrier

The words of a group are the state of a barrier for its ranks (`barrierOf`): the ready, complete
and exit masks are the sets of ranks that have arrived, finished and departed, the grant is the
token. Every step of the system does to this barrier what `Machine.Barrier` allows, provided that
slots are handed over in order.

## Phases and knowledge

What a context knows of the barrier follows from its phase (`Knows`, in the terms of the
library), and so does what the holder of the barrier may rely on (`LockOk`). The knowledge of a
context is claimed only while it is live: a killed context keeps its phase for ever. The holder's
is claimed of every context, since a barrier whose holder has been killed stays locked.

## Main results

* `barrierOf` — the barrier of a group
* `Knows`, `LockOk`, `CoordOk` — what goes with a phase, and that steps keep it
-/

namespace YellowZone.PairSched

open Machine Barrier

variable {g : Generation} {tr : List Event} {s s' : State} {a : Act} {e : Event}

/-! ## The barrier of a group -/

instance (g : Generation) : Nonempty (Fin g.workerCount) := ⟨⟨0, g.workerCount_pos⟩⟩

/-- The rank of a context, among the expected ones. -/
def rankOf (g : Generation) (c : ℕ) : Fin g.workerCount := ⟨g.rank c, g.rank_lt c⟩

/-- The expected ranks in a mask. -/
def ranksIn (g : Generation) (mask : BitVec 64) : Set (Fin g.workerCount) :=
  { r | BitMask.HasBit mask r }

@[simp] theorem ranksIn_zero : ranksIn g 0#64 = ∅ := by
  ext r
  simp [ranksIn]

@[simp] theorem ranksIn_or_bitOf (mask : BitVec 64) (c : ℕ) :
    ranksIn g (mask ||| g.bitOf c) = insert (rankOf g c) (ranksIn g mask) := by
  ext r
  simp only [ranksIn, Set.mem_ofPred_eq, Set.mem_insert_iff, Generation.bitOf,
    BitMask.hasBit_or_bit (g.rank_lt_64 c), rankOf, Fin.ext_iff]
  exact or_comm

theorem MaskOk.ranksIn_eq_univ_iff {mask : BitVec 64} (h : MaskOk g mask) :
    ranksIn g mask = .univ ↔ mask = g.expectedMask := by
  rw [h.eq_expectedMask_iff, Set.eq_univ_iff_forall]
  exact ⟨fun hr q hq => hr ⟨q, hq⟩, fun hr r => hr r r.isLt⟩

/-- Rounds in the terms of the barrier. -/
def RoundState.stage : RoundState → Stage
  | .offline => .offline
  | .idle => .idle
  | .initializing => .opening
  | .collecting => .gathering
  | .ready => .gathered
  | .running => .running
  | .complete => .finished
  | .draining => .leaving

/-- **The barrier** that the words of a group are. -/
def barrierOf (g : Generation) (m : Memory) (i : Inst) : Barrier (Fin g.workerCount) where
  stage := (m (.state i)).stage
  seq := m (.forwardSeq i)
  token := m (.grantId i)
  arrived := ranksIn g (m (.readyMask i))
  done := ranksIn g (m (.completeMask i))
  departed := ranksIn g (m (.exitMask i))

section BarrierOf

variable {m m' : Memory} {i j : Inst}

theorem barrierOf_congr (hst : m' (.state i) = m (.state i))
    (hq : m' (.forwardSeq i) = m (.forwardSeq i)) (hg : m' (.grantId i) = m (.grantId i))
    (hr : m' (.readyMask i) = m (.readyMask i)) (hc : m' (.completeMask i) = m (.completeMask i))
    (he : m' (.exitMask i) = m (.exitMask i)) : barrierOf g m' i = barrierOf g m i := by
  simp only [barrierOf, hst, hq, hg, hr, hc, he]

theorem Calm.barrierOf (h : Calm m m') (i : Inst) : barrierOf g m' i = PairSched.barrierOf g m i :=
  barrierOf_congr (h.core _ rfl) (h.core _ rfl) (h.core _ rfl) (h.core _ rfl) (h.core _ rfl)
    (h.core _ rfl)

section Set

variable (g m i)

@[simp] theorem barrierOf_set_state (st : RoundState) :
    barrierOf g (m.set (.state i) st) i = { barrierOf g m i with stage := st.stage } := by
  simp [barrierOf]

@[simp] theorem barrierOf_set_forwardSeq (q : ℕ) :
    barrierOf g (m.set (.forwardSeq i) q) i = { barrierOf g m i with seq := q } := by
  simp [barrierOf]

@[simp] theorem barrierOf_set_grantId (gr : ℕ) :
    barrierOf g (m.set (.grantId i) gr) i = { barrierOf g m i with token := gr } := by
  simp [barrierOf]

@[simp] theorem barrierOf_set_readyMask (mask : BitVec 64) :
    barrierOf g (m.set (.readyMask i) mask) i =
      { barrierOf g m i with arrived := ranksIn g mask } := by
  simp [barrierOf]

@[simp] theorem barrierOf_set_completeMask (mask : BitVec 64) :
    barrierOf g (m.set (.completeMask i) mask) i =
      { barrierOf g m i with done := ranksIn g mask } := by
  simp [barrierOf]

@[simp] theorem barrierOf_set_exitMask (mask : BitVec 64) :
    barrierOf g (m.set (.exitMask i) mask) i =
      { barrierOf g m i with departed := ranksIn g mask } := by
  simp [barrierOf]

end Set

theorem CallTrans.barrierOf_ne {c t : ℕ} {x x' : Locals} {p p' : Phase}
    (h : CallTrans g c t m x p e m' x' p') (hj : j ≠ g.inst c) :
    barrierOf g m' j = barrierOf g m j := by
  cases h <;> first
    | rfl
    | exact ‹Calm _ _›.barrierOf j
    | simp [barrierOf, hj]

end BarrierOf

/-! ## What the holder relies on -/

/-- The phases of the holder of a barrier. -/
def Phase.holdsBarrier : Phase → Bool
  | .initSeq _ | .initGrant _ | .initReady _ | .initComplete _ | .initExit _ => true
  | .initClock _ | .initPublish _ _ | .initState _ => true
  | .lastReady _ | .lastComplete _ => true
  | .resetReady _ | .resetComplete _ | .resetGrant _ | .resetPublish _ | .resetState _ => true
  | _ => false

section Knowledge

variable {R : Type}

/-- What the barrier is like while its holder is in a phase. -/
def LockOk (b : Barrier R) : Phase → Prop
  | .initSeq q => b.stage = .opening ∧ b.seq < q
  | .initGrant q | .initReady q | .initComplete q | .initExit q =>
    b.stage = .opening ∧ b.seq = q ∧ q ≠ 0
  | .initClock q | .initPublish q _ | .initState q =>
    b.stage = .opening ∧ b.seq = q ∧ q ≠ 0 ∧ b.departed = ∅
  | .lastReady _ => b.stage = .gathering ∧ b.arrived = .univ
  | .lastComplete _ => b.stage = .running ∧ b.done = .univ
  | .resetReady _ => b.stage = .leaving ∧ b.departed = .univ
  | .resetComplete _ => b.stage = .leaving ∧ b.departed = .univ ∧ b.arrived = ∅
  | .resetGrant _ => b.stage = .leaving ∧ b.departed = .univ ∧ b.arrived = ∅ ∧ b.done = ∅
  | .resetPublish _ | .resetState _ =>
    b.stage = .leaving ∧ b.departed = .univ ∧ b.arrived = ∅ ∧ b.done = ∅ ∧ b.token = 0
  | _ => True

theorem LockOk.of_not_holder {b : Barrier R} {p : Phase} (h : p.holdsBarrier = false) :
    LockOk b p := by
  cases p <;> trivial

theorem LockOk.locked {b : Barrier R} {p : Phase} (h : LockOk b p) (hp : p.holdsBarrier = true) :
    b.Locked := by
  cases p with
  | lastReady q => exact .inr (.inl h)
  | lastComplete q => exact .inr (.inr (.inl h))
  | resetReady q => exact .inr (.inr (.inr h))
  | resetComplete q | resetGrant q | resetPublish q | resetState q =>
    exact .inr (.inr (.inr ⟨h.1, h.2.1⟩))
  | _ => first | exact .inl h.1 | cases hp

/-! ## What a context knows -/

/-- What a live context with rank `r` knows in a phase; `inside` says that it is inside a round. -/
def Knows (r : R) (b : Barrier R) (x : Locals) (inside : Prop) : Phase → Prop
  | .absent | .claiming | .registering => True
  | .out | .failing | .begun | .unexpired => UpTo r x.nextSeq b
  | .seeking q => q = x.nextSeq ∧ q ≠ 0 ∧ UpTo r (q - 1) b
  | .saw q st => q = x.nextSeq ∧ q ≠ 0 ∧ UpTo r (q - 1) b ∧ (st = .collecting → Seen r b)
  | .initSeq q | .initGrant q | .initReady q | .initComplete q => q = x.nextSeq
  | .initExit q | .initClock q | .initPublish q _ | .initState q => q = x.nextSeq
  | .joined q => q = x.nextSeq ∧ Joined r q b
  | .lastReady q | .waiting q => q = x.nextSeq ∧ Waits r q b
  | .sawRunning q => q = x.nextSeq ∧ Runs r q b
  | .sawGrant q gr | .sawOwner q gr | .checked q gr => q = x.nextSeq ∧ Granted r q gr b
  | .granted q gr =>
    q = x.nextSeq ∧ Granted r q gr b ∧ x.activeSeq = q ∧ x.activeGrantId = gr
  | .fenceOwner q gr | .fenceSeq q gr | .fenceRest q gr =>
    UpTo r x.nextSeq b ∧ x.activeSeq = q ∧ x.activeGrantId = gr
  | .lastComplete q | .finishing q => q ≤ x.nextSeq ∧ Finishes r q b
  | .sawDraining q => q ≤ x.nextSeq ∧ Finishes r q b ∧ b.stage = .leaving
  | .resetReady _ | .resetComplete _ | .resetGrant _ | .resetPublish _ => UpTo r x.nextSeq b
  | .resetState _ => UpTo r x.nextSeq b
  | .resetDone _ | .left _ => UpTo r x.nextSeq b ∧ ¬inside

/-- A context that is inside a round has its token. -/
def InsideOk (r : R) (b : Barrier R) (x : Locals) (inside : Prop) : Prop :=
  inside → Granted r x.activeSeq x.activeGrantId b

variable {r : R} {b b' : Barrier R} {x : Locals} {inside : Prop} {p : Phase} {act : Actor R}

/-- **What a context knows, the others cannot change.** -/
theorem Knows.step (h : Knows r b x inside p) (hw : b.WF) (hs : Step b act b')
    (ha : act ≠ .party r) : Knows r b' x inside p := by
  cases p with
  | absent | claiming | registering => trivial
  | out | failing | begun | unexpired => exact UpTo.step h hw hs ha
  | seeking q => exact ⟨h.1, h.2.1, h.2.2.step hw hs ha⟩
  | saw q st => exact ⟨h.1, h.2.1, h.2.2.1.step hw hs ha, fun hst => (h.2.2.2 hst).step hw hs ha⟩
  | joined q => exact ⟨h.1, h.2.step hs ha⟩
  | lastReady q | waiting q => exact ⟨h.1, h.2.step hs ha⟩
  | sawRunning q => exact ⟨h.1, h.2.step hs ha⟩
  | sawGrant q gr | sawOwner q gr | checked q gr => exact ⟨h.1, h.2.step hs ha⟩
  | granted q gr => exact ⟨h.1, h.2.1.step hs ha, h.2.2⟩
  | fenceOwner q gr | fenceSeq q gr | fenceRest q gr => exact ⟨h.1.step hw hs ha, h.2⟩
  | lastComplete q | finishing q => exact ⟨h.1, h.2.step hs ha⟩
  | sawDraining q => exact ⟨h.1, h.2.1.step hs ha, h.2.1.leaving_step h.2.2 hs⟩
  | resetReady q | resetComplete q | resetGrant q | resetPublish q | resetState q =>
    exact UpTo.step h hw hs ha
  | resetDone q | left q => exact ⟨h.1.step hw hs ha, h.2⟩
  | _ => exact h

theorem Knows.of_inside {inside' : Prop} (h : Knows r b x inside p) (hi : inside' → inside) :
    Knows r b x inside' p := by
  cases p with
  | resetDone q | left q => exact ⟨h.1, fun h' => h.2 (hi h')⟩
  | _ => exact h

theorem InsideOk.step (h : InsideOk r b x inside) (hs : Step b act b') (ha : act ≠ .party r) :
    InsideOk r b' x inside :=
  fun hi => (h hi).step hs ha

/-- Wherever a call gives up, the context has seen all rounds up to its own number. -/
theorem Knows.upTo (h : Knows r b x inside p) (hp : p.canDrop = true ∨ p.canAbort = true) :
    UpTo r x.nextSeq b := by
  cases p with
  | seeking q => exact h.2.2.mono (by have := h.1; omega)
  | saw q st => exact h.2.2.1.mono (by have := h.1; omega)
  | lastReady q | waiting q => exact h.2.upTo (Nat.le_of_eq h.1)
  | sawOwner q gr | checked q gr => exact h.2.1.2.upTo (Nat.le_of_eq h.1)
  | begun | unexpired => exact h
  | fenceOwner q gr | fenceSeq q gr | fenceRest q gr => exact h.1
  | lastComplete q | finishing q => exact h.2.upTo h.1
  | sawDraining q => exact h.2.1.upTo h.1
  | _ => simp [Phase.canDrop, Phase.canAbort] at hp

end Knowledge

/-! ## Steps of a calling thread -/

/-- The phases whose next step may be one of the context's rank. -/
def Phase.acts : Phase → Bool
  | .seeking _ | .joined _ | .fenceRest _ _ | .sawDraining _ => true
  | _ => false

/-- As whom a context with rank `r` moves the barrier in a phase. -/
def ActsAs {R : Type} (r : R) (p : Phase) : Actor R → Prop
  | .holder => p.holdsBarrier = true
  | .party r' => r' = r ∧ p.acts = true
  | .environment => True
  | .controller => False

section Call

variable {c t : ℕ} {m m' : Memory} {x x' : Locals} {p p' : Phase}

/-- **A step of a calling thread is a step of the barrier.** -/
theorem CallTrans.barrier_step (h : CallTrans g c t m x p e m' x' p')
    (hw : (barrierOf g m (g.inst c)).WF) (hl : LockOk (barrierOf g m (g.inst c)) p)
    (hk : p.acts = true → Knows (rankOf g c) (barrierOf g m (g.inst c)) x (Inside c tr) p)
    (hi : ∀ q gr, p = .fenceRest q gr →
      Granted (rankOf g c) x.activeSeq x.activeGrantId (barrierOf g m (g.inst c))) :
    barrierOf g m' (g.inst c) = barrierOf g m (g.inst c) ∨
      ∃ act, ActsAs (rankOf g c) p act ∧
        Step (barrierOf g m (g.inst c)) act (barrierOf g m' (g.inst c)) := by
  have hstage : (barrierOf g m (g.inst c)).stage = (m (.state (g.inst c))).stage := rfl
  cases h with
  | setIdle hst =>
    rw [barrierOf_set_state]
    exact .inr ⟨.environment, trivial, .online (by rw [hstage, hst]; rfl)⟩
  | win hst =>
    rw [barrierOf_set_state]
    exact .inr ⟨.party _, ⟨rfl, rfl⟩, .open (by rw [hstage, hst]; rfl)⟩
  | initSeq =>
    rw [barrierOf_set_forwardSeq]
    exact .inr ⟨.holder, rfl, .number hl.1 hl.2⟩
  | initGrant =>
    rw [barrierOf_set_grantId]
    simp only [WF, hl.1] at hw
    left
    rw [← hw.2.2]
  | initReady =>
    rw [barrierOf_set_readyMask, ranksIn_zero]
    simp only [WF, hl.1] at hw
    left
    rw [← hw.1]
  | initComplete =>
    rw [barrierOf_set_completeMask, ranksIn_zero]
    simp only [WF, hl.1] at hw
    left
    rw [← hw.2.1]
  | initExit =>
    rw [barrierOf_set_exitMask, ranksIn_zero]
    exact .inr ⟨.holder, rfl, .clearDeparted hl.1⟩
  | initState =>
    rw [barrierOf_set_state]
    exact .inr ⟨.holder, rfl, .gather hl.1 (by rw [hl.2.1]; exact hl.2.2.1) hl.2.2.2⟩
  | dupReady hb | fullReady hb hf | orReady hb hf =>
    rw [barrierOf_set_readyMask, ranksIn_or_bitOf]
    exact .inr ⟨.party _, ⟨rfl, rfl⟩, .arrive (hk rfl).2.1 (hk rfl).2.2.2⟩
  | publishReady hst =>
    rw [barrierOf_set_state]
    exact .inr ⟨.holder, rfl, .gathered hl.1 hl.2⟩
  | dupComplete hb | fullComplete hb hf | orComplete hb hf =>
    rw [barrierOf_set_completeMask, ranksIn_or_bitOf]
    obtain ⟨⟨hrun, -, -, -, hno⟩, htok, ht⟩ := hi _ _ rfl
    exact .inr ⟨.party _, ⟨rfl, rfl⟩, .finish hrun (by rw [htok]; exact ht) hno⟩
  | publishComplete hst =>
    rw [barrierOf_set_state]
    exact .inr ⟨.holder, rfl, .finished hl.1 hl.2⟩
  | fullExit hf | orExit hf =>
    rw [barrierOf_set_exitMask, ranksIn_or_bitOf]
    exact .inr ⟨.party _, ⟨rfl, rfl⟩, .depart (hk rfl).2.2 (hk rfl).2.1.2.2.2⟩
  | resetReady =>
    rw [barrierOf_set_readyMask, ranksIn_zero]
    exact .inr ⟨.holder, rfl, .clearArrived hl.1 hl.2⟩
  | resetComplete =>
    rw [barrierOf_set_completeMask, ranksIn_zero]
    exact .inr ⟨.holder, rfl, .clearDone hl.1 hl.2.1⟩
  | resetGrant =>
    rw [barrierOf_set_grantId]
    exact .inr ⟨.holder, rfl, .clearToken hl.1 hl.2.1⟩
  | resetState =>
    rw [barrierOf_set_state]
    exact .inr ⟨.holder, rfl, .reset hl.1 hl.2.1 hl.2.2.1 hl.2.2.2.1 hl.2.2.2.2⟩
  | _ => first
    | exact .inl rfl
    | exact .inl (‹Calm _ _›.barrierOf _)

/-- A context becomes the holder only of a barrier that has none. -/
theorem CallTrans.not_locked (h : CallTrans g c t m x p e m' x' p')
    (hk : p.acts = true → Knows (rankOf g c) (barrierOf g m (g.inst c)) x (Inside c tr) p)
    (hi : ∀ q gr, p = .fenceRest q gr →
      Granted (rankOf g c) x.activeSeq x.activeGrantId (barrierOf g m (g.inst c)))
    (hp' : p'.holdsBarrier = true) :
    p.holdsBarrier = true ∨ ¬(barrierOf g m (g.inst c)).Locked := by
  have hmem : ∀ {ranks : Set (Fin g.workerCount)}, rankOf g c ∉ ranks → ranks ≠ .univ :=
    fun hr hu => hr (hu ▸ Set.mem_univ _)
  cases h with
  | quiet hm he => exact .inl hp'
  | win hst =>
    right
    simp [Locked, barrierOf, hst, RoundState.stage]
  | fullReady hb hf =>
    obtain ⟨-, hst, -, hno⟩ := hk rfl
    right
    simp [Locked, hst, hmem hno]
  | fullComplete hb hf =>
    obtain ⟨⟨hst, -, -, -, hno⟩, -⟩ := hi _ _ rfl
    right
    simp [Locked, hst, hmem hno]
  | fullExit hf =>
    obtain ⟨-, ⟨-, -, -, hno⟩, hst⟩ := hk rfl
    right
    simp [Locked, hst, hmem hno]
  | _ => first
    | exact .inl rfl
    | cases hp'

/-- The holder keeps what it relies on up to date. -/
theorem CallTrans.lockOk (h : CallTrans g c t m x p e m' x' p') (hv : Valid g m)
    (hl : LockOk (barrierOf g m (g.inst c)) p)
    (hk : p.acts = true → Knows (rankOf g c) (barrierOf g m (g.inst c)) x (Inside c tr) p)
    (hi : ∀ q gr, p = .fenceRest q gr →
      Granted (rankOf g c) x.activeSeq x.activeGrantId (barrierOf g m (g.inst c))) :
    LockOk (barrierOf g m' (g.inst c)) p' := by
  have hfull : ∀ {mask : BitVec 64}, MaskOk g mask → mask ||| g.bitOf c = g.expectedMask →
      insert (rankOf g c) (ranksIn g mask) = .univ := fun hm hf => by
    rw [← ranksIn_or_bitOf, (hm.or_bitOf c).ranksIn_eq_univ_iff]
    exact hf
  cases h with
  | quiet hm he => rwa [hm.barrierOf]
  | win hst =>
    obtain ⟨-, hq, hup⟩ := hk rfl
    have hle := hup (.inr (.inr (.inl (by simp [barrierOf, hst, RoundState.stage]))))
    rw [barrierOf_set_state]
    refine ⟨rfl, ?_⟩
    dsimp only
    omega
  | initSeq =>
    rw [barrierOf_set_forwardSeq]
    exact ⟨hl.1, rfl, by have := hl.2; omega⟩
  | initGrant | initReady | initComplete => exact hl
  | initExit => exact ⟨hl.1, hl.2.1, hl.2.2, by simp⟩
  | initClock => exact hl
  | initPublish => exact hl
  | fullReady hb hf =>
    rw [barrierOf_set_readyMask, ranksIn_or_bitOf]
    exact ⟨(hk rfl).2.1, hfull (hv.ready _) hf⟩
  | fullComplete hb hf =>
    rw [barrierOf_set_completeMask, ranksIn_or_bitOf]
    exact ⟨(hi _ _ rfl).1.1, hfull (hv.complete _) hf⟩
  | fullExit hf =>
    rw [barrierOf_set_exitMask, ranksIn_or_bitOf]
    exact ⟨(hk rfl).2.2, hfull (hv.exit _) hf⟩
  | resetReady =>
    rw [barrierOf_set_readyMask, ranksIn_zero]
    exact ⟨hl.1, hl.2, rfl⟩
  | resetComplete =>
    rw [barrierOf_set_completeMask, ranksIn_zero]
    exact ⟨hl.1, hl.2.1, hl.2.2, rfl⟩
  | resetGrant =>
    rw [barrierOf_set_grantId]
    exact ⟨hl.1, hl.2.1, hl.2.2.1, hl.2.2.2, rfl⟩
  | resetPublish => exact hl
  | _ => exact .of_not_holder rfl

/-- A live context keeps its knowledge up to date. -/
theorem CallTrans.knows (h : CallTrans g c t m x p e m' x' p')
    (hw : (barrierOf g m (g.inst c)).WF) (hl : LockOk (barrierOf g m (g.inst c)) p)
    (hk : Knows (rankOf g c) (barrierOf g m (g.inst c)) x (Inside c tr) p)
    (hin : InsideOk (rankOf g c) (barrierOf g m (g.inst c)) x (Inside c tr))
    (hi : ∀ q gr, p = .fenceRest q gr → Inside c tr) :
    Knows (rankOf g c) (barrierOf g m' (g.inst c)) x' (Inside c (e :: tr)) p' := by
  have hstage : (barrierOf g m (g.inst c)).stage = (m (.state (g.inst c))).stage := rfl
  cases h with
  | quiet hm he =>
    rw [hm.barrierOf]
    exact hk.of_inside (he.inside c).mp
  | drop hs hp => exact hk.upTo (.inl hp)
  | abort hp => exact hk.upTo (.inr hp)
  | fail reason => exact hk
  | openClaim hm | claim | setIdle hst | undo hm => trivial
  | loadSeq => exact fun _ => Nat.le_refl _
  | refuse ha => exact hk.mono (Nat.le_succ _)
  | seek hs ha => exact ⟨rfl, Nat.succ_ne_zero _, hk⟩
  | see st hst hi hn hd =>
    refine ⟨hk.1, hk.2.1, hk.2.2, ?_⟩
    rintro rfl
    have hg : (barrierOf g m (g.inst c)).stage = .gathering := by rw [hstage, hst]; rfl
    simp only [WF, hg] at hw
    exact ⟨.inl hg, by rw [hw.1]; simp, fun _ => hg⟩
  | win hst => exact hk.1
  | initSeq | initGrant | initReady | initComplete | initExit | initClock | initPublish => exact hk
  | initState =>
    simp only [WF, hl.1] at hw
    rw [barrierOf_set_state]
    exact ⟨hk, rfl, hl.2.1, by rw [hw.1]; simp⟩
  | join hq =>
    obtain ⟨hn, hq0, hup, hseen⟩ := hk
    have hno : rankOf g c ∉ (barrierOf g m (g.inst c)).arrived := fun hr => by
      have hle := hup (.inl hr)
      rw [show (barrierOf g m (g.inst c)).seq = _ from hq] at hle
      omega
    exact ⟨hn, (hseen rfl).2.2 hno, hq, hno⟩
  | dupReady hb => exact absurd hb hk.2.2.2
  | fullReady hb hf | orReady hb hf =>
    obtain ⟨hn, hst, hq, hno⟩ := hk
    simp only [WF, hst] at hw
    rw [barrierOf_set_readyMask, ranksIn_or_bitOf]
    exact ⟨hn, .inl hst, hq, Set.mem_insert _ _, by rw [hw.1]; simp⟩
  | publishReady hst =>
    rw [barrierOf_set_state]
    exact ⟨hk.1, .inr (.inl rfl), hk.2.2⟩
  | seeRunning hst => exact ⟨hk.1, by rw [hstage, hst]; rfl, hk.2⟩
  | seeGrant hg h0 => exact ⟨hk.1, hk.2, hg, h0⟩
  | seeOwner ho | check hs => exact hk
  | backOff hp =>
    rcases hp with rfl | ⟨gr, rfl⟩
    · exact ⟨hk.1, hk.2.2⟩
    · exact ⟨hk.1, hk.2.1.2⟩
  | hold => exact ⟨hk.1, hk.2, rfl, rfl⟩
  | entered hm =>
    rw [hm.barrierOf]
    exact hk.2.1.1.2.upTo (Nat.le_of_eq hk.1)
  | begin hs | seeStatus hs | fenceOwner ho | fenceSeq hq => exact hk
  | fence hp hq hg => rcases hp with rfl | ⟨rfl, -⟩ <;> exact ⟨hk, hq, hg⟩
  | dupComplete hb =>
    rw [barrierOf_set_completeMask]
    exact hk.1
  | fullComplete hb hf | orComplete hb hf =>
    obtain ⟨⟨hst, -, hq, har, -⟩, -⟩ := hin (hi _ _ rfl)
    simp only [WF, hst] at hw
    rw [barrierOf_set_completeMask, ranksIn_or_bitOf]
    refine ⟨?_, .inl hst, hq.trans hk.2.1, Set.mem_insert _ _, by rw [hw.2.1]; simp⟩
    rw [← hk.2.1, ← hq]
    exact hk.1 (.inl har)
  | publishComplete hst =>
    rw [barrierOf_set_state]
    exact ⟨hk.1, .inr (.inl rfl), hk.2.2⟩
  | seeDraining hst => exact ⟨hk.1, hk.2, by rw [hstage, hst]; rfl⟩
  | fullExit hf =>
    rw [barrierOf_set_exitMask]
    exact fun _ => by rw [← hk.2.1.2.1] at hk; exact hk.1
  | orExit hf =>
    rw [barrierOf_set_exitMask]
    refine ⟨fun _ => by rw [← hk.2.1.2.1] at hk; exact hk.1, fun hins => ?_⟩
    exact (hin hins).1.2.2.2.2 hk.2.1.2.2.1
  | resetReady =>
    rw [barrierOf_set_readyMask]
    exact fun _ => hk (.inr (.inr (.inr hl)))
  | resetComplete =>
    rw [barrierOf_set_completeMask]
    exact fun _ => hk (.inr (.inr (.inr ⟨hl.1, hl.2.1⟩)))
  | resetGrant =>
    rw [barrierOf_set_grantId]
    exact fun _ => hk (.inr (.inr (.inr ⟨hl.1, hl.2.1⟩)))
  | resetPublish => exact hk
  | resetState =>
    rw [barrierOf_set_state]
    refine ⟨fun _ => hk (.inr (.inr (.inr ⟨hl.1, hl.2.1⟩))), fun hins => ?_⟩
    have hrun := (hin hins).1.1
    rw [hl.1] at hrun
    cases hrun
  | resetDone hm =>
    rw [hm.barrierOf]
    exact hk
  | leftReturn hm =>
    rw [hm.barrierOf]
    exact hk.1

/-- Being inside a round goes with having its token. -/
theorem CallTrans.insideOk (h : CallTrans g c t m x p e m' x' p')
    (hl : LockOk (barrierOf g m (g.inst c)) p)
    (hk : Knows (rankOf g c) (barrierOf g m (g.inst c)) x (Inside c tr) p)
    (hin : InsideOk (rankOf g c) (barrierOf g m (g.inst c)) x (Inside c tr)) :
    InsideOk (rankOf g c) (barrierOf g m' (g.inst c)) x' (Inside c (e :: tr)) := by
  -- a context that moves the barrier otherwise than by finishing is not inside
  have hnot : ∀ {P : Prop} {st : Stage}, (barrierOf g m (g.inst c)).stage = st → st ≠ .running →
      Inside c tr → P := fun hst hne hins => absurd (hst ▸ (hin hins).1.1) hne
  have hstage : (barrierOf g m (g.inst c)).stage = (m (.state (g.inst c))).stage := rfl
  cases h with
  | quiet hm he =>
    rw [hm.barrierOf]
    exact fun hins => hin ((he.inside c).mp hins)
  | openClaim hm | undo hm | leftReturn hm =>
    rw [hm.barrierOf]
    exact hin
  | setIdle hst | win hst => exact hnot (hstage.trans (congrArg _ hst)) (by decide)
  | initSeq | initGrant | initReady | initComplete | initExit | initState =>
    exact hnot hl.1 nofun
  | dupReady hb | fullReady hb hf | orReady hb hf => exact hnot hk.2.1 nofun
  | publishReady hst => exact hnot hl.1 nofun
  | hold => exact fun _ => hk.2
  | entered hm =>
    rw [hm.barrierOf]
    obtain ⟨-, hg, ha, hgr⟩ := hk
    exact fun _ => by rw [ha, hgr]; exact hg
  | dupComplete hb | fullComplete hb hf | orComplete hb hf => exact fun hins => absurd rfl hins.1
  | publishComplete hst =>
    exact fun hins => absurd (by rw [hl.2]; exact Set.mem_univ _) (hin hins).1.2.2.2.2
  | fullExit hf | orExit hf => exact hnot hk.2.2 nofun
  | resetReady | resetComplete | resetGrant | resetState => exact hnot hl.1 nofun
  | resetDone hm => exact fun hins => absurd hins hk.2
  | _ => exact hin

end Call

/-! ## Steps of the coordinator -/

/-- What the coordinator knows of the barrier of `i`. -/
def CoordOk (b : Barrier R) (i : Inst) : CoordPhase → Prop
  | .drawing sel => sel = i → b.stage = .running ∧ b.token = 0
  | .storeGrant sel gr => sel = i → b.stage = .running ∧ b.token = 0 ∧ gr ≠ 0
  | .sawComplete o | .storeExit o | .storeState o => o = i → b.stage = .finished
  | _ => True

theorem CoordOk.step {R : Type} [Nonempty R] {b b' : Barrier R} {act : Actor R} {i : Inst}
    {p : CoordPhase} (h : CoordOk b i p) (hw : b.WF) (hs : Step b act b')
    (ha : act ≠ .controller) : CoordOk b' i p := by
  have hrun : b.stage = .running → b.token = 0 → b'.stage = .running ∧ b'.token = 0 := by
    intro hst htok
    have hne : (Set.univ : Set R) ≠ ∅ := Set.univ_nonempty.ne_empty
    simp only [WF, hst] at hw
    have hdone := hw.2.2.2 htok
    cases hs <;> simp_all
  have hfin : b.stage = .finished → b'.stage = .finished := by
    intro hst
    cases hs <;> simp_all
  cases p with
  | drawing sel => exact fun hi => hrun (h hi).1 (h hi).2
  | storeGrant sel gr =>
    exact fun hi => ⟨(hrun (h hi).1 (h hi).2.1).1, (hrun (h hi).1 (h hi).2.1).2, (h hi).2.2⟩
  | sawComplete o | storeExit o | storeState o => exact fun hi => hfin (h hi)
  | _ => trivial

section Coord

variable {m m' : Memory} {p p' : CoordPhase} {i : Inst}

/-- **A step of the coordinator is a step of the barrier.** -/
theorem CoordTrans.barrier_step (h : CoordTrans g m p e m' p') (hw : (barrierOf g m i).WF)
    (hc : CoordOk (barrierOf g m i) i p) :
    barrierOf g m' i = barrierOf g m i ∨ Step (barrierOf g m i) .controller (barrierOf g m' i) := by
  cases h with
  | quiet hm => exact .inl (hm.barrierOf i)
  | @storeExit o =>
    left
    by_cases hi : i = o
    · subst hi
      have hst := hc rfl
      simp only [WF, hst] at hw
      rw [barrierOf_set_exitMask, ranksIn_zero, ← hw.2.2.1]
    · simp [barrierOf, hi]
  | @storeState o =>
    by_cases hi : i = o
    · subst hi
      rw [barrierOf_set_state]
      exact .inr (.drain (hc rfl))
    · exact .inl (by simp [barrierOf, hi])
  | grant sel hst =>
    by_cases hi : i = sel
    · subst hi
      rw [barrierOf_set_state]
      exact .inr (.start (by simp [barrierOf, hst, RoundState.stage]))
    · exact .inl (by simp [barrierOf, hi])
  | @storeGrant sel gr =>
    by_cases hi : i = sel
    · subst hi
      obtain ⟨hst, htok, hgr⟩ := hc rfl
      rw [barrierOf_set_grantId]
      exact .inr (.grant hst htok hgr)
    · exact .inl (by simp [barrierOf, hi])
  | _ => exact .inl rfl

theorem CoordTrans.coordOk (h : CoordTrans g m p e m' p') (hw : (barrierOf g m i).WF)
    (hc : CoordOk (barrierOf g m i) i p) : CoordOk (barrierOf g m' i) i p' := by
  cases h with
  | quiet hm => rwa [hm.barrierOf]
  | seeComplete hst =>
    rintro rfl
    simp [barrierOf, hst, RoundState.stage]
  | recycle => exact hc
  | storeExit => exact hc
  | grant sel hst =>
    rintro rfl
    have hstage : (barrierOf g m sel).stage = .gathered := by
      simp [barrierOf, hst, RoundState.stage]
    simp only [WF, hstage] at hw
    rw [barrierOf_set_state]
    exact ⟨rfl, hw.2.2.2.1⟩
  | draw => exact fun hi => ⟨(hc hi).1, (hc hi).2, Nat.succ_ne_zero _⟩
  | _ => trivial

end Coord

end YellowZone.PairSched
