import YellowZone.PairSched.Footprint
import YellowZone.PairSched.Writers

/-!
# The words `validate_shared` looks at

The coordinator begins every tick by checking that the owner word names a group or nobody and that
no mask has a bit outside the expected ranks. In every run, whatever fails, closes or dies, it
finds this to be so: the test can only fail when something other than the scheduler writes the
memory.

## Main results

* `OwnerOk` — the owner word agrees with what the coordinator is doing
* `Valid`, `valid_of_run` — the words pass the test
-/

namespace YellowZone.PairSched

open Machine

variable {g : Generation} {tr : List Event} {s s' : State} {a : Act} {e : Event}

/-! ## The owner -/

/-- The owner word names a group or nobody, and agrees with what the coordinator knows. -/
def OwnerOk (owner : ℤ) : CoordPhase → Prop
  | .rest | .cleared => owner = noOwner ∨ ∃ i : Inst, owner = i.idx
  | .held o | .sawComplete o | .storeExit o | .storeState o => owner = o.idx
  | .storeLastOwner o | .storeOwner o => owner = o.idx
  | .choosing | .drawing _ | .storeGrant _ _ | .takeOwner _ => owner = noOwner

theorem OwnerOk.cases {owner : ℤ} {p : CoordPhase} (h : OwnerOk owner p) :
    owner = noOwner ∨ ∃ i : Inst, owner = i.idx := by
  cases p <;> first | exact h | exact .inl h | exact .inr ⟨_, h⟩

theorem CoordTrans.ownerOk {m m' : Memory} {p p' : CoordPhase} (h : CoordTrans g m p e m' p')
    (ho : OwnerOk (m .owner) p) : OwnerOk (m' .owner) p' := by
  cases h with
  | quiet hm => rwa [hm.core _ rfl]
  | find hf =>
    obtain ⟨i, hi⟩ := ho.cases.resolve_left hf
    simp [OwnerOk, hi]
  | giveUp hp => exact ho.cases
  | clear hs => exact ho.cases
  | choose hf => exact hf
  | release => exact .inl (Mem.set_self _ _ _)
  | takeOwner => exact .inr ⟨_, Mem.set_self _ _ _⟩
  | _ => exact ho

/-- Only the coordinator writes the owner. -/
theorem Trans.ownerOk (h : Trans g s a e s') (ho : OwnerOk (s.mem .owner) s.coordPhase) :
    OwnerOk (s'.mem .owner) s'.coordPhase := by
  cases h with
  | call c b hk ht _ _ _ _ hcoord =>
    rwa [ht.owner, hcoord]
  | coord hk ht => exact ht.ownerOk ho
  | other ht _ _ _ _ _ hcoord => rwa [ht.core rfl (by simp) (by simp) (by simp), hcoord]

theorem ownerOk_initialState (g : Generation) :
    OwnerOk ((initialState g).mem .owner) (initialState g).coordPhase :=
  Or.inl rfl

theorem ownerOk_of_run {P : State → Act → Prop} (h : Run g P tr s) :
    OwnerOk (s.mem .owner) s.coordPhase := by
  refine h.invariant (I := fun _ s => OwnerOk (s.mem .owner) s.coordPhase)
    (ownerOk_initialState g) ?_
  intro _ s a s' hI _ hs
  exact (trans_of_step hs).ownerOk hI

/-! ## The masks -/

/-- No rank but the expected ones is in the mask. -/
def MaskOk (g : Generation) (mask : BitVec 64) : Prop :=
  ∀ q, BitMask.HasBit mask q → q < g.workerCount

theorem maskOk_zero : MaskOk g 0#64 := fun q h => absurd h (BitMask.not_hasBit_zero q)

theorem MaskOk.or_bitOf {mask : BitVec 64} (h : MaskOk g mask) (c : ℕ) :
    MaskOk g (mask ||| g.bitOf c) := by
  intro q hq
  rcases (BitMask.hasBit_or_bit (g.rank_lt_64 c)).mp hq with hq | rfl
  · exact h q hq
  · exact g.rank_lt c

theorem MaskOk.and {mask : BitVec 64} (h : MaskOk g mask) (x : BitVec 64) :
    MaskOk g (mask &&& x) :=
  fun q hq => h q hq.of_and

theorem MaskOk.validMask {mask : BitVec 64} (h : MaskOk g mask) : validMask g mask = true := by
  rw [PairSched.validMask, beq_iff_eq, Generation.expectedMask]
  exact (BitMask.and_not_full_eq_zero_iff g.workerCount_le).mpr h

/-- A mask of expected ranks is the expected mask when all of them are in. -/
theorem MaskOk.eq_expectedMask_iff {mask : BitVec 64} (h : MaskOk g mask) :
    mask = g.expectedMask ↔ ∀ q < g.workerCount, BitMask.HasBit mask q :=
  BitMask.eq_full_iff g.workerCount_le h

/-- The words `validate_shared` tests. -/
structure Valid (g : Generation) (m : Memory) : Prop where
  owner : m .owner = noOwner ∨ ∃ i : Inst, m .owner = i.idx
  ready : ∀ i, MaskOk g (m (.readyMask i))
  complete : ∀ i, MaskOk g (m (.completeMask i))
  exit : ∀ i, MaskOk g (m (.exitMask i))
  online : ∀ i, MaskOk g (m (.onlineMask i))

/-- A mask of ranks is kept, cleared, or joined by a rank. -/
def MaskMove (g : Generation) (v v' : BitVec 64) : Prop :=
  v' = v ∨ v' = 0#64 ∨ ∃ c, v' = v ||| g.bitOf c

theorem MaskMove.maskOk {v v' : BitVec 64} (h : MaskMove g v v') (hv : MaskOk g v) :
    MaskOk g v' := by
  rcases h with rfl | rfl | ⟨c, rfl⟩
  · exact hv
  · exact maskOk_zero
  · exact hv.or_bitOf c

section Call

variable {c t : ℕ} {m m' : Memory} {x x' : Locals} {p p' : Phase}

theorem CallTrans.masks (h : CallTrans g c t m x p e m' x' p') (i : Inst) :
    MaskMove g (m (.readyMask i)) (m' (.readyMask i)) ∧
      MaskMove g (m (.completeMask i)) (m' (.completeMask i)) ∧
      MaskMove g (m (.exitMask i)) (m' (.exitMask i)) := by
  by_cases hi : i = g.inst c
  · subst hi
    refine ⟨?_, ?_, ?_⟩ <;> cases h <;> first
      | exact .inl rfl
      | exact .inl (‹Calm _ _›.core _ rfl)
      | exact .inr (.inl (Mem.set_self _ _ _))
      | exact .inr (.inr ⟨c, Mem.set_self _ _ _⟩)
  · refine ⟨.inl ?_, .inl ?_, .inl ?_⟩ <;> cases h <;> first
      | rfl
      | exact ‹Calm _ _›.core _ rfl
      | simp [hi]

end Call

theorem CoordTrans.masks {m m' : Memory} {p p' : CoordPhase} (h : CoordTrans g m p e m' p')
    (i : Inst) : m' (.readyMask i) = m (.readyMask i) ∧ m' (.completeMask i) = m (.completeMask i) ∧
      MaskMove g (m (.exitMask i)) (m' (.exitMask i)) := by
  cases h with
  | quiet hm => exact ⟨hm.core _ rfl, hm.core _ rfl, .inl (hm.core _ rfl)⟩
  | @storeExit o =>
    refine ⟨rfl, rfl, ?_⟩
    by_cases hi : i = o
    · subst hi; exact .inr (.inl (Mem.set_self _ _ _))
    · exact .inl (by simp [hi])
  | _ => exact ⟨rfl, rfl, .inl rfl⟩

/-- The masks of a round. -/
theorem Trans.masks (h : Trans g s a e s') (i : Inst) :
    MaskMove g (s.mem (.readyMask i)) (s'.mem (.readyMask i)) ∧
      MaskMove g (s.mem (.completeMask i)) (s'.mem (.completeMask i)) ∧
      MaskMove g (s.mem (.exitMask i)) (s'.mem (.exitMask i)) := by
  cases h with
  | call c b hk ht => exact ht.masks i
  | coord hk ht => exact ⟨.inl (ht.masks i).1, .inl (ht.masks i).2.1, (ht.masks i).2.2⟩
  | other ht =>
    exact ⟨.inl (ht.core rfl (by simp) (by simp) (by simp)),
      .inl (ht.core rfl (by simp) (by simp) (by simp)),
      .inl (ht.core rfl (by simp) (by simp) (by simp))⟩

/-- In this step the context takes its bit out of the online mask. -/
inductive ClearsOnline (s : State) (c : ℕ) : Act → Prop
  | undo (b : Bool) (e : OpenError) (h : (s.ctx c).call = .opening (.undoOnline e)) :
      ClearsOnline s c (.call c b)
  | close (st : RoundState) (h : (s.ctx c).close = some (.clearOnline st)) :
      ClearsOnline s c (.close c)

/-- The online mask of a group is kept, joined by a registering rank, or left by one that closes
or fails to open. -/
theorem online_of_step (h : step g s a = some s') (i : Inst) :
    s'.mem (.onlineMask i) = s.mem (.onlineMask i) ∨
      (∃ c b, a = .call c b ∧ (s.ctx c).call = .opening .regOnline ∧ g.inst c = i ∧
        s'.mem (.onlineMask i) = s.mem (.onlineMask i) ||| g.bitOf c) ∨
      ∃ c, ClearsOnline s c a ∧ g.inst c = i ∧
        s'.mem (.onlineMask i) = s.mem (.onlineMask i) &&& ~~~g.bitOf c := by
  by_cases hw : written g s a = some (.onlineMask i)
  · cases slotWriter_of_written hw rfl with
    | @regOnline c b hpc =>
      simp only [step, stepCall, hpc, callCode, Option.bind_some] at h
      split at h <;> cases h
      exact .inr (.inl ⟨c, b, rfl, hpc, rfl, Mem.set_self _ _ _⟩)
    | @undoOnline c e b hpc =>
      simp only [step, stepCall, hpc, callCode, Option.bind_some] at h
      split at h <;> cases h
      exact .inr (.inr ⟨c, .undo b e hpc, rfl, Mem.set_self _ _ _⟩)
    | @clearOnline c st hpc =>
      simp only [step, stepClose, hpc, Option.bind_some] at h
      split at h <;> cases h
      exact .inr (.inr ⟨c, .close st hpc, rfl, Mem.set_self _ _ _⟩)
  · exact .inl (frame_of_step h hw)

/-- **No corruption.** In every run the words pass `validate_shared`. -/
theorem valid_of_run {P : State → Act → Prop} (h : Run g P tr s) : Valid g s.mem := by
  refine h.invariant (I := fun _ s => OwnerOk (s.mem .owner) s.coordPhase ∧ Valid g s.mem)
    ⟨ownerOk_initialState g, .inl rfl, fun _ => maskOk_zero, fun _ => maskOk_zero,
      fun _ => maskOk_zero, fun _ => maskOk_zero⟩ ?_ |>.2
  intro _ s a s' ⟨ho, hv⟩ _ hs
  have ht := trans_of_step hs
  refine ⟨ht.ownerOk ho, (ht.ownerOk ho).cases, fun i => (ht.masks i).1.maskOk (hv.ready i),
    fun i => (ht.masks i).2.1.maskOk (hv.complete i),
    fun i => (ht.masks i).2.2.maskOk (hv.exit i), fun i => ?_⟩
  rcases online_of_step hs i with he | ⟨c, -, -, -, -, he⟩ | ⟨c, -, -, he⟩ <;> rw [he]
  · exact hv.online i
  · exact (hv.online i).or_bitOf c
  · exact (hv.online i).and _

end YellowZone.PairSched
