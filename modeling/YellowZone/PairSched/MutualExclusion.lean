import YellowZone.Machine.Tenure
import YellowZone.PairSched.FailClosed
import YellowZone.PairSched.Valid

/-!
# Mutual exclusion of the two instances

A context is inside a round from the step in which its `ps_enter_forward` returns success until
the step in which its `ps_leave_forward` sets its complete bit. No context of A and context of B
are ever inside a round together, in any run: with takeovers, closing, kills and failures at any
point, and whatever the status is.

## The argument

The owner word and the point the coordinator is at determine which group the pair is granted to
(`OwnerOk`). That a context which passes the validation in `ps_enter_forward` belongs to
that group, even when it is stale or slow, is the argument about tenures (`Machine.Tenure`). What
remains is to read every step of the protocol as one of its operations, and to see that only a
context inside a round gets to set its complete bit (`LeaveOk`).

## Main results

* `Inside` — being inside a round, by what has been observed
* `SeqOk`, `LeaveOk`, `support_of_run` — the supporting invariants
* `tenured_of_run` — every run is a sequence of tenures
* `mutual_exclusion` — contexts of A and of B are never inside together
-/

namespace YellowZone.PairSched

open Machine

variable {g : Generation} {tr : List Event} {s s' : State} {a : Act} {e : Event}

/-! ## Being inside a round -/

/-- Context `c` is inside a round, after the observations `tr` (newest first). -/
def Inside (c : ℕ) : List Event → Prop
  | [] => False
  | .enterReturn d (.ok _) :: tr => d = c ∨ Inside c tr
  | .completeOr d _ :: tr => d ≠ c ∧ Inside c tr
  | _ :: tr => Inside c tr

instance (c : ℕ) : (tr : List Event) → Decidable (Inside c tr)
  | [] => inferInstanceAs (Decidable False)
  | .enterReturn d (.ok _) :: tr =>
    have := instDecidableInside c tr
    inferInstanceAs (Decidable (d = c ∨ Inside c tr))
  | .completeOr d _ :: tr =>
    have := instDecidableInside c tr
    inferInstanceAs (Decidable (d ≠ c ∧ Inside c tr))
  | .enterReturn _ (.error _) :: tr => instDecidableInside c tr
  | .readyOr _ _ :: tr => instDecidableInside c tr
  | .leaveReturn _ _ _ :: tr => instDecidableInside c tr
  | .grant _ _ _ :: tr => instDecidableInside c tr
  | .silent :: tr => instDecidableInside c tr

theorem Event.Minor.inside (he : e.Minor) (c : ℕ) : Inside c (e :: tr) ↔ Inside c tr := by
  cases he <;> rfl

/-- Who reports is no longer inside. -/
theorem inside_of_report {c d n : ℕ} (h : Inside d (.completeOr c n :: tr)) :
    Inside d tr ∧ d ≠ c :=
  ⟨h.2, h.1.symm⟩

/-- A step of the calling thread of `c` says nothing about the others. -/
theorem CallTrans.inside_of_ne {c t : ℕ} {m m' : Memory} {x x' : Locals} {p p' : Phase}
    (h : CallTrans g c t m x p e m' x' p') {d : ℕ} (hd : d ≠ c) :
    Inside d (e :: tr) ↔ Inside d tr := by
  cases h with
  | quiet hm he => exact he.inside d
  | entered hm => exact ⟨fun h => h.resolve_left hd.symm, .inr⟩
  | dupComplete | fullComplete | orComplete => exact ⟨fun h => h.2, fun h => ⟨hd.symm, h⟩⟩
  | _ => rfl

theorem CoordTrans.inside {m m' : Memory} {p p' : CoordPhase} (h : CoordTrans g m p e m' p')
    (c : ℕ) : Inside c (e :: tr) ↔ Inside c tr := by
  cases h <;> rfl

/-! ## Who holds the pair -/

/-- The coordinator is granting the pair to `i`. -/
def CoordPhase.grants (p : CoordPhase) (i : Inst) : Prop :=
  p = .drawing i ∨ (∃ gr, p = .storeGrant i gr) ∨ p = .takeOwner i

/-- The pair is granted to `i`: from the step that sets its round RUNNING to the step that
clears the owner. -/
def HeldBy (owner : ℤ) (p : CoordPhase) (i : Inst) : Prop := owner = i.idx ∨ p.grants i

/-- The pair is granted to `i` in state `s`. -/
def Held (s : State) (i : Inst) : Prop := HeldBy (s.mem .owner) s.coordPhase i

theorem noOwner_ne_idx (i : Inst) : noOwner ≠ i.idx := (Inst.idx_ne_neg_one i).symm

theorem OwnerOk.noOwner_of_grants {owner : ℤ} {p : CoordPhase} (h : OwnerOk owner p) {i : Inst}
    (hi : p.grants i) : owner = noOwner := by
  rcases hi with rfl | ⟨gr, rfl⟩ | rfl <;> exact h

theorem CoordPhase.grants_unique {p : CoordPhase} {i j : Inst} (hi : p.grants i)
    (hj : p.grants j) : i = j := by
  rcases hi with rfl | ⟨gr, rfl⟩ | rfl <;> rcases hj with hj | ⟨gr', hj⟩ | hj <;> cases hj <;> rfl

/-- The pair is granted to one group at a time. -/
theorem HeldBy.unique {owner : ℤ} {p : CoordPhase} (ho : OwnerOk owner p) {i j : Inst}
    (hi : HeldBy owner p i) (hj : HeldBy owner p j) : i = j := by
  rcases hi with hi | hi <;> rcases hj with hj | hj
  · exact Inst.idx_inj.mp (hi.symm.trans hj)
  · exact absurd ((ho.noOwner_of_grants hj).symm.trans hi) (noOwner_ne_idx i)
  · exact absurd ((ho.noOwner_of_grants hi).symm.trans hj) (noOwner_ne_idx j)
  · exact CoordPhase.grants_unique hi hj

/-- While the coordinator chooses, the pair is granted to nobody. -/
theorem not_heldBy_choosing {owner : ℤ} (ho : OwnerOk owner .choosing) (i : Inst) :
    ¬HeldBy owner .choosing i := by
  rintro (h | h | ⟨gr, h⟩ | h)
  · exact noOwner_ne_idx i ((show owner = noOwner from ho).symm.trans h)
  all_goals cases h

/-- Once it has chosen, to the chosen group. -/
theorem heldBy_drawing {owner : ℤ} (ho : OwnerOk owner .choosing) {sel i : Inst} :
    HeldBy owner (.drawing sel) i ↔ i = sel := by
  have ho : owner = noOwner := ho
  simp [HeldBy, CoordPhase.grants, ho, noOwner_ne_idx, eq_comm]

theorem not_heldBy_rest (i : Inst) : ¬HeldBy noOwner .rest i := by
  simp [HeldBy, CoordPhase.grants, noOwner_ne_idx]

/-- Two steps of the coordinator change whom the pair is granted to: the one that sets a round
RUNNING, and the one that clears the owner. -/
theorem CoordTrans.heldBy {m m' : Memory} {p p' : CoordPhase} (h : CoordTrans g m p e m' p')
    (ho : OwnerOk (m .owner) p) (hgrant : p ≠ .choosing ∨ ∀ sel, p' ≠ .drawing sel)
    (hrelease : ∀ o, p ≠ .storeOwner o) (i : Inst) :
    HeldBy (m' .owner) p' i ↔ HeldBy (m .owner) p i := by
  have hquiet : ∀ {q : CoordPhase}, ¬p.grants i → ¬q.grants i →
      (HeldBy (m .owner) q i ↔ HeldBy (m .owner) p i) := by
    intro q hp hq
    simp [HeldBy, hp, hq]
  cases h with
  | quiet hm => rw [hm.core _ rfl]
  | grant sel h => exact (hgrant.elim (fun h => h rfl) fun h => h sel rfl).elim
  | @release o => exact absurd rfl (hrelease o)
  | draw | storeGrant => simp [HeldBy, CoordPhase.grants]
  | takeOwner =>
    have ho : m .owner = noOwner := ho
    simp [HeldBy, CoordPhase.grants, ho, noOwner_ne_idx]
  | giveUp hp =>
    refine hquiet ?_ (by simp [CoordPhase.grants])
    rintro (rfl | ⟨gr, rfl⟩ | rfl) <;> cases hp
  | _ => exact hquiet (by simp [CoordPhase.grants]) (by simp [CoordPhase.grants])

/-- The coordinator opens the next tenure of `i`. -/
def CoordPhase.opens (p p' : CoordPhase) (i : Inst) : Prop := p = .choosing ∧ p' = .drawing i

/-- A tenure opens by setting a round that is READY to RUNNING. -/
theorem CoordTrans.state_of_opens {m m' : Memory} {p p' : CoordPhase}
    (h : CoordTrans g m p e m' p') {i : Inst} (ho : p.opens p' i) :
    m (.state i) = .ready ∧ m' (.state i) = .running := by
  obtain ⟨rfl, rfl⟩ := ho
  cases h with
  | grant sel h => exact ⟨h, by simp⟩

/-- Whoever holds the pair after a step held it before, or has just been granted it. -/
theorem CoordTrans.held_before {m m' : Memory} {p p' : CoordPhase} (h : CoordTrans g m p e m' p')
    (ho : OwnerOk (m .owner) p) {i : Inst} (hi : HeldBy (m' .owner) p' i) :
    HeldBy (m .owner) p i ∨ p.opens p' i := by
  have hiff := fun hg hr => h.heldBy ho hg hr i
  cases h with
  | grant sel h =>
    obtain rfl := (heldBy_drawing ho).mp hi
    exact .inr ⟨rfl, rfl⟩
  | release =>
    rw [Mem.set_self] at hi
    exact absurd hi (not_heldBy_rest i)
  | quiet hm => exact .inl (by rwa [hm.core _ rfl] at hi)
  | giveUp hp => exact .inl ((hiff (.inr (by simp)) (by rintro o rfl; cases hp)).mp hi)
  | _ => exact .inl ((hiff (.inl (by simp)) (by simp)).mp hi)

/-! ## Sequence numbers of rounds are positive -/

/-- The phases after the store of a new round's sequence. -/
def Phase.hasSeq : Phase → Bool
  | .initGrant _ | .initReady _ | .initComplete _ | .initExit _ | .initClock _ => true
  | .initPublish _ _ | .initState _ | .fenceSeq _ _ => true
  | _ => false

/-- The states of a group that has a round. -/
def RoundState.inRound : RoundState → Bool
  | .offline | .idle | .initializing => false
  | _ => true

/-- Where a sequence has been stored, it is positive. -/
structure SeqOk (g : Generation) (s : State) : Prop where
  seeking : ∀ c q, s.phase c = .seeking q ∨ s.phase c = .initSeq q → 0 < q
  phase : ∀ c, (s.phase c).hasSeq = true → 0 < s.mem (.forwardSeq (g.inst c))
  state : ∀ i, (s.mem (.state i)).inRound = true → 0 < s.mem (.forwardSeq i)
  held : ∀ i, Held s i → 0 < s.mem (.forwardSeq i)

section SeqCall

variable {c t : ℕ} {m m' : Memory} {x x' : Locals} {p p' : Phase}

/-- A context seeks with its next sequence number. -/
theorem CallTrans.seq_of_seeking (h : CallTrans g c t m x p e m' x' p')
    (hseek : ∀ q, p = .seeking q ∨ p = .initSeq q → 0 < q) :
    ∀ q, p' = .seeking q ∨ p' = .initSeq q → 0 < q := by
  cases h with
  | quiet hm he => exact hseek
  | seek hs ha => rintro q (⟨⟨⟩⟩ | ⟨⟨⟩⟩); exact Nat.succ_pos _
  | win hi => rintro q (⟨⟨⟩⟩ | ⟨⟨⟩⟩); exact hseek _ (.inl rfl)
  | _ => rintro q (⟨⟨⟩⟩ | ⟨⟨⟩⟩)

/-- A positive sequence is only replaced by a positive one. -/
theorem CallTrans.seq_pos (h : CallTrans g c t m x p e m' x' p')
    (hseek : ∀ q, p = .seeking q ∨ p = .initSeq q → 0 < q) {i : Inst}
    (hi : 0 < m (.forwardSeq i)) : 0 < m' (.forwardSeq i) := by
  rcases h.forwardSeq i with h | ⟨-, q, hp, -, h⟩ <;> rw [h]
  · exact hi
  · exact hseek q (.inr hp)

/-- How a context comes to know that its group has a sequence. -/
theorem CallTrans.hasSeq (h : CallTrans g c t m x p e m' x' p') (hp' : p'.hasSeq = true) :
    p.hasSeq = true ∨ (∃ q, p = .initSeq q ∧ m' (.forwardSeq (g.inst c)) = q) ∨
      m .owner = (g.inst c).idx := by
  cases h with
  | quiet hm he => exact .inl hp'
  | initSeq => exact .inr (.inl ⟨_, rfl, by simp⟩)
  | fenceOwner ho => exact .inr (.inr ho)
  | _ => first
    | exact .inl rfl
    | cases hp'

end SeqCall

/-- Every step keeps sequences positive. -/
theorem Trans.seqOk (h : Trans g s a e s') (ho : OwnerOk (s.mem .owner) s.coordPhase)
    (hs : SeqOk g s) : SeqOk g s' := by
  cases h with
  | call c b hk ht hctx _ _ _ hcoord =>
    have hseek := hs.seeking c
    have hphase : ∀ d, d ≠ c → s'.phase d = s.phase d := fun d hd => by
      simp only [State.phase, hctx d hd]
    have hpos : ∀ i, 0 < s.mem (.forwardSeq i) → 0 < s'.mem (.forwardSeq i) :=
      fun i => ht.seq_pos hseek
    refine ⟨fun d => ?_, fun d hd => ?_, fun i hi => ?_, fun i hi => ?_⟩
    · by_cases hdc : d = c
      · subst hdc; exact ht.seq_of_seeking hseek
      · rw [hphase d hdc]; exact hs.seeking d
    · by_cases hdc : d = c
      · subst hdc
        rcases ht.hasSeq hd with hp | ⟨q, hp, hq⟩ | ho
        · exact hpos _ (hs.phase d hp)
        · rw [hq]; exact hseek q (.inr hp)
        · exact hpos _ (hs.held _ (.inl ho))
      · rw [hphase d hdc] at hd
        exact hpos _ (hs.phase d hd)
    · rcases ht.state i with h | ⟨rfl, hmove⟩
      · exact hpos i (hs.state i (by rwa [h] at hi))
      · cases hmove with
        | collect q hp => exact hpos _ (hs.phase c (by rw [hp]; rfl))
        | ready q hp hp' hst => exact hpos _ (hs.state _ (by rw [hst]; rfl))
        | complete q hp hp' hst => exact hpos _ (hs.state _ (by rw [hst]; rfl))
        | setIdle hp hp' hst hst' => rw [hst'] at hi; cases hi
        | win q hp hp' hst hst' => rw [hst'] at hi; cases hi
        | reset q hp hp' hst' => rw [hst'] at hi; cases hi
    · refine hpos i (hs.held i ?_)
      rwa [Held, ← ht.owner, ← hcoord]
  | coord hk ht hctx hnow =>
    have hphase : ∀ d, s'.phase d = s.phase d := fun d => by simp only [State.phase, hctx]
    refine ⟨fun d => ?_, fun d hd => ?_, fun i hi => ?_, fun i hi => ?_⟩
    · rw [hphase d]; exact hs.seeking d
    · rw [ht.forwardSeq]; exact hs.phase d (by rwa [hphase d] at hd)
    · rw [ht.forwardSeq]
      rcases ht.state i with h | ⟨hp, -, -⟩ | ⟨-, -, hst, -⟩
      · exact hs.state i (by rwa [h] at hi)
      · exact hs.held i (.inl (by rwa [hp] at ho))
      · exact hs.state i (by rw [hst]; rfl)
    · rw [ht.forwardSeq]
      rcases ht.held_before ho hi with hi | hi
      · exact hs.held i hi
      · exact hs.state i (by rw [(ht.state_of_opens hi).1]; rfl)
  | other ht hphase _ _ _ _ hcoord =>
    have hseq : ∀ i, s'.mem (.forwardSeq i) = s.mem (.forwardSeq i) := fun i =>
      ht.core rfl (by simp) (by simp) (by simp)
    refine ⟨fun d => ?_, fun d hd => ?_, fun i hi => ?_, fun i hi => ?_⟩
    · rw [hphase d]; exact hs.seeking d
    · rw [hseq]; exact hs.phase d (by rwa [hphase d] at hd)
    · rw [hseq]
      rcases ht.state i with h | ⟨c, -, -, -, h⟩
      · exact hs.state i (by rwa [h] at hi)
      · rw [h] at hi; cases hi
    · rw [hseq]
      refine hs.held i ?_
      rwa [Held, ← ht.core (l := .owner) rfl (by simp) (by simp) (by simp), ← hcoord]

theorem seqOk_initialState : SeqOk g (initialState g) where
  seeking c q hc := by simp at hc
  phase c hc := by simp [Phase.hasSeq] at hc
  state i hi := by cases hi
  held i hi := absurd hi (not_heldBy_rest i)

/-! ## Only who is inside sets its complete bit -/

/-- What is known of a context that is not, or no longer, inside a round but still has an active
sequence: outside the phases in which this is normal, the pair is not running, or the context is
closing. In `ps_leave_forward` the knowledge is narrowed test by test. -/
def LeaveOk (m : Memory) (c : ℕ) (x : Locals) (inside : Prop) : Phase → Prop
  | .granted _ _ | .failing | .lastComplete _ | .finishing _ | .sawDraining _ => True
  | .resetReady _ | .resetComplete _ | .resetGrant _ | .resetPublish _ | .resetState _ => True
  | .resetDone _ => True
  | .begun => x.activeSeq = 0 ∨ inside ∨ (m .status).state ≠ .running
  | .unexpired => x.activeSeq = 0 ∨ inside
  | .fenceOwner q _ | .fenceSeq q _ => q = 0 ∨ inside
  | .fenceRest _ _ => inside
  | _ => x.activeSeq = 0 ∨ inside ∨ (m .status).state ≠ .running ∨ m (.stopping c) = true

/-- Leaving RUNNING, starting to close and getting inside only help. -/
theorem LeaveOk.mono {m m' : Memory} {c : ℕ} {x : Locals} {i i' : Prop} {p : Phase}
    (h : LeaveOk m c x i p) (hi : i → i')
    (hst : (m .status).state ≠ .running → (m' .status).state ≠ .running)
    (hstop : m (.stopping c) = true → m' (.stopping c) = true) : LeaveOk m' c x i' p := by
  have hgen : x.activeSeq = 0 ∨ i ∨ (m .status).state ≠ .running ∨ m (.stopping c) = true →
      x.activeSeq = 0 ∨ i' ∨ (m' .status).state ≠ .running ∨ m' (.stopping c) = true := by
    rintro (h | h | h | h)
    · exact .inl h
    · exact .inr (.inl (hi h))
    · exact .inr (.inr (.inl (hst h)))
    · exact .inr (.inr (.inr (hstop h)))
  cases p with
  | begun => exact h.imp id (.imp hi hst)
  | unexpired | fenceOwner q gr | fenceSeq q gr => exact h.imp id hi
  | fenceRest q gr => exact hi h
  | _ => first
    | trivial
    | exact hgen h

/-- A step of the context itself. -/
theorem CallTrans.leaveOk {c t : ℕ} {m m' : Memory} {x x' : Locals} {p p' : Phase}
    (h : CallTrans g c t m x p e m' x' p') (hst : StatusOk (m .status))
    (hseq : p.hasSeq = true → 0 < m (.forwardSeq (g.inst c)))
    (hl : LeaveOk m c x (Inside c tr) p) : LeaveOk m' c x' (Inside c (e :: tr)) p' := by
  cases h with
  | quiet hm he =>
    exact hl.mono (he.inside c).mpr (by rw [hm.core _ rfl]; exact id) (hm.stopping c)
  | drop hs hp => exact .inr (.inr hs)
  | fail reason => exact .inr (.inr (.inl (hst.failStatus_ne reason)))
  | openClaim hm | undo hm | leftReturn hm =>
    refine hl.imp id (.imp id (.imp ?_ (hm.stopping c)))
    rw [hm.core _ rfl]
    exact id
  | seek hs ha => exact .inl ha
  | entered hm => exact .inr (.inl (.inl rfl))
  | begin hs => exact hl.imp id (.imp id fun h => h.resolve_right (by simp [hs]))
  | seeStatus hr => exact hl.imp id fun h => h.resolve_right (by simp [hr])
  | fence hp hq hg =>
    subst hq
    rcases hp with rfl | ⟨rfl, hr⟩
    · exact hl
    · exact hl.imp id fun h => h.resolve_right (by simp [hr])
  | fenceSeq hq =>
    have hpos := hseq rfl
    rw [hq] at hpos
    exact hl.resolve_left (Nat.pos_iff_ne_zero.mp hpos)
  | orExit hf | resetDone hm => exact .inl rfl
  | backOff hp => rcases hp with rfl | ⟨gr, rfl⟩ <;> exact hl
  | _ => trivial

/-- The supporting invariants together. -/
structure Support (g : Generation) (tr : List Event) (s : State) : Prop where
  status : StatusOk (s.mem .status)
  owner : OwnerOk (s.mem .owner) s.coordPhase
  seq : SeqOk g s
  leave : ∀ c, LeaveOk s.mem c (s.locals c) (Inside c tr) (s.phase c)

theorem Trans.leaveOk (h : Trans g s a e s') (hs : Support g tr s) (d : ℕ) :
    LeaveOk s'.mem d (s'.locals d) (Inside d (e :: tr)) (s'.phase d) := by
  have hst : (s.mem .status).state ≠ .running → (s'.mem .status).state ≠ .running := fun hne => by
    rwa [h.status_stable hne]
  -- everybody but the mover keeps phase and fields, and nothing is observed of it
  have hother : s'.phase d = s.phase d → s'.locals d = s.locals d →
      (Inside d (e :: tr) ↔ Inside d tr) →
      LeaveOk s'.mem d (s'.locals d) (Inside d (e :: tr)) (s'.phase d) := by
    intro hp hx hin
    rw [hp, hx]
    exact (hs.leave d).mono hin.mpr hst h.stopping
  cases h with
  | call c b hk ht hctx =>
    by_cases hdc : d = c
    · subst hdc
      exact ht.leaveOk hs.status (hs.seq.phase d) (hs.leave d)
    · exact hother (by simp only [State.phase, hctx d hdc])
        (by simp only [State.locals, hctx d hdc]) (ht.inside_of_ne hdc)
  | coord hk ht hctx =>
    exact hother (by simp only [State.phase, hctx]) (by simp only [State.locals, hctx])
      (ht.inside d)
  | other ht hphase hlocals => exact hother (hphase d) (hlocals d) Iff.rfl

theorem Trans.support (h : Trans g s a e s') (hs : Support g tr s) : Support g (e :: tr) s' :=
  ⟨h.statusOk hs.status, h.ownerOk hs.owner, h.seqOk hs.owner hs.seq, h.leaveOk hs⟩

theorem support_of_run {P : State → Act → Prop} (h : Run g P tr s) : Support g tr s := by
  refine h.invariant (I := fun tr s => Support g tr s) ?_ ?_
  · refine ⟨.inl rfl, Or.inl rfl, seqOk_initialState, fun c => ?_⟩
    rw [initialState_phase]
    refine .inl ?_
    by_cases hc : c = 0
    · subst hc; rfl
    · simp [State.locals, initialState, hc, Ctx.absent]
  · intro tr s a s' hI _ hstep
    exact (trans_of_step hstep).support hI

/-! ## Runs as sequences of tenures -/

/-- The ranks of the two instances and the contexts that act for them. -/
def team (g : Generation) : Tenure.Team Inst ℕ where
  group := g.inst
  rank := g.rank
  size := g.workerCount
  rank_lt := g.rank_lt

/-- Has joined a round and not been validated yet. -/
def Phase.isJoined : Phase → Bool
  | .initSeq _ | .initGrant _ | .initReady _ | .initComplete _ | .initExit _ => true
  | .initClock _ | .initPublish _ _ | .initState _ | .saw _ .collecting => true
  | .joined _ | .lastReady _ | .waiting _ | .sawRunning _ | .sawGrant _ _ | .sawOwner _ _ => true
  | _ => false

/-- Has, moreover, seen the round running. -/
def Phase.isSaw : Phase → Bool
  | .sawRunning _ | .sawGrant _ _ | .sawOwner _ _ => true
  | _ => false

/-- Has been validated, in a call that has not returned yet. -/
def Phase.isHolder : Phase → Bool
  | .checked _ _ | .granted _ _ => true
  | _ => false

/-- Has set the last complete bit. -/
def Phase.isLast : Phase → Bool
  | .lastComplete _ => true
  | _ => false

/-- The group whose completed round the coordinator recycles. -/
def CoordPhase.recycles : CoordPhase → Option Inst
  | .sawComplete o | .storeExit o | .storeState o | .storeLastOwner o | .storeOwner o => some o
  | _ => none

/-- The group the coordinator has marked as draining and not released yet. -/
def CoordPhase.drains : CoordPhase → Option Inst
  | .storeLastOwner o | .storeOwner o => some o
  | _ => none

/-- The scheduler in the terms of tenures: from the memory, the phase of the coordinator, the
phases of the contexts and who is inside. -/
def tenureView (g : Generation) (m : Memory) (p : CoordPhase) (phase : ℕ → Phase)
    (inside : ℕ → Prop) : Tenure.View Inst ℕ where
  running i := m (.state i) = .running
  complete i := m (.state i) = .complete
  held i := HeldBy (m .owner) p i
  recycling i := p.recycles = some i
  drained i := p.drains = some i
  mask i r := BitMask.HasBit (m (.completeMask i)) r
  registered c := m (.session (g.inst c) (g.rank c)) = g.session c
  joined c := (phase c).isJoined = true
  saw c := (phase c).isSaw = true
  holder c := (phase c).isHolder = true ∨ inside c
  last c := (phase c).isLast = true

/-- The argument about tenures applies, with the bookkeeping `γ`. -/
def TenuredBy (g : Generation) (γ : Tenure.Ghost Inst ℕ) (m : Memory) (p : CoordPhase)
    (phase : ℕ → Phase) (inside : ℕ → Prop) : Prop :=
  Tenure.Inv (team g) γ (tenureView g m p phase inside)

/-- The argument about tenures applies. -/
def Tenured (g : Generation) (m : Memory) (p : CoordPhase) (phase : ℕ → Phase)
    (inside : ℕ → Prop) : Prop :=
  ∃ γ, Tenure.Inv (team g) γ (tenureView g m p phase inside)

theorem Phase.isJoined_of_isSaw {p : Phase} (h : p.isSaw = true) : p.isJoined = true := by
  cases p <;> first
    | rfl
    | cases h

/-- Nothing but the coordinator's own marks are added to the words. -/
structure WordsLe (g : Generation) (m m' : Memory) : Prop where
  running : ∀ i, m' (.state i) = .running → m (.state i) = .running
  complete : ∀ i, m' (.state i) = .complete → m (.state i) = .complete
  mask : ∀ i, m' (.completeMask i) = m (.completeMask i) ∨ m' (.completeMask i) = 0#64
  session : ∀ c, m' (.session (g.inst c) (g.rank c)) = g.session c →
    m (.session (g.inst c) (g.rank c)) = g.session c
  owner : m' .owner = m .owner

section TenureStep

variable {γ : Tenure.Ghost Inst ℕ} {m m' : Memory} {p p' : CoordPhase}
  {phase phase' : ℕ → Phase} {inside inside' : ℕ → Prop}

theorem WordsLe.refl (m : Memory) : WordsLe g m m where
  running _ h := h
  complete _ h := h
  mask _ := .inl rfl
  session _ h := h
  owner := rfl

theorem WordsLe.marksLe (h : WordsLe g m m') :
    (tenureView g m' p phase' inside').MarksLe (tenureView g m p phase inside) where
  running := h.running
  complete := h.complete
  held i := by simp only [tenureView, h.owner]
  recycling _ h := h
  drained i hi := by
    refine ⟨?_, .inl hi⟩
    cases p <;> first
      | exact hi
      | cases hi
  mask i := by
    rcases h.mask i with hm | hm
    · exact .inl fun r => by simp only [tenureView, hm]
    · exact .inr fun r => by simp [tenureView, hm, BitMask.not_hasBit_zero]
  registered := h.session

/-- With the same words, only roles differ. -/
theorem marksLe_of_eq (g : Generation) (m : Memory) (p : CoordPhase) (phase phase' : ℕ → Phase)
    (inside inside' : ℕ → Prop) :
    (tenureView g m p phase' inside').MarksLe (tenureView g m p phase inside) :=
  (WordsLe.refl m).marksLe

/-- Reading a view off the state: what the words say, and what the phases say. -/
theorem tenuredBy_of {V : Tenure.View Inst ℕ} (h : Tenure.Inv (team g) γ V)
    (hw : (tenureView g m' p' phase' inside').MarksLe V)
    (hj : ∀ d, (phase' d).isJoined = true → V.joined d)
    (hs : ∀ d, (phase' d).isSaw = true → V.saw d)
    (hh : ∀ d, (phase' d).isHolder = true ∨ inside' d → V.holder d)
    (hl : ∀ d, (phase' d).isLast = true → V.last d) : TenuredBy g γ m' p' phase' inside' :=
  Tenure.Inv.weaken h { hw with
    joined := hj
    saw := fun d hd => ⟨hs d hd, Phase.isJoined_of_isSaw hd⟩
    holder := hh
    last := hl }

/-- Dropping roles and marks. -/
theorem TenuredBy.weaken (h : TenuredBy g γ m p phase inside) (hm : WordsLe g m m')
    (hj : ∀ c, (phase' c).isJoined = true → (phase c).isJoined = true)
    (hs : ∀ c, (phase' c).isSaw = true → (phase c).isSaw = true)
    (hh : ∀ c, (phase' c).isHolder = true ∨ inside' c → (phase c).isHolder = true ∨ inside c)
    (hl : ∀ c, (phase' c).isLast = true → (phase c).isLast = true) :
    TenuredBy g γ m' p phase' inside' :=
  tenuredBy_of h hm.marksLe hj hs hh hl

variable {c : ℕ}

/-- A property of phases, when only `c` has moved. -/
theorem forall_of_moved (hp : ∀ d, d ≠ c → phase' d = phase d) {f : Phase → Bool} {Q : ℕ → Prop}
    (hc : f (phase' c) = true → Q c) (hd : ∀ d, d ≠ c → f (phase d) = true → Q d) :
    ∀ d, f (phase' d) = true → Q d := by
  intro d h
  by_cases hdc : d = c
  · subst hdc; exact hc h
  · exact hd d hdc (by rwa [hp d hdc] at h)

/-- A move from `p` to `p'` takes on no role. -/
def Phase.rolesLe (p' p : Phase) : Bool :=
  (!p'.isJoined || p.isJoined) && (!p'.isSaw || p.isSaw) && (!p'.isHolder || p.isHolder) &&
    (!p'.isLast || p.isLast)

theorem Phase.rolesLe_refl (p : Phase) : p.rolesLe p = true := by simp [rolesLe]

/-- A step of `c` that drops roles and marks, if anything. -/
theorem TenuredBy.moves (h : TenuredBy g γ m p phase inside) (hm : WordsLe g m m')
    (hp : ∀ d, d ≠ c → phase' d = phase d) (hi : ∀ d, d ≠ c → (inside' d ↔ inside d))
    (hle : (phase' c).rolesLe (phase c) = true)
    (hc : inside' c → (phase c).isHolder = true ∨ inside c) :
    TenuredBy g γ m' p phase' inside' := by
  simp only [Phase.rolesLe, Bool.and_eq_true, Bool.or_eq_true, Bool.not_eq_true'] at hle
  obtain ⟨⟨⟨hj, hs⟩, hh⟩, hl⟩ := hle
  refine h.weaken hm (forall_of_moved hp (fun h => hj.resolve_left (by simp [h])) fun _ _ h => h)
    (forall_of_moved hp (fun h => hs.resolve_left (by simp [h])) fun _ _ h => h) (fun d hd => ?_)
    (forall_of_moved hp (fun h => hl.resolve_left (by simp [h])) fun _ _ h => h)
  by_cases hdc : d = c
  · subst hdc
    exact hd.elim (fun h => .inl (hh.resolve_left (by simp [h]))) hc
  · rwa [hp d hdc, hi d hdc] at hd

/-- A context joins, and possibly marks its group at the same time. -/
theorem TenuredBy.joins (h : TenuredBy g γ m p phase inside) (hm : WordsLe g m m')
    (hr : m (.state (g.inst c)) ≠ .running) (hc : (phase c).isSaw = false)
    (hp : ∀ d, d ≠ c → phase' d = phase d) (hs' : (phase' c).isSaw = false)
    (hh' : (phase' c).isHolder = false) (hl' : (phase' c).isLast = false) :
    ∃ γ', γ.Follows γ' (fun _ => False) (fun _ _ => False) (fun _ _ => False) ∧
      TenuredBy g γ' m' p phase' inside := by
  obtain ⟨γ', hγ, h'⟩ := Tenure.Inv.joins h c hr (by simp [tenureView, hc])
  have hmarks : (tenureView g m' p phase' inside).MarksLe (tenureView g m p phase inside) :=
    hm.marksLe
  refine ⟨γ', hγ, tenuredBy_of h' { hmarks with }
    (forall_of_moved hp (fun _ => .inr rfl) fun _ _ h => .inl h)
    (forall_of_moved hp (by simp [hs']) fun _ _ h => h) (fun d hd => ?_)
    (forall_of_moved hp (by simp [hl']) fun _ _ h => h)⟩
  by_cases hdc : d = c
  · subst hdc; exact hd.imp (by simp [hh']) id
  · rwa [hp d hdc] at hd

/-- A context that has joined sees its group running. -/
theorem TenuredBy.sees (h : TenuredBy g γ m p phase inside) (hr : m (.state (g.inst c)) = .running)
    (hc : (phase c).isJoined = true) (hp : ∀ d, d ≠ c → phase' d = phase d)
    (hh' : (phase' c).isHolder = false) (hl' : (phase' c).isLast = false) :
    TenuredBy g γ m p phase' inside := by
  refine tenuredBy_of (Tenure.Inv.sees h c hc hr)
    { marksLe_of_eq g m p phase phase' inside inside with }
    (forall_of_moved hp (fun _ => hc) fun _ _ h => h)
    (forall_of_moved hp (fun _ => .inr rfl) fun _ _ h => .inl h) (fun d hd => ?_)
    (forall_of_moved hp (by simp [hl']) fun _ _ h => h)
  by_cases hdc : d = c
  · subst hdc; exact hd.imp (by simp [hh']) id
  · rwa [hp d hdc] at hd

/-- A context that has seen its group running finds its own session in the slot. -/
theorem TenuredBy.validates (h : TenuredBy g γ m p phase inside)
    (hreg : m (.session (g.inst c) (g.rank c)) = g.session c) (hc : (phase c).isSaw = true)
    (hp : ∀ d, d ≠ c → phase' d = phase d) (hj' : (phase' c).isJoined = false)
    (hs' : (phase' c).isSaw = false) (hl' : (phase' c).isLast = false) :
    ∃ γ', γ.Follows γ' (fun _ => False) ((team g).At c) (fun _ _ => False) ∧
      TenuredBy g γ' m p phase' inside := by
  obtain ⟨γ', hγ, h'⟩ := Tenure.Inv.validates h c hc hreg
  refine ⟨γ', hγ, tenuredBy_of h'
    { marksLe_of_eq g m p phase phase' inside inside with }
    (forall_of_moved hp (by simp [hj']) fun _ hd h => ⟨h, hd⟩)
    (forall_of_moved hp (by simp [hs']) fun _ hd h => ⟨h, hd⟩) (fun d hd => ?_)
    (forall_of_moved hp (by simp [hl']) fun _ _ h => h)⟩
  by_cases hdc : d = c
  · exact .inr hdc
  · rw [hp d hdc] at hd
    exact .inl hd

theorem Phase.no_role {p : Phase} (h : p.rolesLe .out = true) :
    p.isJoined = false ∧ p.isSaw = false ∧ p.isHolder = false ∧ p.isLast = false := by
  simpa [rolesLe, isJoined, isSaw, isHolder, isLast, and_assoc] using h

/-- A slot gets a new session. -/
theorem TenuredBy.claims (h : TenuredBy g γ m p phase inside)
    (hc : (phase c).rolesLe .out = true) (hp : ∀ d, d ≠ c → phase' d = phase d)
    (hc' : (phase' c).rolesLe .out = true) :
    TenuredBy g γ (m.set (.session (g.inst c) (g.rank c)) (g.session c)) p phase' inside := by
  obtain ⟨hj, -, -, -⟩ := Phase.no_role hc
  obtain ⟨hj', hs', hh', hl'⟩ := Phase.no_role hc'
  refine tenuredBy_of (Tenure.Inv.claims h c (by simp [tenureView, hj]))
    { marksLe_of_eq g m p phase phase' inside inside with
      registered := fun d hd => ?_ }
    (forall_of_moved hp (by simp [hj']) fun _ _ h => h)
    (forall_of_moved hp (by simp [hs']) fun _ _ h => h) (fun d hd => ?_)
    (forall_of_moved hp (by simp [hl']) fun _ _ h => h)
  · change m.set _ _ _ = _ at hd
    by_cases hslot : g.inst d = g.inst c ∧ g.rank d = g.rank c
    · rw [set_session_session, if_pos hslot] at hd
      exact .inr (g.session_inj d c hslot.1 hslot.2 hd.symm)
    · rw [set_session_session, if_neg hslot] at hd
      exact .inl ⟨hd, hslot⟩
  · by_cases hdc : d = c
    · subst hdc; exact hd.imp (by simp [hh']) id
    · rwa [hp d hdc] at hd

/-- A context inside a round sets its complete bit. -/
theorem TenuredBy.finishes (h : TenuredBy g γ m p phase inside) (hc : inside c)
    (hh : (phase c).isHolder = false) (hp : ∀ d, d ≠ c → phase' d = phase d)
    (hi : ∀ d, inside' d → inside d ∧ d ≠ c) (hj' : (phase' c).isJoined = false)
    (hs' : (phase' c).isSaw = false) (hh' : (phase' c).isHolder = false)
    (hl' : (phase' c).isLast = true → ¬BitMask.HasBit (m (.completeMask (g.inst c))) (g.rank c) ∧
      m (.completeMask (g.inst c)) ||| g.bitOf c = g.expectedMask) :
    ∃ γ', γ.Follows γ' (fun _ => False) (fun _ _ => False) ((team g).At c) ∧
      TenuredBy g γ' (m.set (.completeMask (g.inst c)) (m (.completeMask (g.inst c)) ||| g.bitOf c))
        p phase' inside' := by
  have hbit : ∀ (old : BitVec 64) (r : ℕ),
      BitMask.HasBit (old ||| g.bitOf c) r ↔ BitMask.HasBit old r ∨ r = g.rank c := fun old r =>
    BitMask.hasBit_or_bit (g.rank_lt_64 c)
  obtain ⟨γ', hγ, h'⟩ := Tenure.Inv.finishes h c (.inr hc) ((phase' c).isLast = true) fun hl => by
    obtain ⟨hmiss, hfull⟩ := hl' hl
    refine ⟨hmiss, fun r hr => (hbit (m (.completeMask (g.inst c))) r).mp ?_⟩
    rw [hfull]
    exact (BitMask.hasBit_full g.workerCount_le).mpr hr
  refine ⟨γ', hγ, tenuredBy_of h'
    { marksLe_of_eq g m p phase phase' inside inside' with
      mask := fun i => .inl fun r => ?_ }
    (forall_of_moved hp (by simp [hj']) fun _ _ h => h)
    (forall_of_moved hp (by simp [hs']) fun _ _ h => h) (fun d hd => ?_)
    (forall_of_moved hp (fun hl => .inr ⟨rfl, hl⟩) fun _ _ h => .inl h)⟩
  · by_cases hic : i = g.inst c
    · subst hic
      simp [tenureView, team, hbit]
    · simp [tenureView, team, hic]
  · by_cases hdc : d = c
    · subst hdc
      rcases hd with hd | hd
      · simp [hh'] at hd
      · exact absurd rfl (hi d hd).2
    · rw [hp d hdc] at hd
      exact ⟨hd.imp id fun hd => (hi d hd).1, hdc⟩

/-- Who set the last complete bit marks the round complete. -/
theorem TenuredBy.publishes (h : TenuredBy g γ m p phase inside) (hc : (phase c).isLast = true)
    (hp : ∀ d, d ≠ c → phase' d = phase d) (hc' : (phase' c).rolesLe .out = true) :
    TenuredBy g γ (m.set (.state (g.inst c)) RoundState.complete) p phase' inside := by
  obtain ⟨hj', hs', hh', hl'⟩ := Phase.no_role hc'
  refine tenuredBy_of (Tenure.Inv.publishes h c hc)
    { marksLe_of_eq g m p phase phase' inside inside with
      running := fun i hi => ?_
      complete := fun i hi => ?_
      drained := fun i hi => ?_ }
    (forall_of_moved hp (by simp [hj']) fun _ _ h => h)
    (forall_of_moved hp (by simp [hs']) fun _ _ h => h) (fun d hd => ?_)
    (forall_of_moved hp (by simp [hl']) fun _ hd h => ⟨h, hd⟩)
  · by_cases hic : i = g.inst c
    · simp [tenureView, hic] at hi
    · simpa [tenureView, hic] using hi
  · by_cases hic : i = g.inst c
    · exact .inr hic
    · exact .inl (by simpa [tenureView, hic] using hi)
  · exact ⟨((marksLe_of_eq g m p phase phase' inside inside).drained i hi).1, .inl hi⟩
  · by_cases hdc : d = c
    · subst hdc; exact hd.imp (by simp [hh']) id
    · rwa [hp d hdc] at hd

/-! ### The steps of a calling thread -/

/-- A calm step adds no mark. -/
theorem Calm.wordsLe (h : Calm m m') : WordsLe g m m' where
  running i hi := by rwa [h.core _ rfl] at hi
  complete i hi := by rwa [h.core _ rfl] at hi
  mask i := .inl (h.core _ rfl)
  session c hc := by rwa [h.core _ rfl] at hc
  owner := h.core _ rfl

/-- Neither does setting a group to a state other than RUNNING and COMPLETE. -/
theorem WordsLe.setState (m : Memory) (i : Inst) {st : RoundState} (hr : st ≠ .running)
    (hc : st ≠ .complete) : WordsLe g m (m.set (.state i) st) where
  running j hj := by
    by_cases hji : j = i
    · simp [hji, hr] at hj
    · simpa [hji] using hj
  complete j hj := by
    by_cases hji : j = i
    · simp [hji, hc] at hj
    · simpa [hji] using hj
  mask _ := .inl rfl
  session _ h := h
  owner := rfl

/-- Nor clearing the complete mask. -/
theorem WordsLe.clearMask (m : Memory) (i : Inst) : WordsLe g m (m.set (.completeMask i) 0#64) where
  running _ h := h
  complete _ h := h
  mask j := by
    by_cases hji : j = i
    · exact .inr (by simp [hji])
    · exact .inl (by simp [hji])
  session _ h := h
  owner := rfl

/-- Nor clearing a session. -/
theorem WordsLe.clearSession (m : Memory) (c : ℕ) :
    WordsLe g m (m.set (.session (g.inst c) (g.rank c)) (0 : ℕ)) where
  running _ h := h
  complete _ h := h
  mask _ := .inl rfl
  session d hd := by
    by_cases hslot : g.inst d = g.inst c ∧ g.rank d = g.rank c
    · rw [set_session_session, if_pos hslot] at hd
      exact absurd hd.symm (g.session_ne_zero d)
    · rwa [set_session_session, if_neg hslot] at hd
  owner := rfl

/-- A rank reports in its round. -/
def Event.isReport : Event → Bool
  | .completeOr _ _ => true
  | _ => false

/-- The slot of `c` is validated by a step of `c` from phase `q` to phase `q'`. -/
def Phase.validates (g : Generation) (c : ℕ) (q q' : Phase) (i : Inst) (r : ℕ) : Prop :=
  (q.isSaw = true ∧ q'.isHolder = true) ∧ (team g).At c i r

/-- The rank of `c` reports, in a step of `c` observed as `e`. -/
def Event.reports (g : Generation) (c : ℕ) (e : Event) (i : Inst) (r : ℕ) : Prop :=
  e.isReport = true ∧ (team g).At c i r

theorem Event.Minor.isReport (he : e.Minor) : e.isReport = false := by
  cases he <;> rfl

/-- Who takes on no role is not validated. -/
theorem Phase.not_validates {q q' : Phase} (h : q'.rolesLe q = true) :
    (q.isSaw && q'.isHolder) = false := by
  simp only [Phase.rolesLe, Bool.and_eq_true, Bool.or_eq_true, Bool.not_eq_true'] at h
  rcases h.1.2 with hq' | hq
  · simp [hq']
  · cases q <;> first
      | rfl
      | cases hq

/-- With no validation and no report, there is nothing to note. -/
theorem follows_of_quiet {q q' : Phase} (hv : (q.isSaw && q'.isHolder) = false)
    (he : e.isReport = false) {γ' : Tenure.Ghost Inst ℕ}
    (h : γ.Follows γ' (fun _ => False) (fun _ _ => False) fun _ _ => False) :
    γ.Follows γ' (fun _ => False) (q.validates g c q') (e.reports g c) := by
  refine h.congr (fun _ => Iff.rfl) (fun i r => iff_false_intro ?_) fun i r => iff_false_intro ?_
  · rintro ⟨⟨hs, hh⟩, -⟩
    simp [hs, hh] at hv
  · rintro ⟨h, -⟩
    simp [he] at h

/-- A report out of a round is noted, and nothing else. -/
theorem follows_of_report {n q gr : ℕ} {q' : Phase} {γ' : Tenure.Ghost Inst ℕ}
    (h : γ.Follows γ' (fun _ => False) (fun _ _ => False) ((team g).At c)) :
    γ.Follows γ' (fun _ => False) ((Phase.fenceRest q gr).validates g c q')
      ((Event.completeOr c n).reports g c) :=
  h.congr (fun _ => Iff.rfl) (fun i r => by simp [Phase.validates, Phase.isSaw])
    fun i r => by simp [Event.reports, Event.isReport]

/-- **Every step of a calling thread is an operation on tenures.** -/
theorem CallTrans.tenuredBy {t : ℕ} {x x' : Locals} {q q' : Phase}
    (h : CallTrans g c t m x q e m' x' q') (hq : phase c = q) (hq' : phase' c = q')
    (hp : ∀ d, d ≠ c → phase' d = phase d)
    (hin : ∀ n gr, q = .fenceRest n gr → Inside c tr)
    (hT : TenuredBy g γ m p phase fun d => Inside d tr) :
    ∃ γ', γ.Follows γ' (fun _ => False) (q.validates g c q') (e.reports g c) ∧
      TenuredBy g γ' m' p phase' fun d => Inside d (e :: tr) := by
  have hne : ∀ d, d ≠ c → (Inside d (e :: tr) ↔ Inside d tr) := fun d hd => h.inside_of_ne hd
  have hsame : (q.isSaw && q'.isHolder) = false → e.isReport = false →
      TenuredBy g γ m' p phase' (fun d => Inside d (e :: tr)) →
      ∃ γ', γ.Follows γ' (fun _ => False) (q.validates g c q') (e.reports g c) ∧
        TenuredBy g γ' m' p phase' fun d => Inside d (e :: tr) := fun hv he h =>
    ⟨γ, follows_of_quiet hv he (.refl γ), h⟩
  have hmove : WordsLe g m m' → q'.rolesLe q = true →
      (Inside c (e :: tr) → q.isHolder = true ∨ Inside c tr) → e.isReport = false →
      ∃ γ', γ.Follows γ' (fun _ => False) (q.validates g c q') (e.reports g c) ∧
        TenuredBy g γ' m' p phase' fun d => Inside d (e :: tr) := fun hm hle hc he =>
    hsame (Phase.not_validates hle) he
      (hT.moves hm hp hne (by rw [hq, hq']; exact hle) (by rw [hq]; exact hc))
  cases h with
  | quiet hm he =>
    exact hmove hm.wordsLe (Phase.rolesLe_refl _) (fun hc => .inr ((he.inside c).mp hc))
      he.isReport
  | drop hs hd | abort ha =>
    refine hmove (.refl _) ?_ .inr rfl
    cases q <;> rfl
  | openClaim hm | undo hm | resetDone hm | leftReturn hm => exact hmove hm.wordsLe rfl .inr rfl
  | entered hm => exact hmove hm.wordsLe rfl (fun _ => .inl rfl) rfl
  | claim => exact hsame rfl rfl (hT.claims (by rw [hq]; rfl) hp (by rw [hq']; rfl))
  | setIdle _ | resetState => exact hmove (.setState m _ (by simp) (by simp)) rfl .inr rfl
  | see st hst =>
    by_cases hcoll : st = .collecting
    · obtain ⟨γ', hγ, h'⟩ := hT.joins (.refl m) (by simp [hst, hcoll]) (by rw [hq]; rfl) hp
        (by rw [hq']; rfl) (by rw [hq']; rfl) (by rw [hq']; rfl)
      exact ⟨γ', follows_of_quiet rfl rfl hγ, h'⟩
    · refine hmove (.refl _) ?_ .inr rfl
      cases st <;> first | rfl | exact absurd rfl hcoll
  | win hst =>
    have hm : WordsLe g m (m.set (.state (g.inst c)) RoundState.initializing) :=
      .setState m _ (by simp) (by simp)
    obtain ⟨γ', hγ, h'⟩ := hT.joins hm (by simp [hst]) (by rw [hq]; rfl) hp (by rw [hq']; rfl)
      (by rw [hq']; rfl) (by rw [hq']; rfl)
    exact ⟨γ', follows_of_quiet rfl rfl hγ, h'⟩
  | initComplete | resetComplete => exact hmove (.clearMask m _) rfl .inr rfl
  | initState => exact hmove (.setState m _ (by simp) (by simp)) rfl .inr rfl
  | publishReady _ => exact hmove (.setState m _ (by simp) (by simp)) rfl .inr rfl
  | seeRunning hst =>
    exact hsame rfl rfl
      (hT.sees hst (by rw [hq]; rfl) hp (by rw [hq']; rfl) (by rw [hq']; rfl))
  | backOff hb =>
    refine hmove (.refl _) ?_ .inr rfl
    rcases hb with rfl | ⟨gr, rfl⟩ <;> rfl
  | check hreg =>
    obtain ⟨γ', hγ, h'⟩ := hT.validates hreg (by rw [hq]; rfl) hp (by rw [hq']; rfl)
      (by rw [hq']; rfl) (by rw [hq']; rfl)
    refine ⟨γ', hγ.congr (fun _ => Iff.rfl) (fun i r => ?_) (fun i r => ?_), h'⟩
    · simp [Phase.validates, Phase.isSaw, Phase.isHolder]
    · simp [Event.reports, Event.isReport]
  | dupComplete hb =>
    obtain ⟨γ', hγ, h'⟩ := hT.finishes (hin _ _ rfl) (by rw [hq]; rfl) hp
      (fun _ => inside_of_report) (by rw [hq']; rfl) (by rw [hq']; rfl) (by rw [hq']; rfl)
      (by rw [hq']; simp [Phase.isLast])
    exact ⟨γ', follows_of_report hγ, h'⟩
  | fullComplete hb hf =>
    obtain ⟨γ', hγ, h'⟩ := hT.finishes (hin _ _ rfl) (by rw [hq]; rfl) hp
      (fun _ => inside_of_report) (by rw [hq']; rfl) (by rw [hq']; rfl) (by rw [hq']; rfl)
      fun _ => ⟨hb, hf⟩
    exact ⟨γ', follows_of_report hγ, h'⟩
  | orComplete hb hf =>
    obtain ⟨γ', hγ, h'⟩ := hT.finishes (hin _ _ rfl) (by rw [hq]; rfl) hp
      (fun _ => inside_of_report) (by rw [hq']; rfl) (by rw [hq']; rfl) (by rw [hq']; rfl)
      (by rw [hq']; simp [Phase.isLast])
    exact ⟨γ', follows_of_report hγ, h'⟩
  | publishComplete hst =>
    exact hsame rfl rfl (hT.publishes (by rw [hq]; rfl) hp (by rw [hq']; rfl))
  | fence hf =>
    refine hmove (.refl _) ?_ .inr rfl
    rcases hf with rfl | ⟨rfl, -⟩ <;> rfl
  -- what is left reads, or writes words the view does not show
  | _ =>
    exact hmove ⟨fun _ h => h, fun _ h => h, fun _ => .inl rfl, fun _ h => h, rfl⟩ rfl .inr rfl

/-! ### The steps of the coordinator -/

/-- A step of the coordinator that adds no mark and grants or releases nothing. -/
theorem TenuredBy.ticks (h : TenuredBy g γ m p phase inside)
    (hrun : ∀ i, m' (.state i) = .running → m (.state i) = .running)
    (hcomp : ∀ i, m' (.state i) = .complete → m (.state i) = .complete)
    (hmask : ∀ i, m' (.completeMask i) = m (.completeMask i))
    (hses : ∀ i r, m' (.session i r) = m (.session i r))
    (hheld : ∀ i, HeldBy (m' .owner) p' i ↔ HeldBy (m .owner) p i)
    (hrec : ∀ i, p'.recycles = some i → p.recycles = some i)
    (hdr : ∀ i, p'.drains = some i → p.drains = some i ∨ m' (.state i) = .draining) :
    TenuredBy g γ m' p' phase inside := by
  refine tenuredBy_of h ⟨hrun, hcomp, hheld, hrec, fun i hi => ⟨?_, ?_⟩, fun i => .inl fun r => ?_,
    fun c hc => ?_⟩ (fun _ h => h) (fun _ h => h) (fun _ h => h) fun _ h => h
  · change p'.recycles = some i
    cases p' <;> first
      | exact hi
      | cases hi
  · exact (hdr i hi).imp id fun h => by simp [tenureView, h]
  · simp only [tenureView, hmask]
  · simpa only [tenureView, hses] using hc

/-- **Every step of the coordinator is an operation on tenures.** -/
theorem CoordTrans.tenuredBy (h : CoordTrans g m p e m' p') (ho : OwnerOk (m .owner) p)
    (hT : TenuredBy g γ m p phase inside) :
    ∃ γ', γ.Follows γ' (p.opens p') (fun _ _ => False) (fun _ _ => False) ∧
      TenuredBy g γ' m' p' phase inside := by
  have hheld := h.heldBy ho
  have hsame : (∀ i, ¬p.opens p' i) → TenuredBy g γ m' p' phase inside →
      ∃ γ', γ.Follows γ' (p.opens p') (fun _ _ => False) (fun _ _ => False) ∧
        TenuredBy g γ' m' p' phase inside := fun hn h =>
    ⟨γ, (Tenure.Ghost.Follows.refl γ).congr (fun i => iff_false_intro (hn i)) (fun _ _ => Iff.rfl)
      fun _ _ => Iff.rfl, h⟩
  cases h with
  | quiet hm =>
    refine hsame (by rintro i ⟨rfl, h⟩; cases h) ?_
    exact hT.ticks (fun i hi => by rwa [hm.core _ rfl] at hi)
      (fun i hi => by rwa [hm.core _ rfl] at hi) (fun i => hm.core _ rfl)
      (fun i r => hm.core _ rfl) (fun i => by rw [hm.core _ rfl]) (fun _ h => h) fun _ h => .inl h
  | @seeComplete o hc =>
    refine hsame (by simp [CoordPhase.opens]) (tenuredBy_of (Tenure.Inv.seesComplete hT o hc)
      { marksLe_of_eq g m (.held o) phase phase inside inside with
        held := hheld (.inl (by simp)) (by simp)
        recycling := ?_
        drained := ?_ }
      (fun _ h => h) (fun _ h => h) (fun _ h => h) fun _ h => h)
    · intro i hi
      cases hi
      exact .inr rfl
    · intro i hi
      cases hi
  | @storeState o =>
    refine hsame (by simp [CoordPhase.opens]) ?_
    refine hT.ticks (WordsLe.setState (g := g) m o (by simp) (by simp)).running
      (WordsLe.setState (g := g) m o (by simp) (by simp)).complete (fun _ => rfl) (fun _ _ => rfl)
      (hheld (.inl (by simp)) (by simp)) (fun _ h => h) fun i hi => ?_
    cases hi
    exact .inr (by simp)
  | @release o =>
    obtain ⟨γ', hγ, h'⟩ := Tenure.Inv.releases hT o rfl fun j hj => HeldBy.unique ho hj (.inl ho)
    refine ⟨γ', hγ.congr (fun i => by simp [CoordPhase.opens]) (fun _ _ => Iff.rfl)
      (fun _ _ => Iff.rfl), tenuredBy_of h' ⟨fun _ h => h, fun _ h => h, fun i => ?_,
      (fun _ hi => by cases hi), (fun _ hi => by cases hi), fun _ => .inl fun _ => Iff.rfl,
      fun _ h => h⟩ (fun _ h => h) (fun _ h => h) (fun _ h => h) fun _ h => h⟩
    simp only [tenureView, Mem.set_self, iff_false]
    exact not_heldBy_rest i
  | grant sel hr =>
    have hnone := fun i => not_heldBy_choosing ho i
    obtain ⟨γ', hγ, h'⟩ := Tenure.Inv.grants hT sel hnone
    refine ⟨γ', hγ.congr (fun i => by simp [CoordPhase.opens, eq_comm]) (fun _ _ => Iff.rfl)
      (fun _ _ => Iff.rfl), tenuredBy_of h' ⟨fun i hi => ?_, fun i hi => ?_,
      fun i => heldBy_drawing ho, (fun _ hi => by cases hi), (fun _ hi => by cases hi),
      fun _ => .inl fun _ => Iff.rfl, fun _ h => h⟩ (fun _ h => h) (fun _ h => h) (fun _ h => h)
      fun _ h => h⟩
    · by_contra hne
      have hne : i ≠ sel := hne
      exact hnone i (hT.held_of_running i (by simpa [tenureView, hne] using hi))
    · by_cases hne : i = sel
      · simp [tenureView, hne] at hi
      · simpa [tenureView, hne] using hi
  | giveUp hp =>
    refine hsame (by simp [CoordPhase.opens]) ?_
    exact hT.ticks (fun _ h => h) (fun _ h => h) (fun _ => rfl) (fun _ _ => rfl)
      (hheld (.inr (by simp)) (by rintro o rfl; cases hp)) (fun _ hi => by cases hi)
      fun _ hi => by cases hi
  | _ =>
    refine hsame (by simp [CoordPhase.opens]) ?_
    exact hT.ticks (fun _ h => h) (fun _ h => h) (fun _ => rfl) (fun _ _ => rfl)
      (hheld (.inl (by simp)) (by simp)) (fun _ h => h) fun _ h => .inl h

end TenureStep

/-! ### The steps of the system -/

/-- A step opens the next tenure of `i`. -/
def Opened (s s' : State) : Inst → Prop := s.coordPhase.opens s'.coordPhase

/-- A step validates a slot. -/
def Validated (g : Generation) (s s' : State) (i : Inst) (r : ℕ) : Prop :=
  ∃ c, (s.phase c).validates g c (s'.phase c) i r

/-- A step is the report of a rank. -/
def Reported (g : Generation) (e : Event) (i : Inst) (r : ℕ) : Prop :=
  ∃ c n, e = .completeOr c n ∧ (team g).At c i r

theorem Phase.not_validates_self (p : Phase) {c : ℕ} {i : Inst} {r : ℕ} :
    ¬p.validates g c p i r := by
  rintro ⟨⟨hs, hh⟩, -⟩
  simpa [hs, hh] using Phase.not_validates (Phase.rolesLe_refl p)

theorem CallTrans.eq_of_report {c t d n : ℕ} {m m' : Memory} {x x' : Locals} {p p' : Phase}
    (h : CallTrans g c t m x p (.completeOr d n) m' x' p') : d = c := by
  cases h with
  | quiet hm he => cases he
  | _ => rfl

theorem CoordTrans.not_report {m m' : Memory} {p p' : CoordPhase} (h : CoordTrans g m p e m' p')
    (i : Inst) (r : ℕ) : ¬Reported g e i r := by
  rintro ⟨c, n, rfl, -⟩
  cases h

/-- **Every step of the system is an operation on tenures.** -/
theorem Trans.tenuredBy {γ : Tenure.Ghost Inst ℕ} (h : Trans g s a e s') (hs : Support g tr s)
    (hT : TenuredBy g γ s.mem s.coordPhase s.phase fun d => Inside d tr) :
    ∃ γ', γ.Follows γ' (Opened s s') (Validated g s s') (Reported g e) ∧
      TenuredBy g γ' s'.mem s'.coordPhase s'.phase fun d => Inside d (e :: tr) := by
  have hopen : s'.coordPhase = s.coordPhase → ∀ i, ¬Opened s s' i := by
    rintro hp i ⟨h, h'⟩
    rw [hp, h] at h'
    cases h'
  cases h with
  | call c b hk ht hctx _ _ _ hcoord =>
    have hphase : ∀ d, d ≠ c → s'.phase d = s.phase d := fun d hd => by
      simp only [State.phase, hctx d hd]
    obtain ⟨γ', hγ, h'⟩ := ht.tenuredBy rfl rfl hphase (fun n gr hp => by
      have := hs.leave c
      rwa [hp] at this) hT
    rw [hcoord]
    refine ⟨γ', hγ.congr (fun i => iff_false_intro (hopen hcoord i)) (fun i r => ?_)
      (fun i r => ?_), h'⟩
    · refine ⟨?_, fun h => ⟨c, h⟩⟩
      rintro ⟨d, hd⟩
      by_cases hdc : d = c
      · exact hdc ▸ hd
      · rw [hphase d hdc] at hd
        exact absurd hd (Phase.not_validates_self _)
    · constructor
      · rintro ⟨d, n, rfl, hd⟩
        obtain rfl := ht.eq_of_report
        exact ⟨rfl, hd⟩
      · rintro ⟨he, hc⟩
        cases e with
        | completeOr d n => exact ⟨d, n, rfl, ht.eq_of_report ▸ hc⟩
        | _ => cases he
  | coord hk ht hctx =>
    have hphase : s'.phase = s.phase := by funext d; simp only [State.phase, hctx]
    obtain ⟨γ', hγ, h'⟩ := ht.tenuredBy hs.owner hT
    refine ⟨γ', hγ.congr (fun i => Iff.rfl) (fun i r => iff_false_intro ?_)
      (fun i r => iff_false_intro (ht.not_report i r)), ?_⟩
    · rintro ⟨d, hd⟩
      rw [hphase] at hd
      exact Phase.not_validates_self _ hd
    · rw [hphase]
      simpa only [ht.inside] using h'
  | other ht hphase _ _ _ _ hcoord =>
    have hphase : s'.phase = s.phase := funext hphase
    refine ⟨γ, (Tenure.Ghost.Follows.refl γ).congr (fun i => iff_false_intro (hopen hcoord i))
      (fun i r => iff_false_intro ?_) (fun i r => iff_false_intro ?_), ?_⟩
    · rintro ⟨d, hd⟩
      rw [hphase] at hd
      exact Phase.not_validates_self _ hd
    · rintro ⟨c, n, he, -⟩
      cases he
    rw [hphase, hcoord]
    refine hT.weaken ?_ (fun _ h => h) (fun _ h => h) (fun _ h => h) fun _ h => h
    cases ht with
    | quiet hm => exact hm.wordsLe
    | fail reason h | shutdown h =>
      rw [h]
      exact ⟨fun _ h => h, fun _ h => h, fun _ => .inl rfl, fun _ h => h, rfl⟩
    | clear c h => rw [h]; exact .clearSession _ c
    | offline c hc h => rw [h]; exact .setState _ _ (by simp) (by simp)

/-- The bookkeeping at the start: nothing has been granted. -/
def initialGhost : Tenure.Ghost Inst ℕ :=
  ⟨fun _ => 0, fun _ _ => 0, fun _ _ => False, fun _ => False, fun _ => 0⟩

/-- At the start nothing has been granted. -/
theorem tenuredBy_initialState :
    TenuredBy g initialGhost (initialState g).mem (initialState g).coordPhase
      (initialState g).phase fun d => Inside d [] := by
  have hempty : ∀ i r, ¬BitMask.HasBit ((initialState g).mem (.completeMask i)) r := fun i r =>
    BitMask.not_hasBit_zero r
  have hjoined : ∀ c, ¬((initialState g).phase c).isJoined = true := by simp [Phase.isJoined]
  have hsaw : ∀ c, ¬((initialState g).phase c).isSaw = true := by simp [Phase.isSaw]
  have hlast : ∀ c, ¬((initialState g).phase c).isLast = true := by simp [Phase.isLast]
  have hholder : ∀ c, ¬(((initialState g).phase c).isHolder = true ∨ Inside c []) := by
    simp [Phase.isHolder, Inside]
  exact {
    held_of_running := fun _ h => nomatch h
    registered_unique := fun c _ h => absurd h.symm (g.session_ne_zero c)
    joined_of_saw := fun c h => absurd h (hsaw c)
    join_le := fun _ _ => Nat.le_refl 0
    not_running_of_join := fun c h => absurd h (hjoined c)
    join_lt := fun c h => absurd h (hsaw c)
    valid_le_join := fun _ _ _ => Nat.le_refl 0
    valid_le := fun _ _ => Nat.le_refl 0
    tenure_le := fun _ _ _ => Nat.zero_le _
    valid_eq := fun _ _ _ _ => rfl
    held_of_holder := fun c h => absurd h (hholder c)
    valid_of_holder := fun _ _ => rfl
    not_done_of_holder := fun _ _ h => h
    holder_unique := fun c _ h => absurd h (hholder c)
    valid_of_done := fun _ _ _ => rfl
    mask_held := fun i h => absurd h (not_heldBy_rest i)
    mask_free := fun i _ => .inr (hempty i)
    held_of_full := fun _ h => h.elim
    done_of_full := fun _ h => h.elim
    mask_of_full := fun _ h => h.elim
    full_of_last := fun c h => absurd h (hlast c)
    not_complete_of_last := fun c h => absurd h (hlast c)
    not_recycling_of_last := fun c h => absurd h (hlast c)
    last_unique := fun c _ h => absurd h (hlast c)
    full_of_complete := fun _ h => nomatch h
    full_of_recycling := fun _ h => nomatch h
    drained := fun _ h => nomatch h }

/-- **Every run is a sequence of tenures.** -/
theorem tenured_of_run {P : State → Act → Prop} (h : Run g P tr s) :
    Tenured g s.mem s.coordPhase s.phase fun d => Inside d tr := by
  have hI : Support g tr s ∧ Tenured g s.mem s.coordPhase s.phase fun d => Inside d tr := by
    refine h.invariant (I := fun tr s => Support g tr s ∧
      Tenured g s.mem s.coordPhase s.phase fun d => Inside d tr) ?_ ?_
    · exact ⟨support_of_run (P := P) .start, initialGhost, tenuredBy_initialState⟩
    · rintro tr s a s' ⟨hs, γ, hT⟩ _ hstep
      have ht := trans_of_step hstep
      obtain ⟨γ', -, hT'⟩ := ht.tenuredBy hs hT
      exact ⟨ht.support hs, γ', hT'⟩
  exact hI.2

/-- **Mutual exclusion.** -/
theorem mutual_exclusion (h : Run g anyStep tr s) {c d : ℕ} (hc : g.inst c = .A)
    (hd : g.inst d = .B) : ¬(Inside c tr ∧ Inside d tr) := by
  rintro ⟨hic, hid⟩
  obtain ⟨γ, hT⟩ := tenured_of_run h
  have hcA := hT.held_of_holder c (.inr hic)
  have hdB := hT.held_of_holder d (.inr hid)
  have := HeldBy.unique (support_of_run h).owner hcA hdB
  simp [team, hc, hd] at this

/-- A run in which A's rank is inside a round. -/
theorem mutual_exclusion_firstRound :
    ∃ tr s, Run pairOfOne anyStep tr s ∧ Inside 0 tr ∧ ¬(Inside 0 tr ∧ Inside 1 tr) := by
  obtain ⟨tr, s, h, hin⟩ := exists_run pairOfOne anyStep_of_allowed firstRound
    (fun tr _ => decide (Inside 0 tr)) (by decide +kernel)
  exact ⟨tr, s, h, of_decide_eq_true hin, mutual_exclusion h rfl rfl⟩

end YellowZone.PairSched
