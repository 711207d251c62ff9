import YellowZone.DeadlockTrace.RawDecoder
import YellowZone.DeadlockTrace.Ring

/-!
# The trace ring, decoded

The ring is read from outside, out of a process that is stopped anywhere, with records half written
and threads a lap late. This module shows that the decoder nevertheless returns exactly what has
been committed.

## The slots

A slot is quiet or busy. A quiet slot has the newest record that has been committed there, with the
fields of the thread that drew its sequence, or none. A busy slot has none: the thread that has
locked it writes the record of a sequence that is newer than all that have been committed there.

## The window

Two sequences of one slot are 4096 apart, so a committed sequence among the last 4096 is the newest
of its slot: that is `RingInv.committed_of_commit`. The window of the decoder holds no others.

## Main definitions and results

* `Quiet`, `Busy`, `Stored` — the slots
* `RingInv`, `ringInv_of_exec` — what holds after any run
* `frozen` — the memory of a stopped process
* `ring_decoded` — the decoder returns exactly the committed records of its window
-/

namespace YellowZone.DeadlockTrace

open Machine

variable {tid : ℕ → UInt32} {s s' : RingState} {tr : List (Option RingEvent)}

/-! ## The slots -/

section Slots

variable (tid : ℕ → UInt32) (tr : List (Option RingEvent)) (s : RingState) (k : Fin 4096)

/-- The record of a sequence, with the fields of the thread that drew it, is in the slot. -/
def HasRecord (q : ℕ) : Prop :=
  ∃ t args ns, some (.draw q t args) ∈ tr ∧ some (.stamp q ns) ∈ tr ∧
    ∀ f, s.mem (.field k f) = payload args ns (tid t) f

/-- Nobody writes to the slot. Its record, if there is one, is complete, and it is the newest. -/
structure Quiet : Prop where
  idle : ∀ {t q : ℕ} {pc : RecordPc}, s.thread t = some pc → pc.writes = some q → ringSlot q ≠ k
  published : ∀ {q : ℕ}, s.mem (.committedSequence k) = q → q ≠ 0 →
    some (.commit q) ∈ tr ∧ ringSlot q = k ∧ HasRecord tid tr s k q
  newest : ∀ {q : ℕ}, some (.commit q) ∈ tr → ringSlot q = k → q ≤ s.mem (.committedSequence k)

/-- A thread writes the record of a sequence to the slot. There is no record meanwhile, and the
sequence is newer than those that have been committed there. -/
structure Busy (t q : ℕ) (pc : RecordPc) : Prop where
  thread : s.thread t = some pc
  writes : pc.writes = some q
  slot : ringSlot q = k
  withdrawn : s.mem (.committedSequence k) = 0
  newer : ∀ {p : ℕ}, some (.commit p) ∈ tr → ringSlot p = k → p ≤ q
  written : ∀ {args : RecordArgs} {ns : UInt64} {fields : List RecordField},
    pc = .store args q ns fields → ∀ f, f ∉ fields → s.mem (.field k f) = payload args ns (tid t) f

/-- The slot is quiet or busy. -/
def SlotOk : Prop := Quiet tid tr s k ∨ ∃ t q pc, Busy tid tr s k t q pc

/-- The slots. -/
structure Stored : Prop where
  slots : ∀ k, SlotOk tid tr s k
  /-- A thread that is about to withdraw a record has seen that it is not newer. -/
  checked : ∀ {t q : ℕ} {args : RecordArgs}, s.thread t = some (.withdraw args q) →
    s.mem (.committedSequence (ringSlot q)) ≤ q

end Slots

variable {k : Fin 4096} {m : Mem RingVal} {t q : ℕ} {ev : Option RingEvent}
  {next : Option RecordPc} {args : RecordArgs} {ns : UInt64}

/-- What is in the slot is not changed in a step of thread `t`. -/
structure Spares (s : RingState) (k : Fin 4096) (ev : Option RingEvent) (m : Mem RingVal) (t : ℕ)
    (next : Option RecordPc) : Prop where
  committed : m (.committedSequence k) = s.mem (.committedSequence k)
  field : ∀ f, m (.field k f) = s.mem (.field k f)
  event : ∀ q, ev = some (.commit q) → ringSlot q ≠ k
  old : ∀ pc q, s.thread t = some pc → pc.writes = some q → ringSlot q ≠ k
  new : ∀ pc q, next = some pc → pc.writes = some q → ringSlot q ≠ k

theorem HasRecord.mono (h : HasRecord tid tr s k q) {s' : RingState}
    (hfield : ∀ f, s'.mem (.field k f) = s.mem (.field k f)) :
    HasRecord tid (ev :: tr) s' k q := by
  obtain ⟨u, args, ns, hdraw, hstamp, hfields⟩ := h
  exact ⟨u, args, ns, List.mem_cons_of_mem _ hdraw, List.mem_cons_of_mem _ hstamp,
    fun f => (hfield f).trans (hfields f)⟩

/-- **Frame.** A step elsewhere leaves the slot as it is. -/
theorem SlotOk.frame (h : SlotOk tid tr s k) (hs : Spares s k ev m t next) :
    SlotOk tid (ev :: tr) (s.goto m t next) k := by
  have hcommit : ∀ {p : ℕ}, some (.commit p) ∈ ev :: tr → ringSlot p = k →
      some (.commit p) ∈ tr := by
    intro p hmem hp
    exact (List.mem_cons.mp hmem).resolve_left fun he => hs.event p he.symm hp
  rcases h with hquiet | ⟨u, q, pc, hbusy⟩
  · refine Or.inl ⟨?_, ?_, ?_⟩
    · intro u q pc hu hq
      rcases thread_goto hu with ⟨-, hpc⟩ | ⟨-, hu⟩
      · exact hs.new pc q hpc hq
      · exact hquiet.idle hu hq
    · intro q hq hne
      obtain ⟨hmem, hslot, hrecord⟩ := hquiet.published (hs.committed.symm.trans hq) hne
      exact ⟨List.mem_cons_of_mem _ hmem, hslot, hrecord.mono hs.field⟩
    · intro q hmem hq
      exact (hquiet.newest (hcommit hmem hq) hq).trans_eq hs.committed.symm
  · have hut : u ≠ t := by
      rintro rfl
      exact hs.old pc q hbusy.thread hbusy.writes hbusy.slot
    refine Or.inr ⟨u, q, pc, ?_, hbusy.writes, hbusy.slot, ?_, ?_, ?_⟩
    · rw [← hbusy.thread]
      exact Function.update_of_ne hut _ _
    · exact hs.committed.trans hbusy.withdrawn
    · exact fun hmem hp => hbusy.newer (hcommit hmem hp) hp
    · exact fun hpc f hf => (hs.field f).trans (hbusy.written hpc f hf)

section OwnSlot

variable (hl : Locked s) {pc : RecordPc} (ht : s.thread t = some pc)
  (hk : pc.holds = some (ringSlot q))

include hl ht hk

/-- A slot is quiet if the thread that has locked it does not write. -/
theorem SlotOk.quiet (h : SlotOk tid tr s (ringSlot q)) (hw : pc.writes = none) :
    Quiet tid tr s (ringSlot q) := by
  refine h.resolve_right ?_
  rintro ⟨u, p, pc', hbusy⟩
  have hut := hl.unique hbusy.thread ht (RecordPc.holds_of_writes hbusy.writes)
    (hbusy.slot.symm ▸ hk)
  subst hut
  obtain rfl := Option.some.inj (hbusy.thread.symm.trans ht)
  exact absurd (hw.symm.trans hbusy.writes) nofun

/-- A slot is busy with the record that the thread that has locked it writes. -/
theorem SlotOk.busy (h : SlotOk tid tr s (ringSlot q)) (hw : pc.writes = some q) :
    Busy tid tr s (ringSlot q) t q pc := by
  rcases h with hquiet | ⟨u, p, pc', hbusy⟩
  · exact (hquiet.idle ht hw rfl).elim
  · have hut := hl.unique hbusy.thread ht (RecordPc.holds_of_writes hbusy.writes)
      (hbusy.slot.symm ▸ hk)
    subst hut
    obtain rfl := Option.some.inj (hbusy.thread.symm.trans ht)
    obtain rfl := Option.some.inj (hw.symm.trans hbusy.writes)
    exact hbusy

/-- After the step of the thread nobody else writes to its slot. -/
theorem idle_goto (hnext : ∀ pc' p, next = some pc' → pc'.writes = some p → ringSlot p ≠ ringSlot q)
    {u p : ℕ} {pc' : RecordPc} (hu : (s.goto m t next).thread u = some pc')
    (hp : pc'.writes = some p) : ringSlot p ≠ ringSlot q := by
  rcases thread_goto hu with ⟨-, hpc⟩ | ⟨hne, hu⟩
  · exact hnext pc' p hpc hp
  · exact hl.slot_ne ht hu hne hk (RecordPc.holds_of_writes hp)

end OwnSlot

namespace Stored

/-- The record of the slot is withdrawn. -/
theorem withdraw (h : Stored tid tr s) (hl : Locked s)
    (ht : s.thread t = some (.withdraw args q)) : SlotOk tid (none :: tr)
      (s.goto (s.mem.set (.committedSequence (ringSlot q)) 0) t (some (.clock args q)))
      (ringSlot q) := by
  have hquiet := (h.slots (ringSlot q)).quiet hl ht rfl rfl
  refine Or.inr ⟨t, q, .clock args q, ?_, rfl, rfl, Mem.set_self _ _ _, ?_, nofun⟩
  · exact Function.update_self ..
  · intro p hmem hp
    have hmem : some (.commit p) ∈ tr := by simpa using hmem
    exact Nat.le_trans (hquiet.newest hmem hp) (h.checked ht)

/-- The time is read. -/
theorem clock (h : Stored tid tr s) (hl : Locked s) (ns : UInt64)
    (ht : s.thread t = some (.clock args q)) : SlotOk tid (some (.stamp q ns) :: tr)
      (s.goto s.mem t (some (.store args q ns storedFields))) (ringSlot q) := by
  have hbusy := (h.slots (ringSlot q)).busy hl ht rfl rfl
  refine Or.inr ⟨t, q, _, Function.update_self .., rfl, rfl, hbusy.withdrawn, ?_, ?_⟩
  · intro p hmem hp
    have hmem : some (.commit p) ∈ tr := by simpa using hmem
    exact hbusy.newer hmem hp
  · intro args' ns' fields hpc f hf
    cases hpc
    exact (hf (by cases f <;> decide)).elim

/-- A field is stored. -/
theorem store (h : Stored tid tr s) (hl : Locked s) {f : RecordField} {fields : List RecordField}
    (ht : s.thread t = some (.store args q ns (f :: fields))) : SlotOk tid (none :: tr)
      (s.goto (s.mem.set (.field (ringSlot q) f) (payload args ns (tid t) f)) t
        (some (.store args q ns fields))) (ringSlot q) := by
  have hbusy := (h.slots (ringSlot q)).busy hl ht rfl rfl
  refine Or.inr ⟨t, q, _, Function.update_self .., rfl, rfl, ?_, ?_, ?_⟩
  · rw [mem_goto, Mem.set_of_ne _ _ (by simp)]
    exact hbusy.withdrawn
  · intro p hmem hp
    have hmem : some (.commit p) ∈ tr := by simpa using hmem
    exact hbusy.newer hmem hp
  · intro args' ns' fields' hpc g hg
    cases hpc
    by_cases hgf : g = f
    · subst hgf
      exact Mem.set_self _ _ _
    · refine (Mem.set_of_ne _ _ (by simpa using hgf)).trans (hbusy.written rfl g ?_)
      exact List.not_mem_cons_of_ne_of_not_mem hgf hg

/-- The record is committed. -/
theorem commit (h : Stored tid tr s) (hd : Drawn tr s) (hl : Locked s) (hst : Stamped tr s)
    (ht : s.thread t = some (.store args q ns [])) : SlotOk tid (some (.commit q) :: tr)
      (s.goto (s.mem.set (.committedSequence (ringSlot q)) q) t (some (.unlock q)))
      (ringSlot q) := by
  have hbusy := (h.slots (ringSlot q)).busy hl ht rfl rfl
  have hself : s.mem.set (.committedSequence (ringSlot q)) q
      (.committedSequence (ringSlot q)) = q := Mem.set_self _ _ _
  refine Or.inl ⟨?_, ?_, ?_⟩
  · exact idle_goto hl ht rfl fun _ _ hpc hp => by cases hpc; cases hp
  · intro p hp _
    obtain rfl : q = p := hself.symm.trans hp
    refine ⟨List.mem_cons_self, rfl, t, args, ns, ?_, ?_, ?_⟩
    · exact List.mem_cons_of_mem _ (hd.drew ht rfl)
    · exact List.mem_cons_of_mem _ (hst.stamped ht)
    · intro f
      rw [mem_goto, Mem.set_of_ne _ _ (by simp)]
      exact hbusy.written rfl f (by simp)
  · intro p hmem hp
    refine Nat.le_trans ?_ (Nat.le_of_eq hself.symm)
    rcases List.mem_cons.mp hmem with heq | hmem
    · cases heq
      exact Nat.le_refl _
    · exact hbusy.newer hmem hp

/-- A step that writes to no slot. -/
theorem goto (h : Stored tid tr s) (hcommit : ∀ q, ev ≠ some (.commit q))
    (hm : ∀ k, m (.committedSequence k) = s.mem (.committedSequence k))
    (hfield : ∀ k f, m (.field k f) = s.mem (.field k f))
    (hold : ∀ pc, s.thread t = some pc → pc.writes = none)
    (hnew : ∀ pc, next = some pc → pc.writes = none)
    (hchecked : ∀ args q, next = some (.withdraw args q) →
      s.mem (.committedSequence (ringSlot q)) ≤ q) : Stored tid (ev :: tr) (s.goto m t next) where
  slots k := (h.slots k).frame ⟨hm k, hfield k, fun q hq => (hcommit q hq).elim,
    fun pc q hpc hq => by simp [hold pc hpc] at hq, fun pc q hpc hq => by simp [hnew pc hpc] at hq⟩
  checked := by
    intro u p args' hu
    show m (.committedSequence (ringSlot p)) ≤ p
    rw [hm]
    rcases thread_goto hu with ⟨-, hpc⟩ | ⟨-, hu⟩
    · exact hchecked args' p hpc
    · exact h.checked hu

/-- A step of a thread in its own slot. -/
theorem own (h : Stored tid tr s) (hl : Locked s) {pc : RecordPc}
    (ht : s.thread t = some pc) (hk : pc.holds = some (ringSlot q))
    (hold : ∀ p, pc.writes = some p → ringSlot p = ringSlot q)
    (hnew : ∀ pc p, next = some pc → pc.writes = some p → ringSlot p = ringSlot q)
    (hnext : ∀ args p, next ≠ some (.withdraw args p))
    (hm : ∀ k, k ≠ ringSlot q → m (.committedSequence k) = s.mem (.committedSequence k))
    (hfield : ∀ k f, k ≠ ringSlot q → m (.field k f) = s.mem (.field k f))
    (hev : ∀ p, ev = some (.commit p) → ringSlot p = ringSlot q)
    (hslot : SlotOk tid (ev :: tr) (s.goto m t next) (ringSlot q)) :
    Stored tid (ev :: tr) (s.goto m t next) where
  slots k := by
    by_cases hkq : k = ringSlot q
    · exact hkq ▸ hslot
    · refine (h.slots k).frame ⟨hm k hkq, fun f => hfield k f hkq, ?_, ?_, ?_⟩
      · exact fun p hp hpk => hkq (hpk.symm.trans (hev p hp))
      · intro pc' p hpc hp hpk
        obtain rfl := Option.some.inj (ht.symm.trans hpc)
        exact hkq (hpk.symm.trans (hold p hp))
      · exact fun pc' p hpc hp hpk => hkq (hpk.symm.trans (hnew pc' p hpc hp))
  checked := by
    intro u p args' hu
    rcases thread_goto hu with ⟨-, hpc⟩ | ⟨hne, hu⟩
    · exact (hnext args' p hpc).elim
    · show m (.committedSequence (ringSlot p)) ≤ p
      rw [hm _ (hl.slot_ne ht hu hne hk rfl)]
      exact h.checked hu

/-- Every step keeps it. -/
theorem step (h : Stored tid tr s) (hd : Drawn tr s) (hl : Locked s) (hst : Stamped tr s)
    (hs : RingStep tid s ev s') : Stored tid (ev :: tr) s' := by
  cases hs with
  | call args ht =>
    exact h.goto (by rintro _ ⟨⟩) (fun _ => rfl) (fun _ _ => rfl)
      (fun _ hpc => by cases ht.symm.trans hpc) (fun _ hpc => by cases hpc; rfl)
      (by rintro _ _ ⟨⟩)
  | check ht hle =>
    exact h.goto (by rintro _ ⟨⟩) (fun _ => rfl) (fun _ _ => rfl)
      (fun _ hpc => by cases ht.symm.trans hpc; rfl) (fun _ hpc => by cases hpc; rfl)
      (fun _ _ hpc => by cases hpc; exact hle)
  | unlock ht =>
    exact h.goto (by rintro _ ⟨⟩) (fun _ => by simp) (fun _ _ => by simp)
      (fun _ hpc => by cases ht.symm.trans hpc; rfl) (by rintro _ ⟨⟩) (by rintro _ _ ⟨⟩)
  | draw ht | spin ht | lock ht | stale ht =>
    exact h.goto (by rintro _ ⟨⟩) (fun _ => by simp) (fun _ _ => by simp)
      (fun _ hpc => by cases ht.symm.trans hpc; rfl) (fun _ hpc => by cases hpc; rfl)
      (by rintro _ _ ⟨⟩)
  | withdraw ht =>
    exact h.own hl ht rfl (by rintro _ ⟨⟩) (fun _ _ hpc hp => by cases hpc; cases hp; rfl)
      (by rintro _ _ ⟨⟩) (fun k hk => by simp [hk]) (fun _ _ _ => by simp) (by rintro _ ⟨⟩)
      (h.withdraw hl ht)
  | clock ns ht =>
    exact h.own hl ht rfl (fun _ hp => by cases hp; rfl)
      (fun _ _ hpc hp => by cases hpc; cases hp; rfl) (by rintro _ _ ⟨⟩)
      (fun _ _ => rfl) (fun _ _ _ => rfl) (by rintro _ ⟨⟩) (h.clock hl ns ht)
  | store ht =>
    exact h.own hl ht rfl (fun _ hp => by cases hp; rfl)
      (fun _ _ hpc hp => by cases hpc; cases hp; rfl) (by rintro _ _ ⟨⟩)
      (fun _ _ => by simp) (fun k f hk => by simp [hk]) (by rintro _ ⟨⟩) (h.store hl ht)
  | commit ht =>
    exact h.own hl ht rfl (fun _ hp => by cases hp; rfl)
      (fun _ _ hpc hp => by cases hpc; cases hp) (by rintro _ _ ⟨⟩)
      (fun k hk => by simp [hk]) (fun _ _ _ => by simp) (fun _ hp => by cases hp; rfl)
      (h.commit hd hl hst ht)

end Stored

/-! ## Runs -/

/-- What holds after any run. -/
structure RingInv (tid : ℕ → UInt32) (tr : List (Option RingEvent)) (s : RingState) : Prop where
  drawn : Drawn tr s
  locked : Locked s
  stamped : Stamped tr s
  stored : Stored tid tr s

theorem ringInv_start (tid : ℕ → UInt32) : RingInv tid [] ringStart where
  drawn := ⟨nofun, nofun, nofun⟩
  locked := ⟨nofun, nofun⟩
  stamped := ⟨nofun, nofun, nofun, nofun, nofun, nofun⟩
  stored := ⟨fun _ => Or.inl ⟨nofun, fun hq hne => absurd hq.symm hne, nofun⟩, nofun⟩

/-- **Every run keeps the invariants.** -/
theorem ringInv_of_exec (h : (ringSystem tid).Exec (fun _ _ => True) ringStart tr s) :
    RingInv tid tr s := by
  refine h.invariant (ringInv_start tid) ?_
  intro tr s a s' hinv _ hstep
  have hs := ringStep_of_step hstep
  exact ⟨hinv.drawn.step hs, hinv.locked.step hs, hinv.stamped.step hinv.drawn hs,
    hinv.stored.step hinv.drawn hinv.locked hinv.stamped hs⟩

/-- Sequences of one slot are a lap apart. -/
theorem eq_of_ringSlot {p q : ℕ} (hq : 1 ≤ q) (hle : q ≤ p) (hlap : p < q + 4096)
    (h : ringSlot p = ringSlot q) : p = q := by
  have hmod : (p - 1) % 4096 = (q - 1) % 4096 := congrArg Fin.val h
  omega

namespace RingInv

variable (h : RingInv tid tr s)

include h

theorem bound_of_commit {q : ℕ} (hq : some (.commit q) ∈ tr) :
    1 ≤ q ∧ q ≤ s.mem .nextSequence := by
  obtain ⟨ns, hns⟩ := h.stamped.committed hq
  obtain ⟨t, args, hdraw⟩ := h.stamped.drawn hns
  exact h.drawn.bound hdraw

/-- A committed sequence stays in its slot for a lap. -/
theorem committed_of_commit {q : ℕ} (hq : some (.commit q) ∈ tr)
    (hlap : s.mem .nextSequence < q + 4096) : s.mem (.committedSequence (ringSlot q)) = q := by
  obtain ⟨hpos, -⟩ := h.bound_of_commit hq
  rcases h.stored.slots (ringSlot q) with hquiet | ⟨t, p, pc, hbusy⟩
  · have hle := hquiet.newest hq rfl
    generalize hc : s.mem (.committedSequence (ringSlot q)) = c at hle
    obtain ⟨hcommit, hslot, -⟩ := hquiet.published hc (by omega)
    obtain ⟨-, hbound⟩ := h.bound_of_commit hcommit
    exact eq_of_ringSlot hpos hle (Nat.lt_of_le_of_lt hbound hlap) hslot
  · -- a thread that writes to the slot would have drawn a sequence a lap later
    have hle := hbusy.newer hq rfl
    obtain ⟨args, hdrew⟩ := RecordPc.drew_of_writes hbusy.writes
    have hbound := (h.drawn.bound (h.drawn.drew hbusy.thread hdrew)).2
    obtain rfl := eq_of_ringSlot hpos hle (Nat.lt_of_le_of_lt hbound hlap) hbusy.slot
    exact (h.stamped.pending hbusy.thread hdrew hq).elim

/-- What is in a slot has been committed, and has its fields. -/
theorem of_committed {q : ℕ} {k : Fin 4096} (hq : q ≠ 0)
    (hk : s.mem (.committedSequence k) = q) : some (.commit q) ∈ tr ∧ HasRecord tid tr s k q := by
  rcases h.stored.slots k with hquiet | ⟨t, p, pc, hbusy⟩
  · obtain ⟨hcommit, -, hrecord⟩ := hquiet.published hk hq
    exact ⟨hcommit, hrecord⟩
  · exact (hq (hk.symm.trans hbusy.withdrawn)).elim

end RingInv

/-! ## What the decoder returns -/

/-- The memory of the process, stopped in a state of the ring. The other structures are as they
are. -/
def frozen (s : RingState) (c : Contents) : Contents :=
  { c with
    header := { c.header with nextSequence := UInt64.ofNat (s.mem .nextSequence) }
    slotLocks := fun k => if s.mem (.slotLock k) then 1 else 0
    records := fun k =>
      { committedSequence := UInt64.ofNat (s.mem (.committedSequence k))
        timestampNs := s.mem (.field k .timestampNs)
        stream := s.mem (.field k .stream)
        object := s.mem (.field k .object)
        auxiliary := s.mem (.field k .auxiliary)
        value := s.mem (.field k .value)
        kind := s.mem (.field k .kind)
        blocks := s.mem (.field k .blocks)
        argsSize := s.mem (.field k .argsSize)
        tid := s.mem (.field k .tid) } }

/-- The record is that of a call with these arguments. -/
structure RecordReport.Reports (r : RecordReport) (args : RecordArgs) (timestampNs : UInt64)
    (tid : UInt32) : Prop where
  timestampNs : r.timestampNs = timestampNs.toNat
  tid : r.tid = tid.toNat
  kind : r.kind = args.kind.toNat
  stream : r.stream = pointerText args.stream.toNat
  object : r.object = pointerText args.object.toNat
  auxiliary : r.auxiliary = pointerText args.auxiliary.toNat
  value : r.value = args.value.toNat
  blocks : r.blocks = args.blocks.toNat
  argsSize : r.argsSize = args.argsSize.toNat

/-- The window of the decoder. -/
theorem mem_window {n limit q : ℕ} :
    q ∈ window n limit traceCapacity ↔ 1 ≤ q ∧ n - min limit traceCapacity < q ∧ q ≤ n := by
  simp only [window, List.mem_range'_1]
  omega

theorem lt_lap {n limit q : ℕ} (h : n - min limit 4096 < q) : n < q + 4096 := by
  omega

theorem pairwise_window (n limit : ℕ) : (window n limit traceCapacity).Pairwise (· < ·) :=
  List.pairwise_lt_range'

section Decoded

variable {c : Contents} {limit : ℕ} {stringReader : Option (ℕ → Text)}

/-- What the decoder makes of a slot. -/
theorem rawRecord_eq_some {syncStream : ℕ} {names : ℕ → List Text} {r : TraceRecord}
    {item : NamedRecordReport}
    (h : rawRecord syncStream names stringReader q r.tuple = some item) :
    r.committedSequence.toNat = q ∧ item.record.sequence = q ∧
      item.record.Reports ⟨r.kind, r.stream, r.object, r.auxiliary, r.value, r.blocks, r.argsSize⟩
        r.timestampNs r.tid := by
  by_cases hq : r.committedSequence.toNat ≠ q
  · have hnone : none = some item := (if_pos hq).symm.trans h
    contradiction
  · obtain rfl := Option.some.inj ((if_neg hq).symm.trans h)
    exact ⟨not_not.mp hq, rfl, rfl, rfl, rfl, rfl, rfl, rfl, rfl, rfl, rfl⟩

theorem rawRecord_isSome (syncStream : ℕ) (names : ℕ → List Text)
    (stringReader : Option (ℕ → Text)) {r : TraceRecord} (h : r.committedSequence.toNat = q) :
    ∃ item, rawRecord syncStream names stringReader q r.tuple = some item :=
  ⟨_, if_neg (not_not.mpr h)⟩

/-- The items of the report are the records that are in the slots of the window. -/
theorem mem_rawRecords (hN : s.mem .nextSequence < 2 ^ 64) {item : NamedRecordReport} :
    item ∈ rawRecords (frozen s c) limit stringReader ↔
      ∃ q ∈ window (s.mem .nextSequence) limit traceCapacity,
        rawRecord (rawSyncStream c.probe.tuple) (namesByHandle (rawEntries c)) stringReader q
          ((frozen s c).slot q).tuple = some item := by
  have hnext : (frozen s c).header.nextSequence.toNat = s.mem .nextSequence :=
    (UInt64.toNat_ofNat' ..).trans (Nat.mod_eq_of_lt hN)
  rw [rawRecords, hnext, List.mem_filterMap]
  rfl

namespace RingInv

variable (h : RingInv tid tr s) (hN : s.mem .nextSequence < 2 ^ 64)

include h hN

theorem toNat_committed (k : Fin 4096) :
    (UInt64.ofNat (s.mem (.committedSequence k))).toNat = s.mem (.committedSequence k) := by
  rw [UInt64.toNat_ofNat']
  refine Nat.mod_eq_of_lt ?_
  by_cases hzero : s.mem (.committedSequence k) = 0
  · rw [hzero]
    exact Nat.two_pow_pos 64
  · obtain ⟨hcommit, -⟩ := h.of_committed hzero rfl
    exact Nat.lt_of_le_of_lt (h.bound_of_commit hcommit).2 hN

/-- **The sequences that are returned.** -/
theorem mem_sequences :
    q ∈ (rawRecords (frozen s c) limit stringReader).map (fun item => item.record.sequence) ↔
      s.mem .nextSequence - min limit 4096 < q ∧ q ≤ s.mem .nextSequence ∧
        some (.commit q) ∈ tr := by
  simp only [List.mem_map, mem_rawRecords hN]
  constructor
  · rintro ⟨item, ⟨p, hp, hitem⟩, hseq⟩
    obtain ⟨hslot, hsame, -⟩ := rawRecord_eq_some hitem
    obtain rfl : p = q := hsame.symm.trans hseq
    obtain ⟨hpos, hlow, hhigh⟩ := mem_window.mp hp
    have hcommitted := (h.toNat_committed hN _).symm.trans hslot
    exact ⟨hlow, hhigh, (h.of_committed (Nat.ne_of_gt hpos) hcommitted).1⟩
  · rintro ⟨hlow, hhigh, hcommit⟩
    have hpos := (h.bound_of_commit hcommit).1
    have hslot : ((frozen s c).slot q).committedSequence.toNat = q :=
      (h.toNat_committed hN _).trans (h.committed_of_commit hcommit (lt_lap hlow))
    obtain ⟨item, hitem⟩ := rawRecord_isSome (rawSyncStream c.probe.tuple)
      (namesByHandle (rawEntries c)) stringReader hslot
    exact ⟨item, ⟨q, mem_window.mpr ⟨hpos, hlow, hhigh⟩, hitem⟩, (rawRecord_eq_some hitem).2.1⟩

/-- **The fields that are returned.** -/
theorem reports {item : NamedRecordReport}
    (hitem : item ∈ rawRecords (frozen s c) limit stringReader) :
    ∃ t args ns, some (.draw item.record.sequence t args) ∈ tr ∧
      some (.stamp item.record.sequence ns) ∈ tr ∧ item.record.Reports args ns (tid t) := by
  obtain ⟨q, hq, hitem⟩ := (mem_rawRecords hN).mp hitem
  obtain ⟨hslot, hseq, hreports⟩ := rawRecord_eq_some hitem
  have hcommitted := (h.toNat_committed hN _).symm.trans hslot
  obtain ⟨-, t, args, ns, hdraw, hstamp, hfields⟩ :=
    h.of_committed (Nat.ne_of_gt (mem_window.mp hq).1) hcommitted
  refine ⟨t, args, ns, hseq ▸ hdraw, hseq ▸ hstamp, ?_⟩
  simp only [Contents.slot, frozen, hfields] at hreports
  exact hreports

end RingInv

/-- The sequences are returned in increasing order. -/
theorem pairwise_rawRecords : ((rawRecords c limit stringReader).map
    (fun item => item.record.sequence)).Pairwise (· < ·) := by
  rw [List.pairwise_map]
  refine List.Pairwise.filterMap _ ?_ (pairwise_window _ _)
  intro p q hpq item hitem item' hitem'
  rw [(rawRecord_eq_some hitem).2.1, (rawRecord_eq_some hitem').2.1]
  exact hpq

end Decoded

/-- **The ring is decoded exactly.** Stop the process anywhere in a run, with `next_sequence` at
`N`. The decoder returns, in increasing order, exactly the sequences of `(N - min(limit, 4096), N]`
that have been committed, each with what was passed to the call in which it was drawn. -/
theorem ring_decoded (tid : ℕ → UInt32) {tr : List (Option RingEvent)} {s : RingState}
    (hrun : (ringSystem tid).Exec (fun _ _ => True) ringStart tr s)
    (hN : s.mem .nextSequence < 2 ^ 64) (c : Contents) (hc : c.TraceCompatible) (limit : ℕ)
    (stringReader : Option (ℕ → Text)) : ∃ report,
      decodeRawTrace (frozen s c).traceBytes (frozen s c).probeBytes (frozen s c).hostProbeBytes
          (frozen s c).registryBytes limit stringReader = .ok report ∧
        (report.records.map fun item => item.record.sequence).Pairwise (· < ·) ∧
        (∀ q : ℕ, q ∈ report.records.map (fun item => item.record.sequence) ↔
          s.mem .nextSequence - min limit 4096 < q ∧ q ≤ s.mem .nextSequence ∧
            some (.commit q) ∈ tr) ∧
        ∀ item ∈ report.records, ∃ t args ns,
          (∀ t' args', some (.draw item.record.sequence t' args') ∈ tr ↔
            t' = t ∧ args' = args) ∧
          (∀ ns', some (.stamp item.record.sequence ns') ∈ tr ↔ ns' = ns) ∧
          item.record.Reports args ns (tid t) := by
  have hinv := ringInv_of_exec hrun
  have hfrozen : (frozen s c).TraceCompatible := ⟨hc.magic, hc.abiVersion, hc.capacity⟩
  refine ⟨_, decodeRawTrace_contents _ hfrozen limit stringReader, pairwise_rawRecords,
    fun q => hinv.mem_sequences hN, fun item hitem => ?_⟩
  obtain ⟨t, args, ns, hdraw, hstamp, hreports⟩ := hinv.reports hN hitem
  refine ⟨t, args, ns, fun t' args' => ⟨fun hdraw' => ?_, ?_⟩, fun ns' => ⟨fun hstamp' => ?_, ?_⟩,
    hreports⟩
  · exact hinv.drawn.unique hdraw' hdraw
  · rintro ⟨rfl, rfl⟩
    exact hdraw
  · exact hinv.stamped.unique hstamp' hstamp
  · rintro rfl
    exact hstamp

/-- Two threads draw a sequence each; the first one is stopped while it stores the fields, the
second one has committed. -/
def twoWriters : List RingAction :=
  [.call 0 ⟨37, 0x3000, 0, 0, 1, 0, 0⟩, .run 0 5, .call 1 ⟨1, 0x3000, 0x1000, 0, 0, 8, 64⟩] ++
    List.replicate 15 (.run 1 7) ++ List.replicate 6 (.run 0 9)

/-- A trace with nothing else in the process. -/
def emptyContents : Contents where
  header := ⟨0x5643414E4E545243, 3, 4096, 1, 1, 0⟩
  slotLocks _ := 0
  records _ := ⟨0, 0, 0, 0, 0, 0, 0, 0, 0, 0⟩
  probe := ⟨0, 0, 0, 0, 0, 0, 0⟩
  hostProbe := ⟨0, 0, 0, 0, 0, 0, 0⟩
  registryHeader := ⟨0x5643414E4E4B5247, 1, 512, 0, 0, 0⟩
  entries _ := ⟨0, 0, 0, 0, 0, 0, .zero, .zero⟩

/-- Only the second one is returned. -/
theorem ring_decoded_two :
    ∃ tr s, (ringSystem fun t => UInt32.ofNat t).Exec (fun _ _ => True) ringStart tr s ∧
      s.mem .nextSequence < 2 ^ 64 ∧ ∃ report,
        decodeRawTrace (frozen s emptyContents).traceBytes (frozen s emptyContents).probeBytes
            (frozen s emptyContents).hostProbeBytes (frozen s emptyContents).registryBytes 1000
            none = .ok report ∧
          1 ∉ report.records.map (fun item => item.record.sequence) ∧
          2 ∈ report.records.map (fun item => item.record.sequence) := by
  have hrun : ∃ tr s, (ringSystem fun t => UInt32.ofNat t).Exec (fun _ _ => True) ringStart tr s ∧
      decide (s.mem .nextSequence = 2 ∧ some (.commit 1) ∉ tr ∧ some (.commit 2) ∈ tr) = true :=
    Lts.exists_exec (p := fun _ _ => true) (fun _ _ _ => trivial) twoWriters _ (by decide +kernel)
  obtain ⟨tr, s, hrun, htest⟩ := hrun
  obtain ⟨hnext, hone, htwo⟩ := of_decide_eq_true htest
  have hN : s.mem .nextSequence < 2 ^ 64 := by
    rw [hnext]
    decide
  obtain ⟨report, hreport, -, hmem, -⟩ := ring_decoded (fun t => UInt32.ofNat t) hrun hN
    emptyContents ⟨rfl, rfl, rfl⟩ 1000 none
  refine ⟨tr, s, hrun, hN, report, hreport, fun h => hone ((hmem 1).mp h).2.2,
    (hmem 2).mpr ⟨?_, ?_, htwo⟩⟩
  · rw [hnext]
    decide
  · exact Nat.le_of_eq hnext.symm

end YellowZone.DeadlockTrace
