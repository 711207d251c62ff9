import YellowZone.PairSched.Inversion

/-!
# Who writes what

For every word that carries the protocol, the transitions that change it. Read backwards, each
theorem says which phase a word can be trusted in.
-/

namespace YellowZone.PairSched

open Machine

variable {g : Generation} {s s' : State} {a : Act} {e : Event}

/-! ## Calling threads -/

section Call

variable {c t : ℕ} {m m' : Memory} {x x' : Locals} {p p' : Phase}

/-- The sequence of a group is written by the context that starts a round. -/
theorem CallTrans.forwardSeq (h : CallTrans g c t m x p e m' x' p') (i : Inst) :
    m' (.forwardSeq i) = m (.forwardSeq i) ∨
      i = g.inst c ∧ ∃ q, p = .initSeq q ∧ p' = .initGrant q ∧ m' (.forwardSeq i) = q := by
  cases h with
  | initSeq =>
    by_cases hi : i = g.inst c
    · exact .inr ⟨hi, _, rfl, rfl, by simp [hi]⟩
    · exact .inl (by simp [hi])
  | _ => first
    | exact .inl rfl
    | exact .inl (‹Calm _ _›.core _ rfl)

/-- The ways a calling thread changes the state of its group. -/
inductive StateMove (p : Phase) (st st' : RoundState) (p' : Phase) : Prop
  | setIdle (hp : p = .registering) (hp' : p' = .registering) (h : st = .offline) (h' : st' = .idle)
  | win (q : ℕ) (hp : p = .seeking q) (hp' : p' = .initSeq q) (h : st = .idle)
      (h' : st' = .initializing)
  | collect (q : ℕ) (hp : p = .initState q) (hp' : p' = .joined q) (h' : st' = .collecting)
  | ready (q : ℕ) (hp : p = .lastReady q) (hp' : p' = .waiting q) (h : st = .collecting)
      (h' : st' = .ready)
  | complete (q : ℕ) (hp : p = .lastComplete q) (hp' : p' = .finishing q) (h : st = .running)
      (h' : st' = .complete)
  | reset (q : ℕ) (hp : p = .resetState q) (hp' : p' = .resetDone q) (h' : st' = .idle)

theorem CallTrans.state (h : CallTrans g c t m x p e m' x' p') (i : Inst) :
    m' (.state i) = m (.state i) ∨
      i = g.inst c ∧ StateMove p (m (.state i)) (m' (.state i)) p' := by
  by_cases hi : i = g.inst c
  · subst hi
    cases h with
    | setIdle h => exact .inr ⟨rfl, .setIdle rfl rfl h (by simp)⟩
    | win h => exact .inr ⟨rfl, .win _ rfl rfl h (by simp)⟩
    | initState => exact .inr ⟨rfl, .collect _ rfl rfl (by simp)⟩
    | publishReady h => exact .inr ⟨rfl, .ready _ rfl rfl h (by simp)⟩
    | publishComplete h => exact .inr ⟨rfl, .complete _ rfl rfl h (by simp)⟩
    | resetState => exact .inr ⟨rfl, .reset _ rfl rfl (by simp)⟩
    | _ => first
      | exact .inl rfl
      | exact .inl (‹Calm _ _›.core _ rfl)
  · left
    cases h <;> first
      | rfl
      | exact ‹Calm _ _›.core _ rfl
      | simp [hi]

/-- Calling threads leave the owner and the grant counter to the coordinator. -/
theorem CallTrans.owner (h : CallTrans g c t m x p e m' x' p') : m' .owner = m .owner := by
  cases h <;> first
    | rfl
    | exact ‹Calm _ _›.core _ rfl

theorem CallTrans.nextGrantId (h : CallTrans g c t m x p e m' x' p') :
    m' .nextGrantId = m .nextGrantId := by
  cases h <;> first
    | rfl
    | exact ‹Calm _ _›.core _ rfl

/-- A session is written by the context that takes its slot. -/
theorem CallTrans.session (h : CallTrans g c t m x p e m' x' p') (i : Inst) (r : ℕ) :
    m' (.session i r) = m (.session i r) ∨
      i = g.inst c ∧ r = g.rank c ∧ p' = .registering ∧ m' (.session i r) = g.session c := by
  cases h with
  | claim =>
    by_cases hs : i = g.inst c ∧ r = g.rank c
    · exact .inr ⟨hs.1, hs.2, rfl, by simp [hs]⟩
    · exact .inl (by rw [set_session_session, if_neg hs])
  | _ => first
    | exact .inl rfl
    | exact .inl (‹Calm _ _›.core _ rfl)

/-- A context that is stopping keeps stopping. -/
theorem CallTrans.stopping (h : CallTrans g c t m x p e m' x' p') {d : ℕ}
    (hd : m (.stopping d) = true) : m' (.stopping d) = true := by
  cases h <;> first
    | exact hd
    | exact ‹Calm _ _›.stopping d hd

end Call

/-! ## The coordinator and the rest -/

theorem CoordTrans.forwardSeq {m m' : Memory} {p p' : CoordPhase} (h : CoordTrans g m p e m' p')
    (i : Inst) : m' (.forwardSeq i) = m (.forwardSeq i) := by
  cases h <;> first
    | rfl
    | exact ‹Calm _ _›.core _ rfl

theorem CoordTrans.session {m m' : Memory} {p p' : CoordPhase} (h : CoordTrans g m p e m' p')
    (i : Inst) (r : ℕ) : m' (.session i r) = m (.session i r) := by
  cases h <;> first
    | rfl
    | exact ‹Calm _ _›.core _ rfl

/-- The coordinator marks a round as running and as draining. -/
theorem CoordTrans.state {m m' : Memory} {p p' : CoordPhase} (h : CoordTrans g m p e m' p')
    (i : Inst) :
    m' (.state i) = m (.state i) ∨
      (p = .storeState i ∧ p' = .storeLastOwner i ∧ m' (.state i) = .draining) ∨
      (p = .choosing ∧ p' = .drawing i ∧ m (.state i) = .ready ∧ m' (.state i) = .running) := by
  cases h with
  | @storeState o =>
    by_cases hi : i = o
    · subst hi; exact .inr (.inl ⟨rfl, rfl, by simp⟩)
    · exact .inl (by simp [hi])
  | grant sel h =>
    by_cases hi : i = sel
    · subst hi; exact .inr (.inr ⟨rfl, rfl, h, by simp⟩)
    · exact .inl (by simp [hi])
  | _ => first
    | exact .inl rfl
    | exact .inl (‹Calm _ _›.core _ rfl)

/-- Of the words of a round, the other threads write the state only, when a closing context sets
its group offline. -/
theorem OtherTrans.core {m' : Memory} (h : OtherTrans g s m' a) {l : Loc} (hl : l.isCore = true)
    (hs : l ≠ .status) (hst : ∀ i, l ≠ .state i) (hses : ∀ i r, l ≠ .session i r) :
    m' l = s.mem l := by
  cases h with
  | quiet hm => exact hm.core l hl
  | fail reason h => rw [h, Mem.set_of_ne _ _ hs]
  | shutdown h => rw [h, Mem.set_of_ne _ _ hs]
  | clear c h => rw [h, Mem.set_of_ne _ _ (hses _ _)]
  | offline c hc h => rw [h, Mem.set_of_ne _ _ (hst _)]

theorem OtherTrans.state {m' : Memory} (h : OtherTrans g s m' a) (i : Inst) :
    m' (.state i) = s.mem (.state i) ∨
      ∃ c, a = .close c ∧ i = g.inst c ∧ (s.ctx c).close = some .storeOffline ∧
        m' (.state i) = .offline := by
  cases h with
  | quiet hm => exact .inl (hm.core _ rfl)
  | fail reason h | shutdown h | clear c h => exact .inl (by rw [h]; rfl)
  | offline c hc h =>
    by_cases hi : i = g.inst c
    · exact .inr ⟨c, rfl, hi, hc, by rw [h]; simp [hi]⟩
    · exact .inl (by rw [h]; simp [hi])

/-- Sessions are otherwise only cleared. -/
theorem OtherTrans.session {m' : Memory} (h : OtherTrans g s m' a) (i : Inst) (r : ℕ) :
    m' (.session i r) = s.mem (.session i r) ∨ m' (.session i r) = 0 := by
  cases h with
  | quiet hm => exact .inl (hm.core _ rfl)
  | fail reason h | shutdown h | offline c hc h => exact .inl (by rw [h]; rfl)
  | clear c h =>
    by_cases hs : i = g.inst c ∧ r = g.rank c
    · exact .inr (by rw [h, set_session_session, if_pos hs])
    · exact .inl (by rw [h, set_session_session, if_neg hs])

/-- A stopping flag stays up. -/
theorem Trans.stopping (h : Trans g s a e s') {c : ℕ} (hc : s.mem (.stopping c) = true) :
    s'.mem (.stopping c) = true := by
  cases h with
  | call d b hk ht => exact ht.stopping hc
  | coord hk ht =>
    generalize s'.mem = m', s.coordPhase = p, s'.coordPhase = p' at ht
    cases ht <;> first
      | exact hc
      | exact ‹Calm _ _›.stopping c hc
  | other ht =>
    cases ht with
    | quiet hm => exact hm.stopping c hc
    | fail reason h | shutdown h | clear d h | offline d hd h => rw [h]; exact hc

end YellowZone.PairSched
