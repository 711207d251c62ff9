import YellowZone.PairSched.MutualExclusion

/-!
# The state of a group goes round

Two of the stores to the state word of a group are unconditional and long after the test that
justifies them: the one with which the opener of a round sets it COLLECTING, and the one with
which the last rank out sets it IDLE. The coordinator's store of DRAINING is a third. None of them
looks at the word it overwrites.

Each of them finds the state it means to replace, in every run in which OFFLINE is only stored over
IDLE: stale contexts, takeovers and kills are all allowed. A round has one opener; each rank reports
once in a tenure, so the contexts that have reported and not left are one for each rank at most; and
while one of them has not set its exit bit, nobody is the last one out.

So every change of the state word is an edge of the cycle
OFFLINE – IDLE – INITIALIZING – COLLECTING – READY – RUNNING – COMPLETE – DRAINING – IDLE.

## Main results

* `Edge`, `Trans.edge` — every change of the state word is an edge of the cycle
* `Staged`, `Trans.staged` — the invariant behind it
* `OfflineIdle`, `staged_of_run` — the runs it holds in
* `OwnedOk`, `ownedOk_of_run` — the round of who owns the pair is in progress
* `state_goes_round` — the edges and the stores, for whole runs
-/

namespace YellowZone.PairSched

open Machine

variable {g : Generation} {tr : List Event} {s s' : State} {a : Act} {e : Event}

/-! ## Openers, reporters and the last one out -/

/-- Has won the group and not set it collecting yet. -/
def Phase.opening : Phase → Bool
  | .initSeq _ | .initGrant _ | .initReady _ | .initComplete _ | .initExit _ => true
  | .initClock _ | .initPublish _ _ | .initState _ => true
  | _ => false

/-- Has set its complete bit and not yet its exit bit. -/
def Phase.reported : Phase → Bool
  | .lastComplete _ | .finishing _ | .sawDraining _ => true
  | _ => false

/-- Has set the last exit bit and not set the group idle yet. -/
def Phase.resetting : Phase → Bool
  | .resetReady _ | .resetComplete _ | .resetGrant _ | .resetPublish _ | .resetState _ => true
  | _ => false

/-- The coordinator has seen the round of `i` complete and not set it draining yet. -/
def CoordPhase.recycling (p : CoordPhase) (i : Inst) : Prop :=
  p = .sawComplete i ∨ p = .storeExit i ∨ p = .storeState i

/-- The states in which a rank may have reported. -/
def RoundState.afterGrant : RoundState → Bool
  | .running | .complete | .draining => true
  | _ => false

/-- The edges of the cycle, with who takes them. -/
inductive Edge (g : Generation) (s s' : State) (i : Inst) : Prop
  | online (c : ℕ) (hc : g.inst c = i) (hp : s.phase c = .registering)
      (h : s.mem (.state i) = .offline) (h' : s'.mem (.state i) = .idle)
  | offline (c : ℕ) (hc : g.inst c = i) (hp : (s.ctx c).close = some .storeOffline)
      (h : s.mem (.state i) = .idle) (h' : s'.mem (.state i) = .offline)
  | win (c q : ℕ) (hc : g.inst c = i) (hk : (s.ctx c).killed = false)
      (hp : s.phase c = .seeking q) (hp' : s'.phase c = .initSeq q) (h : s.mem (.state i) = .idle)
      (h' : s'.mem (.state i) = .initializing)
  | collect (c q : ℕ) (hc : g.inst c = i) (hp : s.phase c = .initState q)
      (hp' : s'.phase c = .joined q) (h : s.mem (.state i) = .initializing)
      (h' : s'.mem (.state i) = .collecting)
  | ready (c q : ℕ) (hc : g.inst c = i) (hp : s.phase c = .lastReady q)
      (h : s.mem (.state i) = .collecting) (h' : s'.mem (.state i) = .ready)
  | run (ho : Opened s s' i) (h : s.mem (.state i) = .ready) (h' : s'.mem (.state i) = .running)
  | complete (c q : ℕ) (hc : g.inst c = i) (hp : s.phase c = .lastComplete q)
      (h : s.mem (.state i) = .running) (h' : s'.mem (.state i) = .complete)
  | drain (hp : s.coordPhase = .storeState i) (hp' : s'.coordPhase = .storeLastOwner i)
      (h : s.mem (.state i) = .complete) (h' : s'.mem (.state i) = .draining)
  | reset (c q : ℕ) (hc : g.inst c = i) (hp : s.phase c = .resetState q)
      (hp' : s'.phase c = .resetDone q) (h : s.mem (.state i) = .draining)
      (h' : s'.mem (.state i) = .idle)

/-- What the phases say about the state of a group, with the bookkeeping `γ` of tenures. -/
structure Staged (g : Generation) (γ : Tenure.Ghost Inst ℕ) (s : State) : Prop where
  opening : ∀ c, (s.phase c).opening = true → s.mem (.state (g.inst c)) = .initializing
  opener : ∀ c d, (s.phase c).opening = true → (s.phase d).opening = true →
    g.inst c = g.inst d → c = d
  recycling : ∀ i, s.coordPhase.recycling i → s.mem (.state i) = .complete
  exitCleared : ∀ i, s.coordPhase = .storeState i → s.mem (.exitMask i) = 0#64
  reported : ∀ c, (s.phase c).reported = true →
    (s.mem (.state (g.inst c))).afterGrant = true ∧ γ.done (g.inst c) (g.rank c)
  reporter : ∀ c d, (s.phase c).reported = true → (s.phase d).reported = true →
    g.SameSlot c d → c = d
  notExited : ∀ c, (s.phase c).reported = true → s.mem (.state (g.inst c)) = .draining →
    ¬BitMask.HasBit (s.mem (.exitMask (g.inst c))) (g.rank c)
  draining : ∀ c q, s.phase c = .sawDraining q → s.mem (.state (g.inst c)) = .draining
  resetting : ∀ c, (s.phase c).resetting = true → s.mem (.state (g.inst c)) = .draining ∧
    ∀ r < g.workerCount, BitMask.HasBit (s.mem (.exitMask (g.inst c))) r
  resetter : ∀ c d, (s.phase c).resetting = true → (s.phase d).resetting = true →
    g.inst c = g.inst d → c = d
  held : ∀ i, Held s i → s.mem (.state i) = .running ∨ ∀ r < g.workerCount, γ.done i r
  current : ∀ i, s.mem (.state i) ≠ .running → ∀ r < g.workerCount, γ.Current i r

/-! ## How a context gets there -/

section Call

variable {c t : ℕ} {m m' : Memory} {x x' : Locals} {p p' : Phase}

theorem CallTrans.opening (h : CallTrans g c t m x p e m' x' p') (hp' : p'.opening = true) :
    p.opening = true ∨ m (.state (g.inst c)) = .idle ∧ m' (.state (g.inst c)) = .initializing := by
  cases h with
  | quiet hm he => exact .inl hp'
  | win h => exact .inr ⟨h, by simp⟩
  | _ => first
    | exact .inl rfl
    | cases hp'

theorem CallTrans.reported (h : CallTrans g c t m x p e m' x' p') (hp' : p'.reported = true) :
    p.reported = true ∨ (∃ q gr, p = .fenceRest q gr) ∧ (∃ q, e = .completeOr c q) ∧
      m' (.state (g.inst c)) = m (.state (g.inst c)) := by
  cases h with
  | quiet hm he => exact .inl hp'
  | fullComplete h hf | orComplete h hf => exact .inr ⟨⟨_, _, rfl⟩, ⟨_, rfl⟩, rfl⟩
  | _ => first
    | exact .inl rfl
    | cases hp'

theorem CallTrans.sawDraining (h : CallTrans g c t m x p e m' x' p') {q : ℕ}
    (hp' : p' = .sawDraining q) : p = .sawDraining q ∨
      m (.state (g.inst c)) = .draining ∧ m' (.state (g.inst c)) = .draining := by
  cases h with
  | quiet hm he => exact .inl hp'
  | seeDraining h => exact .inr ⟨h, h⟩
  | _ => cases hp'

theorem CallTrans.resetting (h : CallTrans g c t m x p e m' x' p') (hp' : p'.resetting = true) :
    p.resetting = true ∨ (∃ q, p = .sawDraining q) ∧
      m' (.state (g.inst c)) = m (.state (g.inst c)) ∧
      m' (.exitMask (g.inst c)) = g.expectedMask := by
  cases h with
  | quiet hm he => exact .inl hp'
  | fullExit h => exact .inr ⟨⟨_, rfl⟩, rfl, by simpa using h⟩
  | _ => first
    | exact .inl rfl
    | cases hp'

/-- The exit mask is cleared by who opens a round, and joined by who leaves one. -/
theorem CallTrans.exitMask (h : CallTrans g c t m x p e m' x' p') (i : Inst) :
    m' (.exitMask i) = m (.exitMask i) ∨
      i = g.inst c ∧ (p.opening = true ∧ m' (.exitMask i) = 0#64 ∨
        (∃ q, p = .sawDraining q) ∧ p'.reported = false ∧
          m' (.exitMask i) = m (.exitMask i) ||| g.bitOf c) := by
  by_cases hi : i = g.inst c
  · subst hi
    cases h with
    | initExit => exact .inr ⟨rfl, .inl ⟨rfl, by simp⟩⟩
    | fullExit h | orExit h => exact .inr ⟨rfl, .inr ⟨⟨_, rfl⟩, rfl, by simp⟩⟩
    | _ => first
      | exact .inl rfl
      | exact .inl (‹Calm _ _›.core _ rfl)
  · left
    cases h <;> first
      | rfl
      | exact ‹Calm _ _›.core _ rfl
      | simp [hi]

end Call

theorem CoordTrans.recycling {m m' : Memory} {p p' : CoordPhase} (h : CoordTrans g m p e m' p')
    {i : Inst} (hp' : p'.recycling i) :
    p.recycling i ∨ m (.state i) = .complete ∧ m' (.state i) = .complete := by
  cases h with
  | quiet hm => exact .inl hp'
  | @seeComplete o hc =>
    obtain rfl : o = i := by simpa [CoordPhase.recycling] using hp'
    exact .inr ⟨hc, hc⟩
  | recycle | storeExit => exact .inl (by simpa [CoordPhase.recycling] using hp')
  | _ => simp [CoordPhase.recycling] at hp'

theorem CoordTrans.exitMask {m m' : Memory} {p p' : CoordPhase} (h : CoordTrans g m p e m' p')
    (i : Inst) : m' (.exitMask i) = m (.exitMask i) ∨
      p = .storeExit i ∧ p' = .storeState i ∧ m' (.exitMask i) = 0#64 := by
  cases h with
  | @storeExit o =>
    by_cases hi : i = o
    · subst hi; exact .inr ⟨rfl, rfl, by simp⟩
    · exact .inl (by simp [hi])
  | _ => first
    | exact .inl rfl
    | exact .inl (‹Calm _ _›.core _ rfl)

theorem CoordTrans.exitCleared {m m' : Memory} {p p' : CoordPhase} (h : CoordTrans g m p e m' p')
    {i : Inst} (hp' : p' = .storeState i) : p = .storeState i ∨ m' (.exitMask i) = 0#64 := by
  cases h with
  | quiet hm => exact .inl hp'
  | storeExit =>
    cases hp'
    exact .inr (Mem.set_self _ _ _)
  | _ => cases hp'

/-- The ways the exit mask of a group changes. -/
theorem Trans.exitMask (h : Trans g s a e s') (i : Inst) :
    s'.mem (.exitMask i) = s.mem (.exitMask i) ∨
      (∃ c, g.inst c = i ∧ (s.phase c).opening = true ∧ s'.mem (.exitMask i) = 0#64) ∨
      (∃ c q, g.inst c = i ∧ s.phase c = .sawDraining q ∧ (s'.phase c).reported = false ∧
        s'.mem (.exitMask i) = s.mem (.exitMask i) ||| g.bitOf c) ∨
      s.coordPhase = .storeExit i ∧ s'.coordPhase = .storeState i ∧
        s'.mem (.exitMask i) = 0#64 := by
  cases h with
  | call c b hk ht =>
    rcases ht.exitMask i with h | ⟨hi, ⟨hp, h⟩ | ⟨⟨q, hp⟩, hp', h⟩⟩
    · exact .inl h
    · exact .inr (.inl ⟨c, hi.symm, hp, h⟩)
    · exact .inr (.inr (.inl ⟨c, q, hi.symm, hp, hp', h⟩))
  | coord hk ht => exact (ht.exitMask i).imp id fun h => .inr (.inr h)
  | other ht => exact .inl (ht.core rfl (by simp) (by simp) (by simp))

/-! ## Every change is an edge -/

/-- A closing context that stores OFFLINE finds IDLE, or OFFLINE already. -/
def OfflineIdle (g : Generation) (s : State) (a : Act) : Prop :=
  ∀ c, a = .close c → (s.ctx c).close = some .storeOffline →
    s.mem (.state (g.inst c)) = .idle ∨ s.mem (.state (g.inst c)) = .offline

variable {γ γ' : Tenure.Ghost Inst ℕ}

/-- **Every change of the state word is an edge of the cycle.** -/
theorem Trans.edge (h : Trans g s a e s') (hI : Staged g γ s) (ho : OfflineIdle g s a) (i : Inst) :
    s'.mem (.state i) = s.mem (.state i) ∨ Edge g s s' i := by
  cases h with
  | call c b hk ht =>
    rcases ht.state i with h | ⟨rfl, hmove⟩
    · exact .inl h
    · right
      cases hmove with
      | setIdle hp hp' h h' => exact .online c rfl hp h h'
      | win q hp hp' h h' => exact .win c q rfl hk hp hp' h h'
      | collect q hp hp' h' => exact .collect c q rfl hp hp' (hI.opening c (by rw [hp]; rfl)) h'
      | ready q hp hp' h h' => exact .ready c q rfl hp h h'
      | complete q hp hp' h h' => exact .complete c q rfl hp h h'
      | reset q hp hp' h' => exact .reset c q rfl hp hp' (hI.resetting c (by rw [hp]; rfl)).1 h'
  | coord hk ht =>
    rcases ht.state i with h | ⟨hp, hp', h'⟩ | ⟨hp, hp', h, h'⟩
    · exact .inl h
    · exact .inr (.drain hp hp' (hI.recycling i (by rw [hp]; exact .inr (.inr rfl))) h')
    · exact .inr (.run ⟨hp, hp'⟩ h h')
  | other ht =>
    rcases ht.state i with h | ⟨c, rfl, rfl, hc, h'⟩
    · exact .inl h
    · rcases ho c rfl hc with h | h
      · exact .inr (.offline c rfl hc h h')
      · exact .inl (h'.trans h.symm)

section Inversion

variable {i : Inst}

theorem Edge.of_initializing (h : Edge g s s' i) (hst : s.mem (.state i) = .initializing) :
    ∃ c q, g.inst c = i ∧ s.phase c = .initState q ∧ s'.phase c = .joined q := by
  cases h with
  | collect c q hc hp hp' => exact ⟨c, q, hc, hp, hp'⟩
  | _ => simp_all

theorem Edge.of_running (h : Edge g s s' i) (hst : s.mem (.state i) = .running) :
    ∃ c q, g.inst c = i ∧ s.phase c = .lastComplete q ∧ s'.mem (.state i) = .complete := by
  cases h with
  | complete c q hc hp h h' => exact ⟨c, q, hc, hp, h'⟩
  | _ => simp_all

theorem Edge.of_complete (h : Edge g s s' i) (hst : s.mem (.state i) = .complete) :
    s.coordPhase = .storeState i ∧ s'.coordPhase = .storeLastOwner i ∧
      s'.mem (.state i) = .draining := by
  cases h with
  | drain hp hp' h h' => exact ⟨hp, hp', h'⟩
  | _ => simp_all

theorem Edge.of_draining (h : Edge g s s' i) (hst : s.mem (.state i) = .draining) :
    ∃ c q, g.inst c = i ∧ s.phase c = .resetState q ∧ s'.phase c = .resetDone q := by
  cases h with
  | reset c q hc hp hp' => exact ⟨c, q, hc, hp, hp'⟩
  | _ => simp_all

theorem Edge.to_draining (h : Edge g s s' i) (hst : s'.mem (.state i) = .draining) :
    s.coordPhase = .storeState i := by
  cases h with
  | drain hp => exact hp
  | _ => simp_all

end Inversion

/-! ## The invariant is kept -/

theorem Trans.not_opened (h : Trans g s a e s') (ha : a ≠ .coord) (i : Inst) : ¬Opened s s' i := by
  have hne : s'.coordPhase = s.coordPhase → ¬Opened s s' i := by
    rintro hp ⟨h, h'⟩
    rw [hp, h] at h'
    cases h'
  cases h with
  | call c b hk ht hctx _ _ _ hcoord => exact hne hcoord
  | coord => exact absurd rfl ha
  | other ht _ _ _ _ _ hcoord => exact hne hcoord

/-- A tenure opens by setting a round that is READY to RUNNING. -/
theorem Trans.state_of_opened (h : Trans g s a e s') {i : Inst} (ho : Opened s s' i) :
    s.mem (.state i) = .ready ∧ s'.mem (.state i) = .running := by
  by_cases ha : a = .coord
  · subst ha
    cases h with
    | coord hk ht => exact ht.state_of_opens ho
    | other ht _ _ _ _ _ _ ha => cases ha
  · exact absurd ho (h.not_opened ha i)

/-- Whoever holds the pair after a step held it before, or has just been granted it. -/
theorem Trans.held_before (h : Trans g s a e s') (ho : OwnerOk (s.mem .owner) s.coordPhase)
    {i : Inst} (hi : Held s' i) : Held s i ∨ Opened s s' i := by
  cases h with
  | call c b hk ht _ _ _ _ hcoord =>
    left
    rwa [Held, ht.owner, hcoord] at hi
  | coord hk ht => exact ht.held_before ho hi
  | other ht _ _ _ _ _ hcoord =>
    left
    rwa [Held, ht.core (l := .owner) rfl (by simp) (by simp) (by simp), hcoord] at hi

/-- The group of a context that is inside a round is RUNNING. -/
theorem Staged.running_of_inside (hI : Staged g γ s)
    (hT : TenuredBy g γ s.mem s.coordPhase s.phase fun d => Inside d tr) {c : ℕ}
    (hc : Inside c tr) : s.mem (.state (g.inst c)) = .running :=
  (hI.held _ (hT.held_of_holder c (.inr hc))).resolve_right fun hall =>
    hT.not_done_of_holder c (.inr hc) (hall _ (g.rank_lt c))

section Step

variable (ht : Trans g s a e s') (hI : Staged g γ s)

include ht in
theorem Trans.opening {d : ℕ} (hd : (s'.phase d).opening = true) :
    (s.phase d).opening = true ∨ a.isCallOf d = true ∧ s.mem (.state (g.inst d)) = .idle ∧
      s'.mem (.state (g.inst d)) = .initializing := by
  rcases ht.kept_or_moved d with ⟨hp, -⟩ | ⟨ha, hc⟩
  · exact .inl (hp ▸ hd)
  · exact (hc.opening hd).imp id fun h => ⟨ha, h⟩

include ht in
theorem Trans.reported {d : ℕ} (hd : (s'.phase d).reported = true) :
    (s.phase d).reported = true ∨ a.isCallOf d = true ∧ (∃ q gr, s.phase d = .fenceRest q gr) ∧
      (∃ q, e = .completeOr d q) ∧ s'.mem (.state (g.inst d)) = s.mem (.state (g.inst d)) := by
  rcases ht.kept_or_moved d with ⟨hp, -⟩ | ⟨ha, hc⟩
  · exact .inl (hp ▸ hd)
  · exact (hc.reported hd).imp id fun h => ⟨ha, h⟩

include ht in
theorem Trans.resetting {d : ℕ} (hd : (s'.phase d).resetting = true) :
    (s.phase d).resetting = true ∨ a.isCallOf d = true ∧ (∃ q, s.phase d = .sawDraining q) ∧
      s'.mem (.state (g.inst d)) = s.mem (.state (g.inst d)) ∧
      s'.mem (.exitMask (g.inst d)) = g.expectedMask := by
  rcases ht.kept_or_moved d with ⟨hp, -⟩ | ⟨ha, hc⟩
  · exact .inl (hp ▸ hd)
  · exact (hc.resetting hd).imp id fun h => ⟨ha, h⟩

include ht hI

theorem Staged.opener_step {c d : ℕ} (hc : (s'.phase c).opening = true)
    (hd : (s'.phase d).opening = true) (hcd : g.inst c = g.inst d) : c = d := by
  rcases ht.opening hc with hc | ⟨hac, hst, -⟩ <;> rcases ht.opening hd with hd | ⟨had, hst', -⟩
  · exact hI.opener c d hc hd hcd
  · rw [← hcd, hI.opening c hc] at hst'
    cases hst'
  · rw [hcd, hI.opening d hd] at hst
    cases hst
  · exact Act.isCallOf_unique hac had

/-- Two contexts of one slot do not both report in a tenure. -/
theorem Staged.reporter_step (hs : Support g tr s)
    (hT : TenuredBy g γ s.mem s.coordPhase s.phase fun d => Inside d tr) {c d : ℕ}
    (hc : (s'.phase c).reported = true) (hd : (s'.phase d).reported = true)
    (hcd : g.SameSlot c d) : c = d := by
  have hnew : ∀ {c d : ℕ}, g.SameSlot c d → (s.phase c).reported = true →
      (∃ q gr, s.phase d = .fenceRest q gr) → False := by
    rintro c d hcd hc ⟨q, gr, hp⟩
    have hin := hs.leave d
    rw [hp] at hin
    have hdone := (hI.reported c hc).2
    rw [hcd.1, hcd.2] at hdone
    exact hT.not_done_of_holder d (.inr hin) hdone
  rcases ht.reported hc with hc | ⟨hac, hpc, -⟩ <;> rcases ht.reported hd with hd | ⟨had, hpd, -⟩
  · exact hI.reporter c d hc hd hcd
  · exact (hnew hcd hc hpd).elim
  · exact (hnew hcd.symm hd hpc).elim
  · exact Act.isCallOf_unique hac had

theorem Staged.resetter_step {c d : ℕ} (hc : (s'.phase c).resetting = true)
    (hd : (s'.phase d).resetting = true) (hcd : g.inst c = g.inst d) : c = d := by
  have hnew : ∀ {c d : ℕ}, g.inst c = g.inst d → (s.phase c).resetting = true →
      (∃ q, s.phase d = .sawDraining q) → False := by
    rintro c d hcd hc ⟨q, hp⟩
    have hex := (hI.resetting c hc).2 _ (g.rank_lt d)
    rw [hcd] at hex
    exact hI.notExited d (by rw [hp]; rfl) (hI.draining d q hp) hex
  rcases ht.resetting hc with hc | ⟨hac, hpc, -⟩ <;> rcases ht.resetting hd with hd | ⟨had, hpd, -⟩
  · exact hI.resetter c d hc hd hcd
  · exact (hnew hcd hc hpd).elim
  · exact (hnew hcd.symm hd hpc).elim
  · exact Act.isCallOf_unique hac had

variable (ho : OfflineIdle g s a)

include ho

theorem Staged.opening_step {d : ℕ} (hd : (s'.phase d).opening = true) :
    s'.mem (.state (g.inst d)) = .initializing := by
  rcases ht.opening hd with hp | ⟨-, -, h'⟩
  · have hst := hI.opening d hp
    rcases ht.edge hI ho (g.inst d) with h | h
    · rw [h, hst]
    · -- only the opener itself leaves INITIALIZING
      obtain ⟨c, q, hc, hcp, hcp'⟩ := h.of_initializing hst
      obtain rfl := hI.opener c d (by rw [hcp]; rfl) hp hc
      rw [hcp'] at hd
      cases hd
  · exact h'

theorem Staged.recycling_step {i : Inst} (hi : s'.coordPhase.recycling i) :
    s'.mem (.state i) = .complete := by
  have hkeep : s.coordPhase.recycling i → s'.mem (.state i) = .complete := by
    intro hp
    have hst := hI.recycling i hp
    rcases ht.edge hI ho i with h | h
    · rw [h, hst]
    · rw [(h.of_complete hst).2.1] at hi
      simp [CoordPhase.recycling] at hi
  have hedge := ht.edge hI ho i
  cases ht with
  | call c b hk ht hctx _ _ _ hcoord => exact hkeep (hcoord ▸ hi)
  | coord hk ht => exact (ht.recycling hi).elim hkeep fun h => h.2
  | other ht _ _ _ _ _ hcoord => exact hkeep (hcoord ▸ hi)

omit ho in
/-- The exit mask stays clear between its reset and the store of DRAINING. -/
theorem Staged.exitCleared_step {i : Inst} (hi : s'.coordPhase = .storeState i) :
    s'.mem (.exitMask i) = 0#64 := by
  have hprev : s.coordPhase = .storeState i ∨ s'.mem (.exitMask i) = 0#64 := by
    cases ht with
    | call c b hk ht hctx _ _ _ hcoord => exact .inl (hcoord ▸ hi)
    | coord hk ht => exact ht.exitCleared hi
    | other ht _ _ _ _ _ hcoord => exact .inl (hcoord ▸ hi)
  rcases hprev with hp | h
  · rcases ht.exitMask i with h | ⟨c, -, -, h⟩ | ⟨c, q, rfl, hc, -, -⟩ | ⟨-, -, h⟩
    · rw [h, hI.exitCleared i hp]
    · exact h
    · -- nobody has seen DRAINING yet
      have hst := hI.recycling _ (by rw [hp]; exact .inr (.inr rfl))
      rw [hI.draining c q hc] at hst
      cases hst
    · exact h
  · exact h

/-- While a reporter has not left, nobody sets the group idle. -/
theorem Staged.afterGrant_step {d : ℕ} (hd : (s.phase d).reported = true) :
    (s'.mem (.state (g.inst d))).afterGrant = true ∧
      (s.mem (.state (g.inst d)) = .draining → s'.mem (.state (g.inst d)) = .draining) := by
  have hst := (hI.reported d hd).1
  rcases ht.edge hI ho (g.inst d) with h | h
  · rw [h]
    exact ⟨hst, id⟩
  · cases hm : s.mem (.state (g.inst d)) with
    | running =>
      obtain ⟨c, q, -, -, h'⟩ := h.of_running hm
      rw [h']
      exact ⟨rfl, nofun⟩
    | complete =>
      rw [(h.of_complete hm).2.2]
      exact ⟨rfl, nofun⟩
    | draining =>
      obtain ⟨c, q, hc, hp, -⟩ := h.of_draining hm
      have hex := (hI.resetting c (by rw [hp]; rfl)).2 _ (g.rank_lt d)
      rw [hc] at hex
      exact absurd hex (hI.notExited d hd hm)
    | _ => rw [hm] at hst; cases hst

theorem Staged.reported_step (hs : Support g tr s)
    (hT : TenuredBy g γ s.mem s.coordPhase s.phase fun d => Inside d tr)
    (hγ : γ.Follows γ' (Opened s s') (Validated g s s') (Reported g e)) {d : ℕ}
    (hd : (s'.phase d).reported = true) :
    (s'.mem (.state (g.inst d))).afterGrant = true ∧ γ'.done (g.inst d) (g.rank d) := by
  rcases ht.reported hd with hp | ⟨-, ⟨q, gr, hp⟩, ⟨n, he⟩, hst⟩
  · refine ⟨(hI.afterGrant_step ht ho hp).1, (hγ.done _ _).mpr (.inr ⟨(hI.reported d hp).2, ?_⟩)⟩
    intro hopen
    have hst := (hI.reported d hp).1
    rw [(ht.state_of_opened hopen).1] at hst
    cases hst
  · have hin := hs.leave d
    rw [hp] at hin
    refine ⟨?_, (hγ.done _ _).mpr (.inl ⟨d, n, he, rfl, rfl⟩)⟩
    rw [hst, hI.running_of_inside hT hin]
    rfl

theorem Staged.notExited_step (hs : Support g tr s)
    (hT : TenuredBy g γ s.mem s.coordPhase s.phase fun d => Inside d tr) {d : ℕ}
    (hd : (s'.phase d).reported = true) (hst' : s'.mem (.state (g.inst d)) = .draining) :
    ¬BitMask.HasBit (s'.mem (.exitMask (g.inst d))) (g.rank d) := by
  have hclear : s'.mem (.exitMask (g.inst d)) = 0#64 →
      ¬BitMask.HasBit (s'.mem (.exitMask (g.inst d))) (g.rank d) := fun h => by
    rw [h]
    exact BitMask.not_hasBit_zero _
  have hbefore : ¬BitMask.HasBit (s.mem (.exitMask (g.inst d))) (g.rank d) ∧
      (s.phase d).reported = true := by
    rcases ht.reported hd with hp | ⟨-, ⟨q, gr, hp⟩, -, hst⟩
    · refine ⟨?_, hp⟩
      rcases ht.edge hI ho (g.inst d) with h | h
      · exact hI.notExited d hp (h ▸ hst')
      · rw [hI.exitCleared _ (h.to_draining hst')]
        exact BitMask.not_hasBit_zero _
    · have hin := hs.leave d
      rw [hp] at hin
      rw [hst, hI.running_of_inside hT hin] at hst'
      cases hst'
  rcases ht.exitMask (g.inst d) with h | ⟨c, -, -, h⟩ | ⟨c, q, hc, hp, hp', h⟩ | ⟨-, -, h⟩
  · rw [h]
    exact hbefore.1
  · exact hclear h
  · rw [h]
    intro hbit
    rcases (BitMask.hasBit_or_bit (g.rank_lt_64 c)).mp hbit with hbit | hr
    · exact hbefore.1 hbit
    · obtain rfl := hI.reporter c d (by rw [hp]; rfl) hbefore.2 ⟨hc, hr.symm⟩
      rw [hp'] at hd
      cases hd
  · exact hclear h

theorem Staged.draining_step {d q : ℕ} (hd : s'.phase d = .sawDraining q) :
    s'.mem (.state (g.inst d)) = .draining := by
  have hkeep : s.phase d = .sawDraining q → s'.mem (.state (g.inst d)) = .draining := fun hp =>
    (hI.afterGrant_step ht ho (by rw [hp]; rfl)).2 (hI.draining d q hp)
  rcases ht.kept_or_moved d with ⟨hp, -⟩ | ⟨-, hc⟩
  · exact hkeep (hp ▸ hd)
  · exact (hc.sawDraining hd).elim hkeep fun h => h.2

theorem Staged.resetting_step {d : ℕ} (hd : (s'.phase d).resetting = true) :
    s'.mem (.state (g.inst d)) = .draining ∧
      ∀ r < g.workerCount, BitMask.HasBit (s'.mem (.exitMask (g.inst d))) r := by
  rcases ht.resetting hd with hp | ⟨-, ⟨q, hp⟩, hst, hm⟩
  · obtain ⟨hst, hex⟩ := hI.resetting d hp
    refine ⟨?_, fun r hr => ?_⟩
    · rcases ht.edge hI ho (g.inst d) with h | h
      · rw [h, hst]
      · -- only the last one out leaves DRAINING
        obtain ⟨c, q, hc, hcp, hcp'⟩ := h.of_draining hst
        obtain rfl := hI.resetter c d (by rw [hcp]; rfl) hp hc
        rw [hcp'] at hd
        cases hd
    · rcases ht.exitMask (g.inst d) with h | ⟨c, hc, hcp, -⟩ | ⟨c, q, -, -, -, h⟩ | ⟨hcp, -, -⟩
      · rw [h]
        exact hex r hr
      · have := hI.opening c hcp
        rw [hc, hst] at this
        cases this
      · rw [h]
        exact (BitMask.hasBit_or_bit (g.rank_lt_64 c)).mpr (.inl (hex r hr))
      · have := hI.recycling _ (by rw [hcp]; exact .inr (.inl rfl))
        rw [hst] at this
        cases this
  · refine ⟨by rw [hst, hI.draining d q hp], fun r hr => ?_⟩
    rw [hm]
    exact (BitMask.hasBit_full g.workerCount_le).mpr hr

theorem Staged.held_step (hs : Support g tr s)
    (hT : TenuredBy g γ s.mem s.coordPhase s.phase fun d => Inside d tr)
    (hγ : γ.Follows γ' (Opened s s') (Validated g s s') (Reported g e)) {i : Inst}
    (hi : Held s' i) : s'.mem (.state i) = .running ∨ ∀ r < g.workerCount, γ'.done i r := by
  by_cases hopen : Opened s s' i
  · exact .inl (ht.state_of_opened hopen).2
  have hdone : (∀ r < g.workerCount, γ.done i r) → ∀ r < g.workerCount, γ'.done i r :=
    fun h r hr => (hγ.done i r).mpr (.inr ⟨h r hr, hopen⟩)
  have hheld := (ht.held_before hs.owner hi).resolve_right hopen
  rcases hI.held i hheld with hrun | hall
  · rcases ht.edge hI ho i with h | h
    · exact .inl (h.trans hrun)
    · obtain ⟨c, q, hc, hp, -⟩ := h.of_running hrun
      have hfull := hT.full_of_last c (show (s.phase c).isLast = true by rw [hp]; rfl)
      refine .inr (hdone fun r hr => ?_)
      rw [← hc]
      exact hT.done_of_full _ hfull r hr
  · exact .inr (hdone hall)

theorem Staged.current_step
    (hT : TenuredBy g γ s.mem s.coordPhase s.phase fun d => Inside d tr)
    (hγ : γ.Follows γ' (Opened s s') (Validated g s s') (Reported g e)) {i : Inst}
    (hi : s'.mem (.state i) ≠ .running) : ∀ r < g.workerCount, γ'.Current i r := by
  intro r hr
  have hopen : ¬Opened s s' i := fun h => hi (ht.state_of_opened h).2
  refine (hγ.current i r).mpr (.inr ⟨?_, hopen⟩)
  by_cases hrun : s.mem (.state i) = .running
  · rcases ht.edge hI ho i with h | h
    · exact absurd (h.trans hrun) hi
    · obtain ⟨c, q, hc, hp, -⟩ := h.of_running hrun
      have hfull := hT.full_of_last c (show (s.phase c).isLast = true by rw [hp]; rfl)
      refine hT.valid_of_done i r ?_
      rw [← hc]
      exact hT.done_of_full _ hfull r hr
  · exact hI.current i hrun r hr

end Step

/-- **Every step keeps the invariant.** -/
theorem Trans.staged (ht : Trans g s a e s') (hs : Support g tr s)
    (hT : TenuredBy g γ s.mem s.coordPhase s.phase fun d => Inside d tr)
    (hγ : γ.Follows γ' (Opened s s') (Validated g s s') (Reported g e)) (hI : Staged g γ s)
    (ho : OfflineIdle g s a) : Staged g γ' s' where
  opening _ := hI.opening_step ht ho
  opener _ _ := hI.opener_step ht
  recycling _ := hI.recycling_step ht ho
  exitCleared _ := hI.exitCleared_step ht
  reported _ := hI.reported_step ht ho hs hT hγ
  reporter _ _ := hI.reporter_step ht hs hT
  notExited _ := hI.notExited_step ht ho hs hT
  draining _ _ := hI.draining_step ht ho
  resetting _ := hI.resetting_step ht ho
  resetter _ _ := hI.resetter_step ht
  held _ := hI.held_step ht ho hs hT hγ
  current _ := hI.current_step ht ho hT hγ

theorem staged_initialState : Staged g initialGhost (initialState g) where
  opening c hc := by simp [Phase.opening] at hc
  opener c d hc := by simp [Phase.opening] at hc
  recycling i hi := by rcases hi with h | h | h <;> cases h
  exitCleared i hi := nomatch hi
  reported c hc := by simp [Phase.reported] at hc
  reporter c d hc := by simp [Phase.reported] at hc
  notExited c hc := by simp [Phase.reported] at hc
  draining c q hc := by simp at hc
  resetting c hc := by simp [Phase.resetting] at hc
  resetter c d hc := by simp [Phase.resetting] at hc
  held i hi := absurd hi (not_heldBy_rest i)
  current _ _ _ _ := rfl

/-- **In every run that stores OFFLINE over IDLE only**, phases and states agree. -/
theorem staged_of_run (h : Run g (OfflineIdle g) tr s) :
    ∃ γ, TenuredBy g γ s.mem s.coordPhase s.phase (fun d => Inside d tr) ∧ Staged g γ s := by
  have hI : Support g tr s ∧ ∃ γ, TenuredBy g γ s.mem s.coordPhase s.phase
      (fun d => Inside d tr) ∧ Staged g γ s := by
    refine h.invariant (I := fun tr s => Support g tr s ∧ ∃ γ, TenuredBy g γ s.mem s.coordPhase
      s.phase (fun d => Inside d tr) ∧ Staged g γ s) ?_ ?_
    · exact ⟨support_of_run (P := anyStep) .start, initialGhost, tenuredBy_initialState,
        staged_initialState⟩
    · rintro tr s a s' ⟨hs, γ, hT, hI⟩ ho hstep
      have ht := trans_of_step hstep
      obtain ⟨γ', hγ, hT'⟩ := ht.tenuredBy hs hT
      exact ⟨ht.support hs, γ', hT', ht.staged hs hT hγ hI ho⟩
  exact hI.2

/-! ## The round of who owns the pair -/

/-- The coordinator has set the round of `i` draining and not released the pair yet. -/
def CoordPhase.releasing (p : CoordPhase) (i : Inst) : Prop :=
  p = .storeLastOwner i ∨ p = .storeOwner i

theorem CoordTrans.releasing {m m' : Memory} {p p' : CoordPhase} {i : Inst}
    (h : CoordTrans g m p e m' p') (hp : p.releasing i) :
    p'.releasing i ∨ p' = .rest ∧ m' .owner = noOwner := by
  rcases hp with rfl | rfl
  · cases h with
    | quiet hm => exact .inl (.inl rfl)
    | storeLastOwner => exact .inl (.inr rfl)
    | giveUp hp => cases hp
  · cases h with
    | quiet hm => exact .inl (.inr rfl)
    | release => exact .inr ⟨rfl, by simp⟩
    | giveUp hp => cases hp

/-- The round of who holds the pair is in progress, or the pair is about to be released. -/
def OwnedOk (s : State) : Prop :=
  ∀ i, Held s i →
    s.mem (.state i) = .running ∨ s.mem (.state i) = .complete ∨ s.coordPhase.releasing i

theorem Trans.releasing (h : Trans g s a e s') {i : Inst} (hp : s.coordPhase.releasing i)
    (hi : Held s' i) : s'.coordPhase.releasing i := by
  cases h with
  | call c b hk ht _ _ _ _ hcoord => rwa [hcoord]
  | coord hk ht =>
    refine (ht.releasing hp).resolve_right fun ⟨hrest, hown⟩ => ?_
    rw [Held, hrest, hown] at hi
    exact not_heldBy_rest i hi
  | other ht _ _ _ _ _ hcoord => rwa [hcoord]

theorem ownedOk_of_run (h : Run g (OfflineIdle g) tr s) : OwnedOk s := by
  induction h with
  | start => exact fun i hi => absurd hi (not_heldBy_rest i)
  | next h ho hs ih =>
    intro i hi
    obtain ⟨γ, -, hI⟩ := staged_of_run h
    have ht := trans_of_step hs
    rcases ht.held_before (ownerOk_of_run h) hi with hold | hop
    · rcases ih i hold with hst | hst | hp
      · rcases ht.edge hI ho i with heq | hedge
        · exact .inl (heq.trans hst)
        · obtain ⟨-, -, -, -, hst'⟩ := hedge.of_running hst
          exact .inr (.inl hst')
      · rcases ht.edge hI ho i with heq | hedge
        · exact .inr (.inl (heq.trans hst))
        · exact .inr (.inr (.inl (hedge.of_complete hst).2.1))
      · exact .inr (.inr (ht.releasing hp hi))
    · exact .inl (ht.state_of_opened hop).2

/-- The stores that are no compare-exchange find the state that they are meant to replace. -/
structure StoresFit (g : Generation) (s : State) : Prop where
  collecting : ∀ c q, (s.ctx c).call = .enter (.initState q) →
    s.mem (.state (g.inst c)) = .initializing
  draining : ∀ w now i, s.coord = .tick w (.recycle now i .storeState) →
    s.mem (.state i) = .complete
  idle : ∀ c q gid, (s.ctx c).call = .leave q gid .resetState →
    s.mem (.state (g.inst c)) = .draining

theorem Staged.storesFit (hI : Staged g γ s) : StoresFit g s where
  collecting c q h := hI.opening c (by rw [State.phase, h]; rfl)
  draining w now i h := hI.recycling i (by rw [State.coordPhase, h]; exact .inr (.inr rfl))
  idle c q gid h := (hI.resetting c (by rw [State.phase, h]; rfl)).1

/-- **The state goes round.** In every run in which OFFLINE is only stored over IDLE or OFFLINE, a
step leaves the state word of a group as it is or takes it along an edge of the cycle, and the
stores of COLLECTING, DRAINING and IDLE come where they belong. -/
theorem state_goes_round (h : Run g (OfflineIdle g) tr s) (ho : OfflineIdle g s a)
    (hs : step g s a = some s') (i : Inst) :
    (s'.mem (.state i) = s.mem (.state i) ∨ Edge g s s' i) ∧ StoresFit g s := by
  obtain ⟨γ, -, hI⟩ := staged_of_run h
  exact ⟨(trans_of_step hs).edge hI ho i, hI.storesFit⟩

/-- No context is closed. -/
def noClose (_ : State) : Act → Bool
  | .close _ => false
  | _ => true

/-- A's rank wins its group. -/
theorem state_goes_round_win : ∃ tr s s', Run pairOfOne (OfflineIdle pairOfOne) tr s ∧
    step pairOfOne s (.call 0 true) = some s' ∧ Edge pairOfOne s s' .A := by
  obtain ⟨tr, s, h, htest⟩ := exists_run pairOfOne (P := OfflineIdle pairOfOne)
    (p := noClose) (fun _ _ hp _ ha _ => by subst ha; cases hp)
    (openBoth ++ .enterCall 0 :: calls 6 0)
    (fun _ s => (step pairOfOne s (.call 0 true)).any fun s' =>
      decide (s'.mem (.state .A) ≠ s.mem (.state .A))) (by decide +kernel)
  obtain ⟨s', hs, hne⟩ := (Option.any_eq_true _ _).mp htest
  exact ⟨tr, s, s', h, hs, (state_goes_round h (fun _ ha => by cases ha) hs .A).1.resolve_left
    (of_decide_eq_true hne)⟩

end YellowZone.PairSched
