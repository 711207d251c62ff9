import YellowZone.PairDirectory.Lifecycle

/-!
# Crash-consistent publishing

Creation, publication, the removal of stale generations, the constructor's error path and `close`
touch the same files in different orders, and a lifecycle may die between any two operations. What
keeps the directory consistent is the lock together with the order of the operations: the file is
there before the record names it, the record goes before the file, and only the holder of the lock
does either.

`Consistent` is the invariant: `.current`, if it exists, names a file that exists, and what the
holder of the lock knows at each of its operations. Everybody else knows nothing and changes no file
(`frame_of_step`).

## Main results

* `consistent_of_run` — the invariant
* `generation_publishing` — the record names an existing file, a refused primary changes nothing,
  and `close` removes its own generation and no other
-/

namespace YellowZone.PairDirectory

open Machine Function

variable {pairHash : List Char} {d d' : Directory} {a : Act} {p q epoch : ℕ}
  {hist : List (Directory × Act)}

/-! ## The invariant -/

/-- What a lifecycle knows before its next operation. -/
def Knows (pairHash : List Char) (d : Directory) (p : ℕ) : Gate → Prop
  | .nativeOpen epoch | .unlinkTmp epoch | .readRecord epoch => IsEpoch epoch
  | .writeTmp epoch => IsEpoch epoch ∧ shmName pairHash epoch ∈ d.shm
  | .replaceCurrent epoch =>
    IsEpoch epoch ∧ shmName pairHash epoch ∈ d.shm ∧ d.tmp p = some (render pairHash epoch)
  | .listGenerations epoch | .removeStale epoch _ | .ready epoch =>
    IsEpoch epoch ∧ d.current = some (render pairHash epoch)
  | .unlinkCurrent epoch shm =>
    IsEpoch epoch ∧ shm = shmName pairHash epoch ∧ d.current = some (render pairHash epoch)
  | .unlinkShm epoch shm =>
    IsEpoch epoch ∧ shm = shmName pairHash epoch ∧ d.current ≠ some (render pairHash epoch)
  | .unlock (some epoch) =>
    IsEpoch epoch ∧ d.current ≠ some (render pairHash epoch) ∧ shmName pairHash epoch ∉ d.shm
  | .unlock none | .drawEpoch | .lock | .refused | .closed _ | .dead => True

/-- The directory is consistent, and the holder of the lock knows where it is. -/
structure Consistent (pairHash : List Char) (d : Directory) : Prop where
  lock : ∀ p, (d.gate p).holds = true → d.lock = some p
  named : ∀ text, d.current = some text →
    ∃ epoch, IsEpoch epoch ∧ text = render pairHash epoch ∧ shmName pairHash epoch ∈ d.shm
  knows : ∀ p, Knows pairHash d p (d.gate p)

theorem consistent_emptyDirectory : Consistent pairHash emptyDirectory :=
  ⟨nofun, nofun, fun _ => trivial⟩

theorem render_injective {epoch epoch' : ℕ} (h : IsEpoch epoch) (h' : IsEpoch epoch')
    (heq : render pairHash epoch = render pairHash epoch') : epoch = epoch' := by
  have hread : readCurrent pairHash (render pairHash epoch) = _ := readCurrent_render h
  rw [heq, readCurrent_render h'] at hread
  cases hread
  rfl

/-! ## Steps of others -/

@[simp] theorem gate_goto_self (d : Directory) (p : ℕ) (g : Gate) : (d.goto p g).gate p = g :=
  update_self ..

theorem gate_goto_of_ne (d : Directory) (g : Gate) (hne : q ≠ p) :
    (d.goto p g).gate q = d.gate q := update_of_ne hne ..

/-- A step ends in a jump of the lifecycle that makes it, never back to the lock attempt, and
before that touches no other lifecycle's temporary file. -/
theorem exists_goto (hs : directoryStep pairHash d a = some d') :
    ∃ (d₁ : Directory) (g : Gate), d' = d₁.goto a.actor g ∧ d₁.gate = d.gate ∧
      (∀ q ≠ a.actor, d₁.tmp q = d.tmp q) ∧ g ≠ .lock := by
  cases a with
  | step p =>
    have htmp : ∀ v, ∀ q ≠ p, update d.tmp p v q = d.tmp q := fun v q hq => update_of_ne hq ..
    simp only [directoryStep] at hs
    generalize d.gate p = g at hs
    unfold advance at hs
    split at hs
    all_goals try split at hs
    all_goals try split at hs
    all_goals cases hs
    all_goals first
      | exact ⟨_, _, rfl, rfl, fun _ _ => rfl, nofun⟩
      | exact ⟨_, _, rfl, rfl, htmp _, nofun⟩
  | draw p epoch =>
    simp only [directoryStep] at hs
    split at hs <;> cases hs
    exact ⟨_, _, rfl, rfl, fun _ _ => rfl, nofun⟩
  | raise p =>
    obtain ⟨g, hg, rfl⟩ := Option.map_eq_some_iff.mp hs
    refine ⟨_, _, rfl, rfl, fun _ _ => rfl, ?_⟩
    rintro rfl
    cases hd : d.gate p <;> rw [hd] at hg <;> cases hg
  | close p =>
    simp only [directoryStep] at hs
    split at hs <;> cases hs
    exact ⟨_, _, rfl, rfl, fun _ _ => rfl, nofun⟩
  | kill p =>
    cases hs
    exact ⟨_, _, rfl, rfl, fun _ _ => rfl, nofun⟩

/-- A step moves its own lifecycle only. -/
theorem gate_of_step (hs : directoryStep pairHash d a = some d') (hne : q ≠ a.actor) :
    d'.gate q = d.gate q ∧ d'.tmp q = d.tmp q := by
  obtain ⟨d₁, g, rfl, hgate, htmp, -⟩ := exists_goto hs
  exact ⟨by rw [gate_goto_of_ne _ _ hne, hgate], htmp q hne⟩

/-- Nobody returns to the lock attempt. -/
theorem gate_ne_lock_of_step (hs : directoryStep pairHash d a = some d') :
    d'.gate a.actor ≠ .lock := by
  obtain ⟨d₁, g, rfl, -, -, hg⟩ := exists_goto hs
  rwa [gate_goto_self]

/-- **Frame.** Without the lock a lifecycle changes no file, and takes the lock only when it is
free. -/
theorem frame_of_step (hs : directoryStep pairHash d a = some d')
    (hfree : (d.gate a.actor).holds = false) :
    d'.current = d.current ∧ d'.shm = d.shm ∧ (d.lock ≠ none → d'.lock = d.lock) := by
  cases a with
  | step p =>
    simp only [directoryStep] at hs
    simp only [Act.actor] at hfree
    generalize d.gate p = g at hs hfree
    cases g with
    | lock =>
      simp only [advance] at hs
      split at hs
      · rename_i hlock
        cases hs
        exact ⟨rfl, rfl, fun hne => absurd hlock hne⟩
      · cases hs
        exact ⟨rfl, rfl, fun _ => rfl⟩
    | refused | closed _ | dead => cases hs
    | _ => cases hfree
  | draw p epoch =>
    simp only [directoryStep] at hs
    split at hs
    · cases hs
      exact ⟨rfl, rfl, fun _ => rfl⟩
    · cases hs
  | raise p =>
    obtain ⟨g, -, rfl⟩ := Option.map_eq_some_iff.mp hs
    exact ⟨rfl, rfl, fun _ => rfl⟩
  | close p =>
    simp only [directoryStep] at hs
    split at hs
    · cases hs
      exact ⟨rfl, rfl, fun _ => rfl⟩
    · cases hs
  | kill p =>
    simp only [Act.actor] at hfree
    cases hs
    refine ⟨rfl, rfl, fun _ => ?_⟩
    change (if (d.gate p).holds then none else d.lock) = d.lock
    rw [hfree]
    rfl

/-- What a lifecycle knows is about the files and its own temporary file. -/
theorem Knows.congr {g : Gate} (h : Knows pairHash d p g) (hc : d'.current = d.current)
    (hshm : d'.shm = d.shm) (htmp : d'.tmp p = d.tmp p) : Knows pairHash d' p g := by
  cases g with
  | lock | refused | drawEpoch | closed _ | dead => trivial
  | unlock epoch =>
    cases epoch with
    | none => trivial
    | some epoch => simpa only [Knows, hc, hshm] using h
  | _ => simpa only [Knows, hc, hshm, htmp] using h

theorem Knows.of_not_holds {g : Gate} (h : g.holds = false) : Knows pairHash d p g := by
  cases g with
  | lock | refused | closed _ | dead => trivial
  | _ => cases h

/-- A step of another lifecycle keeps what the holder of the lock knows. -/
theorem Consistent.knows_of_ne (h : Consistent pairHash d)
    (hs : directoryStep pairHash d a = some d') (hne : p ≠ a.actor) :
    Knows pairHash d' p (d'.gate p) := by
  obtain ⟨hgate, htmp⟩ := gate_of_step hs hne
  rw [hgate]
  cases hp : (d.gate p).holds with
  | false => exact .of_not_holds hp
  | true =>
    have hfree : (d.gate a.actor).holds = false := by
      by_contra hheld
      have := h.lock p hp
      rw [h.lock a.actor (by simpa using hheld)] at this
      exact hne (Option.some.inj this).symm
    obtain ⟨hc, hshm, -⟩ := frame_of_step hs hfree
    exact (h.knows p).congr hc hshm htmp

/-- Who holds the lock after a step has kept it or taken it. -/
theorem lock_of_holds (hs : directoryStep pairHash d a = some d')
    (hp : (d'.gate a.actor).holds = true)
    (hlock : (d.gate a.actor).holds = true → d.lock = some a.actor) : d'.lock = some a.actor := by
  cases a with
  | step p =>
    simp only [directoryStep] at hs
    simp only [Act.actor] at hlock hp ⊢
    generalize d.gate p = g at hs hlock
    unfold advance at hs
    split at hs
    all_goals try split at hs
    all_goals try split at hs
    all_goals cases hs
    all_goals first
      | exact hlock rfl
      | rfl
      | (rw [gate_goto_self] at hp; cases hp)
  | draw p epoch =>
    simp only [directoryStep] at hs
    split at hs
    · rename_i hdraw
      cases hs
      exact hlock (by rw [Act.actor, hdraw.1]; rfl)
    · cases hs
  | raise p =>
    obtain ⟨g, hg, rfl⟩ := Option.map_eq_some_iff.mp hs
    refine hlock ?_
    rw [Act.actor]
    generalize d.gate p = g' at hg
    cases g' with
    | lock | refused | closed _ | dead => cases hg
    | _ => rfl
  | close p =>
    simp only [directoryStep] at hs
    split at hs
    · rename_i hg
      cases hs
      exact hlock (by rw [Act.actor, hg]; rfl)
    · cases hs
  | kill p =>
    cases hs
    rw [Act.actor, gate_goto_self] at hp
    cases hp

/-! ## Steps of the holder -/

/-- Unlinking a file that the record does not name keeps the record's file. -/
theorem named_unlink {name : Name}
    (h : ∀ text, d.current = some text →
      ∃ epoch, IsEpoch epoch ∧ text = render pairHash epoch ∧ shmName pairHash epoch ∈ d.shm)
    (hname : ∀ epoch, IsEpoch epoch → d.current = some (render pairHash epoch) →
      shmName pairHash epoch ≠ name) (text : Text) (htext : d.current = some text) :
    ∃ epoch, IsEpoch epoch ∧ text = render pairHash epoch ∧
      shmName pairHash epoch ∈ (d.unlink name).shm := by
  obtain ⟨epoch, hepoch, rfl, hmem⟩ := h text htext
  exact ⟨epoch, hepoch, rfl, List.mem_filter.mpr
    ⟨hmem, by simpa using hname epoch hepoch htext⟩⟩

/-- A lifecycle's own step: the record still names a file, and it knows where it is. -/
theorem Consistent.own_step (h : Consistent pairHash d)
    (hs : directoryStep pairHash d a = some d') :
    (∀ text, d'.current = some text →
      ∃ epoch, IsEpoch epoch ∧ text = render pairHash epoch ∧ shmName pairHash epoch ∈ d'.shm) ∧
    Knows pairHash d' a.actor (d'.gate a.actor) := by
  have hknows := h.knows a.actor
  cases a with
  | step p =>
    simp only [directoryStep] at hs
    simp only [Act.actor] at hknows ⊢
    cases hg : d.gate p with
    | refused | drawEpoch | ready _ | closed _ | dead =>
      rw [hg] at hs
      cases hs
    | lock =>
      rw [hg] at hs
      simp only [advance] at hs
      split at hs <;> cases hs <;> exact ⟨h.named, by rw [gate_goto_self]; trivial⟩
    | nativeOpen epoch =>
      rw [hg] at hs hknows
      simp only [advance] at hs
      split at hs
      · cases hs
        exact ⟨h.named, by rw [gate_goto_self]; exact hknows⟩
      · cases hs
        refine ⟨fun text htext => ?_, by rw [gate_goto_self]; exact ⟨hknows, .head _⟩⟩
        obtain ⟨epoch', hepoch', rfl, hmem⟩ := h.named text htext
        exact ⟨epoch', hepoch', rfl, .tail _ hmem⟩
    | writeTmp epoch =>
      rw [hg] at hs hknows
      cases hs
      refine ⟨h.named, ?_⟩
      rw [gate_goto_self]
      exact ⟨hknows.1, hknows.2, update_self ..⟩
    | replaceCurrent epoch =>
      rw [hg] at hs hknows
      obtain ⟨hepoch, hmem, htmp⟩ := hknows
      cases hs
      refine ⟨fun text htext => ⟨epoch, hepoch, ?_, hmem⟩, ?_⟩
      · have htext : d.tmp p = some text := htext
        rw [htmp] at htext
        exact (Option.some.inj htext).symm
      · rw [gate_goto_self]
        exact ⟨hepoch, htmp⟩
    | listGenerations epoch =>
      rw [hg] at hs hknows
      cases hs
      exact ⟨h.named, by rw [gate_goto_self]; exact hknows⟩
    | removeStale epoch candidates =>
      rw [hg] at hs hknows
      cases candidates with
      | nil =>
        cases hs
        exact ⟨h.named, by rw [gate_goto_self]; exact hknows⟩
      | cons candidate candidates =>
        simp only [advance] at hs
        split at hs
        · rename_i hcand
          cases hs
          refine ⟨named_unlink h.named fun epoch' hepoch' hcur => ?_,
            by rw [gate_goto_self]; exact hknows⟩
          rw [hknows.2] at hcur
          rw [← render_injective hknows.1 hepoch' (Option.some.inj hcur)]
          exact Ne.symm hcand
        · cases hs
          exact ⟨h.named, by rw [gate_goto_self]; exact hknows⟩
    | unlinkTmp epoch =>
      rw [hg] at hs hknows
      cases hs
      exact ⟨h.named, by rw [gate_goto_self]; exact hknows⟩
    | readRecord epoch =>
      rw [hg] at hs hknows
      simp only [advance] at hs
      cases hcur : d.current with
      | none =>
        rw [hcur] at hs
        cases hs
        refine ⟨h.named, ?_⟩
        rw [gate_goto_self]
        exact ⟨hknows, rfl, by change d.current ≠ _; rw [hcur]; nofun⟩
      | some text =>
        obtain ⟨epoch', hepoch', rfl, -⟩ := h.named text hcur
        rw [hcur, Option.bind_some, readCurrent_render hepoch'] at hs
        dsimp only at hs
        split at hs
        · rename_i heq
          subst heq
          cases hs
          exact ⟨h.named, by rw [gate_goto_self]; exact ⟨hknows, rfl, hcur⟩⟩
        · rename_i hne
          cases hs
          refine ⟨h.named, ?_⟩
          rw [gate_goto_self]
          refine ⟨hknows, rfl, fun hcur' => hne ?_⟩
          have hcur' : d.current = some (render pairHash epoch) := hcur'
          rw [hcur] at hcur'
          exact render_injective hepoch' hknows (Option.some.inj hcur')
    | unlinkCurrent epoch shm =>
      rw [hg] at hs hknows
      cases hs
      refine ⟨nofun, ?_⟩
      rw [gate_goto_self]
      exact ⟨hknows.1, hknows.2.1, nofun⟩
    | unlinkShm epoch shm =>
      rw [hg] at hs hknows
      obtain ⟨hepoch, rfl, hcur⟩ := hknows
      cases hs
      refine ⟨named_unlink h.named fun epoch' hepoch' hcur' heq => ?_, ?_⟩
      · rw [shmName_injective hepoch' hepoch heq] at hcur'
        exact hcur hcur'
      · rw [gate_goto_self]
        exact ⟨hepoch, hcur, by simp [Directory.goto, Directory.unlink]⟩
    | unlock epoch =>
      rw [hg] at hs
      cases hs
      exact ⟨h.named, by rw [gate_goto_self]; trivial⟩
  | draw p epoch =>
    simp only [directoryStep] at hs
    split at hs
    · rename_i hdraw
      cases hs
      exact ⟨h.named, by rw [Act.actor, gate_goto_self]; exact hdraw.2⟩
    · cases hs
  | raise p =>
    obtain ⟨g, hg, rfl⟩ := Option.map_eq_some_iff.mp hs
    refine ⟨h.named, ?_⟩
    rw [Act.actor, gate_goto_self]
    rw [Act.actor] at hknows
    generalize d.gate p = g' at hg hknows
    cases g' with
    | drawEpoch => cases hg; trivial
    | nativeOpen epoch => cases hg; exact hknows
    | writeTmp epoch | replaceCurrent epoch | listGenerations epoch | removeStale epoch _ =>
      cases hg
      exact hknows.1
    | _ => cases hg
  | close p =>
    simp only [directoryStep] at hs
    split at hs
    · rename_i epoch hg
      cases hs
      rw [Act.actor, hg] at hknows
      exact ⟨h.named, by rw [Act.actor, gate_goto_self]; exact hknows.1⟩
    · cases hs
  | kill p =>
    cases hs
    exact ⟨h.named, by rw [Act.actor, gate_goto_self]; trivial⟩

/-- The lock is held by the lifecycle that holds it. -/
theorem Consistent.lock_step (h : Consistent pairHash d)
    (hs : directoryStep pairHash d a = some d') (hp : (d'.gate p).holds = true) :
    d'.lock = some p := by
  by_cases hne : p = a.actor
  · subst hne
    exact lock_of_holds hs hp (h.lock _)
  · obtain ⟨hgate, -⟩ := gate_of_step hs hne
    rw [hgate] at hp
    have hlock := h.lock p hp
    have hfree : (d.gate a.actor).holds = false := by
      by_contra hheld
      rw [h.lock a.actor (by simpa using hheld)] at hlock
      exact hne (Option.some.inj hlock).symm
    rw [(frame_of_step hs hfree).2.2 (by rw [hlock]; nofun), hlock]

theorem Consistent.step (h : Consistent pairHash d)
    (hs : directoryStep pairHash d a = some d') : Consistent pairHash d' := by
  obtain ⟨hnamed, hown⟩ := h.own_step hs
  refine ⟨fun p => h.lock_step hs, hnamed, fun p => ?_⟩
  by_cases hp : p = a.actor
  · rw [hp]
    exact hown
  · exact h.knows_of_ne hs hp

theorem consistent_of_run (h : DirectoryRun pairHash hist d) : Consistent pairHash d :=
  h.invariant (I := fun _ d => Consistent pairHash d) consistent_emptyDirectory
    fun _ _ _ _ hI _ hs => hI.step hs

/-! ## Refused primaries -/

/-- The lock attempt of `p` was refused. -/
def RefusedIn (hist : List (Directory × Act)) (p : ℕ) : Prop :=
  ∃ d, (d, Act.step p) ∈ hist ∧ d.gate p = .lock ∧ d.lock ≠ none

/-- The steps of `p` have changed neither the record nor a generation's file. -/
def LeavesFiles (pairHash : List Char) (hist : List (Directory × Act)) (p : ℕ) : Prop :=
  ∀ e ∈ hist, e.2.actor = p → ∀ d', directoryStep pairHash e.1 e.2 = some d' →
    d'.current = e.1.current ∧ d'.shm = e.1.shm

/-- A lifecycle that is over stays so. -/
theorem over_of_step (hs : directoryStep pairHash d a = some d')
    (hp : d.gate p = .refused ∨ d.gate p = .dead) : d'.gate p = .refused ∨ d'.gate p = .dead := by
  by_cases hne : p = a.actor
  · subst hne
    cases a with
    | step p =>
      rcases hp with hp | hp <;> simp [directoryStep, show d.gate p = _ from hp, advance] at hs
    | draw p epoch =>
      rcases hp with hp | hp <;> simp [directoryStep, show d.gate p = _ from hp] at hs
    | raise p =>
      rcases hp with hp | hp <;> simp [directoryStep, show d.gate p = _ from hp, raised] at hs
    | close p => rcases hp with hp | hp <;> simp [directoryStep, show d.gate p = _ from hp] at hs
    | kill p =>
      cases hs
      exact .inr (gate_goto_self ..)
  · rwa [(gate_of_step hs hne).1]

/-- A refused primary is over. -/
theorem gate_of_refused (hs : directoryStep pairHash d (.step p) = some d')
    (hg : d.gate p = .lock) (hlock : d.lock ≠ none) : d' = d.goto p .refused := by
  simp only [directoryStep, hg, advance] at hs
  split at hs
  · contradiction
  · exact (Option.some.inj hs).symm

theorem leavesFiles_of_refused (h : DirectoryRun pairHash hist d) (hr : RefusedIn hist p) :
    LeavesFiles pairHash hist p := by
  suffices key : (d.gate p = .lock → ∀ e ∈ hist, e.2.actor ≠ p) ∧
      (RefusedIn hist p →
        (d.gate p = .refused ∨ d.gate p = .dead) ∧ LeavesFiles pairHash hist p) from (key.2 hr).2
  clear hr
  induction h with
  | start => exact ⟨fun _ => nofun, fun ⟨_, hmem, _⟩ => nomatch hmem⟩
  | @next hist d d' a h _ hs ih =>
    have hs : directoryStep pairHash d a = some d' := hs
    change (d'.gate p = .lock → ∀ e ∈ (d, a) :: hist, e.2.actor ≠ p) ∧
      (RefusedIn ((d, a) :: hist) p →
        (d'.gate p = .refused ∨ d'.gate p = .dead) ∧ LeavesFiles pairHash ((d, a) :: hist) p)
    refine ⟨fun hg => ?_, ?_⟩
    · -- at the lock attempt the lifecycle has not made a step
      have hne : a.actor ≠ p := by
        rintro rfl
        exact gate_ne_lock_of_step hs hg
      rw [(gate_of_step hs (Ne.symm hne)).1] at hg
      exact List.forall_mem_cons.mpr ⟨hne, ih.1 hg⟩
    · rintro ⟨d₀, hmem, hg, hlock⟩
      rcases List.mem_cons.mp hmem with heq | hmem
      · cases heq
        obtain rfl := gate_of_refused hs hg hlock
        refine ⟨.inl (gate_goto_self ..), List.forall_mem_cons.mpr ⟨fun _ d' hs' => ?_, ?_⟩⟩
        · obtain rfl := gate_of_refused hs' hg hlock
          exact ⟨rfl, rfl⟩
        · exact fun e he hp => absurd hp (ih.1 hg e he)
      · obtain ⟨hover, hleaves⟩ := ih.2 ⟨d₀, hmem, hg, hlock⟩
        refine ⟨over_of_step hs hover, List.forall_mem_cons.mpr ⟨?_, hleaves⟩⟩
        rintro rfl d' hs'
        obtain ⟨hc, hshm, -⟩ := frame_of_step hs' (by rcases hover with h | h <;> rw [h] <;> rfl)
        exact ⟨hc, hshm⟩

/-! ## Closing -/

/-- The epoch of a gate whose `close` is under way. -/
def Gate.closing : Gate → Option ℕ
  | .readRecord epoch | .unlinkCurrent epoch _ | .unlinkShm epoch _ => some epoch
  | .unlock epoch => epoch
  | _ => none

/-- **`close` leaves other records alone.** -/
theorem current_of_closing (h : Consistent pairHash d)
    (hs : directoryStep pairHash d (.step p) = some d')
    (hg : (d.gate p).closing = some epoch) {text : Text} (hcur : d.current = some text)
    (hother : text ≠ render pairHash epoch) : d'.current = some text := by
  have hknows := h.knows p
  simp only [directoryStep] at hs
  generalize d.gate p = g at hs hg hknows
  cases g with
  | readRecord _ =>
    simp only [advance] at hs
    split at hs
    · split at hs <;> cases hs <;> exact hcur
    · cases hs
      exact hcur
  | unlinkCurrent _ shm =>
    cases hg
    obtain ⟨-, -, hown⟩ := hknows
    rw [hcur] at hown
    exact absurd (Option.some.inj hown) hother
  | unlinkShm _ _ | unlock _ => cases hs; exact hcur
  | _ => cases hg

/-- The epoch of a gate that is about to create its generation. -/
def Gate.creating : Gate → Option ℕ
  | .nativeOpen epoch | .writeTmp epoch | .replaceCurrent epoch => some epoch
  | _ => none

/-- Nobody is about to create the generation, and nothing is left of it. -/
structure Gone (pairHash : List Char) (epoch : ℕ) (d : Directory) : Prop where
  record : d.current ≠ some (render pairHash epoch)
  file : shmName pairHash epoch ∉ d.shm
  idle : ∀ q, (d.gate q).creating ≠ some epoch

/-- An epoch comes from a draw. -/
theorem creating_of_step (hs : directoryStep pairHash d a = some d')
    (hc : (d'.gate a.actor).creating = some epoch) :
    (d.gate a.actor).creating = some epoch ∨ a = .draw a.actor epoch := by
  cases a with
  | step p =>
    refine .inl ?_
    simp only [directoryStep] at hs
    simp only [Act.actor] at hc ⊢
    generalize d.gate p = g at hs
    unfold advance at hs
    split at hs
    all_goals try split at hs
    all_goals try split at hs
    all_goals cases hs
    all_goals rw [gate_goto_self] at hc
    all_goals first
      | exact hc
      | cases hc
  | draw p epoch' =>
    simp only [directoryStep] at hs
    split at hs <;> cases hs
    rw [Act.actor, gate_goto_self] at hc
    cases hc
    exact .inr rfl
  | raise p =>
    obtain ⟨g, hg, rfl⟩ := Option.map_eq_some_iff.mp hs
    rw [Act.actor, gate_goto_self] at hc
    cases hd : d.gate p <;> rw [hd] at hg <;> cases hg <;> cases hc
  | close p =>
    simp only [directoryStep] at hs
    split at hs <;> cases hs
    rw [Act.actor, gate_goto_self] at hc
    cases hc
  | kill p =>
    cases hs
    rw [Act.actor, gate_goto_self] at hc
    cases hc

/-- A record is new only if its generation is being created, and so is a file. -/
theorem files_of_step (h : Consistent pairHash d) (hs : directoryStep pairHash d a = some d') :
    (∀ text, d'.current = some text → d.current = some text ∨
      ∃ epoch, (d.gate a.actor).creating = some epoch ∧ IsEpoch epoch ∧
        text = render pairHash epoch) ∧
    ∀ name ∈ d'.shm, name ∈ d.shm ∨
      ∃ epoch, (d.gate a.actor).creating = some epoch ∧ IsEpoch epoch ∧
        name = shmName pairHash epoch := by
  cases a with
  | step p =>
    have hknows := h.knows p
    simp only [directoryStep] at hs
    simp only [Act.actor]
    generalize d.gate p = g at hs hknows
    cases g with
    | nativeOpen epoch =>
      simp only [advance] at hs
      split at hs <;> cases hs
      · exact ⟨fun _ => .inl, fun _ => .inl⟩
      · refine ⟨fun _ => .inl, fun name hmem => ?_⟩
        rcases List.mem_cons.mp hmem with rfl | hmem
        · exact .inr ⟨epoch, rfl, hknows, rfl⟩
        · exact .inl hmem
    | replaceCurrent epoch =>
      obtain ⟨hepoch, -, htmp⟩ := hknows
      cases hs
      refine ⟨fun text htext => .inr ⟨epoch, rfl, hepoch, ?_⟩, fun _ => .inl⟩
      exact Option.some.inj (htext.symm.trans htmp)
    | removeStale epoch candidates =>
      cases candidates with
      | nil => cases hs; exact ⟨fun _ => .inl, fun _ => .inl⟩
      | cons candidate candidates =>
        simp only [advance] at hs
        split at hs <;> cases hs
        · exact ⟨fun _ => .inl, fun _ hmem => .inl (List.mem_of_mem_filter hmem)⟩
        · exact ⟨fun _ => .inl, fun _ => .inl⟩
    | unlinkCurrent epoch shm => cases hs; exact ⟨nofun, fun _ => .inl⟩
    | unlinkShm epoch shm =>
      cases hs
      exact ⟨fun _ => .inl, fun _ hmem => .inl (List.mem_of_mem_filter hmem)⟩
    | lock =>
      simp only [advance] at hs
      split at hs <;> cases hs <;> exact ⟨fun _ => .inl, fun _ => .inl⟩
    | readRecord epoch =>
      simp only [advance] at hs
      split at hs
      · split at hs <;> cases hs <;> exact ⟨fun _ => .inl, fun _ => .inl⟩
      · cases hs; exact ⟨fun _ => .inl, fun _ => .inl⟩
    | _ => cases hs <;> exact ⟨fun _ => .inl, fun _ => .inl⟩
  | draw p epoch' =>
    simp only [directoryStep] at hs
    split at hs <;> cases hs
    exact ⟨fun _ => .inl, fun _ => .inl⟩
  | raise p =>
    obtain ⟨g, hg, rfl⟩ := Option.map_eq_some_iff.mp hs
    exact ⟨fun _ => .inl, fun _ => .inl⟩
  | close p =>
    simp only [directoryStep] at hs
    split at hs <;> cases hs
    exact ⟨fun _ => .inl, fun _ => .inl⟩
  | kill p =>
    cases hs
    exact ⟨fun _ => .inl, fun _ => .inl⟩

/-- What is gone stays gone until its epoch is drawn again. -/
theorem Gone.step (hgone : Gone pairHash epoch d) (h : Consistent pairHash d)
    (hepoch : IsEpoch epoch) (hs : directoryStep pairHash d a = some d')
    (ha : ∀ q, a ≠ .draw q epoch) : Gone pairHash epoch d' := by
  obtain ⟨hrecord, hfile⟩ := files_of_step h hs
  refine ⟨fun hcur => ?_, fun hmem => ?_, fun q hq => ?_⟩
  · rcases hrecord _ hcur with hcur | ⟨epoch', hc, hepoch', heq⟩
    · exact hgone.record hcur
    · rw [← render_injective hepoch hepoch' heq] at hc
      exact hgone.idle _ hc
  · rcases hfile _ hmem with hmem | ⟨epoch', hc, hepoch', heq⟩
    · exact hgone.file hmem
    · rw [← shmName_injective hepoch hepoch' heq] at hc
      exact hgone.idle _ hc
  · by_cases hne : q = a.actor
    · subst hne
      rcases creating_of_step hs hq with hc | hdraw
      · exact hgone.idle _ hc
      · exact ha _ hdraw
    · rw [(gate_of_step hs hne).1] at hq
      exact hgone.idle _ hq

/-- When `close` returns, nothing is left of the generation. -/
theorem gone_of_unlock (h : Consistent pairHash d) (hg : d.gate p = .unlock (some epoch))
    (hs : directoryStep pairHash d (.step p) = some d') :
    IsEpoch epoch ∧ Gone pairHash epoch d' := by
  have hknows := h.knows p
  rw [hg] at hknows
  obtain ⟨hepoch, hrecord, hfile⟩ := hknows
  simp only [directoryStep, hg, advance] at hs
  cases hs
  refine ⟨hepoch, hrecord, hfile, fun q hq => ?_⟩
  by_cases hne : q = p
  · rw [hne, gate_goto_self] at hq
    cases hq
  · -- the closing lifecycle holds the lock, so nobody else creates a generation
    rw [gate_goto_of_ne _ _ hne] at hq
    have hq : (d.gate q).creating = some epoch := hq
    have hheld : (d.gate q).holds = true := by
      cases hd : d.gate q <;> rw [hd] at hq <;> first | rfl | cases hq
    have hlock := h.lock q hheld
    rw [h.lock p (by rw [hg]; rfl)] at hlock
    exact hne (Option.some.inj hlock).symm

/-- What a `close` has removed stays removed until the epoch is drawn again. -/
theorem gone_after_close {later past : List (Directory × Act)} {d₀ : Directory}
    (h : DirectoryRun pairHash (later ++ (d₀, .step p) :: past) d)
    (hg : d₀.gate p = .unlock (some epoch)) (hlater : ∀ e ∈ later, ∀ q, e.2 ≠ .draw q epoch) :
    IsEpoch epoch ∧ Gone pairHash epoch d := by
  generalize hhist : later ++ (d₀, .step p) :: past = hist at h
  induction h generalizing later with
  | start => simp at hhist
  | @next hist d d' a h hP hs ih =>
    have hs : directoryStep pairHash d a = some d' := hs
    have hd := consistent_of_run h
    cases later with
    | nil =>
      cases hhist
      exact gone_of_unlock hd hg hs
    | cons e later =>
      obtain ⟨rfl, rfl⟩ := List.cons.inj hhist
      obtain ⟨hepoch, hgone⟩ := ih (fun e he => hlater e (.tail _ he)) rfl
      exact ⟨hepoch, hgone.step hd hepoch hs (hlater _ (.head _))⟩

/-! ## The directory -/

/-- **Generations are published consistently.** In every run of any number of primaries on one
directory, each of which may raise or die between any two file operations:

* a record that exists is well formed and names a file that exists;
* a primary whose lock attempt was refused has changed neither the record nor a file;
* once a `close` has returned, neither the record of its generation nor its file is left, until
  somebody draws the same epoch;
* no step of a `close` touches the record of another generation. -/
theorem generation_publishing (h : DirectoryRun pairHash hist d) :
    (∀ text, d.current = some text →
      ∃ epoch name, readCurrent pairHash text = some (epoch, name) ∧ name ∈ d.shm) ∧
    (∀ p, RefusedIn hist p → LeavesFiles pairHash hist p) ∧
    (∀ later d₀ p epoch past, hist = later ++ (d₀, .step p) :: past →
      d₀.gate p = .unlock (some epoch) → (∀ e ∈ later, ∀ q, e.2 ≠ .draw q epoch) →
        d.current ≠ some (render pairHash epoch) ∧ shmName pairHash epoch ∉ d.shm) ∧
    (∀ p epoch text d', (d.gate p).closing = some epoch → d.current = some text →
      text ≠ render pairHash epoch → directoryStep pairHash d (.step p) = some d' →
        d'.current = some text) := by
  have hd := consistent_of_run h
  refine ⟨fun text hcur => ?_, fun p => leavesFiles_of_refused h, ?_, ?_⟩
  · obtain ⟨epoch, hepoch, rfl, hmem⟩ := hd.named text hcur
    exact ⟨epoch, _, readCurrent_render hepoch, hmem⟩
  · rintro later d₀ p epoch past rfl hg hlater
    obtain ⟨-, hgone⟩ := gone_after_close h hg hlater
    exact ⟨hgone.record, hgone.file⟩
  · exact fun p epoch text d' hg hcur hother hs => current_of_closing hd hs hg hcur hother

/-- A primary publishes, a second one is refused, the first one closes. -/
theorem generation_publishing_twoPrimaries :
    ∃ hist d, DirectoryRun [] hist d ∧ RefusedIn hist 1 ∧ LeavesFiles [] hist 1 ∧
      (∃ e ∈ hist, e.1.current = some (render [] 5)) ∧
      d.current ≠ some (render [] 5) ∧ shmName [] 5 ∉ d.shm := by
  have hrun := exists_directoryRun []
    ([.step 0, .draw 0 5, .step 1] ++ List.replicate 6 (.step 0) ++ .close 0 ::
      List.replicate 4 (.step 0))
    (fun hist _ => hist.any (fun e => e.2 = .step 1 ∧ e.1.gate 1 = .lock ∧ e.1.lock ≠ none) &&
      hist.any (fun e => e.1.current = some (render [] 5)) &&
      hist.head?.any (fun e => e.2 = .step 0 ∧ e.1.gate 0 = .unlock (some 5)))
    (by decide +kernel)
  obtain ⟨hist, d, hrun, htest⟩ := hrun
  simp only [Bool.and_eq_true, List.any_eq_true, decide_eq_true_eq, Option.any_eq_true,
    Prod.exists] at htest
  obtain ⟨⟨⟨d₁, _, hmem, rfl, hrefused⟩, d₂, a₂, hmem₂, hcur⟩, d₀, _, hhead, rfl, hg⟩ := htest
  obtain ⟨past, rfl⟩ := List.head?_eq_some_iff.mp hhead
  have hrefused : RefusedIn _ 1 := ⟨d₁, hmem, hrefused⟩
  obtain ⟨-, hleaves, hclosed, -⟩ := generation_publishing hrun
  exact ⟨_, d, hrun, hrefused, hleaves 1 hrefused, ⟨_, hmem₂, hcur⟩,
    hclosed [] d₀ 0 5 past rfl hg (by rintro _ ⟨⟩)⟩

end YellowZone.PairDirectory
