import Mathlib

/-!
# Tenures of a shared resource

A resource is held by one group at a time. A group is a team of ranks; the contexts that act for
a rank come and go, and a stale one may still be around when its successor has taken the slot. A
group is granted the resource, its ranks validate themselves one by one into the tenure, work,
and report completion in a mask; when the mask is full the tenure is recycled.

Nothing of this is atomic, and anybody may be arbitrarily late. This module is the argument why a
rank that has validated itself is always inside the current tenure of its group, in terms of what
each party has *seen*, with no program points and no memory.

## The argument

Every grant opens a new tenure of its group, and tenures are counted. A context records the count
when it joins a round (`Ghost.join`); since the group was not running then, seeing it running
means that a later tenure has opened. Each slot records the last tenure validated into
(`Ghost.valid`), which is the current one or the one before, and is the current one whenever the
group does not hold the resource. So a context that finds itself registered, and joined before
the tenure it has seen running, validates into a tenure that is open and that no other context of
its slot has validated into.

The state of a system enters through a `View`: which groups run, hold, are recycled; which
contexts have joined, seen, validated.

## Main definitions and results

* `Team`, `View`, `Ghost`, `Inv` — the vocabulary and the invariant
* `Ghost.Current`, `Ghost.Follows` — how the bookkeeping moves on in one step
* `Inv.weaken`, …, `Inv.releases` — what keeps it
* `Inv.held_of_holder` — who has validated itself is in the group that holds the resource
-/

namespace YellowZone.Machine

namespace Tenure

variable {ι κ : Type}

/-- Groups `ι`, and contexts `κ` acting for the ranks below `size` of a group. -/
structure Team (ι κ : Type) where
  group : κ → ι
  rank : κ → ℕ
  size : ℕ
  rank_lt : ∀ c, rank c < size

/-- What can be said about the resource at one moment. -/
structure View (ι κ : Type) where
  /-- The group is marked as running. -/
  running : ι → Prop
  /-- The group is marked as complete. -/
  complete : ι → Prop
  /-- The resource is granted to the group. -/
  held : ι → Prop
  /-- The tenure of the group is being recycled: it has been seen complete. -/
  recycling : ι → Prop
  /-- The recycled group has been marked as draining. -/
  drained : ι → Prop
  /-- The rank has reported completion. -/
  mask : ι → ℕ → Prop
  /-- The slot of the context is registered for it. -/
  registered : κ → Prop
  /-- The context has joined a round and not validated itself yet. -/
  joined : κ → Prop
  /-- It has, moreover, seen its group running. -/
  saw : κ → Prop
  /-- The context has validated itself and not reported completion yet. -/
  holder : κ → Prop
  /-- The context has reported last and will mark the group complete. -/
  last : κ → Prop

/-- The bookkeeping of the argument. -/
structure Ghost (ι κ : Type) where
  /-- How many tenures of the group have been opened. -/
  tenure : ι → ℕ
  /-- The last tenure into which a context of the slot has validated itself. -/
  valid : ι → ℕ → ℕ
  /-- The rank has reported in the current tenure. -/
  done : ι → ℕ → Prop
  /-- Everybody has reported, and whoever was last has found out. -/
  full : ι → Prop
  /-- The number of tenures when the context joined. -/
  join : κ → ℕ

/-- The slot has been validated into the current tenure of its group. -/
def Ghost.Current (γ : Ghost ι κ) (i : ι) (r : ℕ) : Prop := γ.valid i r = γ.tenure i

/-- How the bookkeeping follows a step in which the groups `opened` get a new tenure, the slots
`validated` are validated into theirs and the ranks `reported` report in theirs. -/
structure Ghost.Follows (γ γ' : Ghost ι κ) (opened : ι → Prop) (validated reported : ι → ℕ → Prop) :
    Prop where
  current : ∀ i r, γ'.Current i r ↔ validated i r ∨ γ.Current i r ∧ ¬opened i
  done : ∀ i r, γ'.done i r ↔ reported i r ∨ γ.done i r ∧ ¬opened i

/-- What has happened may be described in other words. -/
theorem Ghost.Follows.congr {γ γ' : Ghost ι κ} {o o' : ι → Prop} {v v' r r' : ι → ℕ → Prop}
    (h : γ.Follows γ' o v r) (ho : ∀ i, o' i ↔ o i) (hv : ∀ i n, v' i n ↔ v i n)
    (hr : ∀ i n, r' i n ↔ r i n) : γ.Follows γ' o' v' r' where
  current i n := by rw [h.current, ho, hv]
  done i n := by rw [h.done, ho, hr]

/-- Nothing is noted when nothing of this kind happens. -/
theorem Ghost.Follows.refl (γ : Ghost ι κ) :
    γ.Follows γ (fun _ => False) (fun _ _ => False) fun _ _ => False where
  current i r := by simp
  done i r := by simp

/-- The mask names every rank. -/
def Full (T : Team ι κ) (v : View ι κ) (i : ι) : Prop := ∀ r, r < T.size → v.mask i r

/-- The mask names no rank. -/
def Empty (v : View ι κ) (i : ι) : Prop := ∀ r, ¬v.mask i r

/-- The slot of a context. -/
def Team.At (T : Team ι κ) (c : κ) (i : ι) (r : ℕ) : Prop := i = T.group c ∧ r = T.rank c

/-- Two contexts acting for one rank. -/
def Team.SameSlot (T : Team ι κ) (c d : κ) : Prop := T.group c = T.group d ∧ T.rank c = T.rank d

/-- The invariant. -/
structure Inv (T : Team ι κ) (γ : Ghost ι κ) (v : View ι κ) : Prop where
  held_of_running : ∀ i, v.running i → v.held i
  registered_unique : ∀ c d, v.registered c → v.registered d → T.SameSlot c d → c = d
  joined_of_saw : ∀ c, v.saw c → v.joined c
  join_le : ∀ c, v.joined c → γ.join c ≤ γ.tenure (T.group c)
  not_running_of_join : ∀ c, v.joined c → γ.join c = γ.tenure (T.group c) →
    ¬v.running (T.group c)
  join_lt : ∀ c, v.saw c → γ.join c < γ.tenure (T.group c)
  valid_le_join : ∀ c, v.joined c → v.registered c → γ.valid (T.group c) (T.rank c) ≤ γ.join c
  valid_le : ∀ i r, γ.valid i r ≤ γ.tenure i
  tenure_le : ∀ i r, r < T.size → γ.tenure i ≤ γ.valid i r + 1
  valid_eq : ∀ i r, r < T.size → ¬v.held i → γ.valid i r = γ.tenure i
  held_of_holder : ∀ c, v.holder c → v.held (T.group c)
  valid_of_holder : ∀ c, v.holder c → γ.valid (T.group c) (T.rank c) = γ.tenure (T.group c)
  not_done_of_holder : ∀ c, v.holder c → ¬γ.done (T.group c) (T.rank c)
  holder_unique : ∀ c d, v.holder c → v.holder d → T.SameSlot c d → c = d
  valid_of_done : ∀ i r, γ.done i r → γ.valid i r = γ.tenure i
  mask_held : ∀ i, v.held i → Full T v i ∨ ∀ r, v.mask i r → γ.done i r
  mask_free : ∀ i, ¬v.held i → Full T v i ∨ Empty v i
  held_of_full : ∀ i, γ.full i → v.held i
  done_of_full : ∀ i, γ.full i → ∀ r, r < T.size → γ.done i r
  mask_of_full : ∀ i, γ.full i → Full T v i ∨ Empty v i
  full_of_last : ∀ c, v.last c → γ.full (T.group c)
  not_complete_of_last : ∀ c, v.last c → ¬v.complete (T.group c)
  not_recycling_of_last : ∀ c, v.last c → ¬v.recycling (T.group c)
  last_unique : ∀ c d, v.last c → v.last d → T.group c = T.group d → c = d
  full_of_complete : ∀ i, v.complete i → γ.full i
  full_of_recycling : ∀ i, v.recycling i → γ.full i
  drained : ∀ i, v.drained i → v.recycling i ∧ ¬v.complete i ∧ ¬v.running i

/-- The marks of `v'` are those of `v`, or fewer, or cleared. -/
structure View.MarksLe (v' v : View ι κ) : Prop where
  running : ∀ i, v'.running i → v.running i
  complete : ∀ i, v'.complete i → v.complete i
  held : ∀ i, v'.held i ↔ v.held i
  recycling : ∀ i, v'.recycling i → v.recycling i
  drained : ∀ i, v'.drained i → v'.recycling i ∧ (v.drained i ∨ ¬v'.complete i ∧ ¬v'.running i)
  mask : ∀ i, (∀ r, v'.mask i r ↔ v.mask i r) ∨ Empty v' i
  registered : ∀ c, v'.registered c → v.registered c

/-- `v'` is `v` with something taken away: marks, or roles of contexts. -/
structure View.Le (v' v : View ι κ) : Prop extends View.MarksLe v' v where
  joined : ∀ c, v'.joined c → v.joined c
  saw : ∀ c, v'.saw c → v.saw c ∧ v'.joined c
  holder : ∀ c, v'.holder c → v.holder c
  last : ∀ c, v'.last c → v.last c

variable {T : Team ι κ} {γ : Ghost ι κ} {v v' : View ι κ}

theorem View.MarksLe.full_or_empty (h : v'.MarksLe v) {i : ι} (hf : Full T v i ∨ Empty v i) :
    Full T v' i ∨ Empty v' i := by
  rcases h.mask i with hm | hm
  · exact hf.imp (fun hf r hr => (hm r).mpr (hf r hr)) fun he r hr => he r ((hm r).mp hr)
  · exact .inr hm

/-- Taking something away keeps the invariant. -/
theorem Inv.weaken (h : Inv T γ v) (hle : v'.Le v) : Inv T γ v' where
  held_of_running i hi := (hle.held i).mpr (h.held_of_running i (hle.running i hi))
  registered_unique c d hc hd :=
    h.registered_unique c d (hle.registered c hc) (hle.registered d hd)
  joined_of_saw c hc := (hle.saw c hc).2
  join_le c hc := h.join_le c (hle.joined c hc)
  not_running_of_join c hc he hr :=
    h.not_running_of_join c (hle.joined c hc) he (hle.running _ hr)
  join_lt c hc := h.join_lt c (hle.saw c hc).1
  valid_le_join c hc hr := h.valid_le_join c (hle.joined c hc) (hle.registered c hr)
  valid_le := h.valid_le
  tenure_le := h.tenure_le
  valid_eq i r hr hi := h.valid_eq i r hr fun hh => hi ((hle.held i).mpr hh)
  held_of_holder c hc := (hle.held _).mpr (h.held_of_holder c (hle.holder c hc))
  valid_of_holder c hc := h.valid_of_holder c (hle.holder c hc)
  not_done_of_holder c hc := h.not_done_of_holder c (hle.holder c hc)
  holder_unique c d hc hd := h.holder_unique c d (hle.holder c hc) (hle.holder d hd)
  valid_of_done := h.valid_of_done
  mask_held i hi := by
    rcases hle.mask i with hm | hm
    · exact (h.mask_held i ((hle.held i).mp hi)).imp (fun hf r hr => (hm r).mpr (hf r hr))
        fun hd r hr => hd r ((hm r).mp hr)
    · exact .inr fun r hr => absurd hr (hm r)
  mask_free i hi := hle.full_or_empty (h.mask_free i fun hh => hi ((hle.held i).mpr hh))
  held_of_full i hi := (hle.held i).mpr (h.held_of_full i hi)
  done_of_full := h.done_of_full
  mask_of_full i hi := hle.full_or_empty (h.mask_of_full i hi)
  full_of_last c hc := h.full_of_last c (hle.last c hc)
  not_complete_of_last c hc hh := h.not_complete_of_last c (hle.last c hc) (hle.complete _ hh)
  not_recycling_of_last c hc hh := h.not_recycling_of_last c (hle.last c hc) (hle.recycling _ hh)
  last_unique c d hc hd := h.last_unique c d (hle.last c hc) (hle.last d hd)
  full_of_complete i hi := h.full_of_complete i (hle.complete i hi)
  full_of_recycling i hi := h.full_of_recycling i (hle.recycling i hi)
  drained i hi := by
    obtain ⟨hr, hd | hd⟩ := hle.drained i hi
    · have := h.drained i hd
      exact ⟨hr, fun hc => this.2.1 (hle.complete i hc), fun hc => this.2.2 (hle.running i hc)⟩
    · exact ⟨hr, hd⟩

/-! ## Contexts joining, seeing and validating -/

/-- A context joins a round while its group is not running. -/
theorem Inv.joins (h : Inv T γ v) (c : κ) (hr : ¬v.running (T.group c)) (hs : ¬v.saw c) :
    ∃ γ', γ.Follows γ' (fun _ => False) (fun _ _ => False) (fun _ _ => False) ∧
      Inv T γ' { v with joined := fun d => v.joined d ∨ d = c } := by
  classical
  refine ⟨{ γ with join := Function.update γ.join c (γ.tenure (T.group c)) },
    ⟨(Ghost.Follows.refl γ).current, (Ghost.Follows.refl γ).done⟩, { h with
    joined_of_saw := fun d hd => .inl (h.joined_of_saw d hd)
    join_le := ?_
    not_running_of_join := ?_
    join_lt := ?_
    valid_le_join := ?_ }⟩
  · rintro d (hd | rfl)
    · by_cases hdc : d = c
      · subst hdc; simp
      · simpa [hdc] using h.join_le d hd
    · simp
  · rintro d hd he
    by_cases hdc : d = c
    · subst hdc; exact hr
    · exact h.not_running_of_join d (hd.resolve_right hdc) (by simpa [hdc] using he)
  · intro d hd
    have hdc : d ≠ c := by rintro rfl; exact hs hd
    simpa [hdc] using h.join_lt d hd
  · intro d hd hreg
    by_cases hdc : d = c
    · subst hdc; simpa using h.valid_le _ _
    · simpa [hdc] using h.valid_le_join d (hd.resolve_right hdc) hreg

/-- A joined context sees its group running: a tenure has been opened since it joined. -/
theorem Inv.sees (h : Inv T γ v) (c : κ) (hj : v.joined c) (hr : v.running (T.group c)) :
    Inv T γ { v with saw := fun d => v.saw d ∨ d = c } := by
  refine { h with
    joined_of_saw := ?_
    join_lt := ?_ }
  · rintro d (hd | rfl)
    · exact h.joined_of_saw d hd
    · exact hj
  · rintro d (hd | rfl)
    · exact h.join_lt d hd
    · exact Nat.lt_of_le_of_ne (h.join_le d hj) fun he => h.not_running_of_join d hj he hr

/-- The tenure a registered context has seen is open, and nobody has validated into it for its
slot. -/
theorem Inv.open_of_saw (h : Inv T γ v) {c : κ} (hs : v.saw c) (hreg : v.registered c) :
    γ.valid (T.group c) (T.rank c) < γ.tenure (T.group c) ∧ v.held (T.group c) := by
  have hlt : γ.valid (T.group c) (T.rank c) < γ.tenure (T.group c) :=
    Nat.lt_of_le_of_lt (h.valid_le_join c (h.joined_of_saw c hs) hreg) (h.join_lt c hs)
  refine ⟨hlt, ?_⟩
  by_contra hh
  have := h.valid_eq _ _ (T.rank_lt c) hh
  omega

/-- A context that has seen its group running and finds itself registered validates itself. -/
theorem Inv.validates (h : Inv T γ v) (c : κ) (hs : v.saw c) (hreg : v.registered c) :
    ∃ γ', γ.Follows γ' (fun _ => False) (T.At c) (fun _ _ => False) ∧ Inv T γ' { v with
      joined := fun d => v.joined d ∧ d ≠ c
      saw := fun d => v.saw d ∧ d ≠ c
      holder := fun d => v.holder d ∨ d = c } := by
  classical
  obtain ⟨hlt, hheld⟩ := h.open_of_saw hs hreg
  -- the slot is validated into the current tenure, every other slot is left alone
  let valid' : ι → ℕ → ℕ := fun i r =>
    if i = T.group c ∧ r = T.rank c then γ.tenure i else γ.valid i r
  have hself : valid' (T.group c) (T.rank c) = γ.tenure (T.group c) := by simp [valid']
  have hval : ∀ i r, γ.valid i r ≤ valid' i r ∧ valid' i r ≤ γ.tenure i := by
    intro i r
    by_cases hi : i = T.group c ∧ r = T.rank c <;> simp [valid', hi, h.valid_le]
  have hother : ∀ i r, γ.valid i r = γ.tenure i → valid' i r = γ.tenure i := by
    intro i r he
    have := hval i r
    omega
  have hnodone : ¬γ.done (T.group c) (T.rank c) := fun hd => by
    have := h.valid_of_done _ _ hd
    omega
  have hnoholder : ∀ d, v.holder d → ¬T.SameSlot d c := fun d hd hsame => by
    have := h.valid_of_holder d hd
    rw [hsame.1, hsame.2] at this
    omega
  refine ⟨{ γ with valid := valid' }, ⟨fun i r => ?_, by simp⟩, { h with
    joined_of_saw := fun d hd => ⟨h.joined_of_saw d hd.1, hd.2⟩
    join_le := fun d hd => h.join_le d hd.1
    not_running_of_join := fun d hd => h.not_running_of_join d hd.1
    join_lt := fun d hd => h.join_lt d hd.1
    valid_le_join := ?_
    valid_le := fun i r => (hval i r).2
    tenure_le := fun i r hr => Nat.le_trans (h.tenure_le i r hr) (Nat.succ_le_succ (hval i r).1)
    valid_eq := fun i r hr hi => hother i r (h.valid_eq i r hr hi)
    held_of_holder := ?_
    valid_of_holder := ?_
    not_done_of_holder := ?_
    holder_unique := ?_
    valid_of_done := fun i r hd => hother i r (h.valid_of_done i r hd) }⟩
  · by_cases hi : i = T.group c ∧ r = T.rank c <;>
      simp [Ghost.Current, Team.At, valid', hi]
  · intro d hd hdreg
    have hslot : ¬(T.group d = T.group c ∧ T.rank d = T.rank c) := fun hsame =>
      hd.2 (h.registered_unique d c hdreg hreg hsame)
    simpa [valid', hslot] using h.valid_le_join d hd.1 hdreg
  · rintro d (hd | rfl)
    · exact h.held_of_holder d hd
    · exact hheld
  · rintro d (hd | rfl)
    · exact hother _ _ (h.valid_of_holder d hd)
    · exact hself
  · rintro d (hd | rfl)
    · exact h.not_done_of_holder d hd
    · exact hnodone
  · rintro d e (hd | rfl) (he | rfl) hsame
    · exact h.holder_unique d e hd he hsame
    · exact absurd hsame (hnoholder d hd)
    · exact absurd ⟨hsame.1.symm, hsame.2.symm⟩ (hnoholder e he)
    · rfl

/-- A slot is registered for another context, one that has not joined. -/
theorem Inv.claims (h : Inv T γ v) (c : κ) (hj : ¬v.joined c) :
    Inv T γ { v with registered := fun d => v.registered d ∧ ¬T.SameSlot d c ∨ d = c } := by
  refine { h with
    registered_unique := ?_
    valid_le_join := ?_ }
  · rintro d e (hd | rfl) (he | rfl) hsame
    · exact h.registered_unique d e hd.1 he.1 hsame
    · exact absurd hsame hd.2
    · exact absurd ⟨hsame.1.symm, hsame.2.symm⟩ he.2
    · rfl
  · rintro d hd (hreg | rfl)
    · exact h.valid_le_join d hd hreg.1
    · exact absurd hd hj

/-! ## Completing a tenure -/

/-- A holder reports completion. If its bit was missing and is now the last one, it will mark the
group complete. -/
theorem Inv.finishes (h : Inv T γ v) (c : κ) (hc : v.holder c) (l : Prop)
    (hl : l → ¬v.mask (T.group c) (T.rank c) ∧
      ∀ r, r < T.size → v.mask (T.group c) r ∨ r = T.rank c) :
    ∃ γ', γ.Follows γ' (fun _ => False) (fun _ _ => False) (T.At c) ∧ Inv T γ' { v with
      holder := fun d => v.holder d ∧ d ≠ c
      mask := fun i r => v.mask i r ∨ i = T.group c ∧ r = T.rank c
      last := fun d => v.last d ∨ d = c ∧ l } := by
  have hheld := h.held_of_holder c hc
  have hnotfull : ¬γ.full (T.group c) := fun hf =>
    h.not_done_of_holder c hc (h.done_of_full _ hf _ (T.rank_lt c))
  have hdone : l → ∀ r, r < T.size → γ.done (T.group c) r ∨ r = T.rank c := by
    intro hl' r hr
    obtain ⟨hmiss, hall⟩ := hl hl'
    rcases h.mask_held _ hheld with hfull | hsub
    · exact absurd (hfull _ (T.rank_lt c)) hmiss
    · exact (hall r hr).imp (hsub r) id
  refine ⟨{ γ with
    done := fun i r => γ.done i r ∨ i = T.group c ∧ r = T.rank c
    full := fun i => γ.full i ∨ i = T.group c ∧ l },
    ⟨(Ghost.Follows.refl γ).current, fun i r => by simp [Team.At, or_comm]⟩, { h with
    held_of_holder := fun d hd => h.held_of_holder d hd.1
    valid_of_holder := fun d hd => h.valid_of_holder d hd.1
    not_done_of_holder := ?_
    holder_unique := fun d e hd he => h.holder_unique d e hd.1 he.1
    valid_of_done := ?_
    mask_held := ?_
    mask_free := ?_
    held_of_full := ?_
    done_of_full := ?_
    mask_of_full := ?_
    full_of_last := ?_
    not_complete_of_last := ?_
    not_recycling_of_last := ?_
    last_unique := ?_
    full_of_complete := fun i hi => .inl (h.full_of_complete i hi)
    full_of_recycling := fun i hi => .inl (h.full_of_recycling i hi) }⟩
  · rintro d ⟨hd, hne⟩ (hdd | hsame)
    · exact h.not_done_of_holder d hd hdd
    · exact hne (h.holder_unique d c hd hc hsame)
  · rintro i r (hd | ⟨rfl, rfl⟩)
    · exact h.valid_of_done i r hd
    · exact h.valid_of_holder c hc
  · intro i hi
    refine (h.mask_held i hi).imp (fun hf r hr => .inl (hf r hr)) fun hsub r hr => ?_
    exact hr.imp (hsub r) id
  · intro i hi
    have hne : i ≠ T.group c := by rintro rfl; exact hi hheld
    refine (h.mask_free i hi).imp (fun hf r hr => .inl (hf r hr)) fun he r hr => ?_
    exact hr.elim (he r) fun h => hne h.1
  · rintro i (hi | ⟨rfl, -⟩)
    · exact h.held_of_full i hi
    · exact hheld
  · rintro i (hi | ⟨rfl, hl'⟩) r hr
    · exact .inl (h.done_of_full i hi r hr)
    · exact (hdone hl' r hr).imp id fun hr => ⟨rfl, hr⟩
  · rintro i (hi | ⟨rfl, hl'⟩)
    · have hne : i ≠ T.group c := by rintro rfl; exact hnotfull hi
      refine (h.mask_of_full i hi).imp (fun hf r hr => .inl (hf r hr)) fun he r hr => ?_
      exact hr.elim (he r) fun h => hne h.1
    · exact .inl fun r hr => ((hl hl').2 r hr).imp id fun hr => ⟨rfl, hr⟩
  · rintro d (hd | ⟨rfl, hl'⟩)
    · exact .inl (h.full_of_last d hd)
    · exact .inr ⟨rfl, hl'⟩
  · rintro d (hd | ⟨rfl, -⟩)
    · exact h.not_complete_of_last d hd
    · exact fun hcomp => hnotfull (h.full_of_complete _ hcomp)
  · rintro d (hd | ⟨rfl, -⟩)
    · exact h.not_recycling_of_last d hd
    · exact fun hrec => hnotfull (h.full_of_recycling _ hrec)
  · rintro d e (hd | ⟨rfl, -⟩) (he | ⟨rfl, -⟩) hsame
    · exact h.last_unique d e hd he hsame
    · exact absurd (hsame ▸ h.full_of_last d hd) hnotfull
    · exact absurd (hsame ▸ h.full_of_last e he) hnotfull
    · rfl

/-- Who reported last marks the group complete. -/
theorem Inv.publishes (h : Inv T γ v) (c : κ) (hc : v.last c) :
    Inv T γ { v with
      complete := fun i => v.complete i ∨ i = T.group c
      last := fun d => v.last d ∧ d ≠ c } := by
  refine { h with
    full_of_last := fun d hd => h.full_of_last d hd.1
    not_complete_of_last := ?_
    not_recycling_of_last := fun d hd => h.not_recycling_of_last d hd.1
    last_unique := fun d e hd he => h.last_unique d e hd.1 he.1
    full_of_complete := ?_
    drained := ?_ }
  · rintro d ⟨hd, hne⟩ (hcomp | hsame)
    · exact h.not_complete_of_last d hd hcomp
    · exact hne (h.last_unique d c hd hc hsame)
  · rintro i (hi | rfl)
    · exact h.full_of_complete i hi
    · exact h.full_of_last c hc
  · intro i hi
    obtain ⟨hrec, hcomp, hrun⟩ := h.drained i hi
    refine ⟨hrec, ?_, hrun⟩
    rintro (hcomp' | rfl)
    · exact hcomp hcomp'
    · exact h.not_recycling_of_last c hc hrec

/-- The tenure of a complete group may be recycled. -/
theorem Inv.seesComplete (h : Inv T γ v) (i : ι) (hi : v.complete i) :
    Inv T γ { v with recycling := fun j => v.recycling j ∨ j = i } := by
  refine { h with
    not_recycling_of_last := ?_
    full_of_recycling := ?_
    drained := fun j hj => ⟨.inl (h.drained j hj).1, (h.drained j hj).2⟩ }
  · rintro d hd (hrec | rfl)
    · exact h.not_recycling_of_last d hd hrec
    · exact h.not_complete_of_last d hd hi
  · rintro j (hj | rfl)
    · exact h.full_of_recycling j hj
    · exact h.full_of_complete j hi

/-! ## Granting and releasing -/

/-- A free resource is granted to a group: its next tenure opens. -/
theorem Inv.grants (h : Inv T γ v) (i : ι) (hfree : ∀ j, ¬v.held j) :
    ∃ γ', γ.Follows γ' (fun j => j = i) (fun _ _ => False) (fun _ _ => False) ∧ Inv T γ' { v with
      held := fun j => j = i
      running := fun j => j = i } := by
  classical
  have hnofull : ∀ j, ¬γ.full j := fun j hj => hfree j (h.held_of_full j hj)
  have hnoholder : ∀ c, ¬v.holder c := fun c hc => hfree _ (h.held_of_holder c hc)
  let tenure' : ι → ℕ := fun j => if j = i then γ.tenure j + 1 else γ.tenure j
  have hle : ∀ j, γ.tenure j ≤ tenure' j := by
    intro j
    by_cases hj : j = i <;> simp [tenure', hj]
  refine ⟨{ γ with
    tenure := tenure'
    done := fun j r => γ.done j r ∧ j ≠ i }, ⟨fun j r => ?_, by simp⟩, { h with
    held_of_running := fun j hj => hj
    join_le := fun c hc => Nat.le_trans (h.join_le c hc) (hle _)
    not_running_of_join := ?_
    join_lt := fun c hc => Nat.lt_of_lt_of_le (h.join_lt c hc) (hle _)
    valid_le := fun j r => Nat.le_trans (h.valid_le j r) (hle j)
    tenure_le := ?_
    valid_eq := ?_
    held_of_holder := fun c hc => absurd hc (hnoholder c)
    valid_of_holder := fun c hc => absurd hc (hnoholder c)
    not_done_of_holder := fun c hc => absurd hc (hnoholder c)
    valid_of_done := ?_
    mask_held := ?_
    mask_free := fun j _ => h.mask_free j (hfree j)
    held_of_full := fun j hj => absurd hj (hnofull j)
    done_of_full := fun j hj => absurd hj (hnofull j)
    drained := fun j hj => absurd (h.full_of_recycling j (h.drained j hj).1) (hnofull j) }⟩
  · have := h.valid_le j r
    by_cases hj : j = i
    · simp only [Ghost.Current, tenure', hj, if_true, false_or, not_true, and_false, iff_false]
      rw [hj] at this
      omega
    · simp [Ghost.Current, tenure', hj]
  · rintro c hc he rfl
    have := h.join_le c hc
    simp only [tenure', if_true] at he
    omega
  · intro j r hr
    have := h.valid_eq j r hr (hfree j)
    change tenure' j ≤ γ.valid j r + 1
    by_cases hj : j = i <;> simp only [tenure', hj, if_true, if_false] at * <;> omega
  · intro j r hr hj
    have hj : j ≠ i := hj
    simpa [tenure', hj] using h.valid_eq j r hr (hfree j)
  · rintro j r ⟨hd, hj⟩
    simpa [tenure', hj] using h.valid_of_done j r hd
  · rintro j rfl
    exact (h.mask_free j (hfree j)).imp id fun he r hr => absurd hr (he r)

/-- A recycled and drained tenure ends. -/
theorem Inv.releases (h : Inv T γ v) (i : ι) (hd : v.drained i) (hheld : ∀ j, v.held j → j = i) :
    ∃ γ', γ.Follows γ' (fun _ => False) (fun _ _ => False) (fun _ _ => False) ∧ Inv T γ' { v with
      held := fun _ => False
      recycling := fun _ => False
      drained := fun _ => False } := by
  obtain ⟨hrec, hcomp, hrun⟩ := h.drained i hd
  have hfull := h.full_of_recycling i hrec
  have hdone := h.done_of_full i hfull
  have honly : ∀ j, γ.full j → j = i := fun j hj => hheld j (h.held_of_full j hj)
  refine ⟨{ γ with full := fun _ => False },
    ⟨(Ghost.Follows.refl γ).current, (Ghost.Follows.refl γ).done⟩, { h with
    held_of_running := ?_
    valid_eq := ?_
    held_of_holder := ?_
    mask_held := fun j hj => hj.elim
    mask_free := ?_
    held_of_full := fun j hj => hj.elim
    done_of_full := fun j hj => hj.elim
    mask_of_full := fun j hj => hj.elim
    full_of_last := ?_
    not_recycling_of_last := fun _ _ hj => hj.elim
    full_of_complete := ?_
    full_of_recycling := fun _ hj => hj.elim
    drained := fun _ hj => hj.elim }⟩
  · intro j hj
    obtain rfl := hheld j (h.held_of_running j hj)
    exact hrun hj
  · intro j r hr _
    by_cases hj : v.held j
    · obtain rfl := hheld j hj
      exact h.valid_of_done j r (hdone r hr)
    · exact h.valid_eq j r hr hj
  · intro c hc
    obtain rfl := hheld _ (h.held_of_holder c hc)
    exact h.not_done_of_holder c hc (hdone _ (T.rank_lt c))
  · intro j _
    by_cases hj : v.held j
    · obtain rfl := hheld j hj
      exact h.mask_of_full j hfull
    · exact h.mask_free j hj
  · intro c hc
    obtain rfl := honly _ (h.full_of_last c hc)
    exact h.not_recycling_of_last c hc hrec
  · intro j hj
    obtain rfl := honly j (h.full_of_complete j hj)
    exact hcomp hj

end Tenure

end YellowZone.Machine
