import YellowZone.NpuManager.Devices

/-!
# Which device `rtSetDevice` selects

`rtSetDevice(d)` is called with a logic id, and should make the device with this id the active one.
`validate_and_set_device_context` does so if it comes to its search. But two cases come before and
after it.

If there is an active device, then it is kept when `d` is zero, or when `d` is its *device* id, its
number on the card, which is another number space. And without an active device, zero selects the
first slot of the table, whatever its logic id is.

So a device once selected is not left by `rtSetDevice(0)`. The exact condition, `KeepsRight`, says
of the device that is active before the call that keeping it does no harm.

## Main definitions and results

* `Ready` — a table after its initialization
* `activeAfter` — the active device after a history of calls
* `set_device_iff` — when the right device is selected
* `wrong_device_kept` — a history after which it is not
-/

namespace YellowZone.NpuManager

open NpuConfig

/-- A table with `n` devices, with distinct logic ids. -/
structure Ready (m : Manager) (n : ℕ) : Prop where
  deviceCount : m.deviceCount = n
  bound : n ≤ maxNpuDevices
  distinct : ∀ i < n, ∀ j < n, (m.infos i).logicId = (m.infos j).logicId → i = j

/-- The active device after some calls of `rtSetDevice`, each with the answer of the runtime. There
is none in the beginning. -/
def activeAfter (m : Manager) (n : ℕ) (calls : List (ℤ × (ℤ → Bool))) : ℤ :=
  calls.foldl (fun active call => (rtSetDevice m n active call.1 call.2).active) invalidValue

/-- The active device is one of the table. -/
def IsActive (n : ℕ) (active : ℤ) : Prop := 0 ≤ active ∧ active < n

/-- If the call keeps the active device, or takes the first one by default, then this has the logic
id that is asked for. -/
def KeepsRight (m : Manager) (n : ℕ) (active d : ℤ) : Prop :=
  (IsActive n active → d = 0 ∨ d = (m.infos active.toNat).deviceId →
      (m.infos active.toNat).logicId = d) ∧
    (¬ IsActive n active → d = 0 → (m.infos 0).logicId = 0)

section SetDevice

variable {m : Manager} {n : ℕ} {active d : ℤ} {runtime : ℤ → Bool}

/-- The device is kept. -/
theorem rtSetDevice_keep (h : Ready m n) (hactive : IsActive n active) (hd : 0 ≤ d)
    (hkeep : d = 0 ∨ d = (m.infos active.toNat).deviceId) :
    rtSetDevice m n active d runtime
      = ⟨active, some (m.infos active.toNat).logicId, runtime (m.infos active.toNat).logicId⟩ := by
  have hbound := h.bound
  have hslot : 0 ≤ active ∧ active < maxNpuDevices := ⟨hactive.1, by have := hactive.2; omega⟩
  have hid : getDeviceId m active = (m.infos active.toNat).deviceId := if_pos hslot
  have hvalid : validateAndSetDeviceContext m n active d = some (active, active) := by
    rw [validateAndSetDeviceContext, if_neg (by omega), if_pos]
    rw [hid]
    exact ⟨hactive, hkeep⟩
  rw [rtSetDevice, hvalid]
  simp only [if_pos hslot]

/-- The device is searched for. -/
theorem rtSetDevice_search (h : Ready m n) (hd : 0 < d)
    (hkeep : IsActive n active → d ≠ (m.infos active.toNat).deviceId) {j : ℕ} (hj : j < n)
    (hlogic : (m.infos j).logicId = d) :
    rtSetDevice m n active d runtime = ⟨j, some d, runtime d⟩ := by
  have hbound := h.bound
  have hslot : (0 : ℤ) ≤ j ∧ (j : ℤ) < maxNpuDevices := by omega
  have hinfo : ∀ i < n, getDeviceInfoByIndex m i = some (m.infos i) := by
    intro i hi
    rw [getDeviceInfoByIndex, if_neg (by omega), if_neg (by rw [h.deviceCount]; omega)]
  have hfound : (List.range n).find? (fun i =>
      ((getDeviceInfoByIndex m i).map NpuInfo.logicId) = some d) = some j := by
    rw [List.find?_range_eq_some]
    refine ⟨by simp [hinfo j hj, hlogic], by simpa using hj, fun i hi => ?_⟩
    have hi' : i < n := by omega
    have hne : (m.infos i).logicId ≠ d := by
      intro heq
      exact absurd (h.distinct i hi' j hj (heq.trans hlogic.symm)) (by omega)
    simpa [hinfo i hi'] using hne
  have hnot : ¬ ((0 ≤ active ∧ active < n) ∧ (d = 0 ∨ d = getDeviceId m active)) := by
    rintro ⟨hactive, hzero | hid⟩
    · omega
    · refine hkeep hactive ?_
      rwa [getDeviceId, if_pos ⟨hactive.1, by have := hactive.2; omega⟩] at hid
  have hvalid : validateAndSetDeviceContext m n active d = some ((j : ℤ), (j : ℤ)) := by
    rw [validateAndSetDeviceContext, if_neg (by omega), if_neg hnot]
    simp only [hfound, ne_eq, hd.ne', not_false_eq_true, if_true, setActiveDeviceId, if_pos hslot]
  rw [rtSetDevice, hvalid]
  simp only [if_pos hslot, Int.toNat_natCast, hlogic]

/-- The first device is taken by default. -/
theorem rtSetDevice_default (hactive : ¬ IsActive n active) :
    rtSetDevice m n active 0 runtime
      = ⟨0, some (m.infos 0).logicId, runtime (m.infos 0).logicId⟩ := by
  have hnot : ¬ ((0 ≤ active ∧ active < n) ∧ ((0 : ℤ) = 0 ∨ (0 : ℤ) = getDeviceId m active)) :=
    fun h => hactive h.1
  have hvalid : validateAndSetDeviceContext m n active 0 = some (0, 0) := by
    rw [validateAndSetDeviceContext, if_neg (by omega), if_neg hnot]
    rfl
  rw [rtSetDevice, hvalid]
  rfl

end SetDevice

/-- **When the right device is selected.** After any history, a successful call with the logic id of
the device `j` selects this device and passes the id on, exactly if `KeepsRight` holds. -/
theorem set_device_iff (m : Manager) (n : ℕ) (h : Ready m n) (calls : List (ℤ × (ℤ → Bool)))
    (d : ℤ) (runtime : ℤ → Bool) (j : ℕ) (hj : j < n) (hlogic : (m.infos j).logicId = d)
    (hsuccess : (rtSetDevice m n (activeAfter m n calls) d runtime).success = true) :
    ((rtSetDevice m n (activeAfter m n calls) d runtime).active = j ∧
        (rtSetDevice m n (activeAfter m n calls) d runtime).passed = some d) ↔
      KeepsRight m n (activeAfter m n calls) d := by
  generalize activeAfter m n calls = active at hsuccess ⊢
  have hd : 0 ≤ d := by
    by_contra hneg
    rw [rtSetDevice, validateAndSetDeviceContext, if_pos (by omega)] at hsuccess
    exact Bool.false_ne_true hsuccess
  unfold KeepsRight
  by_cases hactive : IsActive n active
  · by_cases hkeep : d = 0 ∨ d = (m.infos active.toNat).deviceId
    · rw [rtSetDevice_keep h hactive hd hkeep]
      have hlt : active.toNat < n := by
        have := hactive.1
        have := hactive.2
        omega
      constructor
      · rintro ⟨-, hpassed⟩
        exact ⟨fun _ _ => Option.some.inj hpassed, fun hnot => absurd hactive hnot⟩
      · rintro ⟨hright, -⟩
        have hid := hright hactive hkeep
        have hj' := h.distinct _ hlt _ hj (hid.trans hlogic.symm)
        have := hactive.1
        exact ⟨by simp only; omega, congrArg some hid⟩
    · rw [not_or] at hkeep
      rw [rtSetDevice_search h (by omega) (fun _ => hkeep.2) hj hlogic]
      exact ⟨fun _ => ⟨fun _ hor => (not_or.mpr hkeep hor).elim, fun hnot => absurd hactive hnot⟩,
        fun _ => ⟨rfl, rfl⟩⟩
  · by_cases hzero : d = 0
    · subst hzero
      rw [rtSetDevice_default hactive]
      constructor
      · rintro ⟨-, hpassed⟩
        exact ⟨fun hyes => absurd hyes hactive, fun _ _ => Option.some.inj hpassed⟩
      · rintro ⟨-, hright⟩
        have hid := hright hactive rfl
        have hj' := h.distinct 0 (by omega) j hj (hid.trans hlogic.symm)
        exact ⟨by simp only; omega, congrArg some hid⟩
    · rw [rtSetDevice_search h (by omega) (fun hyes => absurd hyes hactive) hj hlogic]
      exact ⟨fun _ => ⟨fun hyes => absurd hyes hactive, fun _ hd0 => absurd hd0 hzero⟩,
        fun _ => ⟨rfl, rfl⟩⟩

/-- Two devices on two cards: logic ids `0` and `1`, and on each card the device id `0`. -/
def twoCards : Manager := ⟨fun i => ⟨i, i, i, 0, 0, 0, 0, false, 3, []⟩, 2⟩

theorem ready_twoCards : Ready twoCards 2 :=
  ⟨rfl, by decide, fun i _ j _ h => Int.ofNat_inj.mp h⟩

/-- The second device is selected after the first. -/
theorem set_device_iff_second :
    Ready twoCards 2 ∧
      (rtSetDevice twoCards 2 (activeAfter twoCards 2 [(0, fun _ => true)]) 1
          fun _ => true).active = (1 : ℕ) ∧
      (rtSetDevice twoCards 2 (activeAfter twoCards 2 [(0, fun _ => true)]) 1
          fun _ => true).passed = some 1 := by
  refine ⟨ready_twoCards, (set_device_iff twoCards 2 ready_twoCards [(0, fun _ => true)] 1
    (fun _ => true) 1 (by decide) rfl (by decide)).mpr ⟨fun _ hor => ?_, fun hnot => ?_⟩⟩
  · rcases hor with hor | hor
    · exact absurd hor (by decide)
    · exact absurd hor (by decide)
  · exact absurd ⟨by decide, by decide⟩ hnot

/-- **The wrong device is kept.** The second device has been selected; `rtSetDevice(0)` succeeds,
but keeps it, and passes its id to the runtime. -/
theorem wrong_device_kept :
    Ready twoCards 2 ∧ (twoCards.infos 0).logicId = 0 ∧
      rtSetDevice twoCards 2 (activeAfter twoCards 2 [(1, fun _ => true)]) 0 (fun _ => true)
        = ⟨1, some 1, true⟩ :=
  ⟨ready_twoCards, rfl, by decide⟩

end YellowZone.NpuManager
