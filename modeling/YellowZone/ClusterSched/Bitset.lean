import YellowZone.Machine.BitArea

/-!
# The bitsets of the scheduler

`util/dynamic_bitset.cpp` of the scheduling daemon. A `DynamicBitset` is a vector of booleans, here
a list; in the bitmaps of the CPU groups a set bit is a CPU in use.

`findFirstIdlePos` is meant to find a row of idle CPUs. It counts idle CPUs from the first one on,
and a CPU in use does not restart the count: what it returns is the position of the first idle CPU,
if there are enough idle CPUs behind it, contiguous or not (`findFirstIdlePos_first`). Whether the
row is free depends on the bitmap (`IdleRow`).

The counters of the source have 16 bits. `uint16` and `int16` are the conversions.

## Main definitions and results

* `findFirstIdlePos` — the search
* `findFirstIdlePos_first` — what it finds
* `areaIs_of_idleRow` — when that is a row
-/

namespace YellowZone.ClusterSched

open Machine

/-- The conversion to `uint16_t`. -/
def uint16 (z : ℤ) : ℕ := (z % 2 ^ 16).toNat

/-- The conversion to `int16_t`. -/
def int16 (z : ℤ) : ℤ := (z + 2 ^ 15) % 2 ^ 16 - 2 ^ 15

/-! ## Reading and writing -/

/-- The bits `val` are written, unless the area is empty or ends outside the bitset: then the
exception is logged and nothing changes. The source tests the size minus `start`, which wraps for a
`start` behind the end; then it throws nothing and writes outside the bitset (`Sched.writes`). -/
def dynamicBitsetSetArea (bitSet : List Bool) (start size : ℕ) (val : Bool) : List Bool :=
  if size = 0 ∨ bitSet.length < start + size then bitSet else setArea bitSet start size val

def dynamicBitsetSet (bitSet : List Bool) (start size : ℕ) : List Bool :=
  dynamicBitsetSetArea bitSet start size true

def dynamicBitsetClear (bitSet : List Bool) (start size : ℕ) : List Bool :=
  dynamicBitsetSetArea bitSet start size false

def dynamicBitsetNot (src : List Bool) : List Bool := src.map (!·)

/-- Bitsets of different sizes are left as they are. -/
def dynamicBitsetOr (dst src : List Bool) : List Bool :=
  if dst.length = src.length then List.zipWith (· || ·) dst src else dst

def dynamicBitsetAnd (dst src : List Bool) : List Bool :=
  if dst.length = src.length then List.zipWith (· && ·) dst src else dst

/-- The `size` bits of `origin` from `start` on; bits outside of it are unset. -/
def dynamicBitsetCut (origin : List Bool) (start size : ℕ) : List Bool :=
  (List.range size).map fun i => origin.getD (start + i) false

theorem dynamicBitsetSet_of_le {bitSet : List Bool} {start size : ℕ} (hpos : 0 < size)
    (hle : start + size ≤ bitSet.length) :
    dynamicBitsetSet bitSet start size = setArea bitSet start size true := by
  rw [dynamicBitsetSet, dynamicBitsetSetArea, if_neg (by omega)]

theorem dynamicBitsetClear_of_le {bitSet : List Bool} {start size : ℕ} (hpos : 0 < size)
    (hle : start + size ≤ bitSet.length) :
    dynamicBitsetClear bitSet start size = setArea bitSet start size false := by
  rw [dynamicBitsetClear, dynamicBitsetSetArea, if_neg (by omega)]

/-- A CPU that is idle for a VM is one that the VM may use, whatever the sizes of the bitmaps. -/
theorem getElem?_cpuMap_of_available {cpuMap used : List Bool} {start n k : ℕ}
    (h : (dynamicBitsetOr (dynamicBitsetNot (dynamicBitsetCut cpuMap start n)) used)[k]? =
      some false) : cpuMap[start + k]? = some true := by
  have hcut : (dynamicBitsetNot (dynamicBitsetCut cpuMap start n))[k]? = some false := by
    rw [dynamicBitsetOr] at h
    split at h
    · rw [List.getElem?_zipWith_eq_some] at h
      obtain ⟨x, y, hx, -, hxy⟩ := h
      rw [hx, (Bool.or_eq_false_iff.mp hxy).1]
    · exact h
  have hk : k < n := by
    have hlt := (List.getElem?_eq_some_iff.mp hcut).1
    simpa [dynamicBitsetNot, dynamicBitsetCut] using hlt
  rw [dynamicBitsetNot, dynamicBitsetCut, List.getElem?_map, List.getElem?_map,
    List.getElem?_range hk] at hcut
  have hbit : cpuMap.getD (start + k) false = true := by simpa using hcut
  rw [List.getD_eq_getElem?_getD] at hbit
  cases hget : cpuMap[start + k]? with
  | none => simp [hget] at hbit
  | some b =>
    rw [hget, Option.getD_some] at hbit
    rw [hbit]

/-- The CPUs that a VM may use and that are idle, as the scheduler computes them: the inverse of a
cut of the VM's CPU map, with the CPUs in use added. -/
theorem getElem?_available {cpuMap used : List Bool} {start k : ℕ}
    (h : (dynamicBitsetOr (dynamicBitsetNot (dynamicBitsetCut cpuMap start used.length)) used)[k]? =
      some false) :
    used[k]? = some false ∧ cpuMap[start + k]? = some true := by
  refine ⟨?_, getElem?_cpuMap_of_available h⟩
  have hlength : (dynamicBitsetNot (dynamicBitsetCut cpuMap start used.length)).length =
      used.length := by
    simp [dynamicBitsetNot, dynamicBitsetCut]
  rw [dynamicBitsetOr, if_pos hlength, List.getElem?_zipWith_eq_some] at h
  obtain ⟨x, y, -, hy, hxy⟩ := h
  rw [hy, (Bool.or_eq_false_iff.mp hxy).2]

/-! ## The search -/

/-- The loop of `FindFirstIdlePos` over the bits that are left, the first of them at position `i`.
`length` is the size of the whole bitset. -/
def findFirstIdleLoop (length size : ℕ) : ℕ → List Bool → ℤ → ℤ → ℤ
  | _, [], _, _ => -1
  | i, bit :: rest, result, idleCount =>
    if idleCount = 0 ∧ length - i < size then -1
    else
      let result' := if bit = false ∧ idleCount = 0 then int16 i else result
      let idleCount' := if bit = false then int16 (idleCount + 1) else idleCount
      if idleCount' = size then result'
      else findFirstIdleLoop length size (i + 1) rest result' idleCount'

def findFirstIdlePos (bitSet : List Bool) (start size : ℕ) : ℤ :=
  if size = 0 ∨ bitSet.length < start ∨ bitSet.length - start < size then -1
  else findFirstIdleLoop bitSet.length size start (bitSet.drop start) (-1) 0

theorem int16_natCast {n : ℕ} (h : n < 2 ^ 15) : int16 n = n := by
  rw [int16]
  omega

/-- Once an idle CPU was seen, the loop returns its position or nothing. -/
theorem findFirstIdleLoop_found (length size : ℕ) (result : ℤ) (rest : List Bool) :
    ∀ i m : ℕ, 0 < m → m + rest.length < 2 ^ 16 →
      findFirstIdleLoop length size i rest result (int16 m) = result ∨
        findFirstIdleLoop length size i rest result (int16 m) = -1 := by
  induction rest with
  | nil => exact fun i m _ _ => Or.inr rfl
  | cons bit rest ih =>
    intro i m hm hlt
    rw [List.length_cons] at hlt
    have hne : int16 m ≠ 0 := by
      rw [int16]
      omega
    have hnext : int16 (int16 m + 1) = int16 (m + 1 : ℕ) := by
      rw [int16, int16, int16]
      omega
    rw [findFirstIdleLoop, if_neg (fun h => hne h.1)]
    cases bit with
    | false =>
      simp only [hne, and_false, if_false, if_true]
      split
      · exact Or.inl rfl
      · rw [hnext]
        exact ih (i + 1) (m + 1) (by omega) (by omega)
    | true =>
      simp only [hne, and_false, if_false, Bool.true_eq_false]
      split
      · exact Or.inl rfl
      · exact ih (i + 1) m hm (by omega)

/-- Until an idle CPU is seen, the loop passes CPUs in use. -/
theorem findFirstIdleLoop_first (length size : ℕ) (bitSet : List Bool) :
    ∀ i : ℕ, bitSet.length < 2 ^ 16 → 0 < size →
      findFirstIdleLoop length size i bitSet (-1) 0 ≠ -1 →
      ∃ p, findFirstIdleLoop length size i bitSet (-1) 0 = int16 (i + p : ℕ) ∧
        bitSet[p]? = some false ∧ ∀ k < p, bitSet[k]? = some true := by
  induction bitSet with
  | nil => exact fun i _ _ h => absurd rfl h
  | cons bit rest ih =>
    intro i hlt hsize h
    rw [List.length_cons] at hlt
    rw [findFirstIdleLoop] at h ⊢
    split at h
    · exact absurd rfl h
    · next hroom =>
      rw [if_neg hroom]
      cases bit with
      | false =>
        refine ⟨0, ?_, rfl, fun k hk => absurd hk (Nat.not_lt_zero k)⟩
        simp only [and_self, if_true] at h ⊢
        split
        · rfl
        · next hmore =>
          rw [if_neg hmore] at h
          have hone : int16 (0 + 1) = int16 (1 : ℕ) := rfl
          rw [hone] at h ⊢
          exact (findFirstIdleLoop_found length size _ rest (i + 1) 1 (by omega)
            (by omega)).resolve_right h
      | true =>
        have hzero : ¬ (0 : ℤ) = size := by omega
        simp only [Bool.true_eq_false, false_and, if_false, if_neg hzero] at h ⊢
        obtain ⟨p, hp, hfree, hused⟩ := ih (i + 1) (by omega) hsize h
        refine ⟨p + 1, ?_, hfree, fun k hk => ?_⟩
        · rw [hp]
          congr 2
          omega
        · cases k with
          | zero => rfl
          | succ k => exact hused k (by omega)

theorem size_pos_of_found {bitSet : List Bool} {start size : ℕ}
    (h : findFirstIdlePos bitSet start size ≠ -1) : 0 < size := by
  rw [findFirstIdlePos] at h
  split at h
  · exact absurd rfl h
  · omega

/-- **What the search finds.** A search from the first CPU on returns the first idle CPU or
nothing. -/
theorem findFirstIdlePos_first {bitSet : List Bool} {size : ℕ} (hlength : bitSet.length < 2 ^ 16)
    (h : findFirstIdlePos bitSet 0 size ≠ -1) :
    ∃ p : ℕ, findFirstIdlePos bitSet 0 size = int16 p ∧ bitSet[p]? = some false ∧
      ∀ k < p, bitSet[k]? = some true := by
  have hsize := size_pos_of_found h
  rw [findFirstIdlePos] at h ⊢
  split at h
  · exact absurd rfl h
  · next hroom =>
    rw [if_neg hroom]
    rw [List.drop_zero] at h ⊢
    obtain ⟨p, hp, hbits⟩ :=
      findFirstIdleLoop_first bitSet.length size bitSet 0 hlength hsize h
    rw [Nat.zero_add] at hp
    exact ⟨p, hp, hbits⟩

/-- The CPUs from the first idle one on are idle, so many of them. -/
def IdleRow (bitSet : List Bool) (size : ℕ) : Prop :=
  bitSet.findIdx (!·) < 2 ^ 15 ∧ AreaIs bitSet (bitSet.findIdx (!·)) size false

instance (bitSet : List Bool) (size : ℕ) : Decidable (IdleRow bitSet size) :=
  have : Decidable (AreaIs bitSet (bitSet.findIdx (!·)) size false) := Nat.decidableLoHi _ _ _
  inferInstanceAs (Decidable (_ ∧ _))

/-- **A search in a bitmap that begins with an idle row** finds that row. -/
theorem areaIs_of_idleRow {bitSet : List Bool} {size : ℕ} (hlength : bitSet.length < 2 ^ 16)
    (h : findFirstIdlePos bitSet 0 size ≠ -1) (hrow : IdleRow bitSet size) :
    0 ≤ findFirstIdlePos bitSet 0 size ∧
      AreaIs bitSet (findFirstIdlePos bitSet 0 size).toNat size false := by
  obtain ⟨p, hp, hfree, hused⟩ := findFirstIdlePos_first hlength h
  obtain ⟨hlt, hbit⟩ := List.getElem?_eq_some_iff.mp hfree
  have hfirst : bitSet.findIdx (!·) = p := by
    refine (List.findIdx_eq hlt).mpr ⟨by rw [hbit]; rfl, fun j hj => ?_⟩
    rw [(List.getElem?_eq_some_iff.mp (hused j hj)).2]
    rfl
  rw [IdleRow, hfirst] at hrow
  rw [hp, int16_natCast hrow.1]
  exact ⟨Int.natCast_nonneg p, hrow.2⟩

/-- A row is found that is not free: the second of its CPUs is in use. -/
example : findFirstIdlePos [false, true, false, false] 0 2 = 0 := by decide

end YellowZone.ClusterSched
