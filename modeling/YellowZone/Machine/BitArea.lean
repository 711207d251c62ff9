import Mathlib

/-!
# Areas of a bitmap

A bitmap records which of a row of units are taken. An allocator takes and gives back areas of it:
`size` units from `start` on. These are the rules for the bits and for the number of free units
after an area was written, whatever it held before.

## Main definitions and results

* `setArea` — the bitmap with an area written
* `AreaIs` — all bits of an area have a value
* `getElem?_setArea`, `length_setArea` — the bits afterwards
* `count_setArea_true_add`, `count_setArea_false` — the number of free units
* `AreasOk` — a bitmap that is in accordance with a list of areas
* `AreasOk.take`, `AreasOk.give` — an area is taken and given back
-/

namespace YellowZone.Machine

/-- The bitmap with `size` bits from `start` on set to `val`. -/
def setArea (bits : List Bool) (start size : ℕ) (val : Bool) : List Bool :=
  bits.take start ++ (List.replicate size val ++ bits.drop (start + size))

/-- The `size` bits from `start` on exist and are `val`. -/
def AreaIs (bits : List Bool) (start size : ℕ) (val : Bool) : Prop :=
  ∀ k, start ≤ k → k < start + size → bits[k]? = some val

variable {bits : List Bool} {start size : ℕ} {val : Bool}

theorem AreaIs.end_le (h : AreaIs bits start size val) (hpos : 0 < size) :
    start + size ≤ bits.length := by
  have hlast := h (start + size - 1) (by omega) (by omega)
  have hlt := (List.getElem?_eq_some_iff.mp hlast).1
  omega

@[simp] theorem length_setArea (hle : start + size ≤ bits.length) :
    (setArea bits start size val).length = bits.length := by
  rw [setArea, List.length_append, List.length_append, List.length_take, List.length_replicate,
    List.length_drop]
  omega

theorem getElem?_setArea (hle : start + size ≤ bits.length) (k : ℕ) :
    (setArea bits start size val)[k]? =
      if start ≤ k ∧ k < start + size then some val else bits[k]? := by
  have htake : (bits.take start).length = start := by
    rw [List.length_take]
    omega
  rw [setArea]
  by_cases hlow : k < start
  · rw [List.getElem?_append_left (by omega), List.getElem?_take_of_lt hlow, if_neg (by omega)]
  · rw [List.getElem?_append_right (by omega), htake]
    by_cases hmid : k < start + size
    · rw [List.getElem?_append_left (by rw [List.length_replicate]; omega),
        List.getElem?_replicate_of_lt (by omega), if_pos ⟨by omega, hmid⟩]
    · rw [List.getElem?_append_right (by rw [List.length_replicate]; omega),
        List.length_replicate, List.getElem?_drop, if_neg (by omega)]
      congr 1
      omega

/-- Writing what an area already holds changes nothing. -/
theorem setArea_of_areaIs (h : AreaIs bits start size val) (hle : start + size ≤ bits.length) :
    setArea bits start size val = bits := by
  refine List.ext_getElem? fun k => ?_
  rw [getElem?_setArea hle]
  split
  · next hk => exact (h k hk.1 hk.2).symm
  · rfl

theorem areaIs_setArea (hle : start + size ≤ bits.length) :
    AreaIs (setArea bits start size val) start size val := by
  intro k hlow hhigh
  rw [getElem?_setArea hle, if_pos ⟨hlow, hhigh⟩]

theorem count_setArea (x : Bool) : (setArea bits start size val).count x =
    (bits.take start).count x + ((if val = x then size else 0) +
      (bits.drop (start + size)).count x) := by
  rw [setArea, List.count_append, List.count_append, List.count_replicate]
  simp only [beq_iff_eq]

/-- **A free area is taken.** The units it had are no longer free. -/
theorem count_setArea_true_add (h : AreaIs bits start size false)
    (hle : start + size ≤ bits.length) :
    (setArea bits start size true).count false + size = bits.count false := by
  have hbits : bits.count false = (setArea bits start size false).count false := by
    rw [setArea_of_areaIs h hle]
  rw [hbits, count_setArea, count_setArea, if_neg (by decide), if_pos rfl]
  omega

/-- **A taken area is given back.** -/
theorem count_setArea_false (h : AreaIs bits start size true)
    (hle : start + size ≤ bits.length) :
    (setArea bits start size false).count false = bits.count false + size := by
  have hbits : bits.count false = (setArea bits start size true).count false := by
    rw [setArea_of_areaIs h hle]
  rw [hbits, count_setArea, count_setArea, if_pos rfl, if_neg (by decide)]
  omega

/-! ## Named areas -/

section Areas

variable {α : Type}

/-- The units of an area. -/
def InArea (start size k : ℕ) : Prop := start ≤ k ∧ k < start + size

/-- The areas `names` lie in the bitmap, are disjoint and keep clear of the units that are taken in
`base`, and `bits` has the units of `base` and of the areas. -/
structure AreasOk (base bits : List Bool) (names : List α) (start size : α → ℕ) : Prop where
  length_eq : bits.length = base.length
  nodup : names.Nodup
  size_pos : ∀ a ∈ names, 0 < size a
  base_free : ∀ a ∈ names, AreaIs base (start a) (size a) false
  disjoint : ∀ a ∈ names, ∀ b ∈ names, ∀ k, InArea (start a) (size a) k →
    InArea (start b) (size b) k → a = b
  used : ∀ k, bits[k]? = some true ↔
    base[k]? = some true ∨ ∃ a ∈ names, InArea (start a) (size a) k

variable {base : List Bool} {names names' : List α} {starts sizes starts' sizes' : α → ℕ} {a : α}

theorem AreasOk.nil : AreasOk base base ([] : List α) starts sizes where
  length_eq := rfl
  nodup := List.nodup_nil
  size_pos a ha := absurd ha List.not_mem_nil
  base_free a ha := absurd ha List.not_mem_nil
  disjoint a ha := absurd ha List.not_mem_nil
  used k := by simp

theorem AreasOk.end_le (h : AreasOk base bits names starts sizes) (ha : a ∈ names) :
    starts a + sizes a ≤ bits.length := by
  rw [h.length_eq]
  exact (h.base_free a ha).end_le (h.size_pos a ha)

/-- The units of a listed area are taken. -/
theorem AreasOk.areaIs (h : AreasOk base bits names starts sizes) (ha : a ∈ names) :
    AreaIs bits (starts a) (sizes a) true :=
  fun k hlow hhigh => (h.used k).mpr (Or.inr ⟨a, ha, hlow, hhigh⟩)

/-- Only the areas of the list matter, and the list up to its order. -/
theorem AreasOk.congr (h : AreasOk base bits names starts sizes) (hnodup : names'.Nodup)
    (hmem : ∀ b, b ∈ names' ↔ b ∈ names)
    (harea : ∀ b ∈ names, starts' b = starts b ∧ sizes' b = sizes b) :
    AreasOk base bits names' starts' sizes' where
  length_eq := h.length_eq
  nodup := hnodup
  size_pos b hb := by
    rw [(harea b ((hmem b).mp hb)).2]
    exact h.size_pos b ((hmem b).mp hb)
  base_free b hb := by
    rw [(harea b ((hmem b).mp hb)).1, (harea b ((hmem b).mp hb)).2]
    exact h.base_free b ((hmem b).mp hb)
  disjoint b hb c hc k hbk hck := by
    rw [(harea b ((hmem b).mp hb)).1, (harea b ((hmem b).mp hb)).2] at hbk
    rw [(harea c ((hmem c).mp hc)).1, (harea c ((hmem c).mp hc)).2] at hck
    exact h.disjoint b ((hmem b).mp hb) c ((hmem c).mp hc) k hbk hck
  used k := by
    rw [h.used k]
    refine or_congr_right ⟨?_, ?_⟩
    · rintro ⟨b, hb, hbk⟩
      refine ⟨b, (hmem b).mpr hb, ?_⟩
      rw [(harea b hb).1, (harea b hb).2]
      exact hbk
    · rintro ⟨b, hb, hbk⟩
      rw [(harea b ((hmem b).mp hb)).1, (harea b ((hmem b).mp hb)).2] at hbk
      exact ⟨b, (hmem b).mp hb, hbk⟩

/-- **An area is taken.** Its units were free, and its name is new. -/
theorem AreasOk.take (h : AreasOk base bits names starts sizes) (hpos : 0 < sizes a)
    (hfree : AreaIs bits (starts a) (sizes a) false) (hnodup : names'.Nodup)
    (hmem : ∀ b, b ∈ names' ↔ b = a ∨ b ∈ names) :
    AreasOk base (setArea bits (starts a) (sizes a) true) names' starts sizes := by
  have hle : starts a + sizes a ≤ bits.length := hfree.end_le hpos
  -- a free unit is in no listed area and not taken in `base`
  have hclear : ∀ k, InArea (starts a) (sizes a) k → base[k]? = some false ∧
      ∀ b ∈ names, ¬ InArea (starts b) (sizes b) k := by
    intro k hk
    have hbit := hfree k hk.1 hk.2
    have hnot := (not_congr (h.used k)).mp (by rw [hbit]; decide)
    rw [not_or] at hnot
    refine ⟨?_, fun b hb hbk => hnot.2 ⟨b, hb, hbk⟩⟩
    have hlt : k < base.length := by
      rw [← h.length_eq]
      exact (List.getElem?_eq_some_iff.mp hbit).1
    rw [List.getElem?_eq_getElem hlt] at hnot ⊢
    simpa using hnot.1
  refine ⟨?_, hnodup, ?_, ?_, ?_, ?_⟩
  · rw [length_setArea hle]
    exact h.length_eq
  · intro b hb
    rcases (hmem b).mp hb with rfl | hb
    · exact hpos
    · exact h.size_pos b hb
  · intro b hb
    rcases (hmem b).mp hb with rfl | hb
    · exact fun k hlow hhigh => (hclear k ⟨hlow, hhigh⟩).1
    · exact h.base_free b hb
  · intro b hb c hc k hbk hck
    rcases (hmem b).mp hb with rfl | hb
    · rcases (hmem c).mp hc with rfl | hc
      · rfl
      · exact absurd hck ((hclear k hbk).2 c hc)
    · rcases (hmem c).mp hc with rfl | hc
      · exact absurd hbk ((hclear k hck).2 b hb)
      · exact h.disjoint b hb c hc k hbk hck
  · intro k
    rw [getElem?_setArea hle]
    split
    · next hk => exact iff_of_true rfl (Or.inr ⟨a, (hmem a).mpr (Or.inl rfl), hk⟩)
    · next hk =>
      rw [h.used k]
      refine or_congr_right ⟨fun ⟨b, hb, hbk⟩ => ⟨b, (hmem b).mpr (Or.inr hb), hbk⟩, ?_⟩
      rintro ⟨b, hb, hbk⟩
      rcases (hmem b).mp hb with rfl | hb
      · exact absurd hbk hk
      · exact ⟨b, hb, hbk⟩

/-- **An area is given back.** -/
theorem AreasOk.give [BEq α] [LawfulBEq α] (h : AreasOk base bits names starts sizes)
    (ha : a ∈ names) :
    AreasOk base (setArea bits (starts a) (sizes a) false) (names.erase a) starts sizes := by
  have hle := h.end_le ha
  have hmem : ∀ b ∈ names.erase a, b ∈ names := fun b hb => List.mem_of_mem_erase hb
  refine ⟨?_, h.nodup.erase a, fun b hb => h.size_pos b (hmem b hb),
    fun b hb => h.base_free b (hmem b hb),
    fun b hb c hc => h.disjoint b (hmem b hb) c (hmem c hc), ?_⟩
  · rw [length_setArea hle]
    exact h.length_eq
  · intro k
    rw [getElem?_setArea hle]
    split
    · next hk =>
      refine iff_of_false (by decide) ?_
      rintro (hbase | ⟨b, hb, hbk⟩)
      · have hfree := h.base_free a ha k hk.1 hk.2
        rw [hfree] at hbase
        exact absurd hbase (by decide)
      · have hne := (h.nodup.mem_erase_iff.mp hb).1
        exact hne (h.disjoint b (hmem b hb) a ha k hbk hk)
    · next hk =>
      rw [h.used k]
      refine or_congr_right ⟨?_, fun ⟨b, hb, hbk⟩ => ⟨b, hmem b hb, hbk⟩⟩
      rintro ⟨b, hb, hbk⟩
      refine ⟨b, h.nodup.mem_erase_iff.mpr ⟨?_, hb⟩, hbk⟩
      rintro rfl
      exact hk hbk

/-- Without a taken unit there is no area. -/
theorem AreasOk.names_eq_nil (h : AreasOk base bits names starts sizes)
    (hcount : bits.count false = bits.length) : names = [] := by
  rw [List.count_eq_length] at hcount
  refine List.eq_nil_iff_forall_not_mem.mpr fun a ha => ?_
  have hbit := h.areaIs ha (starts a) (Nat.le_refl _) (by have := h.size_pos a ha; omega)
  obtain ⟨hlt, hget⟩ := List.getElem?_eq_some_iff.mp hbit
  have hfree := hcount _ (List.getElem_mem hlt)
  rw [hget] at hfree
  exact absurd hfree (by decide)

end Areas

end YellowZone.Machine
