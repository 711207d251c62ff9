import Mathlib

/-!
# Masks: a machine word as a set of small numbers

Barrier code keeps "who has arrived" in one machine word: bit `r` is set when party `r` is in.
Arriving is a bitwise or with `bit r`, leaving an and with its complement, and "everybody is in"
is equality with a full mask of `n` ones.

The lemmas here translate each of those word operations into membership, so that a proof about a
barrier never computes with words.

The width `w` is a parameter; a party number is a natural number below it.
-/

namespace YellowZone.Machine

namespace BitMask

variable {w : ℕ}

/-- The mask with only bit `r` set. -/
def bit (w r : ℕ) : BitVec w := 1#w <<< r

/-- Bit `r` of `m` is set, in the form barrier code tests it: `(m & bit) != 0`. -/
def HasBit (m : BitVec w) (r : ℕ) : Prop := m &&& bit w r ≠ 0#w

instance (m : BitVec w) (r : ℕ) : Decidable (HasBit m r) :=
  inferInstanceAs (Decidable (m &&& bit w r ≠ 0#w))

/-- The mask of the numbers below `n`. A shift by the whole width is not meaningful on a machine
word, so the widest mask is a case of its own. -/
def full (w n : ℕ) : BitVec w := if n = w then BitVec.allOnes w else (1#w <<< n) - 1#w

theorem getLsbD_bit {r q : ℕ} (hr : r < w) : (bit w r).getLsbD q = decide (q = r) := by
  rw [bit, ← BitVec.twoPow_eq, BitVec.getLsbD_twoPow]
  simp [hr, eq_comm]

theorem hasBit_iff_getLsbD {m : BitVec w} {r : ℕ} : HasBit m r ↔ m.getLsbD r := by
  rcases Nat.lt_or_ge r w with hr | hr
  · constructor
    · intro h
      by_contra hm
      refine h (BitVec.eq_of_getLsbD_eq fun q _ => ?_)
      rw [BitVec.getLsbD_and, getLsbD_bit hr, BitVec.getLsbD_zero]
      by_cases hq : q = r
      · subst hq; simpa using hm
      · simp [hq]
    · intro hm h
      have hb := congrArg (fun x => x.getLsbD r) h
      simp [getLsbD_bit hr, hm] at hb
  · simp [HasBit, bit, BitVec.shiftLeft_eq_zero hr, BitVec.getLsbD_of_ge m r hr]

theorem hasBit_or_bit {m : BitVec w} {r q : ℕ} (hr : r < w) :
    HasBit (m ||| bit w r) q ↔ HasBit m q ∨ q = r := by
  simp [hasBit_iff_getLsbD, getLsbD_bit hr]

theorem HasBit.of_and {m x : BitVec w} {q : ℕ} (h : HasBit (m &&& x) q) : HasBit m q := by
  rw [hasBit_iff_getLsbD, BitVec.getLsbD_and, Bool.and_eq_true] at h
  exact hasBit_iff_getLsbD.mpr h.1

@[simp] theorem not_hasBit_zero (r : ℕ) : ¬HasBit (0#w) r := by simp [HasBit]

theorem ext {m m' : BitVec w} (h : ∀ q, HasBit m q ↔ HasBit m' q) : m = m' := by
  refine BitVec.eq_of_getLsbD_eq fun q _ => ?_
  have := h q
  rw [hasBit_iff_getLsbD, hasBit_iff_getLsbD] at this
  exact Bool.eq_iff_iff.mpr this

theorem eq_zero_iff {m : BitVec w} : m = 0#w ↔ ∀ q, ¬HasBit m q := by
  refine ⟨fun h q => by simp [h], fun h => ext fun q => ?_⟩
  simp [h q]

theorem hasBit_full {n q : ℕ} (hn : n ≤ w) : HasBit (full w n) q ↔ q < n := by
  rw [hasBit_iff_getLsbD, full]
  split
  · simp [*]
  · have hnw : n < w := by omega
    have hpow : (1#w <<< n) - 1#w = BitVec.ofNat w (2 ^ n - 1) := by
      apply BitVec.eq_of_toNat_eq
      have h1 : 1 < 2 ^ w := Nat.one_lt_two_pow (by omega)
      have h2 : 2 ^ n < 2 ^ w := Nat.pow_lt_pow_right (by omega) hnw
      have h3 : 0 < 2 ^ n := Nat.two_pow_pos n
      rw [← BitVec.twoPow_eq, BitVec.toNat_sub, BitVec.toNat_twoPow, BitVec.toNat_ofNat,
        BitVec.toNat_ofNat, Nat.mod_eq_of_lt h1, Nat.mod_eq_of_lt h2,
        Nat.mod_eq_of_lt (by omega : 2 ^ n - 1 < 2 ^ w),
        show 2 ^ w - 1 + 2 ^ n = 2 ^ n - 1 + 2 ^ w by omega, Nat.add_mod_right,
        Nat.mod_eq_of_lt (by omega)]
    rw [hpow, BitVec.getLsbD_ofNat, Nat.testBit_two_pow_sub_one]
    simp only [Bool.and_eq_true, decide_eq_true_eq, and_iff_right_iff_imp]
    omega

/-- A mask of parties below `n` is full when every one of them is in. -/
theorem eq_full_iff {m : BitVec w} {n : ℕ} (hn : n ≤ w) (hm : ∀ q, HasBit m q → q < n) :
    m = full w n ↔ ∀ q < n, HasBit m q := by
  constructor
  · rintro rfl q hq
    exact (hasBit_full hn).mpr hq
  · intro h
    refine ext fun q => ?_
    rw [hasBit_full hn]
    exact ⟨hm q, h q⟩

/-- The test that no bit outside the first `n` is set. -/
theorem and_not_full_eq_zero_iff {m : BitVec w} {n : ℕ} (hn : n ≤ w) :
    m &&& ~~~full w n = 0#w ↔ ∀ q, HasBit m q → q < n := by
  rw [eq_zero_iff]
  refine forall_congr' fun q => ?_
  have hf := hasBit_full (q := q) hn
  rw [hasBit_iff_getLsbD] at hf
  rw [hasBit_iff_getLsbD, hasBit_iff_getLsbD, ← hf]
  by_cases hq : q < w
  · simp [hq]
  · simp [BitVec.getLsbD_of_ge m q (by omega)]

end BitMask

end YellowZone.Machine
