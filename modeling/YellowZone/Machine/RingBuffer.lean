import Mathlib

/-!
# Ring buffers

A ring of `n` slots with a head and a tail is a queue of at most `n - 1` elements: it is empty if
head and tail are equal and full if the tail is one slot behind the head. What it holds are the
slots from the head up to the tail, and `push` and `pop` work on that list as on any queue.

## Main results

* `RingBuffer`, `RingBuffer.push`, `RingBuffer.pop`, `RingBuffer.contents`
* `RingBuffer.contents_push`, `RingBuffer.contents_pop`, `RingBuffer.contents_eq_nil_iff`
-/

namespace YellowZone.Machine

/-- Slots, the place of the oldest element and the place after the newest one. -/
structure RingBuffer (α : Type) where
  slots : ℕ → α
  head : ℕ
  tail : ℕ

namespace RingBuffer

variable {α : Type} (n : ℕ)

/-- The ring of `n` slots is full. -/
def IsFull (r : RingBuffer α) : Prop := (r.tail + 1) % n = r.head

instance (r : RingBuffer α) : Decidable (r.IsFull n) := inferInstanceAs (Decidable (_ = _))

def push (x : α) (r : RingBuffer α) : RingBuffer α :=
  { r with slots := Function.update r.slots r.tail x, tail := (r.tail + 1) % n }

/-- The oldest element. -/
def front (r : RingBuffer α) : α := r.slots r.head

def pop (r : RingBuffer α) : RingBuffer α := { r with head := (r.head + 1) % n }

/-- Head and tail are slots. -/
structure Valid (r : RingBuffer α) : Prop where
  head_lt : r.head < n
  tail_lt : r.tail < n

/-- How many slots there are from the head to the tail. -/
def count (r : RingBuffer α) : ℕ := if r.head ≤ r.tail then r.tail - r.head else r.tail + n - r.head

/-- What the ring holds, oldest first. -/
def contents (r : RingBuffer α) : List α :=
  (List.range (r.count n)).map fun k => r.slots ((r.head + k) % n)

variable {n} {r : RingBuffer α}

/-- The next slot, with the wrap written out. -/
theorem succ_mod {i : ℕ} (hi : i < n) : (i + 1) % n = if i + 1 = n then 0 else i + 1 := by
  split
  · next h => rw [h, Nat.mod_self]
  · next h => exact Nat.mod_eq_of_lt (by omega)

/-- A slot some way after the head, with the wrap written out. -/
theorem add_mod {i k : ℕ} (hi : i < n) (hk : k ≤ n) :
    (i + k) % n = if i + k < n then i + k else i + k - n := by
  split
  · next h => exact Nat.mod_eq_of_lt h
  · next h =>
    rw [Nat.mod_eq_sub_mod (by omega)]
    exact Nat.mod_eq_of_lt (by omega)

theorem Valid.push (h : r.Valid n) (x : α) : (r.push n x).Valid n :=
  ⟨h.head_lt, Nat.mod_lt _ (Nat.zero_lt_of_lt h.head_lt)⟩

theorem Valid.pop (h : r.Valid n) : (r.pop n).Valid n :=
  ⟨Nat.mod_lt _ (Nat.zero_lt_of_lt h.head_lt), h.tail_lt⟩

theorem Valid.count_lt (h : r.Valid n) : r.count n < n := by
  obtain ⟨hhead, htail⟩ := h
  rw [count]
  split <;> omega

theorem count_push (h : r.Valid n) (hfull : ¬ r.IsFull n) (x : α) :
    (r.push n x).count n = r.count n + 1 := by
  obtain ⟨hhead, htail⟩ := h
  have htail' : (r.push n x).tail = if r.tail + 1 = n then 0 else r.tail + 1 := succ_mod htail
  rw [IsFull, succ_mod htail] at hfull
  rw [count, count, htail', show (r.push n x).head = r.head from rfl]
  split at hfull <;> simp_all <;> split <;> split <;> omega

theorem count_pop (h : r.Valid n) (hne : r.head ≠ r.tail) :
    r.count n = (r.pop n).count n + 1 := by
  obtain ⟨hhead, htail⟩ := h
  have hhead' : (r.pop n).head = if r.head + 1 = n then 0 else r.head + 1 := succ_mod hhead
  rw [count, count, hhead', show (r.pop n).tail = r.tail from rfl]
  split <;> split <;> split <;> omega

/-- **A push appends.** -/
theorem contents_push (h : r.Valid n) (hfull : ¬ r.IsFull n) (x : α) :
    (r.push n x).contents n = r.contents n ++ [x] := by
  have hlt := h.count_lt
  have hlast : (r.head + r.count n) % n = r.tail := by
    rw [add_mod h.head_lt hlt.le, count]
    have := h.head_lt
    have := h.tail_lt
    split <;> split <;> omega
  rw [contents, count_push h hfull, List.range_succ, List.map_append, List.map_singleton]
  congr 1
  · refine List.map_congr_left fun k hk => ?_
    -- the slots before the tail are not the one that is written
    have hk := List.mem_range.mp hk
    refine Function.update_of_ne ?_ _ _
    rw [← hlast]
    change (r.head + k) % n ≠ _
    rw [add_mod h.head_lt (by omega), add_mod h.head_lt hlt.le]
    have := h.head_lt
    split <;> split <;> omega
  · change [Function.update r.slots r.tail x ((r.head + r.count n) % n)] = [x]
    rw [hlast, Function.update_self]

/-- **A pop takes the first.** -/
theorem contents_pop (h : r.Valid n) (hne : r.head ≠ r.tail) :
    r.contents n = r.front :: (r.pop n).contents n := by
  rw [contents, contents, count_pop h hne, List.range_succ_eq_map, List.map_cons, List.map_map]
  congr 1
  · rw [Nat.add_zero, Nat.mod_eq_of_lt h.head_lt]
    rfl
  · refine List.map_congr_left fun k _ => ?_
    change r.slots ((r.head + (k + 1)) % n) = r.slots (((r.head + 1) % n + k) % n)
    rw [Nat.mod_add_mod, Nat.add_assoc, Nat.add_comm 1 k]

theorem contents_eq_nil_iff (h : r.Valid n) : r.contents n = [] ↔ r.head = r.tail := by
  constructor
  · intro hnil
    by_contra hne
    rw [contents_pop h hne] at hnil
    exact absurd hnil (List.cons_ne_nil _ _)
  · intro heq
    rw [contents, count, if_pos heq.le, heq, Nat.sub_self, List.range_zero, List.map_nil]

end RingBuffer

end YellowZone.Machine
