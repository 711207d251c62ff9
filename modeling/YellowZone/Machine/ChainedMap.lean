import Mathlib

/-!
# Hash maps with chained buckets

A map from keys to values kept in buckets: a key lives in the bucket its hash names, a new key is
put in front of its chain, an old one has its value replaced in place, and removing a key unlinks
its node. The invariant is part of the type: every chain has each of its keys once, and every key
is in the bucket of its hash.

## Main definitions and results

* `ChainedMap`, `find`, `put`, `remove`
* `find_put`, `find_remove` — the map is the partial function `find`
-/

namespace YellowZone.Machine

variable {K V : Type} [DecidableEq K]

/-- A hash map with chained buckets. -/
structure ChainedMap (K V : Type) [DecidableEq K] (hash : K → ℕ) where
  buckets : ℕ → List (Σ _ : K, V)
  nodup : ∀ i, (buckets i).NodupKeys
  home : ∀ i, ∀ k ∈ (buckets i).keys, hash k = i

namespace ChainedMap

/-- Replacing a value in place. -/
theorem dlookup_kreplace {k k' : K} {v : V} {l : List (Σ _ : K, V)} :
    (l.kreplace k v).dlookup k' =
      if k' = k then (l.dlookup k).map fun _ => v else l.dlookup k' := by
  induction l with
  | nil => simp [List.kreplace, List.lookmap, List.lookmap.go]
  | cons n l ih =>
    obtain ⟨k₀, v₀⟩ := n
    by_cases h₀ : k = k₀
    · subst h₀
      have hcons : List.kreplace k v (⟨k, v₀⟩ :: l) = ⟨k, v⟩ :: l := by
        rw [List.kreplace, List.lookmap_cons_some _ _ (b := ⟨k, v⟩) (by simp)]
      rw [hcons]
      by_cases hk : k' = k
      · subst hk
        simp
      · rw [List.dlookup_cons_ne _ _ hk, if_neg hk, List.dlookup_cons_ne _ _ hk]
    · have hcons : List.kreplace k v (⟨k₀, v₀⟩ :: l) = ⟨k₀, v₀⟩ :: List.kreplace k v l := by
        rw [List.kreplace, List.lookmap_cons_none _ _ (by simp [h₀])]
      rw [hcons]
      by_cases hk : k' = k₀
      · subst hk
        rw [if_neg (Ne.symm h₀)]
        simp
      · rw [List.dlookup_cons_ne _ _ hk, ih, List.dlookup_cons_ne _ _ h₀,
          List.dlookup_cons_ne _ _ hk]

variable {hash : K → ℕ}

/-- The map without keys. -/
def empty (hash : K → ℕ) : ChainedMap K V hash where
  buckets _ := []
  nodup _ := List.nodupKeys_nil
  home _ _ h := absurd h List.not_mem_nil

/-- The value of a key. -/
def find (m : ChainedMap K V hash) (k : K) : Option V := (m.buckets (hash k)).dlookup k

/-- The chain of a bucket after a key has been put. -/
def putChain (k : K) (v : V) (l : List (Σ _ : K, V)) : List (Σ _ : K, V) :=
  if k ∈ l.keys then l.kreplace k v else ⟨k, v⟩ :: l

theorem mem_keys_putChain {k k' : K} {v : V} {l : List (Σ _ : K, V)} :
    k' ∈ (putChain k v l).keys ↔ k' = k ∨ k' ∈ l.keys := by
  unfold putChain
  split
  · rename_i hk
    rw [List.keys_kreplace]
    exact ⟨.inr, fun h => h.elim (fun h => h ▸ hk) id⟩
  · simp

theorem dlookup_putChain {k k' : K} {v : V} {l : List (Σ _ : K, V)} :
    (putChain k v l).dlookup k' = if k' = k then some v else l.dlookup k' := by
  unfold putChain
  split
  · rename_i hk
    obtain ⟨v₀, hv₀⟩ := Option.isSome_iff_exists.mp (List.dlookup_isSome.mpr hk)
    rw [dlookup_kreplace, hv₀]
    rfl
  · by_cases hk : k' = k
    · subst hk
      simp
    · rw [List.dlookup_cons_ne _ _ hk, if_neg hk]

/-- Put a key. -/
def put (m : ChainedMap K V hash) (k : K) (v : V) : ChainedMap K V hash where
  buckets := Function.update m.buckets (hash k) (putChain k v (m.buckets (hash k)))
  nodup i := by
    by_cases hi : i = hash k
    · subst hi
      rw [Function.update_self]
      unfold putChain
      split
      · exact (List.kreplace_nodupKeys k v).mpr (m.nodup _)
      · rename_i hk
        exact List.nodupKeys_cons.mpr ⟨hk, m.nodup _⟩
    · rw [Function.update_of_ne hi]
      exact m.nodup i
  home i k' hk' := by
    by_cases hi : i = hash k
    · subst hi
      rw [Function.update_self, mem_keys_putChain] at hk'
      rcases hk' with rfl | hk'
      · rfl
      · exact m.home _ k' hk'
    · rw [Function.update_of_ne hi] at hk'
      exact m.home i k' hk'

/-- Remove a key. -/
def remove (m : ChainedMap K V hash) (k : K) : ChainedMap K V hash where
  buckets := Function.update m.buckets (hash k) ((m.buckets (hash k)).kerase k)
  nodup i := by
    by_cases hi : i = hash k
    · subst hi
      rw [Function.update_self]
      exact (m.nodup _).kerase k
    · rw [Function.update_of_ne hi]
      exact m.nodup i
  home i k' hk' := by
    by_cases hi : i = hash k
    · subst hi
      rw [Function.update_self] at hk'
      exact m.home _ k' (List.kerase_keys_subset _ _ hk')
    · rw [Function.update_of_ne hi] at hk'
      exact m.home i k' hk'

/-- **Putting a key** changes the map at this key only. -/
theorem find_put (m : ChainedMap K V hash) (k k' : K) (v : V) :
    (m.put k v).find k' = if k' = k then some v else m.find k' := by
  unfold find put
  dsimp only
  by_cases hh : hash k' = hash k
  · rw [hh, Function.update_self, dlookup_putChain]
  · have hk : k' ≠ k := fun h => hh (h ▸ rfl)
    rw [Function.update_of_ne hh, if_neg hk]

/-- **Removing a key** changes the map at this key only. -/
theorem find_remove (m : ChainedMap K V hash) (k k' : K) :
    (m.remove k).find k' = if k' = k then none else m.find k' := by
  unfold find remove
  dsimp only
  by_cases hk : k' = k
  · subst hk
    rw [Function.update_self, if_pos rfl, List.dlookup_kerase _ (m.nodup _)]
  · rw [if_neg hk]
    by_cases hh : hash k' = hash k
    · rw [hh, Function.update_self, List.dlookup_kerase_ne hk]
    · rw [Function.update_of_ne hh]

end ChainedMap

end YellowZone.Machine
