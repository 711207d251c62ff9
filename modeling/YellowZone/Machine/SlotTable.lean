import Mathlib

/-!
# Tables of slots

A table with finitely many slots, each free or occupied, is for most purposes the multiset of its
occupants: which slot an occupant has does not matter, only that it has one. A table is a function
`ι → Option α`; these are the rules that carry operations on slots over to the multiset.

## Main definitions and results

* `occupants` — the multiset of a table
* `occupants_update` — a free slot is taken
* `occupants_filter` — slots are freed
* `card_occupants_lt` — a table with a free slot is not full
-/

namespace YellowZone.Machine

variable {ι α : Type} [Fintype ι]

/-- The occupants of a table. -/
def occupants (f : ι → Option α) : Multiset α := Finset.univ.val.filterMap f

theorem mem_occupants {f : ι → Option α} {a : α} : a ∈ occupants f ↔ ∃ i, f i = some a := by
  simp [occupants, Multiset.mem_filterMap]

section OneSlot

variable [DecidableEq ι]

/-- The occupants of the other slots. -/
def others (f : ι → Option α) (i : ι) : Multiset α := (Finset.univ.erase i).val.filterMap f

theorem univ_val_eq (i : ι) : (Finset.univ : Finset ι).val = i ::ₘ (Finset.univ.erase i).val := by
  rw [Finset.erase_val]
  exact (Multiset.cons_erase (Finset.mem_univ_val i)).symm

theorem occupants_of_free {f : ι → Option α} {i : ι} (hi : f i = none) :
    occupants f = others f i := by
  rw [occupants, univ_val_eq i]
  exact Multiset.filterMap_cons_none i _ hi

theorem occupants_of_taken {f : ι → Option α} {i : ι} {a : α} (hi : f i = some a) :
    occupants f = a ::ₘ others f i := by
  rw [occupants, univ_val_eq i]
  exact Multiset.filterMap_cons_some f i _ hi

theorem others_update (f : ι → Option α) (i : ι) (x : Option α) :
    others (Function.update f i x) i = others f i := by
  have hcongr : ∀ j ∈ (Finset.univ.erase i).toList, Function.update f i x j = f j := by
    intro j hj
    exact Function.update_of_ne (Finset.ne_of_mem_erase (Finset.mem_toList.mp hj)) _ _
  have hlist := List.filterMap_congr hcongr
  rw [others, others, ← Finset.coe_toList, Multiset.filterMap_coe, Multiset.filterMap_coe, hlist]

/-- **A free slot is taken.** -/
theorem occupants_update {f : ι → Option α} {i : ι} (hi : f i = none) (a : α) :
    occupants (Function.update f i (some a)) = a ::ₘ occupants f := by
  rw [occupants_of_taken (Function.update_self i (some a) f), others_update, occupants_of_free hi]

/-- **A table with a free slot is not full.** -/
theorem card_occupants_lt {f : ι → Option α} {i : ι} (hi : f i = none) :
    (occupants f).card < Fintype.card ι := by
  have hle : (others f i).card ≤ (Finset.univ.erase i).card := by
    rw [others, ← Finset.coe_toList, Multiset.filterMap_coe, Multiset.coe_card,
      ← Finset.length_toList]
    exact List.length_filterMap_le _ _
  have hlt : (Finset.univ.erase i).card < Fintype.card ι :=
    Finset.card_erase_lt_of_mem (Finset.mem_univ i)
  rw [occupants_of_free hi]
  omega

end OneSlot

/-- **Slots are freed.** -/
theorem occupants_filter (f : ι → Option α) (p : α → Prop) [DecidablePred p] :
    (occupants f).filter p = occupants fun i => (f i).filter fun a => decide (p a) :=
  Multiset.filter_filterMap f p _

theorem card_occupants_of_full {f : ι → Option α} (h : ∀ i, (f i).isSome = true) :
    (occupants f).card = Fintype.card ι := by
  choose g hg using fun i => Option.isSome_iff_exists.mp (h i)
  obtain rfl : f = some ∘ g := funext hg
  rw [occupants, Multiset.filterMap_eq_map, Multiset.card_map]
  rfl

end YellowZone.Machine
