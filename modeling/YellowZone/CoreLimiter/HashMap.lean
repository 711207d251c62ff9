import YellowZone.Machine.ChainedMap

/-!
# The pointer hash map

`hash_map.c`: a chained hash map from pointers to a head stream and a capture flag. Every
operation refuses the null pointer as a key; allocation is taken to succeed, so that this is the
only way `hashmap_put` can fail.

An operation that returns `-1` changes nothing, and is modelled by `none`.
-/

namespace YellowZone.CoreLimiter

open Machine

/-- A pointer: the address, in 64 bits. Streams, events and notifies are pointers. -/
abbrev Ptr : Type := BitVec 64

scoped instance lawfulBEqPtr : LawfulBEq Ptr := inferInstance

/-- `NULL`. -/
abbrev null : Ptr := 0

/-- `MapValue`: the head of the capture a stream or event belongs to, and the capture flag. -/
structure MapValue where
  ptr : Ptr
  captureStatus : Bool
  deriving DecidableEq, Repr

/-- `MOD`. -/
def hashFactor : Ptr := 2654435761

/-- `hash_ptr`: the product wraps in 64 bits. -/
def hashPtr (capacity : ℕ) (ptr : Ptr) : ℕ :=
  if capacity = 0 then 0 else (ptr * hashFactor).toNat % capacity

/-- `HashMap`. -/
structure HashMap where
  capacity : ℕ
  chains : ChainedMap Ptr MapValue (hashPtr capacity)
  size : ℕ

namespace HashMap

/-- `hashmap_create`. -/
def create (capacity : ℕ) : HashMap := ⟨capacity, .empty _, 0⟩

/-- The node of a key, if there is one. -/
def find (map : HashMap) (key : Ptr) : Option MapValue := map.chains.find key

/-- `hashmap_put`. -/
def put (map : HashMap) (key ptr : Ptr) (captureStatus : Bool) : Option HashMap :=
  if key = null then none
  else some { map with
    chains := map.chains.put key ⟨ptr, captureStatus⟩
    size := if (map.find key).isSome then map.size else map.size + 1 }

/-- `hashmap_get`. -/
def get (map : HashMap) (key : Ptr) : Option MapValue :=
  if key = null then none else map.find key

/-- `hashmap_get_ptr`. -/
def getPtr (map : HashMap) (key : Ptr) : Option Ptr := (map.get key).map MapValue.ptr

/-- `hashmap_get_capture_status`. -/
def getCaptureStatus (map : HashMap) (key : Ptr) : Option Bool :=
  (map.get key).map MapValue.captureStatus

/-- `hashmap_remove`. -/
def remove (map : HashMap) (key : Ptr) : Option HashMap :=
  if key = null then none
  else if (map.find key).isSome then
    some { map with chains := map.chains.remove key, size := map.size - 1 }
  else none

/-- `hashmap_contains`. -/
def contains (map : HashMap) (key : Ptr) : Bool := (map.get key).isSome

/-! ## The map as a partial function -/

variable {map map' : HashMap} {key key' ptr : Ptr} {captureStatus : Bool}

@[simp] theorem get_create (capacity : ℕ) (key : Ptr) : (create capacity).get key = none := by
  unfold get
  split <;> rfl

@[simp] theorem get_null (map : HashMap) : map.get null = none := if_pos rfl

/-- Putting a key changes the value of this key only. -/
theorem get_of_put (h : map.put key ptr captureStatus = some map') (k : Ptr) :
    map'.get k = if k = key then some ⟨ptr, captureStatus⟩ else map.get k := by
  unfold put at h
  split at h
  · cases h
  · rename_i hkey
    cases h
    by_cases hk : k = null
    · subst hk
      rw [get_null, get_null, if_neg (Ne.symm hkey)]
    · rw [get, if_neg hk, get, if_neg hk]
      exact ChainedMap.find_put _ _ _ _

theorem put_isSome (map : HashMap) (hkey : key ≠ null) (ptr : Ptr) (captureStatus : Bool) :
    ∃ map', map.put key ptr captureStatus = some map' := ⟨_, if_neg hkey⟩

@[simp] theorem put_null (map : HashMap) (ptr : Ptr) (captureStatus : Bool) :
    map.put null ptr captureStatus = none := if_pos rfl

/-- Removing a key takes this key only. -/
theorem get_of_remove (h : map.remove key = some map') (k : Ptr) :
    map'.get k = if k = key then none else map.get k := by
  unfold remove at h
  split at h
  · cases h
  · rename_i hkey
    split at h
    · cases h
      by_cases hk : k = null
      · subst hk
        rw [get_null, get_null, if_neg (Ne.symm hkey)]
      · rw [get, if_neg hk, get, if_neg hk]
        exact ChainedMap.find_remove _ _ _
    · cases h

theorem remove_isSome (h : (map.get key).isSome = true) : ∃ map', map.remove key = some map' := by
  unfold get at h
  split at h
  · cases h
  · rename_i hkey
    exact ⟨_, by rw [remove, if_neg hkey, if_pos h]⟩

end HashMap

end YellowZone.CoreLimiter
