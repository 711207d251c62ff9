import YellowZone.CoreLimiter.HashMap

/-!
# The pointer hash map, node by node

`HashMap` has its invariant in its type and its operations as those of a partial function. Here is
the code below it: `hash_map.c` with the loops that walk a chain, the update in place, the
insertion at the head and the unlinking of a node, its return codes and what it stores through its
result pointers. Nothing about the chains is assumed in the type.

## Two steps

The operations of `NodeMap` do to the chains of a `HashMap` what the operations of `HashMap` do
(`hashmapPut_toNodes`, `hashmapRemove_toNodes`); so every map that can be reached from an empty one
is the node map of a `HashMap`, and has its invariant. And a `HashMap` is a finite partial map on
the pointers other than `NULL` with its number of keys in `size` (`Holds`).

The calls with a null map or a null result pointer are left out, and allocation succeeds.

## Main definitions and results

* `NodeMap`, `hashmapPut`, `hashmapGet`, `hashmapRemove`, … — the operations of the source
* `MapOp`, `NodeMap.perform`, `performSpec` — one call, on the nodes and on a finite map
* `hashmap_refines` — sequences of calls have the results of a finite map
-/

namespace YellowZone.CoreLimiter

open Machine

/-! ## Chains of nodes -/

/-- `HashNode`: a key with its value. The chain is the list of its nodes from the head. -/
abbrev HashNode : Type := Σ _ : Ptr, MapValue

/-- `HashMap`, with the chain of each bucket. -/
structure NodeMap where
  capacity : ℕ
  buckets : ℕ → List HashNode
  size : ℕ

/-- The loop that looks for a key. -/
def findNode (key : Ptr) : List HashNode → Option MapValue
  | [] => none
  | node :: next => if node.1 = key then some node.2 else findNode key next

/-- The loop of `hashmap_put`: the chain with the node of the key updated in place, if there is
one. -/
def updateNode (key : Ptr) (value : MapValue) : List HashNode → Option (List HashNode)
  | [] => none
  | node :: next =>
    if node.1 = key then some (⟨node.1, value⟩ :: next)
    else (updateNode key value next).map (node :: ·)

/-- The loop of `hashmap_remove`: the chain with the node of the key unlinked, if there is one. -/
def unlinkNode (key : Ptr) : List HashNode → Option (List HashNode)
  | [] => none
  | node :: next =>
    if node.1 = key then some next else (unlinkNode key next).map (node :: ·)

theorem findNode_eq (key : Ptr) (chain : List HashNode) :
    findNode key chain = chain.dlookup key := by
  induction chain with
  | nil => rfl
  | cons node next ih =>
    rw [findNode, ih]
    by_cases h : node.1 = key
    · subst h
      rw [if_pos rfl, List.dlookup_cons_eq]
    · rw [if_neg h, List.dlookup_cons_ne _ _ (Ne.symm h)]

theorem updateNode_eq (key : Ptr) (value : MapValue) (chain : List HashNode) :
    updateNode key value chain =
      if key ∈ chain.keys then some (chain.kreplace key value) else none := by
  induction chain with
  | nil => rfl
  | cons node next ih =>
    rw [updateNode, ih, List.keys_cons]
    by_cases h : node.1 = key
    · subst h
      rw [if_pos rfl, if_pos List.mem_cons_self, List.kreplace,
        List.lookmap_cons_some _ _ (b := ⟨node.1, value⟩) (by simp)]
    · have hkeep : List.kreplace key value (node :: next) =
          node :: List.kreplace key value next := by
        rw [List.kreplace, List.lookmap_cons_none _ _ (by simp [Ne.symm h])]
      rw [if_neg h, hkeep]
      by_cases hk : key ∈ next.keys
      · rw [if_pos hk, if_pos (List.mem_cons_of_mem _ hk)]
        rfl
      · rw [if_neg hk, if_neg (by simp [hk, Ne.symm h])]
        rfl

theorem unlinkNode_eq (key : Ptr) (chain : List HashNode) :
    unlinkNode key chain = if key ∈ chain.keys then some (chain.kerase key) else none := by
  induction chain with
  | nil => rfl
  | cons node next ih =>
    rw [unlinkNode, ih, List.keys_cons]
    by_cases h : node.1 = key
    · rw [if_pos h, if_pos (by simp [h]), List.kerase_cons_eq h.symm]
    · rw [if_neg h, List.kerase_cons_ne (Ne.symm h)]
      by_cases hk : key ∈ next.keys
      · rw [if_pos hk, if_pos (List.mem_cons_of_mem _ hk)]
        rfl
      · rw [if_neg hk, if_neg (by simp [hk, Ne.symm h])]
        rfl

/-! ## The operations of the source -/

/-- `SIZE_MAX / sizeof(HashNode *)`. -/
def maxBuckets : ℕ := (2 ^ 64 - 1) / 8

/-- What `hashmap_create` sets up once it has its memory. -/
def emptyNodes (capacity : ℕ) : NodeMap := ⟨capacity, fun _ => [], 0⟩

/-- `hashmap_create`. -/
def hashmapCreate (capacity : ℕ) : Option NodeMap :=
  if capacity = 0 then none
  else if maxBuckets < capacity then none
  else some (emptyNodes capacity)

/-- `hashmap_put`: the return code, and the map after the call. -/
def hashmapPut (map : NodeMap) (key ptr : Ptr) (captureStatus : Bool) : ℤ × NodeMap :=
  if key = null then (-1, map)
  else
    let idx := hashPtr map.capacity key
    match updateNode key ⟨ptr, captureStatus⟩ (map.buckets idx) with
    | some chain => (0, { map with buckets := Function.update map.buckets idx chain })
    | none => (0, { map with
        buckets := Function.update map.buckets idx (⟨key, ⟨ptr, captureStatus⟩⟩ :: map.buckets idx)
        size := map.size + 1 })

/-- `hashmap_get`: the return code, and what has been stored through `value`. -/
def hashmapGet (map : NodeMap) (key : Ptr) : ℤ × Option MapValue :=
  if key = null then (-1, none)
  else
    match findNode key (map.buckets (hashPtr map.capacity key)) with
    | some value => (0, some value)
    | none => (-1, none)

/-- `hashmap_get_ptr`. -/
def hashmapGetPtr (map : NodeMap) (key : Ptr) : ℤ × Option Ptr :=
  if key = null then (-1, none)
  else
    match findNode key (map.buckets (hashPtr map.capacity key)) with
    | some value => (0, some value.ptr)
    | none => (-1, none)

/-- `hashmap_get_capture_status`. -/
def hashmapGetCaptureStatus (map : NodeMap) (key : Ptr) : ℤ × Option Bool :=
  if key = null then (-1, none)
  else
    match findNode key (map.buckets (hashPtr map.capacity key)) with
    | some value => (0, some value.captureStatus)
    | none => (-1, none)

/-- `hashmap_remove`. -/
def hashmapRemove (map : NodeMap) (key : Ptr) : ℤ × NodeMap :=
  if key = null then (-1, map)
  else
    let idx := hashPtr map.capacity key
    match unlinkNode key (map.buckets idx) with
    | some chain => (0, { map with
        buckets := Function.update map.buckets idx chain
        size := map.size - 1 })
    | none => (-1, map)

/-- `hashmap_contains`. -/
def hashmapContains (map : NodeMap) (key : Ptr) : ℤ :=
  if key = null then 0
  else if (findNode key (map.buckets (hashPtr map.capacity key))).isSome then 1 else 0

/-! ## Calls -/

/-- One call. -/
inductive MapOp where
  | put (key ptr : Ptr) (captureStatus : Bool)
  | get (key : Ptr)
  | getPtr (key : Ptr)
  | getCaptureStatus (key : Ptr)
  | contains (key : Ptr)
  | remove (key : Ptr)

/-- What a call hands back: its return code, and what it has stored through its result pointer. -/
structure Answer where
  code : ℤ
  value : Option MapValue := none
  ptr : Option Ptr := none
  captureStatus : Option Bool := none
  deriving DecidableEq

/-- A call on the nodes. -/
def NodeMap.perform (map : NodeMap) : MapOp → Answer × NodeMap
  | .put key ptr captureStatus =>
    let r := hashmapPut map key ptr captureStatus
    ({ code := r.1 }, r.2)
  | .get key => let r := hashmapGet map key; ({ code := r.1, value := r.2 }, map)
  | .getPtr key => let r := hashmapGetPtr map key; ({ code := r.1, ptr := r.2 }, map)
  | .getCaptureStatus key =>
    let r := hashmapGetCaptureStatus map key
    ({ code := r.1, captureStatus := r.2 }, map)
  | .contains key => ({ code := hashmapContains map key }, map)
  | .remove key => let r := hashmapRemove map key; ({ code := r.1 }, r.2)

/-- The finite partial map that the hash map is to be. -/
abbrev FiniteMap : Type := Finmap fun _ : Ptr => MapValue

/-- The return code of a call that looks for something. -/
def foundCode {α : Type} : Option α → ℤ
  | some _ => 0
  | none => -1

/-- A call on the finite map. It has no key `NULL`: what is asked of this key fails and changes
nothing. -/
def performSpec (map : FiniteMap) : MapOp → Answer × FiniteMap
  | .put key ptr captureStatus =>
    if key = null then ({ code := -1 }, map)
    else ({ code := 0 }, map.insert key ⟨ptr, captureStatus⟩)
  | .get key => ({ code := foundCode (map.lookup key), value := map.lookup key }, map)
  | .getPtr key =>
    ({ code := foundCode (map.lookup key), ptr := (map.lookup key).map MapValue.ptr }, map)
  | .getCaptureStatus key =>
    ({ code := foundCode (map.lookup key),
       captureStatus := (map.lookup key).map MapValue.captureStatus }, map)
  | .contains key => ({ code := if key ∈ map then 1 else 0 }, map)
  | .remove key => ({ code := if key ∈ map then 0 else -1 }, map.erase key)

/-- A sequence of calls, with the answers in order. -/
def performAll {M : Type} (perform : M → MapOp → Answer × M) (map : M) :
    List MapOp → List Answer × M
  | [] => ([], map)
  | op :: ops =>
    let r := perform map op
    let rest := performAll perform r.2 ops
    (r.1 :: rest.1, rest.2)

/-! ## From nodes to the map with its invariant -/

namespace HashMap

/-- The nodes of a map. -/
def toNodes (map : HashMap) : NodeMap := ⟨map.capacity, map.chains.buckets, map.size⟩

variable (map : HashMap) (key ptr : Ptr) (captureStatus : Bool)

@[simp] theorem toNodes_create (capacity : ℕ) : (create capacity).toNodes = emptyNodes capacity :=
  rfl

theorem findNode_toNodes : findNode key (map.toNodes.buckets (hashPtr map.toNodes.capacity key)) =
    map.find key :=
  findNode_eq key _

theorem mem_keys_iff : key ∈ (map.chains.buckets (hashPtr map.capacity key)).keys ↔
    (map.find key).isSome = true :=
  List.dlookup_isSome.symm

theorem hashmapPut_toNodes : hashmapPut map.toNodes key ptr captureStatus =
    match map.put key ptr captureStatus with
    | some map' => (0, map'.toNodes)
    | none => (-1, map.toNodes) := by
  unfold hashmapPut put
  by_cases hnull : key = null
  · rw [if_pos hnull, if_pos hnull]
  · rw [if_neg hnull, if_neg hnull]
    dsimp only [toNodes]
    rw [updateNode_eq]
    by_cases hk : (map.find key).isSome = true
    · rw [if_pos ((map.mem_keys_iff key).mpr hk), if_pos hk]
      dsimp only [ChainedMap.put, ChainedMap.putChain]
      rw [if_pos ((map.mem_keys_iff key).mpr hk)]
    · rw [if_neg fun h => hk ((map.mem_keys_iff key).mp h), if_neg hk]
      dsimp only [ChainedMap.put, ChainedMap.putChain]
      rw [if_neg fun h => hk ((map.mem_keys_iff key).mp h)]

theorem hashmapRemove_toNodes : hashmapRemove map.toNodes key =
    match map.remove key with
    | some map' => (0, map'.toNodes)
    | none => (-1, map.toNodes) := by
  unfold hashmapRemove remove
  by_cases hnull : key = null
  · rw [if_pos hnull, if_pos hnull]
  · rw [if_neg hnull, if_neg hnull]
    dsimp only [toNodes]
    rw [unlinkNode_eq]
    by_cases hk : (map.find key).isSome = true
    · rw [if_pos ((map.mem_keys_iff key).mpr hk), if_pos hk]
      rfl
    · rw [if_neg fun h => hk ((map.mem_keys_iff key).mp h), if_neg hk]

theorem capacity_of_put {map' : HashMap} (h : map.put key ptr captureStatus = some map') :
    map'.capacity = map.capacity := by
  unfold put at h
  split at h <;> cases h
  rfl

theorem capacity_of_remove {map' : HashMap} (h : map.remove key = some map') :
    map'.capacity = map.capacity := by
  unfold remove at h
  split at h
  · cases h
  · split at h <;> cases h
    rfl

/-- The three calls that look for a key answer alike. -/
theorem hashmapGet_toNodes :
    hashmapGet map.toNodes key = (foundCode (map.get key), map.get key) := by
  unfold hashmapGet get
  split
  · rfl
  · rw [findNode_toNodes]
    cases map.find key <;> rfl

theorem hashmapGetPtr_toNodes : hashmapGetPtr map.toNodes key =
    (foundCode (map.get key), (map.get key).map MapValue.ptr) := by
  unfold hashmapGetPtr get
  split
  · rfl
  · rw [findNode_toNodes]
    cases map.find key <;> rfl

theorem hashmapGetCaptureStatus_toNodes : hashmapGetCaptureStatus map.toNodes key =
    (foundCode (map.get key), (map.get key).map MapValue.captureStatus) := by
  unfold hashmapGetCaptureStatus get
  split
  · rfl
  · rw [findNode_toNodes]
    cases map.find key <;> rfl

theorem hashmapContains_toNodes : hashmapContains map.toNodes key =
    if map.contains key then 1 else 0 := by
  unfold hashmapContains contains get
  split
  · rfl
  · rw [findNode_toNodes]

/-! ## From the map with its invariant to a finite map -/

/-- The map is the finite map `fin`, which does not have the key `NULL`, and counts its keys. -/
structure Holds (map : HashMap) (fin : FiniteMap) : Prop where
  find : ∀ key, map.find key = fin.lookup key
  null_notMem : null ∉ fin
  size : map.size = fin.keys.card

variable {map key ptr captureStatus} {map' : HashMap} {fin : FiniteMap}

theorem holds_create (capacity : ℕ) : (create capacity).Holds ∅ where
  find key := by rw [Finmap.lookup_empty]; rfl
  null_notMem := Finmap.notMem_empty
  size := rfl

/-- A key is in the finite map if it has a node. -/
theorem Holds.mem_iff (h : map.Holds fin) : key ∈ fin ↔ (map.find key).isSome = true := by
  rw [h.find, Finmap.lookup_isSome]

theorem Holds.get (h : map.Holds fin) (key : Ptr) : map.get key = fin.lookup key := by
  rw [HashMap.get]
  split
  · rename_i hnull
    subst hnull
    exact (Finmap.lookup_eq_none.mpr h.null_notMem).symm
  · exact h.find key

theorem card_keys_insert (fin : FiniteMap) (key : Ptr) (value : MapValue) :
    (fin.insert key value).keys.card = if key ∈ fin then fin.keys.card else fin.keys.card + 1 := by
  have hkeys : (fin.insert key value).keys = insert key fin.keys := by
    ext k
    simp [Finmap.mem_keys, Finmap.mem_insert]
  rw [hkeys]
  by_cases hk : key ∈ fin
  · rw [if_pos hk, Finset.insert_eq_of_mem (Finmap.mem_keys.mpr hk)]
  · rw [if_neg hk, Finset.card_insert_of_notMem fun h => hk (Finmap.mem_keys.mp h)]

/-- **Putting a key.** -/
theorem Holds.put (h : map.Holds fin) (hput : map.put key ptr captureStatus = some map') :
    map'.Holds (fin.insert key ⟨ptr, captureStatus⟩) := by
  unfold HashMap.put at hput
  split at hput
  · cases hput
  · rename_i hnull
    cases hput
    refine ⟨fun k => ?_, ?_, ?_⟩
    · refine (ChainedMap.find_put _ key k _).trans ?_
      by_cases hk : k = key
      · subst hk
        rw [if_pos rfl, Finmap.lookup_insert]
      · rw [if_neg hk, Finmap.lookup_insert_of_ne _ hk]
        exact h.find k
    · rw [Finmap.mem_insert]
      exact not_or.mpr ⟨Ne.symm hnull, h.null_notMem⟩
    · dsimp only
      rw [card_keys_insert, h.size]
      by_cases hk : key ∈ fin
      · rw [if_pos (h.mem_iff.mp hk), if_pos hk]
      · rw [if_neg fun hs => hk (h.mem_iff.mpr hs), if_neg hk]

/-- **Removing a key.** -/
theorem Holds.remove (h : map.Holds fin) (hrem : map.remove key = some map') :
    key ∈ fin ∧ map'.Holds (fin.erase key) := by
  unfold HashMap.remove at hrem
  split at hrem
  · cases hrem
  · split at hrem
    · rename_i hsome
      have hk : key ∈ fin := h.mem_iff.mpr hsome
      cases hrem
      refine ⟨hk, fun k => ?_, fun hnull => h.null_notMem (Finmap.mem_erase.mp hnull).2, ?_⟩
      · refine (ChainedMap.find_remove _ key k).trans ?_
        by_cases hkk : k = key
        · subst hkk
          rw [if_pos rfl, Finmap.lookup_erase]
        · rw [if_neg hkk, Finmap.lookup_erase_ne hkk]
          exact h.find k
      · rw [Finmap.keys_erase, Finset.card_erase_of_mem (Finmap.mem_keys.mpr hk), ← h.size]
    · cases hrem

theorem Holds.notMem_of_remove (h : map.Holds fin) (hrem : map.remove key = none) : key ∉ fin := by
  intro hk
  have hsome : (map.get key).isSome = true := by
    rw [h.get]
    exact Finmap.lookup_isSome.mpr hk
  obtain ⟨map', hmap'⟩ := remove_isSome hsome
  rw [hrem] at hmap'
  cases hmap'

/-- **One call** has the answer it has on the finite map. -/
theorem Holds.perform (h : map.Holds fin) (op : MapOp) :
    (map.toNodes.perform op).1 = (performSpec fin op).1 ∧
      ∃ map' : HashMap, (map.toNodes.perform op).2 = map'.toNodes ∧ map'.capacity = map.capacity ∧
        map'.Holds (performSpec fin op).2 := by
  cases op with
  | put key ptr captureStatus =>
    dsimp only [NodeMap.perform, performSpec]
    rw [hashmapPut_toNodes]
    by_cases hnull : key = null
    · subst hnull
      rw [put_null, if_pos rfl]
      exact ⟨rfl, map, rfl, rfl, h⟩
    · obtain ⟨map', hput⟩ := put_isSome map hnull ptr captureStatus
      rw [hput, if_neg hnull]
      exact ⟨rfl, map', rfl, capacity_of_put _ _ _ _ hput, h.put hput⟩
  | get key =>
    dsimp only [NodeMap.perform, performSpec]
    rw [hashmapGet_toNodes, h.get]
    exact ⟨rfl, map, rfl, rfl, h⟩
  | getPtr key =>
    dsimp only [NodeMap.perform, performSpec]
    rw [hashmapGetPtr_toNodes, h.get]
    exact ⟨rfl, map, rfl, rfl, h⟩
  | getCaptureStatus key =>
    dsimp only [NodeMap.perform, performSpec]
    rw [hashmapGetCaptureStatus_toNodes, h.get]
    exact ⟨rfl, map, rfl, rfl, h⟩
  | contains key =>
    dsimp only [NodeMap.perform, performSpec]
    rw [hashmapContains_toNodes]
    refine ⟨?_, map, rfl, rfl, h⟩
    rw [contains, h.get]
    by_cases hk : key ∈ fin
    · rw [if_pos (Finmap.lookup_isSome.mpr hk), if_pos hk]
    · rw [if_neg fun hs => hk (Finmap.lookup_isSome.mp hs), if_neg hk]
  | remove key =>
    dsimp only [NodeMap.perform, performSpec]
    rw [hashmapRemove_toNodes]
    cases hrem : map.remove key with
    | some map' =>
      obtain ⟨hk, hholds⟩ := h.remove hrem
      rw [if_pos hk]
      exact ⟨rfl, map', rfl, capacity_of_remove _ _ hrem, hholds⟩
    | none =>
      have hk := h.notMem_of_remove hrem
      have herase : fin.erase key = fin := by
        refine Finmap.ext_lookup fun k => ?_
        by_cases hkk : k = key
        · subst hkk
          rw [Finmap.lookup_erase, Finmap.lookup_eq_none.mpr hk]
        · rw [Finmap.lookup_erase_ne hkk]
      rw [if_neg hk, herase]
      exact ⟨rfl, map, rfl, rfl, h⟩

/-- **A sequence of calls** has the answers it has on the finite map, and ends in the nodes of a
map that has its invariant. -/
theorem Holds.performAll (ops : List MapOp) :
    ∀ {map : HashMap} {fin : FiniteMap}, map.Holds fin →
      (performAll NodeMap.perform map.toNodes ops).1 = (performAll performSpec fin ops).1 ∧
        ∃ map' : HashMap, (CoreLimiter.performAll NodeMap.perform map.toNodes ops).2 =
            map'.toNodes ∧ map'.capacity = map.capacity ∧
          map'.Holds (CoreLimiter.performAll performSpec fin ops).2 := by
  induction ops with
  | nil => exact fun {map _} h => ⟨rfl, map, rfl, rfl, h⟩
  | cons op ops ih =>
    intro map fin h
    obtain ⟨hans, map₁, hnodes, hcap, h₁⟩ := h.perform op
    obtain ⟨hrest, map₂, hnodes₂, hcap₂, h₂⟩ := ih h₁
    dsimp only [CoreLimiter.performAll]
    rw [hnodes, hans, hrest]
    exact ⟨rfl, map₂, hnodes₂, hcap₂.trans hcap, h₂⟩

end HashMap

/-! ## The nodes of all buckets -/

/-- All keys, node by node. -/
def NodeMap.allKeys (map : NodeMap) : List Ptr :=
  (List.range map.capacity).flatMap fun i => (map.buckets i).keys

namespace HashMap

variable {map : HashMap} {fin : FiniteMap}

theorem hashPtr_lt {capacity : ℕ} (hcap : 0 < capacity) (key : Ptr) :
    hashPtr capacity key < capacity := by
  rw [hashPtr, if_neg (by omega)]
  exact Nat.mod_lt _ hcap

/-- No key is in two nodes: a chain has each of its keys once, and chains have different keys. -/
theorem nodup_allKeys (map : HashMap) : map.toNodes.allKeys.Nodup := by
  refine List.nodup_flatMap.mpr ⟨fun i _ => map.chains.nodup i, ?_⟩
  refine List.nodup_range.imp fun {i j} hij => ?_
  intro k hi hj
  exact hij ((map.chains.home i k hi).symm.trans (map.chains.home j k hj))

theorem mem_allKeys (hcap : 0 < map.capacity) {key : Ptr} :
    key ∈ map.toNodes.allKeys ↔ (map.find key).isSome = true := by
  rw [NodeMap.allKeys, List.mem_flatMap, ← map.mem_keys_iff]
  constructor
  · rintro ⟨i, -, hk⟩
    rwa [map.chains.home i key hk]
  · intro hk
    exact ⟨_, List.mem_range.mpr (hashPtr_lt hcap key), hk⟩

end HashMap

/-- **The pointer hash map refines a finite map.** Every sequence of calls on a map of positive
capacity has the results it has on a finite partial map without `NULL`; afterwards no key is in
two nodes, every node is in the bucket its key hashes to, and `size` is the number of keys. -/
theorem hashmap_refines {capacity : ℕ} (hcap : 0 < capacity) (ops : List MapOp) :
    (capacity ≤ maxBuckets → hashmapCreate capacity = some (emptyNodes capacity)) ∧
      (performAll NodeMap.perform (emptyNodes capacity) ops).1 = (performAll performSpec ∅ ops).1 ∧
      let map := (performAll NodeMap.perform (emptyNodes capacity) ops).2
      let fin := (performAll performSpec ∅ ops).2
      (∀ key, key ∈ map.allKeys ↔ key ∈ fin) ∧ map.allKeys.Nodup ∧
        (∀ i, ∀ node ∈ map.buckets i, i < capacity ∧ hashPtr capacity node.1 = i) ∧
        map.size = fin.keys.card := by
  refine ⟨fun hle => ?_, ?_⟩
  · rw [hashmapCreate, if_neg (by omega), if_neg (by omega)]
  obtain ⟨hans, map, hnodes, hcapacity, hholds⟩ :=
    (HashMap.holds_create capacity).performAll ops
  rw [HashMap.toNodes_create] at hans hnodes
  have hmap : map.capacity = capacity := hcapacity
  subst hmap
  refine ⟨hans, ?_⟩
  dsimp only
  rw [hnodes]
  refine ⟨fun key => ?_, map.nodup_allKeys, fun i node hnode => ?_, hholds.size⟩
  · rw [HashMap.mem_allKeys hcap, hholds.mem_iff]
  · have hhome := map.chains.home i node.1 (List.mem_map_of_mem hnode)
    exact ⟨hhome ▸ HashMap.hashPtr_lt hcap node.1, hhome⟩

/-- Two keys in one bucket: one is updated in place, the other unlinked, and `NULL` is refused. -/
def oneBucket : List MapOp :=
  [.put 16 3 false, .put 32 4 true, .put 16 5 true, .put null 6 true, .remove 32, .contains 32,
    .getPtr 16, .remove 32]

theorem hashmap_refines_oneBucket :
    0 < 1 ∧ (performAll performSpec ∅ oneBucket).1 =
      [⟨0, none, none, none⟩, ⟨0, none, none, none⟩, ⟨0, none, none, none⟩, ⟨-1, none, none, none⟩,
        ⟨0, none, none, none⟩, ⟨0, none, none, none⟩, ⟨0, none, some 5, none⟩,
        ⟨-1, none, none, none⟩] ∧
      (performAll NodeMap.perform (emptyNodes 1) oneBucket).2.allKeys = [16] := by
  refine ⟨by decide, ?_, by decide⟩
  rw [← (hashmap_refines Nat.one_pos oneBucket).2.1]
  decide

end YellowZone.CoreLimiter
