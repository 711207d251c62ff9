import YellowZone.CoreLimiter.Streams

/-!
# The cache and the stream map

`synchronize_and_clear_streams` returns half way through if it meets a cached stream that is not
in the stream map, after it has taken streams before it out of the map but not out of the cache.
So the two have to agree: the cached streams are distinct, they fit the array, and each is a key
of the map (`CacheOk`).

The null stream breaks this, and nothing else does. `rtsModelExecute` passes it to `core_limiter`;
it is appended to the cache, but the map refuses it as a key.

## Main results

* `sync_spec` — what a turn does to a cache that agrees with the map
* `perform_cacheOk_iff` — an operation keeps the invariant unless it admits `NULL`
* `cache_ok_iff`, `null_stream_breaks_cache`
-/

namespace YellowZone.CoreLimiter

open Machine

variable {l : Limiter} {stm head k : Ptr}

/-! ## Single functions -/

/-- The stream map refuses `NULL`. -/
@[simp] theorem putStream_null (l : Limiter) (head : Ptr) (capture : Bool) :
    putStream l null head capture = l := by
  rw [putStream, HashMap.put_null]
  rfl

theorem get_putStream (hstm : stm ≠ null) (head : Ptr) (capture : Bool) (k : Ptr) :
    (putStream l stm head capture).streamMap.get k =
      if k = stm then some ⟨head, capture⟩ else l.streamMap.get k := by
  obtain ⟨map', hmap⟩ := l.streamMap.put_isSome hstm head capture
  rw [putStream, hmap]
  exact HashMap.get_of_put hmap k

theorem get_putStream_isSome (h : (l.streamMap.get k).isSome = true) (stm head : Ptr)
    (capture : Bool) : ((putStream l stm head capture).streamMap.get k).isSome = true := by
  by_cases hstm : stm = null
  · rw [hstm, putStream_null]
    exact h
  · rw [get_putStream hstm]
    split
    · rfl
    · exact h

/-- What `restore_streams` does: nothing to a known stream or a full cache, else it appends. -/
theorem restoreStreams_cases (l : Limiter) (stm : Ptr) :
    (restoreStreams l stm = l ∧
      ((l.streamMap.get stm).isSome = true ∨ maxStreamsPerProcess ≤ l.cache.length)) ∨
    ((l.streamMap.get stm).isSome = false ∧ l.cache.length < maxStreamsPerProcess ∧
      restoreStreams l stm = putStream { l with cache := l.cache ++ [stm] } stm null false) := by
  unfold restoreStreams HashMap.contains
  split
  · rename_i h
    exact .inl ⟨rfl, .inl h⟩
  · rename_i h
    split
    · rename_i hfull
      exact .inl ⟨rfl, .inr hfull⟩
    · rename_i hroom
      exact .inr ⟨by simpa using h, Nat.not_le.mp hroom, rfl⟩

/-- The stream is marked as captured. -/
def captured (l : Limiter) (stm : Ptr) : Bool := l.streamMap.getCaptureStatus stm == some true

theorem captured_of_get {v : MapValue} (h : l.streamMap.get stm = some v) :
    captured l stm = v.captureStatus := by
  simp [captured, HashMap.getCaptureStatus, h]

/-! ## The invariant -/

/-- The cached streams are distinct, fit the array, and are keys of the map. -/
structure CacheOk (l : Limiter) : Prop where
  nodup : l.cache.Nodup
  bound : l.cache.length ≤ maxStreamsPerProcess
  keys : ∀ s ∈ l.cache, (l.streamMap.get s).isSome = true

theorem cacheOk_initialLimiter : CacheOk initialLimiter := ⟨.nil, Nat.zero_le _, nofun⟩

/-- `NULL` is never a key. -/
theorem CacheOk.null_notMem (h : CacheOk l) : null ∉ l.cache := fun hin => by
  have hkey := h.keys null hin
  rw [HashMap.get_null] at hkey
  cases hkey

/-- The map may gain keys. -/
theorem CacheOk.of_cache_eq {l' : Limiter} (h : CacheOk l) (hc : l'.cache = l.cache)
    (hk : ∀ s, (l.streamMap.get s).isSome = true → (l'.streamMap.get s).isSome = true) :
    CacheOk l' := by
  refine ⟨hc ▸ h.nodup, hc ▸ h.bound, fun s hs => hk s (h.keys s (hc ▸ hs))⟩

/-- The outcome of a turn over the entries `todo`, with `kept` and `synced` from the entries before
them: the captured ones are kept, in order, the others are synchronized and taken out of the
map. -/
structure Turned (l : Limiter) (todo kept synced : List Ptr) (r : Sync) : Prop where
  ok : r.ok = true
  synced_eq : r.synced = synced ++ todo.filter (fun s => !captured l s)
  cache : r.limiter.cache = kept ++ todo.filter (captured l)
  eventMap : r.limiter.eventMap = l.eventMap
  get : ∀ k, r.limiter.streamMap.get k =
    if k ∈ todo ∧ captured l k = false then none else l.streamMap.get k

/-- The first of the entries still to come is captured. -/
theorem Turned.keep {stm : Ptr} {todo kept synced : List Ptr} {r : Sync} (hnotin : stm ∉ todo)
    (hcap : captured l stm = true) (h : Turned l todo (kept ++ [stm]) synced r) :
    Turned l (stm :: todo) kept synced r where
  ok := h.ok
  synced_eq := by rw [h.synced_eq]; simp [hcap]
  cache := by rw [h.cache]; simp [hcap]
  eventMap := h.eventMap
  get k := by
    rw [h.get k]
    by_cases hk : k = stm
    · subst hk
      simp [hnotin, hcap]
    · simp [hk]

/-- The first of the entries still to come is synchronized. -/
theorem Turned.clear {stm : Ptr} {todo kept synced : List Ptr} {r : Sync} {map : HashMap}
    (hnotin : stm ∉ todo) (hcap : captured l stm = false) (hrem : l.streamMap.remove stm = some map)
    (h : Turned { l with streamMap := map } todo kept (synced ++ [stm]) r) :
    Turned l (stm :: todo) kept synced r := by
  have hget := HashMap.get_of_remove hrem
  have hcap' : ∀ s ∈ todo, captured { l with streamMap := map } s = captured l s := fun s hs => by
    have hne : s ≠ stm := by rintro rfl; exact hnotin hs
    simp [captured, HashMap.getCaptureStatus, hget, hne]
  refine ⟨h.ok, ?_, ?_, h.eventMap, fun k => ?_⟩
  · rw [h.synced_eq, List.filter_congr fun s hs => by rw [hcap' s hs]]
    simp [hcap]
  · rw [h.cache, List.filter_congr hcap']
    simp [hcap]
  · rw [h.get k]
    by_cases hk : k = stm
    · subst hk
      simp [hnotin, hcap, hget]
    · by_cases hin : k ∈ todo
      · simp [hk, hin, hcap' k hin, hget]
      · simp [hk, hin, hget]

/-- The loop of a turn, when the entries still to come are distinct keys of the map. -/
theorem syncFrom_spec (todo : List Ptr) :
    ∀ (l : Limiter) (i remaining : ℕ) (synced : List Ptr), l.cache.drop i = todo →
      remaining ≤ i → todo.Nodup → (∀ s ∈ todo, (l.streamMap.get s).isSome = true) →
      Turned l todo (l.cache.take remaining) synced
        (syncFrom l i remaining synced todo.length) := by
  induction todo with
  | nil =>
    intro l i remaining synced _ _ _ _
    exact ⟨rfl, by simp [syncFrom], by simp [syncFrom], rfl, fun k => by simp [syncFrom]⟩
  | cons stm todo ih =>
    intro l i remaining synced hdrop hle hnodup hkeys
    have hlen : i < l.cache.length := by
      by_contra h
      rw [List.drop_eq_nil_of_le (Nat.not_lt.mp h)] at hdrop
      cases hdrop
    rw [List.drop_eq_getElem_cons hlen] at hdrop
    obtain ⟨hget, hdrop⟩ := List.cons.inj hdrop
    have hget : l.cache.getD i null = stm := by simp [hlen, hget]
    obtain ⟨hnotin, hnodup⟩ := List.nodup_cons.mp hnodup
    obtain ⟨v, hv⟩ := Option.isSome_iff_exists.mp (hkeys stm (.head _))
    have hcap := captured_of_get hv
    have hstatus : l.streamMap.getCaptureStatus stm = some v.captureStatus := by
      simp [HashMap.getCaptureStatus, hv]
    rw [List.length_cons]
    cases hcs : v.captureStatus with
    | true =>
      -- the stream moves to the front part of the array
      have hstep : syncFrom l i remaining synced (todo.length + 1) =
          syncFrom { l with cache := l.cache.set remaining stm } (i + 1) (remaining + 1) synced
            todo.length := by
        simp only [syncFrom, hget, hstatus, hcs]
      have htake : (l.cache.set remaining stm).take (remaining + 1) =
          l.cache.take remaining ++ [stm] := by
        rw [List.take_succ_eq_append_getElem (by rw [List.length_set]; omega),
          List.getElem_set_self, List.take_set_of_le (Nat.le_refl _)]
      rw [hstep]
      refine .keep hnotin (hcap.trans hcs) ?_
      have h := ih { l with cache := l.cache.set remaining stm } (i + 1) (remaining + 1) synced
        (by rw [List.drop_set_of_lt (by omega), hdrop]) (by omega) hnodup
        (fun s hs => hkeys s (.tail _ hs))
      rw [htake] at h
      exact ⟨h.ok, h.synced_eq, h.cache, h.eventMap, h.get⟩
    | false =>
      obtain ⟨map, hrem⟩ := HashMap.remove_isSome (hkeys stm (.head _))
      have hstep : syncFrom l i remaining synced (todo.length + 1) =
          syncFrom { l with streamMap := map } (i + 1) remaining (synced ++ [stm]) todo.length := by
        simp only [syncFrom, hget, hstatus, hcs, hrem]
      rw [hstep]
      refine .clear hnotin (hcap.trans hcs) hrem ?_
      refine ih { l with streamMap := map } (i + 1) remaining (synced ++ [stm]) hdrop (by omega)
        hnodup fun s hs => ?_
      have hne : s ≠ stm := by rintro rfl; exact hnotin hs
      rw [HashMap.get_of_remove hrem, if_neg hne]
      exact hkeys s (.tail _ hs)

/-- **A turn over a cache that agrees with the map.** -/
theorem sync_spec (h : CacheOk l) : Turned l l.cache [] [] (synchronizeAndClearStreams l) :=
  syncFrom_spec l.cache l 0 0 [] rfl (Nat.le_refl 0) h.nodup h.keys

/-! ## Operations -/

/-- The stream that `core_limiter` admits in an operation, and that may stay in the cache. -/
def Op.admitted : Op → Option Ptr
  | .launch stm | .beginCapture stm | .endCapture stm _ => some stm
  | _ => none

/-- `core_limiter` admits the null stream, and the cache has room for it. -/
def AdmitsNull (l : Limiter) (op : Op) : Prop :=
  op.admitted = some null ∧ l.cache.length < maxStreamsPerProcess

instance (l : Limiter) (op : Op) : Decidable (AdmitsNull l op) :=
  inferInstanceAs (Decidable (_ ∧ _))

/-- Admitting a stream other than `NULL` keeps the invariant. -/
theorem CacheOk.restoreStreams (h : CacheOk l) (hstm : stm ≠ null) :
    CacheOk (restoreStreams l stm) := by
  rcases restoreStreams_cases l stm with ⟨heq, -⟩ | ⟨hnew, hroom, heq⟩
  · rwa [heq]
  · have hnotin : stm ∉ l.cache := fun hin => by
      rw [h.keys stm hin] at hnew
      cases hnew
    rw [heq]
    refine ⟨?_, ?_, fun s hs => ?_⟩
    · exact List.nodup_append.mpr ⟨h.nodup, List.nodup_singleton _, fun a ha b hb hab => by
        rw [List.mem_singleton.mp hb] at hab
        exact hnotin (hab ▸ ha)⟩
    · change (l.cache ++ [stm]).length ≤ _
      rw [List.length_append]
      exact hroom
    · rw [get_putStream hstm]
      split
      · rfl
      · rename_i hne
        rcases List.mem_append.mp hs with hs | hs
        · exact h.keys s hs
        · exact absurd (List.mem_singleton.mp hs) hne

theorem CacheOk.addStream (h : CacheOk l) (stm : Ptr) : CacheOk (addStream l stm) := by
  unfold CoreLimiter.addStream
  split
  · exact h
  · exact h.of_cache_eq rfl fun s hs => get_putStream_isSome hs _ _ _

/-- Ending a capture takes no stream out of the map. -/
theorem get_clearHead_isSome {map : HashMap} (h : (map.get k).isSome = true) (stream : Ptr)
    (todo : List Ptr) : ((clearHead stream map todo).get k).isSome = true := by
  induction todo generalizing map with
  | nil => exact h
  | cons stm rest ih =>
    unfold clearHead
    split
    · exact h
    · split
      · split
        · exact h
        · rename_i map' hput
          refine ih ?_
          rw [HashMap.get_of_put hput]
          split
          · rfl
          · exact h
      · exact ih h

theorem CacheOk.setStreamCapture (h : CacheOk l) (capture : Bool) (stm : Ptr) :
    CacheOk (setStreamCapture capture l stm) := by
  cases capture with
  | true => exact h.of_cache_eq rfl fun s hs => get_putStream_isSome hs _ _ _
  | false => exact h.of_cache_eq rfl fun s hs => get_clearHead_isSome hs _ _

theorem CacheOk.removeStream (h : CacheOk l) (stm : Ptr) : CacheOk (removeStream l stm) := by
  unfold CoreLimiter.removeStream
  split
  · rename_i hin
    obtain ⟨map, hrem⟩ := HashMap.remove_isSome (h.keys stm hin)
    rw [hrem]
    refine ⟨h.nodup.erase stm, ?_, fun s hs => ?_⟩
    · exact Nat.le_trans List.length_erase_le h.bound
    · have hne : s ≠ stm := by
        rintro rfl
        exact h.nodup.not_mem_erase hs
      change (map.get s).isSome = true
      rw [HashMap.get_of_remove hrem, if_neg hne]
      exact h.keys s (List.mem_of_mem_erase hs)
  · exact h

theorem CacheOk.synchronize (h : CacheOk l) :
    CacheOk (synchronizeAndClearStreams l).limiter := by
  have hspec := sync_spec h
  have hcache : (synchronizeAndClearStreams l).limiter.cache = l.cache.filter (captured l) :=
    hspec.cache
  refine ⟨?_, ?_, fun s hs => ?_⟩
  · rw [hcache]
    exact h.nodup.filter _
  · rw [hcache]
    exact Nat.le_trans (List.length_filter_le _ _) h.bound
  · rw [hcache, List.mem_filter] at hs
    rw [hspec.get s, if_neg (by simp [hs.2])]
    exact h.keys s hs.1

/-- A null stream that is destroyed does not stay in the cache. -/
theorem CacheOk.destroy_null (h : CacheOk l) : CacheOk (perform l (.streamDestroy null)) := by
  have hnotin : null ∉ l.cache := h.null_notMem
  change CacheOk (CoreLimiter.removeStream (CoreLimiter.restoreStreams l null) null)
  rcases restoreStreams_cases l null with ⟨heq, -⟩ | ⟨-, -, heq⟩
  · rw [heq]
    exact h.removeStream null
  · rw [heq, putStream_null, CoreLimiter.removeStream, if_pos (by simp)]
    refine h.of_cache_eq ?_ fun s hs => ?_
    · dsimp only
      rw [List.erase_append_right _ hnotin]
      simp
    · exact hs

/-- **An operation keeps the invariant unless it admits `NULL`.** -/
theorem perform_cacheOk_iff (h : CacheOk l) (op : Op) :
    CacheOk (perform l op) ↔ ¬AdmitsNull l op := by
  constructor
  · -- the null stream is in the cache afterwards, and never a key
    rintro h' ⟨hnull, hroom⟩
    have hrestore : (restoreStreams l null).cache = l.cache ++ [null] := by
      rcases restoreStreams_cases l null with ⟨-, hsome | hfull⟩ | ⟨-, -, heq⟩
      · rw [HashMap.get_null] at hsome
        cases hsome
      · omega
      · rw [heq]
        rfl
    have hcache : (perform l op).cache = l.cache ++ [null] := by
      cases op with
      | launch stm => cases hnull; exact hrestore
      | beginCapture stm => cases hnull; exact hrestore
      | endCapture stm ok =>
        cases hnull
        cases ok <;> exact hrestore
      | _ => cases hnull
    exact h'.null_notMem (by rw [hcache]; simp)
  · intro hnot
    -- `core_limiter` on `NULL` finds the cache full and does nothing
    have hadm : ∀ {stm}, op.admitted = some stm → CacheOk (restoreStreams l stm) := by
      intro stm hadm
      by_cases hstm : stm = null
      · subst hstm
        rcases restoreStreams_cases l null with ⟨heq, -⟩ | ⟨-, hroom, -⟩
        · rwa [heq]
        · exact absurd ⟨hadm, hroom⟩ hnot
      · exact h.restoreStreams hstm
    cases op with
    | launch stm => exact hadm rfl
    | beginCapture stm => exact (hadm rfl).setStreamCapture true stm
    | endCapture stm ok =>
      cases ok with
      | true => exact (hadm rfl).setStreamCapture false stm
      | false => exact hadm rfl
    | streamDestroy stm =>
      by_cases hstm : stm = null
      · subst hstm
        exact h.destroy_null
      · exact (h.restoreStreams hstm).removeStream stm
    | eventRecord evt stm ok =>
      cases ok with
      | true =>
        refine (h.addStream stm).of_cache_eq ?_ fun s hs => ?_ <;>
          simp only [perform, if_true, setEventRecordStatus] <;> split <;> first
            | rfl
            | exact hs
            | (split <;> first | rfl | exact hs)
      | false => exact h
    | streamWaitEvent stm evt ok =>
      cases ok with
      | true =>
        have h' := h.addStream stm
        simp only [perform, if_true, setEventWaitStatus]
        split
        · exact h'
        · split
          · exact h'.of_cache_eq rfl fun s hs => get_putStream_isSome hs _ _ _
          · exact h'
      | false => exact h
    | eventCreate evt ok | eventDestroy evt ok =>
      cases ok with
      | true => exact ⟨h.nodup, h.bound, h.keys⟩
      | false => exact h
    | turn => exact h.synchronize

/-! ## Runs -/

/-- The invariant, and that a turn would not leave through an error return. -/
structure CacheSound (l : Limiter) : Prop extends CacheOk l where
  syncs : (synchronizeAndClearStreams l).ok = true

theorem CacheOk.sound (h : CacheOk l) : CacheSound l := { h with syncs := (sync_spec h).ok }

/-- **Stream cache.** The cache is sound in every state of a run if and only if `core_limiter` has
never admitted the null stream to a cache with room for it. -/
theorem cache_ok_iff {hist : List (Limiter × Op)} (h : LimiterRun anyOp hist l) :
    (CacheSound l ∧ ∀ p ∈ hist, CacheSound p.1) ↔ ∀ p ∈ hist, ¬AdmitsNull p.1 p.2 := by
  induction h using LimiterRun.induction with
  | start => exact ⟨fun _ => nofun, fun _ => ⟨cacheOk_initialLimiter.sound, nofun⟩⟩
  | after op h _ ih =>
    simp only [List.forall_mem_cons]
    constructor
    · rintro ⟨hl', hl, hall⟩
      exact ⟨(perform_cacheOk_iff hl.toCacheOk op).mp hl'.toCacheOk, ih.mp ⟨hl, hall⟩⟩
    · rintro ⟨hop, hnot⟩
      obtain ⟨hl, hall⟩ := ih.mpr hnot
      exact ⟨((perform_cacheOk_iff hl.toCacheOk op).mpr hop).sound, hl, hall⟩

/-- A launch, a turn, and a capture that is still open. -/
theorem cache_ok_iff_capture :
    ∃ hist l, LimiterRun anyOp hist l ∧ hist.length = 3 ∧
      (CacheSound l ∧ ∀ p ∈ hist, CacheSound p.1) := by
  have hrun := ((LimiterRun.initial anyOp).after (.launch 1) trivial).after .turn trivial
  have hrun := hrun.after (.beginCapture 2) trivial
  exact ⟨_, _, hrun, rfl, (cache_ok_iff hrun).mpr (by decide +kernel)⟩

/-- **The null stream breaks the cache.** After one `rtsModelExecute` the cache has an entry that
is not in the map, and every turn leaves through an error return. -/
theorem null_stream_breaks_cache :
    ∃ hist l, LimiterRun anyOp hist l ∧ (∃ s ∈ l.cache, l.streamMap.get s = none) ∧
      (synchronizeAndClearStreams l).ok = false := by
  refine ⟨_, _, (LimiterRun.initial anyOp).after (.launch null) trivial, ⟨null, ?_, ?_⟩, ?_⟩ <;>
    decide +kernel

end YellowZone.CoreLimiter
