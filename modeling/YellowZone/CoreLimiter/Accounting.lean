import YellowZone.CoreLimiter.Cache

/-!
# Accounting launches to their time slice

At the end of its slice the scheduler synchronizes the streams that were used in it. For that,
`core_limiter` appends a stream to the cache when it admits a launch. But it looks the stream up in
the stream map, not in the cache, and `rtEventRecord` and `rtStreamWaitEvent` put streams into the
map that are not in the cache. A launch on such a stream is admitted and never accounted: the stream
stays in the map, so no later launch on it is accounted either.

`pending` is the list that the cache stands for, computed from the past of a run alone: admitted
streams in the order of their first launch, without those that were destroyed, and after each turn
without those that were not captured.

## Main results

* `cache_perform_iff` — one operation: the cache follows the list unless the launch slips through
* `launches_accounted_iff`, `launch_after_record_missed`
-/

namespace YellowZone.CoreLimiter

open Machine

variable {l : Limiter} {S : List Ptr} {op : Op} {stm : Ptr} {hist : List (Limiter × Op)}

/-! ## The list the cache stands for -/

/-- The admitted streams that wait for a turn, after an operation. -/
def account (l : Limiter) (pend : List Ptr) : Op → List Ptr
  | .launch stm | .beginCapture stm | .endCapture stm _ =>
    if stm ∈ pend then pend else pend ++ [stm]
  | .streamDestroy stm => pend.erase stm
  | .turn => pend.filter (captured l)
  | _ => pend

/-- The admitted streams that wait for a turn, after a whole past. -/
def pending : List (Limiter × Op) → List Ptr
  | [] => []
  | (l, op) :: hist => account l (pending hist) op

/-- A turn taken in this state accounts for `pend`: it synchronizes each of these streams once
unless it is captured, and leaves the captured ones in the cache, in order. -/
structure Accounted (l : Limiter) (pend : List Ptr) : Prop where
  once : ∀ s ∈ pend, captured l s = false → (synchronizeAndClearStreams l).synced.count s = 1
  kept : (synchronizeAndClearStreams l).limiter.cache = pend.filter (captured l)

/-- Every turn that could have been taken accounts for the launches up to then. -/
def AccountedThroughout : List (Limiter × Op) → Limiter → Prop
  | [], l => Accounted l []
  | (l', op) :: hist, l =>
    AccountedThroughout hist l' ∧ Accounted l (pending ((l', op) :: hist))

/-- The stream that an operation passes to `core_limiter`. -/
def Op.limited : Op → Option Ptr
  | .launch stm | .beginCapture stm | .endCapture stm _ | .streamDestroy stm => some stm
  | _ => none

/-- `core_limiter` gets streams of `S` only, and never `NULL`. -/
def StreamsIn (S : List Ptr) (_ : Limiter) (op : Op) : Prop :=
  ∀ stm, op.limited = some stm → stm ≠ null ∧ stm ∈ S

/-- `core_limiter` admits a launch on a stream that is in the map but not in the cache. -/
def Slips (l : Limiter) (op : Op) : Prop :=
  ∃ stm ∈ op.admitted, (l.streamMap.get stm).isSome = true ∧ stm ∉ l.cache

instance (l : Limiter) (op : Op) : Decidable (Slips l op) :=
  decidable_of_iff (op.admitted.any fun stm => l.streamMap.contains stm && stm ∉ l.cache)
    (by simp [Option.any_eq_true, Slips, HashMap.contains])

theorem Op.limited_of_admitted (h : op.admitted = some stm) : op.limited = some stm := by
  cases op with
  | launch _ | beginCapture _ | endCapture _ _ => exact h
  | _ => cases h

theorem StreamsIn.not_admitsNull (h : StreamsIn S l op) : ¬AdmitsNull l op := fun hnull =>
  (h null (Op.limited_of_admitted hnull.1)).1 rfl

/-! ## One operation -/

/-- Among at most 128 streams there is room for one that is not in the cache. -/
theorem CacheOk.room (h : CacheOk l) (hsub : l.cache ⊆ S)
    (hS : S.length ≤ maxStreamsPerProcess) (hin : stm ∈ S) (hnot : stm ∉ l.cache) :
    l.cache.length < maxStreamsPerProcess := by
  have hsubperm := List.subperm_of_subset (List.nodup_cons.mpr ⟨hnot, h.nodup⟩)
    (List.cons_subset.mpr ⟨hin, hsub⟩)
  have hlen := hsubperm.length_le
  rw [List.length_cons] at hlen
  omega

/-- What `restore_streams` does to the cache when there is room. -/
theorem cache_restoreStreams (h : CacheOk l) (hsub : l.cache ⊆ S)
    (hS : S.length ≤ maxStreamsPerProcess) (hin : stm ∈ S) :
    (restoreStreams l stm).cache =
      if (l.streamMap.get stm).isSome then l.cache else l.cache ++ [stm] := by
  rcases restoreStreams_cases l stm with ⟨heq, hkey | hfull⟩ | ⟨hnew, -, heq⟩
  · rw [heq, if_pos hkey]
  · by_cases hc : stm ∈ l.cache
    · rw [heq, if_pos (h.keys stm hc)]
    · have hroom := h.room hsub hS hin hc
      omega
  · rw [heq, hnew]
    rfl

/-- Destroying a stream takes it out of the cache, wherever it was tracked. -/
theorem cache_streamDestroy (h : CacheOk l) (stm : Ptr) :
    (perform l (.streamDestroy stm)).cache = l.cache.erase stm := by
  change (removeStream (restoreStreams l stm) stm).cache = _
  have hremove : ∀ l' : Limiter, (removeStream l' stm).cache = l'.cache.erase stm := fun l' => by
    unfold removeStream
    split
    · rfl
    · rename_i hnot
      exact (List.erase_of_not_mem hnot).symm
  rw [hremove]
  rcases restoreStreams_cases l stm with ⟨heq, -⟩ | ⟨hnew, -, heq⟩
  · rw [heq]
  · have hnot : stm ∉ l.cache := fun hin => by
      rw [h.keys stm hin] at hnew
      cases hnew
    rw [heq, List.erase_of_not_mem hnot]
    change (l.cache ++ [stm]).erase stm = _
    rw [List.erase_append_right _ hnot]
    simp

theorem cache_setEventWaitStatus (l : Limiter) (evt stm : Ptr) :
    (setEventWaitStatus l evt stm).cache = l.cache := by
  unfold setEventWaitStatus
  split
  · rfl
  · split <;> rfl

theorem cache_setEventRecordStatus (l : Limiter) (evt stm : Ptr) :
    (setEventRecordStatus l evt stm).cache = l.cache := by
  unfold setEventRecordStatus
  split
  · split <;> rfl
  · rfl

theorem cache_addStream (l : Limiter) (stm : Ptr) : (addStream l stm).cache = l.cache := by
  unfold addStream
  split <;> rfl

/-- Only launches, destroys and turns change the cache. -/
theorem cache_perform_event (l : Limiter) (hlim : op.limited = none) (hturn : op ≠ .turn) :
    (perform l op).cache = l.cache := by
  cases op with
  | launch _ | beginCapture _ | endCapture _ _ | streamDestroy _ => cases hlim
  | turn => exact absurd rfl hturn
  | eventCreate evt ok | eventDestroy evt ok => cases ok <;> rfl
  | eventRecord evt stm ok =>
    cases ok with
    | true => exact (cache_setEventRecordStatus _ _ _).trans (cache_addStream _ _)
    | false => rfl
  | streamWaitEvent stm evt ok =>
    cases ok with
    | true => exact (cache_setEventWaitStatus _ _ _).trans (cache_addStream _ _)
    | false => rfl

/-- Captures are begun and ended in the map. -/
theorem cache_perform_admitted (l : Limiter) (h : op.admitted = some stm) :
    (perform l op).cache = (restoreStreams l stm).cache := by
  cases op with
  | launch _ => cases h; rfl
  | beginCapture _ => cases h; rfl
  | endCapture _ ok =>
    cases h
    cases ok <;> rfl
  | _ => cases h

theorem account_admitted (l : Limiter) (pend : List Ptr) (h : op.admitted = some stm) :
    account l pend op = if stm ∈ pend then pend else pend ++ [stm] := by
  cases op with
  | launch _ | beginCapture _ | endCapture _ _ => cases h; rfl
  | _ => cases h

/-- **One operation.** The cache follows the list exactly if no launch slips through. -/
theorem cache_perform_iff (h : CacheOk l) (hsub : l.cache ⊆ S)
    (hS : S.length ≤ maxStreamsPerProcess) (hop : StreamsIn S l op) :
    (perform l op).cache = account l l.cache op ↔ ¬Slips l op := by
  cases hadm : op.admitted with
  | some stm =>
    rw [cache_perform_admitted l hadm, account_admitted l _ hadm,
      cache_restoreStreams h hsub hS (hop stm (Op.limited_of_admitted hadm)).2]
    by_cases hc : stm ∈ l.cache
    · rw [if_pos (h.keys stm hc), if_pos hc]
      refine iff_of_true rfl ?_
      rintro ⟨s, hs, -, hnot⟩
      rw [hadm] at hs
      cases hs
      exact hnot hc
    · rw [if_neg hc]
      split
      · rename_i hkey
        exact iff_of_false (by simp) (not_not_intro ⟨stm, hadm, hkey, hc⟩)
      · rename_i hnew
        refine iff_of_true rfl ?_
        rintro ⟨s, hs, hkey, -⟩
        rw [hadm] at hs
        cases hs
        exact hnew hkey
  | none =>
    have hslip : ¬Slips l op := by
      rintro ⟨s, hs, -⟩
      rw [hadm] at hs
      cases hs
    refine iff_of_true ?_ hslip
    cases op with
    | launch _ | beginCapture _ | endCapture _ _ => cases hadm
    | streamDestroy stm => exact cache_streamDestroy h stm
    | turn => exact (sync_spec h).cache
    | _ => exact cache_perform_event l rfl nofun

theorem account_subset (l : Limiter) {pend : List Ptr} (hsub : pend ⊆ S) (hop : StreamsIn S l op) :
    account l pend op ⊆ S := by
  cases hadm : op.admitted with
  | some stm =>
    rw [account_admitted l _ hadm]
    split
    · exact hsub
    · intro s hs
      rcases List.mem_append.mp hs with hs | hs
      · exact hsub hs
      · rw [List.mem_singleton.mp hs]
        exact (hop stm (Op.limited_of_admitted hadm)).2
  | none =>
    cases op with
    | launch _ | beginCapture _ | endCapture _ _ => cases hadm
    | streamDestroy stm => exact fun s hs => hsub (List.mem_of_mem_erase hs)
    | turn => exact fun s hs => hsub (List.mem_of_mem_filter hs)
    | _ => exact hsub

/-! ## Runs -/

/-- A cache that is the list accounts for it. -/
theorem CacheOk.accounted (h : CacheOk l) : Accounted l l.cache := by
  have hspec := sync_spec h
  refine ⟨fun s hs hcap => ?_, hspec.cache⟩
  have hsync : (synchronizeAndClearStreams l).synced = l.cache.filter (fun s => !captured l s) :=
    hspec.synced_eq
  rw [hsync]
  exact List.count_eq_one_of_mem (h.nodup.filter _) (List.mem_filter.mpr ⟨hs, by simp [hcap]⟩)

/-- A turn cannot account for a stream that is not in the cache. -/
theorem Accounted.subset_cache {pend : List Ptr} (ha : Accounted l pend) (h : CacheOk l) :
    pend ⊆ l.cache := by
  intro s hs
  have hspec := sync_spec h
  cases hcap : captured l s with
  | true =>
    have hkept : s ∈ l.cache.filter (captured l) := by
      have hcache := hspec.cache
      rw [ha.kept, List.nil_append] at hcache
      rw [← hcache]
      exact List.mem_filter.mpr ⟨hs, hcap⟩
    exact List.mem_of_mem_filter hkept
  | false =>
    have hsync := hspec.synced_eq
    rw [List.nil_append] at hsync
    have hone := ha.once s hs hcap
    rw [hsync] at hone
    exact List.mem_of_mem_filter (List.count_pos_iff.mp (hone ▸ Nat.one_pos))

/-- What a run keeps as long as no launch slips through. -/
structure Follows (S : List Ptr) (hist : List (Limiter × Op)) (l : Limiter) : Prop
    extends CacheOk l where
  follows : l.cache = pending hist
  subset : l.cache ⊆ S

theorem Follows.next (h : Follows S hist l) (hS : S.length ≤ maxStreamsPerProcess)
    (hop : StreamsIn S l op) (hslip : ¬Slips l op) :
    Follows S ((l, op) :: hist) (perform l op) := by
  have hcache := (cache_perform_iff h.toCacheOk h.subset hS hop).mpr hslip
  refine { (perform_cacheOk_iff h.toCacheOk op).mpr hop.not_admitsNull with
    follows := by rw [hcache, h.follows]; rfl
    subset := ?_ }
  rw [hcache]
  exact account_subset l h.subset hop

/-- **Every launch is accounted exactly if none slips through.** With at most 128 streams, none of
them `NULL`, every turn of a run accounts for the launches since the stream's last turn if and only
if `core_limiter` never admits a launch on a stream that the map has and the cache has not. -/
theorem launches_accounted_iff (hS : S.length ≤ maxStreamsPerProcess)
    (h : LimiterRun (StreamsIn S) hist l) :
    AccountedThroughout hist l ↔ ∀ p ∈ hist, ¬Slips p.1 p.2 := by
  suffices key : (AccountedThroughout hist l ↔ ∀ p ∈ hist, ¬Slips p.1 p.2) ∧
      ((∀ p ∈ hist, ¬Slips p.1 p.2) → Follows S hist l) from key.1
  induction h using LimiterRun.induction with
  | start =>
    have hfollows : Follows S [] initialLimiter :=
      { cacheOk_initialLimiter with follows := rfl, subset := List.nil_subset S }
    exact ⟨iff_of_true hfollows.accounted nofun, fun _ => hfollows⟩
  | @after hist l op h hop ih =>
    obtain ⟨hiff, hfollows⟩ := ih
    simp only [List.forall_mem_cons]
    have hnext : (¬Slips l op ∧ ∀ p ∈ hist, ¬Slips p.1 p.2) →
        Follows S ((l, op) :: hist) (perform l op) := fun hno =>
      (hfollows hno.2).next hS hop hno.1
    refine ⟨⟨?_, fun hno => ⟨hiff.mpr hno.2, ?_⟩⟩, hnext⟩
    · rintro ⟨hpast, hnow⟩
      have hno := hiff.mp hpast
      have hl := hfollows hno
      have hl' := (perform_cacheOk_iff hl.toCacheOk op).mpr hop.not_admitsNull
      refine ⟨?_, hno⟩
      -- a stream that slipped through is in the list, but not in the cache
      rintro ⟨stm, hadm, hkey, hnot⟩
      have hin : stm ∈ pending ((l, op) :: hist) := by
        change stm ∈ account l (pending hist) op
        rw [account_admitted l _ hadm]
        split
        · assumption
        · simp
      have hcache := hnow.subset_cache hl' hin
      rw [cache_perform_admitted l hadm, cache_restoreStreams hl.toCacheOk hl.subset hS
        (hop stm (Op.limited_of_admitted hadm)).2, if_pos hkey] at hcache
      exact hnot hcache
    · have hl' := hnext hno
      have hacc := hl'.accounted
      rwa [hl'.follows] at hacc

/-- Two launches, of which one is synchronized and one is captured. -/
theorem launches_accounted_iff_capture :
    ∃ hist l, LimiterRun (StreamsIn [1, 2]) hist l ∧ pending hist = [1, 2] ∧
      captured l 2 = true ∧ AccountedThroughout hist l := by
  have hrun := (LimiterRun.initial (StreamsIn [1, 2])).after (.launch 1) (by rintro s ⟨⟩; decide)
  have hrun := hrun.after (.beginCapture 2) (by rintro s ⟨⟩; decide)
  exact ⟨_, _, hrun, by decide +kernel, by decide +kernel,
    (launches_accounted_iff (by decide) hrun).mpr (by decide +kernel)⟩

/-- **A launch after a record is missed.** An event is recorded on a stream, then a kernel is
launched on it. The next turn does not synchronize the stream, although it is not captured. -/
theorem launch_after_record_missed :
    ∃ hist l, LimiterRun (StreamsIn [1]) hist l ∧ 1 ∈ pending hist ∧ captured l 1 = false ∧
      (synchronizeAndClearStreams l).synced = [] := by
  have hrun := (LimiterRun.initial (StreamsIn [1])).after (.eventRecord 9 1 true) nofun
  have hrun := hrun.after (.launch 1) (by rintro s ⟨⟩; decide)
  exact ⟨_, _, hrun, by decide +kernel, by decide +kernel, by decide +kernel⟩

end YellowZone.CoreLimiter
