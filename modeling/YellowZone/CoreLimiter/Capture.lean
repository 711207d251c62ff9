import YellowZone.CoreLimiter.Cache

/-!
# Graph captures

While a stream is captured its tasks do not run, so a turn must not wait for it. A capture begins
on one stream, its head, and spreads: an event recorded on a captured stream carries the head to
every stream that waits on it (`Heads`, `headsOf`).

The stream map differs from that. `set_stream_capture` ends a capture by walking over the cached
streams, but a stream that joined the capture by a wait need not be cached; such a stream stays
captured (`capture_outlives_end`). The head in an event is never taken back, neither when the
capture ends nor when the event is recorded on a stream that is not captured, so a wait on such an
event captures a stream for no reason. And a destroyed stream is forgotten only if it is cached.

## What makes it right

`CaptureDiscipline` is enough: waits are on events whose stored head is not stale, the streams of a
capture are cached when it ends or when they are destroyed, and streams are not `NULL`.
Which events are stale is a matter of the calls made so far (`Stale`).

## Main results

* `stores_perform` — one operation under the discipline
* `capture_tracked`, `capture_outlives_end`
-/

namespace YellowZone.CoreLimiter

open Machine Function

variable {l : Limiter} {hist : List (Limiter × Op)} {op : Op} {stm evt : Ptr}

/-! ## Heads -/

/-- The capture heads of streams and events. -/
structure Heads where
  stream : Ptr → Option Ptr
  event : Ptr → Option Ptr

/-- Nothing is captured. -/
def noHeads : Heads := ⟨fun _ => none, fun _ => none⟩

/-- The capture of `head` ends. -/
def release (head : Ptr) (h : Option Ptr) : Option Ptr := if h = some head then none else h

/-- What an operation does to the heads. -/
def Heads.after (H : Heads) : Op → Heads
  | .beginCapture stm => { H with stream := update H.stream stm (some stm) }
  | .endCapture head _ => ⟨fun stm => release head (H.stream stm),
      fun evt => release head (H.event evt)⟩
  | .eventRecord evt stm _ => { H with event := update H.event evt (H.stream stm) }
  | .streamWaitEvent stm evt _ =>
    { H with stream := update H.stream stm ((H.event evt).or (H.stream stm)) }
  | .streamDestroy stm => { H with stream := update H.stream stm none }
  | .eventDestroy evt _ => { H with event := update H.event evt none }
  | .launch _ | .eventCreate _ _ | .turn => H

/-- The heads after a whole past. -/
def headsOf : List (Limiter × Op) → Heads
  | [] => noHeads
  | (_, op) :: hist => (headsOf hist).after op

/-! ## The discipline -/

/-- The event map keeps a head for the event that is not its head any more, or has missed it: the
capture ended, or the event was recorded on a stream that is not captured, or it was recorded
without having been created through a hook, or created while in use. -/
def Stale : List (Limiter × Op) → Ptr → Prop
  | [], _ => False
  | (_, .endCapture head _) :: hist, evt =>
    Stale hist evt ∨ (headsOf hist).event evt = some head
  | (l, .eventRecord evt' stm _) :: hist, evt =>
    if evt = evt' then
      if (headsOf hist).stream stm = none then Stale hist evt ∨ (headsOf hist).event evt ≠ none
      else l.eventMap.contains evt = false
    else Stale hist evt
  | (_, .eventCreate evt' _) :: hist, evt =>
    if evt = evt' then (headsOf hist).event evt ≠ none else Stale hist evt
  | (_, .eventDestroy evt' _) :: hist, evt => evt ≠ evt' ∧ Stale hist evt
  | (_, _) :: hist, evt => Stale hist evt

/-- The discipline for one operation. Runtime calls succeed. -/
def Disciplined (hist : List (Limiter × Op)) (l : Limiter) : Op → Prop
  | .launch stm | .beginCapture stm => stm ≠ null
  | .endCapture head ok =>
    head ≠ null ∧ ok = true ∧ ∀ stm, (headsOf hist).stream stm = some head → stm ∈ l.cache
  | .streamDestroy stm => stm ≠ null ∧ ((headsOf hist).stream stm ≠ none → stm ∈ l.cache)
  | .streamWaitEvent stm evt ok => stm ≠ null ∧ ok = true ∧ ¬Stale hist evt
  | .eventCreate _ ok | .eventRecord _ _ ok | .eventDestroy _ ok => ok = true
  | .turn => True

/-- The discipline for a whole past. -/
def CaptureDiscipline : List (Limiter × Op) → Prop
  | [] => True
  | (l, op) :: hist => Disciplined hist l op ∧ CaptureDiscipline hist

/-! ## What the maps store -/

/-- What the stream map has for a stream with head `h`; a stream that is not captured need not be
in the map. -/
def Stores : Option Ptr → Option MapValue → Prop
  | some h, v => h ≠ null ∧ v = some ⟨h, true⟩
  | none, v => v = none ∨ v = some ⟨null, false⟩

theorem Stores.captureStatus {h : Option Ptr} {v : MapValue} (hs : Stores h (some v)) :
    v.captureStatus = true ↔ h ≠ none := by
  cases h with
  | some h => obtain ⟨-, hv⟩ := hs; cases hv; simp
  | none =>
    rcases hs with hv | hv
    · cases hv
    · cases hv; simp

/-- Only the streams of a capture have its head stored. -/
theorem Stores.ptr {h : Option Ptr} {v : MapValue} (hs : Stores h (some v)) {p : Ptr}
    (hp : p ≠ null) : v.ptr = p ↔ h = some p := by
  cases h with
  | some h => obtain ⟨-, hv⟩ := hs; cases hv; simp
  | none =>
    rcases hs with hv | hv
    · cases hv
    · cases hv
      simpa using Ne.symm hp

/-- A stream that is not in the map is not captured, so it may be entered as not captured. -/
theorem Stores.fresh {h : Option Ptr} (hs : Stores h none) : Stores h (some ⟨null, false⟩) := by
  cases h with
  | some h => cases hs.2
  | none => exact .inr rfl

/-- A stored pointer as a head. -/
def headOf (ptr : Ptr) : Option Ptr := if ptr = null then none else some ptr

/-- The head a map has for a key. -/
def storedHead (map : HashMap) (key : Ptr) : Option Ptr := (map.getPtr key).bind headOf

theorem storedHead_of_get {map : HashMap} {key : Ptr} {v : MapValue} (h : map.get key = some v) :
    storedHead map key = headOf v.ptr := by
  simp [storedHead, HashMap.getPtr, h]

theorem storedHead_of_get_none {map : HashMap} {key : Ptr} (h : map.get key = none) :
    storedHead map key = none := by
  simp [storedHead, HashMap.getPtr, h]

theorem storedHead_congr {map map' : HashMap} {key : Ptr} (h : map'.get key = map.get key) :
    storedHead map' key = storedHead map key := by
  rw [storedHead, HashMap.getPtr, h]
  rfl

theorem storedHead_ne_null {map : HashMap} {key head : Ptr} (h : storedHead map key = some head) :
    head ≠ null := by
  obtain ⟨ptr, -, hptr⟩ := Option.bind_eq_some_iff.mp h
  unfold headOf at hptr
  split at hptr
  · cases hptr
  · cases hptr
    assumption

/-- The maps agree with the heads, apart from stale events. -/
structure CaptureOk (hist : List (Limiter × Op)) (l : Limiter) : Prop extends CacheOk l where
  streams : ∀ stm, Stores ((headsOf hist).stream stm) (l.streamMap.get stm)
  events : ∀ evt, ¬Stale hist evt → storedHead l.eventMap evt = (headsOf hist).event evt

/-! ## Streams, one function at a time -/

/-- Tracking a stream enters it as not captured. -/
theorem get_restoreStreams (l : Limiter) (stm k : Ptr) :
    (restoreStreams l stm).streamMap.get k = l.streamMap.get k ∨
      l.streamMap.get k = none ∧ (restoreStreams l stm).streamMap.get k = some ⟨null, false⟩ := by
  rcases restoreStreams_cases l stm with ⟨heq, -⟩ | ⟨hnew, -, heq⟩
  · exact .inl (by rw [heq])
  · by_cases hstm : stm = null
    · rw [heq, hstm, putStream_null]
      exact .inl rfl
    · rw [heq, get_putStream hstm]
      by_cases hk : k = stm
      · exact .inr ⟨by simpa [hk] using hnew, if_pos hk⟩
      · exact .inl (if_neg hk)

theorem get_addStream (l : Limiter) (stm k : Ptr) :
    (addStream l stm).streamMap.get k = l.streamMap.get k ∨
      l.streamMap.get k = none ∧ (addStream l stm).streamMap.get k = some ⟨null, false⟩ := by
  unfold addStream HashMap.contains
  split
  · exact .inl rfl
  · rename_i hnew
    by_cases hstm : stm = null
    · rw [hstm, putStream_null]
      exact .inl rfl
    · rw [get_putStream hstm]
      by_cases hk : k = stm
      · exact .inr ⟨by simpa [hk] using hnew, if_pos hk⟩
      · exact .inl (if_neg hk)

theorem stores_of_fresh {h : Option Ptr} {v v' : Option MapValue} (hs : Stores h v)
    (hfresh : v' = v ∨ v = none ∧ v' = some ⟨null, false⟩) : Stores h v' := by
  rcases hfresh with rfl | ⟨rfl, rfl⟩
  · exact hs
  · exact hs.fresh

/-- **Ending a capture**, over cached streams that are all in the map. -/
theorem get_clearHead (head : Ptr) (todo : List Ptr) :
    ∀ {map : HashMap}, (∀ s ∈ todo, s ≠ null ∧ (map.get s).isSome = true) → ∀ k,
      (clearHead head map todo).get k =
        if k ∈ todo ∧ map.getPtr k = some head then some ⟨null, false⟩ else map.get k := by
  induction todo with
  | nil => intro map _ k; simp [clearHead]
  | cons stm rest ih =>
    intro map hkeys k
    obtain ⟨hstm, hsome⟩ := hkeys stm (.head _)
    obtain ⟨v, hv⟩ := Option.isSome_iff_exists.mp hsome
    have hptr : map.getPtr stm = some v.ptr := by simp [HashMap.getPtr, hv]
    unfold clearHead
    rw [hptr]
    dsimp only
    by_cases hhead : v.ptr = head
    · obtain ⟨map', hput⟩ := map.put_isSome hstm null false
      have hget := HashMap.get_of_put hput
      rw [if_pos hhead, hput]
      dsimp only
      rw [ih fun s hs => ⟨(hkeys s (.tail _ hs)).1, by
        rw [hget]
        split
        · rfl
        · exact (hkeys s (.tail _ hs)).2⟩]
      simp only [HashMap.getPtr, hget]
      by_cases hk : k = stm
      · subst hk
        simp [hv, hhead]
      · simp [hk]
    · rw [if_neg hhead, ih fun s hs => hkeys s (.tail _ hs)]
      by_cases hk : k = stm
      · subst hk
        simp [hptr, hhead]
      · simp [hk]

/-- Destroying a stream that is cached, or not captured, forgets it or leaves it not captured. -/
theorem stores_streamDestroy {H : Ptr → Option Ptr}
    (hstores : ∀ s, Stores (H s) (l.streamMap.get s)) (hcached : H stm ≠ none → stm ∈ l.cache)
    (k : Ptr) :
    Stores (update H stm none k) ((perform l (.streamDestroy stm)).streamMap.get k) := by
  change Stores _ ((removeStream (restoreStreams l stm) stm).streamMap.get k)
  have hfresh := get_restoreStreams l stm
  have hstm : H stm = none ∨ stm ∈ (restoreStreams l stm).cache := by
    by_cases hnone : H stm = none
    · exact .inl hnone
    · refine .inr ?_
      rcases restoreStreams_cases l stm with ⟨heq, -⟩ | ⟨-, -, heq⟩ <;> rw [heq]
      · exact hcached hnone
      · exact List.mem_append_left _ (hcached hnone)
  generalize restoreStreams l stm = l' at hfresh hstm
  unfold removeStream
  by_cases hk : k = stm
  · subst hk
    rw [update_self]
    split
    · cases hrem : l'.streamMap.remove k with
      | some map =>
        refine .inl ?_
        change map.get k = none
        rw [HashMap.get_of_remove hrem, if_pos rfl]
      | none =>
        refine .inl ?_
        change l'.streamMap.get k = none
        by_contra hne
        obtain ⟨map, hsome⟩ := HashMap.remove_isSome (Option.isSome_iff_ne_none.mpr hne)
        rw [hrem] at hsome
        cases hsome
    · rename_i hnot
      have hnone := hstm.resolve_right hnot
      have hk := stores_of_fresh (hstores k) (hfresh k)
      rwa [hnone] at hk
  · rw [update_of_ne hk]
    have hk' := stores_of_fresh (hstores k) (hfresh k)
    split
    · cases hrem : l'.streamMap.remove stm with
      | some map =>
        change Stores _ (map.get k)
        rwa [HashMap.get_of_remove hrem, if_neg hk]
      | none => exact hk'
    · exact hk'

theorem stores_endCapture (h : CacheOk l) {H : Ptr → Option Ptr} {head : Ptr}
    (hstores : ∀ s, Stores (H s) (l.streamMap.get s)) (hhead : head ≠ null)
    (hcached : ∀ s, H s = some head → s ∈ l.cache) (k : Ptr) :
    Stores (release head (H k)) ((perform l (.endCapture head true)).streamMap.get k) := by
  have h' := h.restoreStreams hhead
  have hfresh := fun k => stores_of_fresh (hstores k) (get_restoreStreams l head k)
  have hcached' : ∀ s, H s = some head → s ∈ (restoreStreams l head).cache := fun s hs => by
    rcases restoreStreams_cases l head with ⟨heq, -⟩ | ⟨-, -, heq⟩ <;> rw [heq]
    · exact hcached s hs
    · exact List.mem_append_left _ (hcached s hs)
  change Stores _ ((clearHead head (restoreStreams l head).streamMap
    (restoreStreams l head).cache).get k)
  generalize restoreStreams l head = l' at h' hfresh hcached'
  rw [get_clearHead head l'.cache fun s hs =>
    ⟨fun hnull => h'.null_notMem (hnull ▸ hs), h'.keys s hs⟩]
  have hk := hfresh k
  cases hget : l'.streamMap.get k with
  | none =>
    rw [hget] at hk
    rw [if_neg (by simp [HashMap.getPtr, hget])]
    cases hH : H k with
    | some h => rw [hH] at hk; cases hk.2
    | none => exact .inl rfl
  | some v =>
    rw [hget] at hk
    have hptr := hk.ptr hhead
    by_cases hH : H k = some head
    · rw [if_pos ⟨hcached' k hH, by simp [HashMap.getPtr, hget, hptr.mpr hH]⟩, hH, release,
        if_pos rfl]
      exact .inr rfl
    · rw [if_neg fun hp => hH (hptr.mp (by simpa [HashMap.getPtr, hget] using hp.2)), release,
        if_neg hH]
      exact hk

/-- Putting a captured stream. -/
theorem stores_putStream {H : Ptr → Option Ptr} (hstores : ∀ s, Stores (H s) (l.streamMap.get s))
    (hstm : stm ≠ null) {head : Ptr} (hhead : head ≠ null) (k : Ptr) :
    Stores (update H stm (some head) k) ((putStream l stm head true).streamMap.get k) := by
  rw [get_putStream hstm]
  by_cases hk : k = stm
  · subst hk
    rw [update_self, if_pos rfl]
    exact ⟨hhead, rfl⟩
  · rw [update_of_ne hk, if_neg hk]
    exact hstores k

/-- A wait captures the stream if the event has a head stored. -/
theorem setEventWaitStatus_eq (l : Limiter) (evt stm : Ptr) :
    setEventWaitStatus l evt stm =
      match storedHead l.eventMap evt with
      | some head => putStream l stm head true
      | none => l := by
  unfold setEventWaitStatus
  cases hget : l.eventMap.get evt with
  | none => rw [storedHead_of_get_none hget]
  | some v =>
    rw [storedHead_of_get hget, headOf]
    dsimp only
    by_cases hv : v.ptr = null
    · rw [if_pos hv, if_neg (not_not_intro hv)]
    · rw [if_neg hv, if_pos hv]

theorem streamMap_setEventRecordStatus (l : Limiter) (evt stm : Ptr) :
    (setEventRecordStatus l evt stm).streamMap = l.streamMap := by
  unfold setEventRecordStatus
  split
  · split <;> rfl
  · rfl

theorem eventMap_restoreStreams (l : Limiter) (stm : Ptr) :
    (restoreStreams l stm).eventMap = l.eventMap := by
  rcases restoreStreams_cases l stm with ⟨heq, -⟩ | ⟨-, -, heq⟩ <;> rw [heq]
  rfl

theorem eventMap_addStream (l : Limiter) (stm : Ptr) :
    (addStream l stm).eventMap = l.eventMap := by
  unfold addStream
  split <;> rfl

/-- **Streams.** One operation under the discipline. -/
theorem stores_perform (h : CaptureOk hist l) (hop : Disciplined hist l op) (k : Ptr) :
    Stores ((headsOf ((l, op) :: hist)).stream k) ((perform l op).streamMap.get k) := by
  have hrestore := fun stm k => stores_of_fresh (h.streams k) (get_restoreStreams l stm k)
  have hadd := fun stm k => stores_of_fresh (h.streams k) (get_addStream l stm k)
  cases op with
  | launch stm => exact hrestore stm k
  | beginCapture stm => exact stores_putStream (hrestore stm) hop hop k
  | endCapture head ok =>
    obtain ⟨hhead, rfl, hcached⟩ := hop
    exact stores_endCapture h.toCacheOk h.streams hhead hcached k
  | streamDestroy stm => exact stores_streamDestroy h.streams hop.2 k
  | eventCreate evt ok | eventDestroy evt ok => cases ok <;> exact h.streams k
  | eventRecord evt stm ok =>
    cases ok with
    | true =>
      change Stores _ ((setEventRecordStatus (addStream l stm) evt stm).streamMap.get k)
      rw [streamMap_setEventRecordStatus]
      exact hadd stm k
    | false => exact h.streams k
  | streamWaitEvent stm evt ok =>
    obtain ⟨hstm, rfl, hfresh⟩ := hop
    have hevt : storedHead (addStream l stm).eventMap evt = (headsOf hist).event evt := by
      rw [eventMap_addStream]
      exact h.events evt hfresh
    change Stores (update (headsOf hist).stream stm _ k)
      ((setEventWaitStatus (addStream l stm) evt stm).streamMap.get k)
    rw [setEventWaitStatus_eq, hevt]
    cases hhead : (headsOf hist).event evt with
    | some head =>
      rw [hhead] at hevt
      exact stores_putStream (hadd stm) hstm (storedHead_ne_null hevt) k
    | none =>
      rw [Option.none_or, update_eq_self]
      exact hadd stm k
  | turn =>
    have hspec := sync_spec h.toCacheOk
    change Stores _ ((synchronizeAndClearStreams l).limiter.streamMap.get k)
    rw [hspec.get k]
    have hk := h.streams k
    split
    · rename_i hgone
      cases hH : (headsOf hist).stream k with
      | some head =>
        rw [hH] at hk
        rw [captured_of_get hk.2] at hgone
        cases hgone.2
      | none =>
        change Stores ((headsOf hist).stream k) none
        rw [hH]
        exact .inl rfl
    · exact hk

/-! ## Events -/

/-- The operations on streams leave the event map alone. -/
theorem eventMap_perform (h : CacheOk l)
    (hop : ∀ evt ok, op ≠ .eventCreate evt ok ∧ op ≠ .eventDestroy evt ok ∧
      ∀ stm, op ≠ .eventRecord evt stm ok) : (perform l op).eventMap = l.eventMap := by
  cases op with
  | launch stm | beginCapture stm => exact eventMap_restoreStreams l stm
  | endCapture stm ok => cases ok <;> exact eventMap_restoreStreams l stm
  | streamDestroy stm =>
    refine Eq.trans ?_ (eventMap_restoreStreams l stm)
    change (removeStream (restoreStreams l stm) stm).eventMap = _
    unfold removeStream
    split <;> rfl
  | streamWaitEvent stm evt ok =>
    cases ok with
    | true =>
      refine Eq.trans ?_ (eventMap_addStream l stm)
      change (setEventWaitStatus (addStream l stm) evt stm).eventMap = _
      rw [setEventWaitStatus_eq]
      split <;> rfl
    | false => rfl
  | turn => exact (sync_spec h).eventMap
  | eventCreate evt ok => exact absurd rfl (hop evt ok).1
  | eventDestroy evt ok => exact absurd rfl (hop evt ok).2.1
  | eventRecord evt stm ok => exact absurd rfl ((hop evt ok).2.2 stm)

theorem storedHead_eventCreate (l : Limiter) (evt k : Ptr) :
    storedHead (setEventCreateStatus l evt).eventMap k =
      if k = evt then none else storedHead l.eventMap k := by
  unfold setEventCreateStatus
  by_cases hevt : evt = null
  · subst hevt
    rw [HashMap.put_null]
    change storedHead l.eventMap k = _
    split
    · rename_i hk
      rw [hk, storedHead_of_get_none (HashMap.get_null _)]
    · rfl
  · obtain ⟨map, hput⟩ := l.eventMap.put_isSome hevt null false
    rw [hput]
    change storedHead map k = _
    have hget := HashMap.get_of_put hput k
    split
    · rename_i hk
      rw [if_pos hk] at hget
      rw [storedHead_of_get hget, headOf, if_pos rfl]
    · rename_i hk
      rw [if_neg hk] at hget
      exact storedHead_congr hget

theorem storedHead_eventDestroy (l : Limiter) (evt k : Ptr) :
    storedHead (setEventDestroyStatus l evt).eventMap k =
      if k = evt then none else storedHead l.eventMap k := by
  unfold setEventDestroyStatus
  cases hrem : l.eventMap.remove evt with
  | none =>
    change storedHead l.eventMap k = _
    split
    · rename_i hk
      subst hk
      refine storedHead_of_get_none ?_
      by_contra hne
      obtain ⟨map, hsome⟩ := HashMap.remove_isSome (Option.isSome_iff_ne_none.mpr hne)
      rw [hrem] at hsome
      cases hsome
    · rfl
  | some map =>
    change storedHead map k = _
    have hget := HashMap.get_of_remove hrem k
    split
    · rename_i hk
      rw [if_pos hk] at hget
      exact storedHead_of_get_none hget
    · rename_i hk
      rw [if_neg hk] at hget
      exact storedHead_congr hget

/-- A record takes over the head of a captured stream if the event is known, and does nothing
else. -/
theorem storedHead_eventRecord {H : Option Ptr} (hstores : Stores H (l.streamMap.get stm))
    (evt k : Ptr) :
    storedHead (setEventRecordStatus l evt stm).eventMap k =
      if k = evt ∧ H ≠ none ∧ l.eventMap.contains evt then H else storedHead l.eventMap k := by
  unfold setEventRecordStatus
  cases hevt : l.eventMap.get evt with
  | none =>
    rw [if_neg (by simp [HashMap.contains, hevt])]
  | some v =>
    cases H with
    | none =>
      rw [if_neg (by simp)]
      rcases hstores with hget | hget <;> simp [HashMap.getPtr, hget]
    | some head =>
      obtain ⟨hhead, hget⟩ := hstores
      have hptr : l.streamMap.getPtr stm = some head := by simp [HashMap.getPtr, hget]
      have hne : evt ≠ null := by
        rintro rfl
        rw [HashMap.get_null] at hevt
        cases hevt
      obtain ⟨map, hput⟩ := l.eventMap.put_isSome hne head true
      rw [hptr]
      dsimp only
      rw [if_pos hhead, hput]
      change storedHead map k = _
      have hmap := HashMap.get_of_put hput k
      by_cases hk : k = evt
      · rw [if_pos hk] at hmap
        rw [storedHead_of_get hmap, headOf, if_neg hhead, if_pos]
        exact ⟨hk, by simp, by simp [HashMap.contains, hevt]⟩
      · rw [if_neg hk] at hmap
        rw [storedHead_congr hmap, if_neg fun hp => hk hp.1]

/-- **Events.** One operation under the discipline. -/
theorem events_perform (h : CaptureOk hist l) (hop : Disciplined hist l op) (k : Ptr)
    (hstale : ¬Stale ((l, op) :: hist) k) :
    storedHead (perform l op).eventMap k = (headsOf ((l, op) :: hist)).event k := by
  cases op with
  | launch stm | beginCapture stm | streamDestroy stm | streamWaitEvent stm evt ok | turn =>
    rw [eventMap_perform h.toCacheOk (by simp)]
    exact h.events k hstale
  | endCapture head ok =>
    rw [eventMap_perform h.toCacheOk (by simp)]
    obtain ⟨hfresh, hhead⟩ := not_or.mp hstale
    change _ = release head ((headsOf hist).event k)
    rw [release, if_neg hhead]
    exact h.events k hfresh
  | eventCreate evt ok =>
    obtain rfl : ok = true := hop
    refine (storedHead_eventCreate l evt k).trans ?_
    change ¬(if k = evt then _ else _) at hstale
    split at hstale
    · rename_i hk
      rw [if_pos hk]
      exact (not_not.mp hstale).symm
    · rename_i hk
      rw [if_neg hk]
      exact h.events k hstale
  | eventDestroy evt ok =>
    obtain rfl : ok = true := hop
    refine (storedHead_eventDestroy l evt k).trans ?_
    change _ = update (headsOf hist).event evt none k
    by_cases hk : k = evt
    · rw [if_pos hk, hk, update_self]
    · rw [if_neg hk, update_of_ne hk]
      exact h.events k fun hs => hstale ⟨hk, hs⟩
  | eventRecord evt stm ok =>
    obtain rfl : ok = true := hop
    have hstores := stores_of_fresh (h.streams stm) (get_addStream l stm stm)
    refine (storedHead_eventRecord hstores evt k).trans ?_
    rw [eventMap_addStream]
    change _ = update (headsOf hist).event evt ((headsOf hist).stream stm) k
    change ¬(if k = evt then _ else _) at hstale
    by_cases hk : k = evt
    · subst hk
      rw [if_pos rfl] at hstale
      rw [update_self]
      by_cases hH : (headsOf hist).stream stm = none
      · rw [if_pos hH] at hstale
        obtain ⟨hfresh, hnone⟩ := not_or.mp hstale
        rw [if_neg fun hp => hp.2.1 hH, h.events k hfresh, not_not.mp hnone, hH]
      · rw [if_neg hH] at hstale
        rw [if_pos ⟨rfl, hH, by simpa using hstale⟩]
    · rw [if_neg hk] at hstale
      rw [if_neg fun hp => hk hp.1, update_of_ne hk]
      exact h.events k hstale

/-! ## Runs -/

theorem Disciplined.not_admitsNull (hop : Disciplined hist l op) : ¬AdmitsNull l op := by
  rintro ⟨hnull, -⟩
  cases op with
  | launch stm | beginCapture stm => cases hnull; exact hop rfl
  | endCapture stm ok => cases hnull; exact hop.1 rfl
  | _ => cases hnull

theorem captureOk_of_run {P : Limiter → Op → Prop} (h : LimiterRun P hist l)
    (hd : CaptureDiscipline hist) : CaptureOk hist l := by
  induction h using LimiterRun.induction with
  | start =>
    exact { cacheOk_initialLimiter with
      streams := fun stm => .inl (HashMap.get_create _ stm)
      events := fun evt _ => storedHead_of_get_none (HashMap.get_create _ evt) }
  | after op h _ ih =>
    have hl := ih hd.2
    exact { (perform_cacheOk_iff hl.toCacheOk op).mpr hd.1.not_admitsNull with
      streams := stores_perform hl hd.1
      events := events_perform hl hd.1 }

/-- **Captures are tracked.** In every run under the discipline a tracked stream is marked as
captured exactly if it has a head, and right after a capture has ended no tracked stream keeps its
head. -/
theorem capture_tracked (h : LimiterRun anyOp hist l) (hd : CaptureDiscipline hist) :
    (∀ stm v, l.streamMap.get stm = some v →
      (v.captureStatus = true ↔ (headsOf hist).stream stm ≠ none)) ∧
    ∀ l' head ok past, hist = (l', .endCapture head ok) :: past →
      ∀ stm v, l.streamMap.get stm = some v → v.ptr ≠ head := by
  have hok := captureOk_of_run h hd
  have hstores : ∀ {stm v}, l.streamMap.get stm = some v →
      Stores ((headsOf hist).stream stm) (some v) := fun {stm v} hget => hget ▸ hok.streams stm
  refine ⟨fun stm v hget => (hstores hget).captureStatus, ?_⟩
  rintro l' head ok past rfl stm v hget hptr
  have hhead := ((hstores hget).ptr hd.1.1).mp hptr
  change release head ((headsOf past).stream stm) = some head at hhead
  unfold release at hhead
  split at hhead
  · cases hhead
  · contradiction

/-- A capture spreads to a second, cached stream, and ends. -/
theorem capture_tracked_spread :
    ∃ l past, LimiterRun anyOp ((l, .endCapture 1 true) :: past) (perform l (.endCapture 1 true)) ∧
      (headsOf past).stream 2 = some 1 ∧
      ∀ stm v, (perform l (.endCapture 1 true)).streamMap.get stm = some v → v.ptr ≠ 1 := by
  have hrun := (LimiterRun.initial anyOp).after (.eventCreate 9 true) trivial
  have hrun := (hrun.after (.beginCapture 1) trivial).after (.launch 2) trivial
  have hrun := (hrun.after (.eventRecord 9 1 true) trivial).after (.streamWaitEvent 2 9 true)
    trivial
  have hrun := hrun.after (.endCapture 1 true) trivial
  have h1 : (1 : Ptr) ≠ null := by decide
  have h2 : (2 : Ptr) ≠ null := by decide
  refine ⟨_, _, hrun, ?_, (capture_tracked hrun ⟨⟨h1, rfl, fun stm hstm => ?_⟩,
    ⟨h2, rfl, ?_⟩, rfl, h2, h1, rfl, trivial⟩).2 _ _ _ _ rfl⟩
  · decide +kernel
  · have hin : stm = 1 ∨ stm = 2 := by
      by_contra hne
      obtain ⟨h1, h2⟩ := not_or.mp hne
      change update (update (fun _ => none) 1 (some 1)) 2 _ stm = some 1 at hstm
      rw [update_of_ne h2, update_of_ne h1] at hstm
      cases hstm
    rcases hin with rfl | rfl <;> decide +kernel
  · rw [Stale, if_pos rfl, if_neg (by decide)]
    decide +kernel

/-- **A capture that does not end.** A stream that is not cached joins the capture of stream 1 by a
wait; when the capture ends the stream stays marked as captured, with the head stored. -/
theorem capture_outlives_end :
    ∃ l past, LimiterRun anyOp ((l, .endCapture 1 true) :: past) (perform l (.endCapture 1 true)) ∧
      (headsOf ((l, .endCapture 1 true) :: past)).stream 2 = none ∧
      (perform l (.endCapture 1 true)).streamMap.get 2 = some ⟨1, true⟩ := by
  have hrun := (LimiterRun.initial anyOp).after (.eventCreate 9 true) trivial
  have hrun := (hrun.after (.beginCapture 1) trivial).after (.eventRecord 9 1 true) trivial
  have hrun := hrun.after (.streamWaitEvent 2 9 true) trivial
  exact ⟨_, _, hrun.after (.endCapture 1 true) trivial, by decide +kernel, by decide +kernel⟩

end YellowZone.CoreLimiter
