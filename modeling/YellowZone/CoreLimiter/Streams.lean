import YellowZone.CoreLimiter.HashMap
import YellowZone.Machine.Execution

/-!
# The stream cache of the core limiter

The part of `core_limiter.c` that keeps track of streams, with the hooks of `event.c` and
`graph.c` that use it. A stream is tracked in two places: `g_cache_streams`, an array of the
streams that the next scheduler turn synchronizes, and `stream_map`, which says whether a stream
is known, and the head of the capture it belongs to. `event_map` carries capture heads from a
record to a wait.

The core limit is on, the process is not terminating, and calls are taken one at a time, as under
`g_sched_mutex`. The hooks that update the maps only when the runtime call succeeded have its
result as an argument.

## The array

`g_cache_streams` is the list of its first `num_streams` entries. `synchronize_and_clear_streams`
compacts the array in place while it walks over it, and leaves it half compacted when it returns
early; the model does the same.

## Main definitions

* `Limiter` — the state
* `restoreStreams`, `addStream`, `coreLimiter`, `synchronizeAndClearStreams`, … — the functions
* `Op`, `perform`, `limiterSystem` — hooks and scheduler turns as steps
-/

namespace YellowZone.CoreLimiter

open Machine

/-- `MAX_STREAMS_PER_PROCESS`. -/
def maxStreamsPerProcess : ℕ := 128

/-- `MAX_EVENT_PER_PROCESS`. -/
def maxEventPerProcess : ℕ := 65000

/-- The globals of `core_limiter.c` that track streams. -/
structure Limiter where
  /-- `stream_map`. -/
  streamMap : HashMap
  /-- `event_map`. -/
  eventMap : HashMap
  /-- The first `num_streams` entries of `g_cache_streams`. -/
  cache : List Ptr

/-- The state `aicore_limiter_initialize` leaves. -/
def initialLimiter : Limiter where
  streamMap := .create maxStreamsPerProcess
  eventMap := .create maxEventPerProcess
  cache := []

/-! ## Streams -/

/-- Put a stream, and leave the map alone if that fails. -/
def putStream (l : Limiter) (stm head : Ptr) (capture : Bool) : Limiter :=
  { l with streamMap := (l.streamMap.put stm head capture).getD l.streamMap }

/-- `restore_streams`. -/
def restoreStreams (l : Limiter) (stream : Ptr) : Limiter :=
  if l.streamMap.contains stream then l
  else if maxStreamsPerProcess ≤ l.cache.length then l
  else putStream { l with cache := l.cache ++ [stream] } stream null false

/-- `add_stream`. -/
def addStream (l : Limiter) (stream : Ptr) : Limiter :=
  if l.streamMap.contains stream then l else putStream l stream null false

/-- `core_limiter`: the stream is admitted, and `func` runs under the same lock. -/
def coreLimiter (l : Limiter) (stream : Ptr) (func : Limiter → Ptr → Limiter) : Limiter :=
  func (restoreStreams l stream) stream

/-- A call of `core_limiter` without a function. -/
def noFunction (l : Limiter) (_ : Ptr) : Limiter := l

/-- What a run of `synchronize_and_clear_streams` did. -/
structure Sync where
  limiter : Limiter
  /-- The streams handed to `rtStreamSynchronize`, in order. -/
  synced : List Ptr
  /-- It has not left through an error return. -/
  ok : Bool

/-- The loop of `synchronize_and_clear_streams`, with `k` entries to go from entry `i` on;
`remaining` counts the entries that are kept. -/
def syncFrom (l : Limiter) (i remaining : ℕ) (synced : List Ptr) : (k : ℕ) → Sync
  | 0 => ⟨{ l with cache := l.cache.take remaining }, synced, true⟩
  | k + 1 =>
    let stm := l.cache.getD i null
    match l.streamMap.getCaptureStatus stm with
    | none => ⟨l, synced, false⟩
    | some true =>
      syncFrom { l with cache := l.cache.set remaining stm } (i + 1) (remaining + 1) synced k
    | some false =>
      match l.streamMap.remove stm with
      | none => ⟨l, synced ++ [stm], false⟩
      | some map => syncFrom { l with streamMap := map } (i + 1) remaining (synced ++ [stm]) k

/-- `synchronize_and_clear_streams`. -/
def synchronizeAndClearStreams (l : Limiter) : Sync := syncFrom l 0 0 [] l.cache.length

/-- `remove_stream`. The entries behind the removed one move up. -/
def removeStream (l : Limiter) (stm : Ptr) : Limiter :=
  if stm ∈ l.cache then
    { l with cache := l.cache.erase stm, streamMap := (l.streamMap.remove stm).getD l.streamMap }
  else l

/-! ## Captures -/

/-- The loop of `set_stream_capture` that ends a capture: over the cached streams. -/
def clearHead (stream : Ptr) (map : HashMap) : List Ptr → HashMap
  | [] => map
  | stm :: rest =>
    match map.getPtr stm with
    | none => map
    | some head =>
      if head = stream then
        match map.put stm null false with
        | none => map
        | some map' => clearHead stream map' rest
      else clearHead stream map rest

/-- `set_stream_capture`. -/
def setStreamCapture (capture : Bool) (l : Limiter) (stream : Ptr) : Limiter :=
  if capture then putStream l stream stream true
  else { l with streamMap := clearHead stream l.streamMap l.cache }

/-! ## Events -/

/-- `set_event_create_status`. -/
def setEventCreateStatus (l : Limiter) (evt : Ptr) : Limiter :=
  { l with eventMap := (l.eventMap.put evt null false).getD l.eventMap }

/-- `set_event_wait_status`. -/
def setEventWaitStatus (l : Limiter) (evt stm : Ptr) : Limiter :=
  match l.eventMap.get evt with
  | none => l
  | some status => if status.ptr ≠ null then putStream l stm status.ptr true else l

/-- `set_event_record_status`. -/
def setEventRecordStatus (l : Limiter) (evt stm : Ptr) : Limiter :=
  match l.eventMap.get evt, l.streamMap.getPtr stm with
  | some _, some head =>
    if head ≠ null then { l with eventMap := (l.eventMap.put evt head true).getD l.eventMap } else l
  | _, _ => l

/-- `set_event_destroy_status`. -/
def setEventDestroyStatus (l : Limiter) (evt : Ptr) : Limiter :=
  { l with eventMap := (l.eventMap.remove evt).getD l.eventMap }

/-! ## Hooks -/

/-- One call of a hook, or one scheduler turn. `ok` says that the runtime call succeeded. -/
inductive Op where
  /-- A launch of a kernel, a task or a model: `core_limiter` without a function.
  `rtsModelExecute` passes `NULL`. -/
  | launch (stm : Ptr)
  /-- `rtStreamBeginCapture`. -/
  | beginCapture (stm : Ptr)
  /-- `rtStreamEndCapture`. -/
  | endCapture (stm : Ptr) (ok : Bool)
  /-- `rtStreamDestroy` and `rtDestroyStreamForce`. -/
  | streamDestroy (stm : Ptr)
  /-- The hooks that create an event or a notify. -/
  | eventCreate (evt : Ptr) (ok : Bool)
  /-- `rtEventRecord` and the notify records. -/
  | eventRecord (evt stm : Ptr) (ok : Bool)
  /-- `rtStreamWaitEvent` and the notify waits. -/
  | streamWaitEvent (stm evt : Ptr) (ok : Bool)
  /-- The hooks that destroy an event or a notify. -/
  | eventDestroy (evt : Ptr) (ok : Bool)
  /-- `synchronize_and_clear_streams`, in a turn of the scheduler. -/
  | turn
  deriving DecidableEq, Repr

/-- What an operation does to the state. -/
def perform (l : Limiter) : Op → Limiter
  | .launch stm => coreLimiter l stm noFunction
  | .beginCapture stm => coreLimiter l stm (setStreamCapture true)
  | .endCapture stm ok =>
    let l' := coreLimiter l stm noFunction
    if ok then setStreamCapture false l' stm else l'
  | .streamDestroy stm => coreLimiter l stm removeStream
  | .eventCreate evt ok => if ok then setEventCreateStatus l evt else l
  | .eventRecord evt stm ok => if ok then setEventRecordStatus (addStream l stm) evt stm else l
  | .streamWaitEvent stm evt ok => if ok then setEventWaitStatus (addStream l stm) evt stm else l
  | .eventDestroy evt ok => if ok then setEventDestroyStatus l evt else l
  | .turn => (synchronizeAndClearStreams l).limiter

/-- Hooks and turns in any order. -/
def limiterSystem : Lts Limiter Op Unit where
  step l op := some (perform l op)
  event _ _ _ := ()

/-- Every sequence of operations that satisfy the guard, with its whole past. -/
abbrev LimiterRun (P : Limiter → Op → Prop) (hist : List (Limiter × Op)) (l : Limiter) : Prop :=
  limiterSystem.recorded.Exec P initialLimiter hist l

theorem LimiterRun.initial (P : Limiter → Op → Prop) : LimiterRun P [] initialLimiter := .start

theorem LimiterRun.after {P : Limiter → Op → Prop} {hist : List (Limiter × Op)} {l : Limiter}
    (h : LimiterRun P hist l) (op : Op) (hP : P l op) :
    LimiterRun P ((l, op) :: hist) (perform l op) :=
  .next h hP rfl

/-- **Induction over a run.** -/
@[elab_as_elim] theorem LimiterRun.induction {P : Limiter → Op → Prop}
    {motive : ∀ hist l, LimiterRun P hist l → Prop} (start : motive [] _ (LimiterRun.initial P))
    (after : ∀ {hist : List (Limiter × Op)} {l : Limiter} (op : Op) (h : LimiterRun P hist l)
      (hP : P l op), motive hist l h → motive _ _ (h.after op hP))
    {hist : List (Limiter × Op)} {l : Limiter} (h : LimiterRun P hist l) : motive hist l h := by
  induction h with
  | start => exact start
  | next h hP hs ih =>
    cases hs
    exact after _ h hP ih

/-- Any operation. -/
def anyOp (_ : Limiter) (_ : Op) : Prop := True

end YellowZone.CoreLimiter
