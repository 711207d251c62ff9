import YellowZone.DeadlockTrace.RawDecoder

/-!
# Model phases of the recorded kernels

`annotate_qwen_states` goes through the records of a trace once and says of every kernel in which
layer of the model it ran, and for what. It keeps a state for each stream: a layer, the half of the
layer that is running, and how many matrix products each half has had. Reductions end the halves;
the counters are reset only at the end of a layer; and a completed synchronization of the device
resets everything.

What comes out can be said without it. With `a` the number of reductions on the stream since the
last synchronization, the layer is `a / 2` modulo the number of layers, the half is the parity of
`a`, and a matrix product is the first of its half or not.

The names of kernels are texts of code points. What counts as a digit in a name is a parameter:
`\d` of the regular expression stands for the decimal digits of all scripts. Annotating changes the
records in place; here the annotations are a list of their own, with `none` for a record that gets
no annotation. The number of layers is at least one in the source, which divides by it.

## Main results

* `annotateQwenStates` — the loop
* `closedForm` — the annotation of a record, by counting
* `Tracks.advance`, `follows_after` — one record, and a list of records
* `annotation_closed_form` — the loop computes the closed form, stream by stream
-/

namespace YellowZone.DeadlockTrace

open Machine

/-! ## Names of kernels -/

/-- A literal. -/
def literal (s : List Char) : Text := s.map Char.toNat

/-- The text before a given end, if it has that end. -/
def before? (ending value : Text) : Option Text :=
  if ending <:+ value then some (value.take (value.length - ending.length)) else none

/-- `value.removeprefix(start)`. -/
def removeStart (start value : Text) : Text :=
  if start <+: value then value.drop start.length else value

/-- `value.removesuffix(ending)`. -/
def removeEnd (ending value : Text) : Text := (before? ending value).getD value

section Names

variable (isDigit : ℕ → Bool)

/-- What stands before a match of `_\d+_(?:mix_)?(?:aic|aiv)` that ends with the text. -/
def beforeLaunchSuffix (value : Text) : Option Text := do
  let value ← (before? (literal ['a', 'i', 'c']) value).or (before? (literal ['a', 'i', 'v']) value)
  let value ← before? (literal ['_']) (removeEnd (literal ['m', 'i', 'x', '_']) value)
  guard (value.rtakeWhile isDigit ≠ [])
  before? (literal ['_']) (value.rdropWhile isDigit)

/-- `re.sub(r"_\d+_(?:mix_)?(?:aic|aiv)$", "", value)`. The `$` also stands before a line feed at
the end. -/
def dropLaunchSuffix (value : Text) : Text :=
  if value.getLast? = some 10 then
    ((beforeLaunchSuffix isDigit value.dropLast).map (· ++ [10])).getD value
  else (beforeLaunchSuffix isDigit value).getD value

def normalizeKernelName (name : Text) : Text :=
  let value := removeStart (literal "aclrtlaunch_".toList)
    (removeStart (literal ".ascend.meta.".toList) name)
  dropLaunchSuffix isDigit (removeEnd (literal "__".toList) value)

end Names

/-! ## Records -/

/-- What is read of a record; a field may be missing. -/
structure QwenRecord where
  kindName : Option (List Char)
  stream : Option (List Char)
  kernelNames : Option (List Text)
  deriving DecidableEq

def kernelKinds : List (List Char) :=
  ["RT_KERNEL_LAUNCH".toList, "RT_KERNEL_HANDLE".toList, "RT_KERNEL_HANDLE_V2".toList,
    "RT_KERNEL_FLAG".toList, "RT_KERNEL_FLAG_V2".toList, "RT_FUNC_HANDLE".toList,
    "RT_FUNC_HANDLE_V2".toList, "RT_FUNC_HANDLE_V3".toList, "RT_VECTOR_HANDLE".toList,
    "RT_VECTOR_KERNEL".toList, "RTS_KERNEL_HOST_ARGS".toList, "RTS_KERNEL_CONFIG".toList,
    "RTS_KERNEL_DEV_ARGS".toList, "ACL_KERNEL".toList, "ACL_KERNEL_CONFIG".toList,
    "ACL_KERNEL_V2".toList, "ACL_KERNEL_HOST_ARGS".toList]

/-- `str(record.get("stream", "0x0"))`. -/
def QwenRecord.streamText (r : QwenRecord) : List Char := r.stream.getD "0x0".toList

/-- The record ends a synchronization of the device. -/
def QwenRecord.isDeviceSyncEnd (r : QwenRecord) : Bool :=
  r.kindName = some "DEVICE_SYNC_END".toList

def QwenRecord.isKernel (r : QwenRecord) : Bool := r.kindName.any (· ∈ kernelKinds)

variable (isDigit : ℕ → Bool)

def recordKernelName (r : QwenRecord) : Text :=
  let names := (r.kernelNames.getD []).map (normalizeKernelName isDigit)
  [43].intercalate (sortedSet (names.filter (· ≠ [])))

/-- The name of the kernel, if the record is one of a kernel with a name. -/
def QwenRecord.kernel? (r : QwenRecord) : Option Text :=
  if r.isKernel ∧ recordKernelName isDigit r ≠ [] then some (recordKernelName isDigit r) else none

/-- What a kernel does, by its name. -/
inductive KernelClass where
  | allreduce
  | attention
  | matmul
  | rope
  | silu
  | norm
  | other
  deriving DecidableEq, Repr

/-- The tests of the names, in their order. -/
def kernelClass (kernel : Text) : KernelClass :=
  if literal "allreduce".toList <:+: kernel then .allreduce
  else if literal "flash_attention".toList <:+: kernel ∨
      literal "attention_".toList <+: kernel then .attention
  else if literal "matmul".toList <:+: kernel then .matmul
  else if literal "rope".toList <:+: kernel then .rope
  else if literal "silu".toList <:+: kernel then .silu
  else if literal "rmsnorm".toList <:+: kernel ∨ literal "norm_".toList <+: kernel then .norm
  else .other

/-! ## The loop -/

/-- `qwen_phase`. -/
inductive Phase where
  | attentionTpAllreduce
  | mlpTpAllreduce
  | attention
  | attentionQkv
  | attentionO
  | mlpUpGate
  | mlpDown
  | attentionRopeCache
  | mlpActivation
  | norm
  deriving DecidableEq, Repr

/-- `qwen_state_basis`. -/
inductive Basis where
  | traceStart
  | afterCompletedDeviceSync
  deriving DecidableEq, Repr

inductive Segment where
  | attention
  | mlp
  deriving DecidableEq, Repr

/-- The state of a stream. -/
structure QwenState where
  layer : ℕ := 0
  segment : Segment := .attention
  attnMatmuls : ℕ := 0
  mlpMatmuls : ℕ := 0
  deriving DecidableEq, Repr

/-- What a record is given. -/
structure Annotation where
  kernelName : Text
  layer : ℕ
  basis : Basis
  phase : Option Phase
  deriving DecidableEq, Repr

/-- The states of the streams, and the basis. -/
structure Annotator where
  states : List Char → Option QwenState
  basis : Basis

/-- One kernel on a stream: the state after it, and its phase. -/
def QwenState.advance (layers : ℕ) (st : QwenState) : KernelClass → QwenState × Option Phase
  | .allreduce =>
    match st.segment with
    | .attention => ({ st with segment := .mlp }, some .attentionTpAllreduce)
    | .mlp => (⟨(st.layer + 1) % layers, .attention, 0, 0⟩, some .mlpTpAllreduce)
  | .attention => (st, some .attention)
  | .matmul =>
    match st.segment with
    | .attention => ({ st with attnMatmuls := st.attnMatmuls + 1 },
        some (if st.attnMatmuls = 0 then .attentionQkv else .attentionO))
    | .mlp => ({ st with mlpMatmuls := st.mlpMatmuls + 1 },
        some (if st.mlpMatmuls = 0 then .mlpUpGate else .mlpDown))
  | .rope => (st, some .attentionRopeCache)
  | .silu => (st, some .mlpActivation)
  | .norm => (st, some .norm)
  | .other => (st, none)

/-- The state of a stream, which is entered if it is not there. -/
def Annotator.stateOf (s : Annotator) (stream : List Char) : QwenState :=
  (s.states stream).getD {}

/-- The body of the loop. -/
def annotateRecord (layers : ℕ) (s : Annotator) (r : QwenRecord) : Annotator × Option Annotation :=
  if r.isDeviceSyncEnd then (⟨fun _ => none, .afterCompletedDeviceSync⟩, none)
  else
    match r.kernel? isDigit with
    | none => (s, none)
    | some kernel =>
      let st := s.stateOf r.streamText
      let (st', phase) := st.advance layers (kernelClass kernel)
      ({ s with states := Function.update s.states r.streamText (some st') },
        some ⟨kernel, st.layer, s.basis, phase⟩)

def annotateFrom (layers : ℕ) : Annotator → List QwenRecord → List (Option Annotation)
  | _, [] => []
  | s, r :: rest =>
    (annotateRecord isDigit layers s r).2 ::
      annotateFrom layers (annotateRecord isDigit layers s r).1 rest

/-- `annotate_qwen_states`: what every record is given. -/
def annotateQwenStates (layers : ℕ) (records : List QwenRecord) : List (Option Annotation) :=
  annotateFrom isDigit layers ⟨fun _ => none, .traceStart⟩ records

/-! ## The closed form -/

/-- The records since the last synchronization of the device. -/
def sinceSync (records : List QwenRecord) : List QwenRecord :=
  records.rtakeWhile fun r => !r.isDeviceSyncEnd

/-- What a record does on a stream. -/
def QwenRecord.classOn (stream : List Char) (r : QwenRecord) : Option KernelClass :=
  if r.streamText = stream then (r.kernel? isDigit).map kernelClass else none

/-- The number of reductions on a stream. -/
def allreduces (stream : List Char) (records : List QwenRecord) : ℕ :=
  records.countP fun r => r.classOn isDigit stream = some .allreduce

/-- The number of matrix products on a stream since its last reduction. -/
def matmuls (stream : List Char) (records : List QwenRecord) : ℕ :=
  (records.rtakeWhile fun r => r.classOn isDigit stream ≠ some .allreduce).countP
    fun r => r.classOn isDigit stream = some .matmul

/-- The phase of a kernel after `a` reductions and, since the last of them, `m` products. -/
def closedPhase (a m : ℕ) : KernelClass → Option Phase
  | .allreduce => some (if a % 2 = 0 then .attentionTpAllreduce else .mlpTpAllreduce)
  | .attention => some .attention
  | .matmul =>
    some (if a % 2 = 0 then (if m = 0 then .attentionQkv else .attentionO)
      else (if m = 0 then .mlpUpGate else .mlpDown))
  | .rope => some .attentionRopeCache
  | .silu => some .mlpActivation
  | .norm => some .norm
  | .other => none

/-- The annotation of a kernel with its name, by the records before it. -/
def closedForm (layers : ℕ) (before : List QwenRecord) (r : QwenRecord) (kernel : Text) :
    Annotation where
  kernelName := kernel
  layer := allreduces isDigit r.streamText (sinceSync before) / 2 % layers
  basis := if before.any (·.isDeviceSyncEnd) then .afterCompletedDeviceSync else .traceStart
  phase := closedPhase (allreduces isDigit r.streamText (sinceSync before))
    (matmuls isDigit r.streamText (sinceSync before)) (kernelClass kernel)

/-! ## One kernel -/

/-- The state of a stream that has had `a` reductions and, since the last of them, `m` products.
The counter of the half that has ended is not used again before it is reset. -/
structure Tracks (layers a m : ℕ) (st : QwenState) : Prop where
  layer : st.layer = a / 2 % layers
  segment : st.segment = if a % 2 = 0 then .attention else .mlp
  attention : a % 2 = 0 → st.attnMatmuls = m ∧ st.mlpMatmuls = 0
  mlp : a % 2 = 1 → st.mlpMatmuls = m

theorem tracks_zero (layers : ℕ) : Tracks layers 0 0 {} where
  layer := (Nat.zero_mod layers).symm
  segment := rfl
  attention _ := ⟨rfl, rfl⟩
  mlp _ := rfl

variable {layers a m : ℕ} {st : QwenState}

/-- The phase is the closed one. -/
theorem Tracks.phase (h : Tracks layers a m st) (c : KernelClass) :
    (st.advance layers c).2 = closedPhase a m c := by
  rcases Nat.mod_two_eq_zero_or_one a with heven | hodd
  · have hseg : st.segment = .attention := by rw [h.segment, if_pos heven]
    cases c <;> simp [QwenState.advance, closedPhase, hseg, heven, (h.attention heven).1]
  · have hseg : st.segment = .mlp := by rw [h.segment, if_neg (by omega)]
    cases c <;> simp [QwenState.advance, closedPhase, hseg, hodd, h.mlp hodd]

/-- **One kernel.** A reduction ends a half and, after the second one, the layer. -/
theorem Tracks.advance (h : Tracks layers a m st) (c : KernelClass) :
    Tracks layers (if c = .allreduce then a + 1 else a)
      (if c = .allreduce then 0 else if c = .matmul then m + 1 else m) (st.advance layers c).1 := by
  rcases Nat.mod_two_eq_zero_or_one a with heven | hodd
  · have hseg : st.segment = .attention := by rw [h.segment, if_pos heven]
    obtain ⟨hattn, hmlp⟩ := h.attention heven
    have hlayer := h.layer
    cases c with
    | allreduce =>
      simp only [QwenState.advance, hseg, if_true]
      refine ⟨?_, ?_, fun h₀ => absurd h₀ (by omega), fun _ => hmlp⟩
      · rw [hlayer, show (a + 1) / 2 = a / 2 by omega]
      · exact (if_neg (by omega)).symm
    | matmul =>
      simp only [QwenState.advance, hseg, reduceCtorEq, if_true, if_false]
      exact ⟨hlayer, (if_pos heven).symm, fun _ => ⟨by rw [hattn], hmlp⟩,
        fun h₁ => absurd h₁ (by omega)⟩
    | attention | rope | silu | norm | other => exact h
  · have hseg : st.segment = .mlp := by rw [h.segment, if_neg (by omega)]
    have hlayer := h.layer
    cases c with
    | allreduce =>
      simp only [QwenState.advance, hseg, if_true]
      refine ⟨?_, ?_, fun _ => ⟨rfl, rfl⟩, fun _ => rfl⟩
      · rw [hlayer, Nat.mod_add_mod, show (a + 1) / 2 = a / 2 + 1 by omega]
      · exact (if_pos (by omega)).symm
    | matmul =>
      simp only [QwenState.advance, hseg, reduceCtorEq, if_true, if_false]
      exact ⟨hlayer, (if_neg (show ¬ a % 2 = 0 by omega)).symm,
        fun h₀ => absurd h₀ (by omega), fun _ => by rw [h.mlp hodd]⟩
    | attention | rope | silu | norm | other => exact h

/-! ## A list of records -/

/-- The states and the basis are those that the records before account for. -/
structure Follows (layers : ℕ) (before : List QwenRecord) (s : Annotator) : Prop where
  tracks : ∀ stream, Tracks layers (allreduces isDigit stream (sinceSync before))
    (matmuls isDigit stream (sinceSync before)) (s.stateOf stream)
  basis : s.basis =
    if before.any (·.isDeviceSyncEnd) then .afterCompletedDeviceSync else .traceStart

variable {isDigit} {r : QwenRecord} {records before : List QwenRecord} {stream : List Char}
  {s : Annotator}

theorem sinceSync_concat_of_sync (h : r.isDeviceSyncEnd = true) :
    sinceSync (records ++ [r]) = [] :=
  List.rtakeWhile_concat_neg _ _ _ (by simp [h])

theorem sinceSync_concat (h : r.isDeviceSyncEnd = false) :
    sinceSync (records ++ [r]) = sinceSync records ++ [r] :=
  List.rtakeWhile_concat_pos _ _ _ (by simp [h])

theorem allreduces_concat : allreduces isDigit stream (records ++ [r]) =
    if r.classOn isDigit stream = some .allreduce then allreduces isDigit stream records + 1
    else allreduces isDigit stream records := by
  rw [allreduces, List.countP_append, List.countP_singleton]
  simp only [decide_eq_true_eq]
  split <;> rfl

theorem matmuls_concat : matmuls isDigit stream (records ++ [r]) =
    if r.classOn isDigit stream = some .allreduce then 0
    else if r.classOn isDigit stream = some .matmul then matmuls isDigit stream records + 1
    else matmuls isDigit stream records := by
  rw [matmuls]
  split
  · next h => rw [List.rtakeWhile_concat_neg _ _ _ (by simp [h]), List.countP_nil]
  · next h =>
    rw [List.rtakeWhile_concat_pos _ _ _ (by simp [h]), List.countP_append, List.countP_singleton]
    simp only [decide_eq_true_eq]
    split <;> rfl

/-- A record that does nothing on a stream. -/
theorem Tracks.of_none (hclass : r.classOn isDigit stream = none)
    (h : Tracks layers (allreduces isDigit stream records) (matmuls isDigit stream records) st) :
    Tracks layers (allreduces isDigit stream (records ++ [r]))
      (matmuls isDigit stream (records ++ [r])) st := by
  rw [allreduces_concat, matmuls_concat, hclass]
  exact h

/-- **One record.** -/
theorem Follows.step (h : Follows isDigit layers before s) (r : QwenRecord) :
    Follows isDigit layers (before ++ [r]) (annotateRecord isDigit layers s r).1 := by
  rw [annotateRecord]
  by_cases hsync : r.isDeviceSyncEnd = true
  · rw [if_pos hsync]
    refine ⟨fun stream => ?_, ?_⟩
    · rw [sinceSync_concat_of_sync hsync]
      exact tracks_zero layers
    · rw [List.any_append, if_pos (by simp [hsync])]
  · have hsync' : r.isDeviceSyncEnd = false := Bool.eq_false_iff.mpr hsync
    rw [if_neg hsync]
    have hbasis : (before ++ [r]).any (·.isDeviceSyncEnd) = before.any (·.isDeviceSyncEnd) := by
      simp [List.any_append, hsync']
    cases hkernel : r.kernel? isDigit with
    | none =>
      refine ⟨fun stream => ?_, hbasis ▸ h.basis⟩
      rw [sinceSync_concat hsync']
      refine (h.tracks stream).of_none ?_
      rw [QwenRecord.classOn, hkernel]
      exact ite_self none
    | some kernel =>
      refine ⟨fun stream => ?_, hbasis ▸ h.basis⟩
      rw [sinceSync_concat hsync']
      by_cases hstream : stream = r.streamText
      · subst hstream
        have hclass : r.classOn isDigit r.streamText = some (kernelClass kernel) := by
          rw [QwenRecord.classOn, if_pos rfl, hkernel, Option.map_some]
        have hstate := (h.tracks r.streamText).advance (kernelClass kernel)
        rw [allreduces_concat, matmuls_concat, hclass]
        simp only [Option.some.injEq, Annotator.stateOf, Function.update_self, Option.getD_some]
        exact hstate
      · have hclass : r.classOn isDigit stream = none := by
          rw [QwenRecord.classOn, if_neg fun heq => hstream heq.symm]
        simp only [Annotator.stateOf, Function.update_of_ne hstream]
        exact (h.tracks stream).of_none hclass

/-- The states after some records. -/
def after (isDigit : ℕ → Bool) (layers : ℕ) (s : Annotator) (records : List QwenRecord) :
    Annotator :=
  records.foldl (fun s r => (annotateRecord isDigit layers s r).1) s

theorem follows_after (isDigit : ℕ → Bool) (layers : ℕ) (records : List QwenRecord) :
    Follows isDigit layers records
      (after isDigit layers ⟨fun _ => none, .traceStart⟩ records) := by
  induction records using List.reverseRecOn with
  | nil => exact ⟨fun _ => tracks_zero layers, rfl⟩
  | append_singleton records r ih =>
    rw [after, List.foldl_append]
    exact ih.step r

theorem annotateFrom_append (s : Annotator) (before rest : List QwenRecord) :
    annotateFrom isDigit layers s (before ++ rest) =
      annotateFrom isDigit layers s before ++
        annotateFrom isDigit layers (after isDigit layers s before) rest := by
  induction before generalizing s with
  | nil => rfl
  | cons r before ih =>
    rw [List.cons_append, annotateFrom, annotateFrom, ih, List.cons_append]
    rfl

theorem length_annotateFrom (s : Annotator) (records : List QwenRecord) :
    (annotateFrom isDigit layers s records).length = records.length := by
  induction records generalizing s with
  | nil => rfl
  | cons r records ih => rw [annotateFrom, List.length_cons, List.length_cons, ih]

/-- A record that ends a synchronization is not one of a kernel. -/
theorem kernel?_of_sync (h : r.isDeviceSyncEnd = true) : r.kernel? isDigit = none := by
  have hkind : r.isKernel = false := by
    rw [QwenRecord.isKernel, of_decide_eq_true h]
    decide
  rw [QwenRecord.kernel?, if_neg]
  rw [hkind]
  exact fun hand => absurd hand.1 (by decide)

/-- The body of the loop gives a record the closed form. -/
theorem Follows.annotated (h : Follows isDigit layers before s) (r : QwenRecord) :
    (annotateRecord isDigit layers s r).2 =
      (r.kernel? isDigit).map (closedForm isDigit layers before r) := by
  rw [annotateRecord]
  by_cases hsync : r.isDeviceSyncEnd = true
  · rw [if_pos hsync, kernel?_of_sync hsync, Option.map_none]
  · rw [if_neg hsync]
    cases hkernel : r.kernel? isDigit with
    | none => rfl
    | some kernel =>
      have htracks := h.tracks r.streamText
      simp only [Option.map_some, closedForm, htracks.phase, htracks.layer, h.basis]

/-! ## Other streams -/

/-- The record is one of the stream, or resets all streams. -/
def QwenRecord.concerns (stream : List Char) (r : QwenRecord) : Bool :=
  r.isDeviceSyncEnd || r.streamText = stream

/-- The annotations of the records that concern a stream. -/
def annotationsOn (stream : List Char) (records : List QwenRecord)
    (annotations : List (Option Annotation)) : List (Option Annotation) :=
  ((records.zip annotations).filter fun p => p.1.concerns stream).map (·.2)

/-- A record of another stream leaves the state of the stream. -/
theorem states_of_not_concerns (isDigit : ℕ → Bool) (layers : ℕ) (h : r.concerns stream = false)
    (s : Annotator) :
    (annotateRecord isDigit layers s r).1.states stream = s.states stream ∧
      (annotateRecord isDigit layers s r).1.basis = s.basis := by
  rw [QwenRecord.concerns, Bool.or_eq_false_iff, decide_eq_false_iff_not] at h
  rw [annotateRecord, if_neg (Bool.eq_false_iff.mp h.1)]
  cases hkernel : r.kernel? isDigit with
  | none => exact ⟨rfl, rfl⟩
  | some kernel => exact ⟨Function.update_of_ne (fun heq => h.2 heq.symm) _ _, rfl⟩

/-- A record that concerns the stream sees nothing of the other states. -/
theorem annotateRecord_congr (isDigit : ℕ → Bool) (layers : ℕ) (h : r.concerns stream = true)
    {s s' : Annotator} (hstate : s.states stream = s'.states stream) (hbasis : s.basis = s'.basis) :
    (annotateRecord isDigit layers s r).2 = (annotateRecord isDigit layers s' r).2 ∧
      (annotateRecord isDigit layers s r).1.states stream =
        (annotateRecord isDigit layers s' r).1.states stream ∧
      (annotateRecord isDigit layers s r).1.basis =
        (annotateRecord isDigit layers s' r).1.basis := by
  simp only [annotateRecord]
  by_cases hsync : r.isDeviceSyncEnd = true
  · rw [if_pos hsync, if_pos hsync]
    exact ⟨rfl, rfl, rfl⟩
  · have hstream : r.streamText = stream := by
      rw [QwenRecord.concerns, Bool.or_eq_true, decide_eq_true_eq] at h
      exact h.resolve_left hsync
    subst hstream
    rw [if_neg hsync, if_neg hsync]
    cases hkernel : r.kernel? isDigit with
    | none => exact ⟨rfl, hstate, hbasis⟩
    | some kernel =>
      simp only [Annotator.stateOf, hstate, hbasis, Function.update_self, and_self]

theorem annotationsOn_annotateFrom (records : List QwenRecord) {s s' : Annotator}
    (hstate : s.states stream = s'.states stream) (hbasis : s.basis = s'.basis) :
    annotationsOn stream records (annotateFrom isDigit layers s records) =
      annotateFrom isDigit layers s' (records.filter (·.concerns stream)) := by
  induction records generalizing s s' with
  | nil => rfl
  | cons r records ih =>
    rw [annotateFrom, annotationsOn, List.zip_cons_cons]
    by_cases h : r.concerns stream = true
    · obtain ⟨hann, hstate', hbasis'⟩ := annotateRecord_congr isDigit layers h hstate hbasis
      simp only [List.filter_cons, h, if_true, List.map_cons, annotateFrom, hann]
      rw [← ih hstate' hbasis']
      rfl
    · obtain ⟨hstate', hbasis'⟩ :=
        states_of_not_concerns isDigit layers (Bool.eq_false_iff.mpr h) s
      simp only [List.filter_cons, h]
      exact ih (hstate'.trans hstate) (hbasis'.trans hbasis)

/-- **The annotation has a closed form, stream by stream.** For every list of records and every
number of layers, a kernel with a name is given the layer, the phase and the basis that counting
gives, and every other record is given nothing. And the annotations on a stream are those of the
list without the records of other streams. -/
theorem annotation_closed_form (isDigit : ℕ → Bool) (layers : ℕ) :
    (∀ (before rest : List QwenRecord) (r : QwenRecord),
      (annotateQwenStates isDigit layers (before ++ r :: rest))[before.length]? =
        some ((r.kernel? isDigit).map (closedForm isDigit layers before r))) ∧
    ∀ (records : List QwenRecord) (stream : List Char),
      annotationsOn stream records (annotateQwenStates isDigit layers records) =
        annotateQwenStates isDigit layers (records.filter (·.concerns stream)) := by
  refine ⟨fun before rest r => ?_, fun records stream => annotationsOn_annotateFrom records rfl rfl⟩
  rw [annotateQwenStates, annotateFrom_append, annotateFrom,
    List.getElem?_append_right (by rw [length_annotateFrom]), length_annotateFrom, Nat.sub_self,
    List.getElem?_cons_zero, (follows_after isDigit layers before).annotated r]

end YellowZone.DeadlockTrace
