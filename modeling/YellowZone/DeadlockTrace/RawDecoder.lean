import YellowZone.DeadlockTrace.Layout
import YellowZone.Machine.Utf8

/-!
# The raw-memory decoder

`decode_raw_trace` of `collect_vcann_deadlock.py`: it gets the bytes of the four diagnostic
structures and makes a report of them. The formats and offsets are its own, written by hand. The
report is a structure here, with the keys of the dictionary as its fields; keys that are only
sometimes there are optional.

The second half shows that the formats and offsets are right: on the bytes of `Contents` the decoder
gives the report `rawReport`, which is written in terms of the structures themselves.

## Main definitions and results

* `Report` and its parts — what a decoder reports
* `decodeRawTrace` — the decoder
* `rawReport`, `decodeRawTrace_contents` — what it reports of given contents
-/

namespace YellowZone.DeadlockTrace

open Machine

/-! ## Reports -/

/-- `sync_probe`. -/
structure SyncProbeReport where
  active : Bool
  vnpuId : ℕ
  owner : ℤ
  scheduleTurn : ℕ
  beginNs : ℕ
  beginSequence : ℕ
  stream : List Char
  deriving DecidableEq

/-- `host_sync_probe`. -/
structure HostSyncProbeReport where
  active : Bool
  kind : ℕ
  kindName : List Char
  tid : ℕ
  timeout : ℤ
  beginNs : ℕ
  beginSequence : ℕ
  stream : List Char
  deriving DecidableEq

/-- An item of `registrations`. -/
structure RegistrationReport where
  sequence : ℕ
  handle : List Char
  stub : List Char
  deviceFunction : List Char
  functionMode : ℕ
  tid : ℕ
  stubName : Text
  deviceName : Text
  deriving DecidableEq

/-- `kernel_registry`. -/
structure RegistryReport where
  available : Bool
  magic : List Char
  abiVersion : ℕ
  capacity : ℕ
  nextSequence : ℕ
  dropped : ℕ
  registrations : List RegistrationReport
  deriving DecidableEq

/-- An item of `records`, without the names that come from outside of the structures. -/
structure RecordReport where
  sequence : ℕ
  timestampNs : ℕ
  tid : ℕ
  kind : ℕ
  kindName : List Char
  recordPhase : List Char
  stream : List Char
  object : List Char
  auxiliary : List Char
  value : ℕ
  blocks : ℕ
  argsSize : ℕ
  onSyncStream : Bool
  kernelNames : Option (List Text)
  deriving DecidableEq

/-- An item of `records`. -/
structure NamedRecordReport where
  record : RecordReport
  objectSymbol : Option Text
  objectName : Option Text
  deriving DecidableEq

/-- The report. -/
structure Report where
  magic : List Char
  abiVersion : ℕ
  capacity : ℕ
  enabled : Bool
  processId : ℕ
  nextSequence : ℕ
  syncProbe : SyncProbeReport
  hostSyncProbe : HostSyncProbeReport
  kernelRegistry : RegistryReport
  records : List NamedRecordReport

/-! ## What both decoders share

The scripts have these functions and tables each for itself, with the same text. -/

/-- `pointer_text`. -/
def pointerText (value : ℕ) : List Char :=
  if value ≠ 0 then "0x".toList ++ Nat.toDigits 16 value else "0x0".toList

/-- `f"0x{magic:016x}"`. -/
def magicText (magic : ℕ) : List Char := "0x".toList ++ List.leftpad 16 '0' (Nat.toDigits 16 magic)

/-- `KIND_NAMES`, from `0` to `48`. -/
def kindNames : List (List Char) :=
  ["INVALID".toList, "RT_KERNEL_LAUNCH".toList, "RT_KERNEL_HANDLE".toList,
    "RT_KERNEL_HANDLE_V2".toList, "RT_KERNEL_FLAG".toList, "RT_KERNEL_FLAG_V2".toList,
    "RT_KERNEL_EX".toList, "RT_KERNEL_FWK".toList, "RT_CPU_KERNEL".toList,
    "RT_AICPU_KERNEL".toList, "RT_AICPU_KERNEL_EX".toList, "RT_FUNC_HANDLE".toList,
    "RT_FUNC_HANDLE_V2".toList, "RT_FUNC_HANDLE_V3".toList, "RT_VECTOR_HANDLE".toList,
    "RT_VECTOR_KERNEL".toList, "RTS_KERNEL_HOST_ARGS".toList, "RTS_CPU_KERNEL".toList,
    "RTS_KERNEL_CONFIG".toList, "RTS_KERNEL_DEV_ARGS".toList, "RTS_RANDOM_TASK".toList,
    "RTS_REDUCE_TASK".toList, "RTS_UPDATE_TASK".toList, "RT_FFTS_TASK".toList,
    "RT_STARS_TASK".toList, "RT_CMO_TASK".toList, "RT_BARRIER_TASK".toList,
    "RT_MULTIPLE_TASK".toList, "RT_MODEL_EXECUTE".toList, "RT_MODEL_EXECUTE_SYNC".toList,
    "EVENT_RECORD".toList, "EVENT_WAIT".toList, "NOTIFY_RECORD".toList, "NOTIFY_WAIT".toList,
    "STREAM_DESTROY".toList, "STREAM_CAPTURE_BEGIN".toList, "STREAM_CAPTURE_END".toList,
    "SCHED_SYNC_BEGIN".toList, "SCHED_SYNC_END".toList, "KERNEL_REGISTER".toList,
    "KERNEL_UNREGISTER".toList, "DEVICE_SYNC_BEGIN".toList, "DEVICE_SYNC_END".toList,
    "STREAM_SYNC_BEGIN".toList, "STREAM_SYNC_END".toList, "ACL_KERNEL".toList,
    "ACL_KERNEL_CONFIG".toList, "ACL_KERNEL_V2".toList, "ACL_KERNEL_HOST_ARGS".toList]

/-- `f"UNKNOWN_{kind}"`. -/
def unknownKind (kind : ℕ) : List Char := "UNKNOWN_".toList ++ Nat.toDigits 10 kind

/-- `STRING_OBJECT_KINDS`. -/
def stringObjectKinds : List ℕ := [7, 8, 10]

/-- `record_phase`. -/
def recordPhase (kind : ℕ) : List Char :=
  if kind = 37 ∨ kind = 38 then "scheduler".toList
  else if kind = 39 ∨ kind = 40 then "registration".toList
  else if 41 ≤ kind ∧ kind ≤ 44 then "sync".toList
  else "hook_attempt".toList

/-- `sorted(set(names))`. -/
def sortedSet (names : List Text) : List Text := names.dedup.mergeSort fun a b => decide (a ≤ b)

/-- `kernel_names` of a record: there is no such key without a name. -/
def attachedNames (names : List Text) : Option (List Text) :=
  if names ≠ [] then some (sortedSet names) else none

/-- The registrations by handle: the value of `registrations_by_handle.get(handle, [])`. -/
def namesByHandle (registrations : List (ℕ × RegistrationReport)) (handle : ℕ) : List Text :=
  (registrations.filter fun r => r.1 = handle).map fun r => r.2.stubName

/-- The sequences of `range(first_sequence, next_sequence + 1)`. -/
def window (nextSequence limit capacity : ℕ) : List ℕ :=
  let firstSequence := max 1 (nextSequence + 1 - min limit capacity)
  List.range' firstSequence (nextSequence + 1 - firstSequence)

/-! ## The decoder -/

/-- `TRACE_HEADER`: `<QIIIIQ`. -/
abbrev traceHeaderFormat : List Field := [.u64, .u32, .u32, .u32, .u32, .u64]

/-- `TRACE_RECORD`: `<QQQQQQIIII`. -/
abbrev traceRecordFormat : List Field :=
  [.u64, .u64, .u64, .u64, .u64, .u64, .u32, .u32, .u32, .u32]

/-- `SYNC_PROBE`: `<IIiIQQQ`. -/
abbrev syncProbeFormat : List Field := [.u32, .u32, .i32, .u32, .u64, .u64, .u64]

/-- `HOST_SYNC_PROBE`: `<IIIiQQQ`. -/
abbrev hostSyncProbeFormat : List Field := [.u32, .u32, .u32, .i32, .u64, .u64, .u64]

/-- `KERNEL_REGISTRY_HEADER`: `<QIIQII`. -/
abbrev kernelRegistryHeaderFormat : List Field := [.u64, .u32, .u32, .u64, .u32, .u32]

/-- `KERNEL_REGISTRATION`: `<QQQQII128s128s`. -/
abbrev kernelRegistrationFormat : List Field :=
  [.u64, .u64, .u64, .u64, .u32, .u32, .chars 128, .chars 128]

/-- A report that is not available. -/
inductive Unavailable where
  /-- "unexpected raw vCANN trace size", with the sizes. -/
  | size (trace probe hostProbe registry : ℕ)
  /-- "incompatible vCANN trace ABI", with the header. -/
  | abi (magic : List Char) (abiVersion capacity : ℕ)
  deriving DecidableEq

/-- `raw.split(b"\0", 1)[0].decode("utf-8", errors="replace")`. -/
def rawName (raw : List UInt8) : Text := decodeReplace (raw.takeWhile (· ≠ 0))

/-- One registration, if it is committed. -/
def rawRegistration (index : ℕ) (fields : Tuple kernelRegistrationFormat) :
    Option (ℕ × RegistrationReport) :=
  let (committed, handle, stub, deviceFunction, mode, tid, stubRaw, deviceRaw, ()) := fields
  if committed ≠ index + 1 then none
  else some (handle,
    { sequence := committed
      handle := pointerText handle
      stub := pointerText stub
      deviceFunction := pointerText deviceFunction
      functionMode := mode
      tid := tid
      stubName := rawName stubRaw
      deviceName := rawName deviceRaw })

/-- The registry has the expected header. -/
def registryCompatible (magic abi capacity : ℕ) : Bool :=
  magic = kernelRegistryMagic ∧ abi = kernelRegistryAbiVersion ∧ capacity = kernelRegistryCapacity

/-- The loop over the registrations. -/
def rawRegistrations (registryRaw : List UInt8) : List (ℕ × RegistrationReport) :=
  let (magic, abi, capacity, nextSequence, _, _, ()) :=
    unpackFrom kernelRegistryHeaderFormat registryRaw 0
  if registryCompatible magic abi capacity then
    (List.range (min nextSequence capacity)).filterMap fun index =>
      rawRegistration index (unpackFrom kernelRegistrationFormat registryRaw
        (formatSize kernelRegistryHeaderFormat + index * formatSize kernelRegistrationFormat))
  else []

/-- `kernel_registry`. -/
def rawRegistry (registryRaw : List UInt8) : RegistryReport :=
  let (magic, abi, capacity, nextSequence, dropped, _, ()) :=
    unpackFrom kernelRegistryHeaderFormat registryRaw 0
  { available := registryCompatible magic abi capacity
    magic := magicText magic
    abiVersion := abi
    capacity := capacity
    nextSequence := nextSequence
    dropped := dropped
    registrations := (rawRegistrations registryRaw).map Prod.snd }

/-- The stream of the synchronization in progress, or zero. -/
def rawSyncStream (fields : Tuple syncProbeFormat) : ℕ :=
  let (active, _, _, _, _, _, stream, ()) := fields
  if active ≠ 0 then stream else 0

/-- `sync_probe`. -/
def rawSyncProbe (fields : Tuple syncProbeFormat) : SyncProbeReport :=
  let (active, vnpuId, owner, scheduleTurn, beginNs, beginSequence, _, ()) := fields
  { active := active ≠ 0
    vnpuId := vnpuId
    owner := owner
    scheduleTurn := scheduleTurn
    beginNs := beginNs
    beginSequence := beginSequence
    stream := pointerText (rawSyncStream fields) }

/-- `host_sync_probe`. -/
def rawHostSyncProbe (fields : Tuple hostSyncProbeFormat) : HostSyncProbeReport :=
  let (active, kind, tid, timeout, beginNs, beginSequence, stream, ()) := fields
  { active := active ≠ 0
    kind := kind
    kindName := (kindNames[kind]?).getD (unknownKind kind)
    tid := tid
    timeout := timeout
    beginNs := beginNs
    beginSequence := beginSequence
    stream := pointerText stream }

/-- One record, if it is committed under its sequence. -/
def rawRecord (syncStream : ℕ) (names : ℕ → List Text) (stringReader : Option (ℕ → Text))
    (sequence : ℕ) (fields : Tuple traceRecordFormat) : Option NamedRecordReport :=
  let (committedSequence, timestampNs, streamAddress, objectAddress, auxiliary, value, kind,
    blocks, argsSize, tid, ()) := fields
  if committedSequence ≠ sequence then none
  else some
    { record :=
        { sequence := sequence
          timestampNs := timestampNs
          tid := tid
          kind := kind
          kindName := (kindNames[kind]?).getD (unknownKind kind)
          recordPhase := recordPhase kind
          stream := pointerText streamAddress
          object := pointerText objectAddress
          auxiliary := pointerText auxiliary
          value := value
          blocks := blocks
          argsSize := argsSize
          onSyncStream := syncStream ≠ 0 ∧ streamAddress = syncStream
          kernelNames := attachedNames (names objectAddress) }
      objectSymbol := none
      objectName := do
        let reader ← stringReader
        guard (kind ∈ stringObjectKinds ∧ objectAddress ≠ 0)
        let name := reader objectAddress
        guard (name ≠ [])
        return name }

/-- `decode_raw_trace`. -/
def decodeRawTrace (traceRaw probeRaw hostProbeRaw registryRaw : List UInt8) (limit : ℕ)
    (stringReader : Option (ℕ → Text)) : Except Unavailable Report :=
  let expectedTraceSize := formatSize traceHeaderFormat + traceCapacity * 4 +
    traceCapacity * formatSize traceRecordFormat
  let expectedRegistrySize := formatSize kernelRegistryHeaderFormat +
    kernelRegistryCapacity * formatSize kernelRegistrationFormat
  if traceRaw.length ≠ expectedTraceSize ∨ probeRaw.length ≠ formatSize syncProbeFormat ∨
      hostProbeRaw.length ≠ formatSize hostSyncProbeFormat ∨
      registryRaw.length ≠ expectedRegistrySize then
    .error (.size traceRaw.length probeRaw.length hostProbeRaw.length registryRaw.length)
  else
    let (magic, abiVersion, capacity, enabled, processId, nextSequence, ()) :=
      unpackFrom traceHeaderFormat traceRaw 0
    if magic ≠ traceMagic ∨ abiVersion ≠ traceAbiVersion ∨ capacity ≠ traceCapacity then
      .error (.abi (magicText magic) abiVersion capacity)
    else
      let probe := unpack syncProbeFormat probeRaw
      let names := namesByHandle (rawRegistrations registryRaw)
      let recordsOffset := formatSize traceHeaderFormat + capacity * 4
      .ok
        { magic := magicText magic
          abiVersion := abiVersion
          capacity := capacity
          enabled := enabled ≠ 0
          processId := processId
          nextSequence := nextSequence
          syncProbe := rawSyncProbe probe
          hostSyncProbe := rawHostSyncProbe (unpack hostSyncProbeFormat hostProbeRaw)
          kernelRegistry := rawRegistry registryRaw
          records := (window nextSequence limit capacity).filterMap fun sequence =>
            rawRecord (rawSyncStream probe) names stringReader sequence
              (unpackFrom traceRecordFormat traceRaw
                (recordsOffset + (sequence - 1) % capacity * formatSize traceRecordFormat)) }

/-! ## The report of given contents -/

section Contents

variable (c : Contents)

/-- The trace has the expected header. -/
structure Contents.TraceCompatible : Prop where
  magic : c.header.magic.toNat = traceMagic
  abiVersion : c.header.abiVersion.toNat = traceAbiVersion
  capacity : c.header.capacity.toNat = traceCapacity

/-- The registry has the expected header. -/
def Contents.registryCompatible : Bool :=
  DeadlockTrace.registryCompatible c.registryHeader.magic.toNat c.registryHeader.abiVersion.toNat
    c.registryHeader.capacity.toNat

/-- The entry of an index. -/
def Contents.entry (index : ℕ) : KernelRegistration := c.entries (Fin.ofNat 512 index)

/-- The record in the slot of a sequence. -/
def Contents.slot (sequence : ℕ) : TraceRecord := c.records (Fin.ofNat 4096 (sequence - 1))

/-- The number of entries that are looked at. -/
def Contents.entryCount : ℕ :=
  if c.registryCompatible then min c.registryHeader.nextSequence.toNat kernelRegistryCapacity else 0

/-- The registrations in terms of the entries. -/
def rawEntries : List (ℕ × RegistrationReport) :=
  (List.range c.entryCount).filterMap fun index => rawRegistration index (c.entry index).tuple

/-- `kernel_registry` in terms of the entries. -/
def rawRegistryReport : RegistryReport where
  available := c.registryCompatible
  magic := magicText c.registryHeader.magic.toNat
  abiVersion := c.registryHeader.abiVersion.toNat
  capacity := c.registryHeader.capacity.toNat
  nextSequence := c.registryHeader.nextSequence.toNat
  dropped := c.registryHeader.dropped.toNat
  registrations := (rawEntries c).map Prod.snd

/-- `records` in terms of the records. -/
def rawRecords (limit : ℕ) (stringReader : Option (ℕ → Text)) : List NamedRecordReport :=
  (window c.header.nextSequence.toNat limit traceCapacity).filterMap fun sequence =>
    rawRecord (rawSyncStream c.probe.tuple) (namesByHandle (rawEntries c)) stringReader sequence
      (c.slot sequence).tuple

/-- The report. -/
def rawReport (limit : ℕ) (stringReader : Option (ℕ → Text)) : Report where
  magic := magicText traceMagic
  abiVersion := traceAbiVersion
  capacity := traceCapacity
  enabled := c.header.enabled.toNat ≠ 0
  processId := c.header.processId.toNat
  nextSequence := c.header.nextSequence.toNat
  syncProbe := rawSyncProbe c.probe.tuple
  hostSyncProbe := rawHostSyncProbe c.hostProbe.tuple
  kernelRegistry := rawRegistryReport c
  records := rawRecords c limit stringReader

/-- The registrations are read as stored. -/
theorem rawRegistrations_contents : rawRegistrations c.registryBytes = rawEntries c := by
  have hraw : rawRegistrations c.registryBytes = if c.registryCompatible then
      (List.range (min c.registryHeader.nextSequence.toNat
        c.registryHeader.capacity.toNat)).filterMap fun index =>
          rawRegistration index (unpackFrom kernelRegistrationFormat c.registryBytes
            (formatSize kernelRegistryHeaderFormat + index * formatSize kernelRegistrationFormat))
      else [] := by
    unfold rawRegistrations
    rw [unpackFrom_registryHeader]
    rfl
  rw [hraw, rawEntries, Contents.entryCount]
  by_cases hok : c.registryCompatible = true
  · have hcap : c.registryHeader.capacity.toNat = kernelRegistryCapacity := by
      simp only [Contents.registryCompatible, registryCompatible, decide_eq_true_eq] at hok
      exact hok.2.2
    rw [if_pos hok, if_pos hok, hcap]
    refine List.filterMap_congr fun index hindex => ?_
    have hlt : index < 512 := by
      have := List.mem_range.mp hindex
      exact Nat.lt_of_lt_of_le this (Nat.min_le_right _ _)
    have hentry := unpackFrom_entry c (Fin.ofNat 512 index)
    rw [show (Fin.ofNat 512 index).val = index from Nat.mod_eq_of_lt hlt] at hentry
    exact congrArg (rawRegistration index) hentry
  · rw [if_neg hok, if_neg hok]
    rfl

theorem rawRegistry_contents : rawRegistry c.registryBytes = rawRegistryReport c := by
  unfold rawRegistry rawRegistryReport
  rw [unpackFrom_registryHeader, rawRegistrations_contents]
  rfl

/-- **The decoder reads what is stored.** -/
theorem decodeRawTrace_contents (hc : c.TraceCompatible) (limit : ℕ)
    (stringReader : Option (ℕ → Text)) :
    decodeRawTrace c.traceBytes c.probeBytes c.hostProbeBytes c.registryBytes limit stringReader
      = .ok (rawReport c limit stringReader) := by
  have hsize : ¬ (c.traceBytes.length ≠ formatSize traceHeaderFormat + traceCapacity * 4 +
        traceCapacity * formatSize traceRecordFormat ∨
      c.probeBytes.length ≠ formatSize syncProbeFormat ∨
      c.hostProbeBytes.length ≠ formatSize hostSyncProbeFormat ∨
      c.registryBytes.length ≠ formatSize kernelRegistryHeaderFormat +
        kernelRegistryCapacity * formatSize kernelRegistrationFormat) := by
    rw [length_traceBytes, length_probeBytes, length_hostProbeBytes, length_registryBytes]
    decide
  have hheader : ¬ (c.header.magic.toNat ≠ traceMagic ∨
      c.header.abiVersion.toNat ≠ traceAbiVersion ∨ c.header.capacity.toNat ≠ traceCapacity) := by
    rintro (h | h | h)
    · exact h hc.magic
    · exact h hc.abiVersion
    · exact h hc.capacity
  have hrecord : ∀ sequence : ℕ, unpackFrom traceRecordFormat c.traceBytes
      (formatSize traceHeaderFormat + traceCapacity * 4 +
        (sequence - 1) % traceCapacity * formatSize traceRecordFormat)
      = (c.slot sequence).tuple := fun sequence =>
    unpackFrom_record c (Fin.ofNat 4096 (sequence - 1))
  unfold decodeRawTrace
  rw [if_neg hsize, unpackFrom_header]
  refine (if_neg hheader).trans ?_
  simp only [hc.capacity, hc.magic, hc.abiVersion, hrecord, unpack_probe,
    unpack_hostProbe, rawRegistry_contents, rawRegistrations_contents]
  rfl

end Contents

end YellowZone.DeadlockTrace
