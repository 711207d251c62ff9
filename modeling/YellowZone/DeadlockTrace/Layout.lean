import YellowZone.Machine.StructFormat

/-!
# The diagnostic structures in memory

`deadlock_trace.h`: the ring of trace records, the two synchronization probes and the registry of
kernels. They are read from outside, out of the memory of a stopped process, so their layout
matters. Every structure is given twice: its fields, with the types of the header, and the bytes
that the compiler makes of them.

The header keeps the fields in an order that needs no padding. That is what `unpadded` decides, and
what the lemmas at the end use: at the offset of a structure there are its bytes.

## Main definitions and results

* `TraceHeader`, `TraceRecord`, `SyncProbe`, `HostSyncProbe`, `RegistryHeader`,
  `KernelRegistration` — the structures
* `Contents` — all of them, as in a stopped process
* `unpackFrom_record`, `unpackFrom_entry` and the like — what is at the offsets
-/

namespace YellowZone.DeadlockTrace

open Machine

/-! ## Constants -/

/-- `VCANN_TRACE_MAGIC`. -/
def traceMagic : ℕ := 0x5643414E4E545243

/-- `VCANN_TRACE_ABI_VERSION`. -/
def traceAbiVersion : ℕ := 3

/-- `VCANN_TRACE_CAPACITY`. -/
def traceCapacity : ℕ := 4096

/-- `VCANN_KERNEL_REGISTRY_MAGIC`. -/
def kernelRegistryMagic : ℕ := 0x5643414E4E4B5247

/-- `VCANN_KERNEL_REGISTRY_ABI_VERSION`. -/
def kernelRegistryAbiVersion : ℕ := 1

/-- `VCANN_KERNEL_REGISTRY_CAPACITY`. -/
def kernelRegistryCapacity : ℕ := 512

/-- `VCANN_KERNEL_NAME_CAPACITY`. -/
def kernelNameCapacity : ℕ := 128

/-! ## Structures -/

/-- The fields of `struct vcann_trace_buffer` in front of its arrays. -/
structure TraceHeader where
  magic : UInt64
  abiVersion : UInt32
  capacity : UInt32
  enabled : UInt32
  processId : UInt32
  nextSequence : UInt64
  deriving DecidableEq, Repr

/-- `struct vcann_trace_record`. -/
structure TraceRecord where
  committedSequence : UInt64
  timestampNs : UInt64
  stream : UInt64
  object : UInt64
  auxiliary : UInt64
  value : UInt64
  kind : UInt32
  blocks : UInt32
  argsSize : UInt32
  tid : UInt32
  deriving DecidableEq, Repr

/-- `struct vcann_sync_probe`. -/
structure SyncProbe where
  active : UInt32
  vnpuId : UInt32
  owner : Int32
  scheduleTurn : UInt32
  beginNs : UInt64
  beginSequence : UInt64
  stream : UInt64
  deriving DecidableEq

/-- `struct vcann_host_sync_probe`. -/
structure HostSyncProbe where
  active : UInt32
  kind : UInt32
  tid : UInt32
  timeout : Int32
  beginNs : UInt64
  beginSequence : UInt64
  stream : UInt64
  deriving DecidableEq

/-- The fields of `struct vcann_kernel_registry` in front of its entries. -/
structure RegistryHeader where
  magic : UInt64
  abiVersion : UInt32
  capacity : UInt32
  nextSequence : UInt64
  dropped : UInt32
  reserved : UInt32
  deriving DecidableEq, Repr

/-- `char [VCANN_KERNEL_NAME_CAPACITY]`. -/
abbrev KernelName : Type := { bs : List UInt8 // bs.length = kernelNameCapacity }

/-- No name: all bytes zero. -/
def KernelName.zero : KernelName := ⟨List.replicate 128 0, List.length_replicate⟩

scoped instance neZeroRegistry : NeZero 512 := ⟨by decide⟩

scoped instance neZeroRing : NeZero 4096 := ⟨by decide⟩

/-- `struct vcann_kernel_registration`. -/
structure KernelRegistration where
  committedSequence : UInt64
  handle : UInt64
  stub : UInt64
  deviceFunction : UInt64
  functionMode : UInt32
  tid : UInt32
  stubName : KernelName
  deviceName : KernelName
  deriving DecidableEq

/-! ## Fields and values -/

/-- The fields of `TraceHeader`. -/
abbrev TraceHeader.fields : List Field := [.u64, .u32, .u32, .u32, .u32, .u64]

/-- Its values. -/
def TraceHeader.tuple (h : TraceHeader) : Tuple TraceHeader.fields :=
  (h.magic.toNat, h.abiVersion.toNat, h.capacity.toNat, h.enabled.toNat, h.processId.toNat,
    h.nextSequence.toNat, ())

/-- The fields of `TraceRecord`. -/
abbrev TraceRecord.fields : List Field :=
  [.u64, .u64, .u64, .u64, .u64, .u64, .u32, .u32, .u32, .u32]

/-- Its values. -/
def TraceRecord.tuple (r : TraceRecord) : Tuple TraceRecord.fields :=
  (r.committedSequence.toNat, r.timestampNs.toNat, r.stream.toNat, r.object.toNat,
    r.auxiliary.toNat, r.value.toNat, r.kind.toNat, r.blocks.toNat, r.argsSize.toNat,
    r.tid.toNat, ())

/-- The fields of `SyncProbe`. -/
abbrev SyncProbe.fields : List Field := [.u32, .u32, .i32, .u32, .u64, .u64, .u64]

/-- Its values. -/
def SyncProbe.tuple (p : SyncProbe) : Tuple SyncProbe.fields :=
  (p.active.toNat, p.vnpuId.toNat, p.owner.toInt, p.scheduleTurn.toNat, p.beginNs.toNat,
    p.beginSequence.toNat, p.stream.toNat, ())

/-- The fields of `HostSyncProbe`. -/
abbrev HostSyncProbe.fields : List Field := [.u32, .u32, .u32, .i32, .u64, .u64, .u64]

/-- Its values. -/
def HostSyncProbe.tuple (p : HostSyncProbe) : Tuple HostSyncProbe.fields :=
  (p.active.toNat, p.kind.toNat, p.tid.toNat, p.timeout.toInt, p.beginNs.toNat,
    p.beginSequence.toNat, p.stream.toNat, ())

/-- The fields of `RegistryHeader`. -/
abbrev RegistryHeader.fields : List Field := [.u64, .u32, .u32, .u64, .u32, .u32]

/-- Its values. -/
def RegistryHeader.tuple (h : RegistryHeader) : Tuple RegistryHeader.fields :=
  (h.magic.toNat, h.abiVersion.toNat, h.capacity.toNat, h.nextSequence.toNat, h.dropped.toNat,
    h.reserved.toNat, ())

/-- The fields of `KernelRegistration`. -/
abbrev KernelRegistration.fields : List Field :=
  [.u64, .u64, .u64, .u64, .u32, .u32, .chars 128, .chars 128]

/-- Its values. -/
def KernelRegistration.tuple (e : KernelRegistration) : Tuple KernelRegistration.fields :=
  (e.committedSequence.toNat, e.handle.toNat, e.stub.toNat, e.deviceFunction.toNat,
    e.functionMode.toNat, e.tid.toNat, e.stubName.val, e.deviceName.val, ())

theorem fits_i32 (v : Int32) : Field.Fits .i32 v.toInt := ⟨v.le_toInt, v.toInt_lt⟩

theorem TraceHeader.fits (h : TraceHeader) : Tuple.Fits TraceHeader.fields h.tuple :=
  ⟨h.magic.toNat_lt, h.abiVersion.toNat_lt, h.capacity.toNat_lt, h.enabled.toNat_lt,
    h.processId.toNat_lt, h.nextSequence.toNat_lt, trivial⟩

theorem TraceRecord.fits (r : TraceRecord) : Tuple.Fits TraceRecord.fields r.tuple :=
  ⟨r.committedSequence.toNat_lt, r.timestampNs.toNat_lt, r.stream.toNat_lt, r.object.toNat_lt,
    r.auxiliary.toNat_lt, r.value.toNat_lt, r.kind.toNat_lt, r.blocks.toNat_lt,
    r.argsSize.toNat_lt, r.tid.toNat_lt, trivial⟩

theorem SyncProbe.fits (p : SyncProbe) : Tuple.Fits SyncProbe.fields p.tuple :=
  ⟨p.active.toNat_lt, p.vnpuId.toNat_lt, fits_i32 p.owner, p.scheduleTurn.toNat_lt,
    p.beginNs.toNat_lt, p.beginSequence.toNat_lt, p.stream.toNat_lt, trivial⟩

theorem HostSyncProbe.fits (p : HostSyncProbe) : Tuple.Fits HostSyncProbe.fields p.tuple :=
  ⟨p.active.toNat_lt, p.kind.toNat_lt, p.tid.toNat_lt, fits_i32 p.timeout, p.beginNs.toNat_lt,
    p.beginSequence.toNat_lt, p.stream.toNat_lt, trivial⟩

theorem RegistryHeader.fits (h : RegistryHeader) : Tuple.Fits RegistryHeader.fields h.tuple :=
  ⟨h.magic.toNat_lt, h.abiVersion.toNat_lt, h.capacity.toNat_lt, h.nextSequence.toNat_lt,
    h.dropped.toNat_lt, h.reserved.toNat_lt, trivial⟩

theorem KernelRegistration.fits (e : KernelRegistration) :
    Tuple.Fits KernelRegistration.fields e.tuple :=
  ⟨e.committedSequence.toNat_lt, e.handle.toNat_lt, e.stub.toNat_lt, e.deviceFunction.toNat_lt,
    e.functionMode.toNat_lt, e.tid.toNat_lt, e.stubName.2, e.deviceName.2, trivial⟩

/-! ## Bytes -/

/-- The four structures of a stopped process. -/
structure Contents where
  header : TraceHeader
  slotLocks : Fin 4096 → UInt32
  records : Fin 4096 → TraceRecord
  probe : SyncProbe
  hostProbe : HostSyncProbe
  registryHeader : RegistryHeader
  entries : Fin 512 → KernelRegistration

/-- The bytes of a record. -/
def TraceRecord.bytes (r : TraceRecord) : List UInt8 := cBytes 0 TraceRecord.fields r.tuple

/-- The bytes of an entry. -/
def KernelRegistration.bytes (e : KernelRegistration) : List UInt8 :=
  cBytes 0 KernelRegistration.fields e.tuple

/-- The bytes of `g_vcann_trace`. Behind the locks there is padding, if the records need it. -/
def Contents.traceBytes (c : Contents) : List UInt8 :=
  cBytes 0 TraceHeader.fields c.header.tuple ++
    (List.ofFn c.slotLocks).flatMap (fun lock => Field.u32.bytes lock.toNat) ++
    List.replicate (padding (formatSize TraceHeader.fields + traceCapacity * 4) .u64) 0 ++
    (List.ofFn c.records).flatMap TraceRecord.bytes

/-- The bytes of `g_vcann_sync_probe`. -/
def Contents.probeBytes (c : Contents) : List UInt8 := cBytes 0 SyncProbe.fields c.probe.tuple

/-- The bytes of `g_vcann_host_sync_probe`. -/
def Contents.hostProbeBytes (c : Contents) : List UInt8 :=
  cBytes 0 HostSyncProbe.fields c.hostProbe.tuple

/-- The bytes of `g_vcann_kernel_registry`. -/
def Contents.registryBytes (c : Contents) : List UInt8 :=
  cBytes 0 RegistryHeader.fields c.registryHeader.tuple ++
    List.replicate (padding (formatSize RegistryHeader.fields) .u64) 0 ++
    (List.ofFn c.entries).flatMap KernelRegistration.bytes

/-! ## Offsets -/

theorem length_record (r : TraceRecord) : r.bytes.length = 64 := length_cBytes rfl r.fits

theorem length_entry (e : KernelRegistration) : e.bytes.length = 296 := length_cBytes rfl e.fits

theorem length_traceHeader (h : TraceHeader) : (cBytes 0 TraceHeader.fields h.tuple).length = 32 :=
  length_cBytes rfl h.fits

theorem length_registryHeader (h : RegistryHeader) :
    (cBytes 0 RegistryHeader.fields h.tuple).length = 32 :=
  length_cBytes rfl h.fits

section Offsets

variable (c : Contents)

theorem traceBytes_eq : c.traceBytes =
    cBytes 0 TraceHeader.fields c.header.tuple ++
      ((List.ofFn c.slotLocks).flatMap (fun lock => Field.u32.bytes lock.toNat) ++
        (List.ofFn c.records).flatMap TraceRecord.bytes) := by
  have hpad : padding (formatSize TraceHeader.fields + traceCapacity * 4) .u64 = 0 := by decide
  rw [Contents.traceBytes, hpad, List.replicate_zero, List.append_nil, List.append_assoc]

theorem registryBytes_eq : c.registryBytes =
    cBytes 0 RegistryHeader.fields c.registryHeader.tuple ++
      (List.ofFn c.entries).flatMap KernelRegistration.bytes := by
  have hpad : padding (formatSize RegistryHeader.fields) .u64 = 0 := by decide
  rw [Contents.registryBytes, hpad, List.replicate_zero, List.append_nil]

theorem length_locks :
    ((List.ofFn c.slotLocks).flatMap fun lock => Field.u32.bytes lock.toNat).length = 16384 := by
  rw [length_flatMap_of_size (fun lock => Field.length_bytes .u32 _ lock.toNat_lt),
    List.length_ofFn]
  rfl

theorem length_traceBytes : c.traceBytes.length = 278560 := by
  rw [traceBytes_eq, List.length_append, List.length_append, length_locks,
    length_flatMap_of_size length_record, List.length_ofFn, length_traceHeader]

theorem length_probeBytes : c.probeBytes.length = 40 := length_cBytes rfl c.probe.fits

theorem length_hostProbeBytes : c.hostProbeBytes.length = 40 := length_cBytes rfl c.hostProbe.fits

theorem length_registryBytes : c.registryBytes.length = 151584 := by
  rw [registryBytes_eq, List.length_append, length_flatMap_of_size length_entry, List.length_ofFn,
    length_registryHeader]

theorem unpackFrom_header : unpackFrom TraceHeader.fields c.traceBytes 0 = c.header.tuple := by
  rw [unpackFrom, List.drop_zero, traceBytes_eq]
  exact unpack_cBytes rfl c.header.fits _

/-- A record is at its offset. -/
theorem unpackFrom_record (slot : Fin 4096) :
    unpackFrom TraceRecord.fields c.traceBytes (32 + 4096 * 4 + slot * 64)
      = (c.records slot).tuple := by
  have hslot : slot.val < (List.ofFn c.records).length := by
    rw [List.length_ofFn]
    exact slot.isLt
  rw [unpackFrom, traceBytes_eq, Nat.add_assoc, ← List.drop_drop,
    List.drop_left' (length_traceHeader c.header), ← List.drop_drop,
    List.drop_left' (length_locks c), drop_flatMap length_record, List.drop_eq_getElem_cons hslot,
    List.flatMap_cons, List.getElem_ofFn]
  exact unpack_cBytes rfl (c.records slot).fits _

theorem unpack_probe : unpack SyncProbe.fields c.probeBytes = c.probe.tuple := by
  rw [← List.append_nil c.probeBytes]
  exact unpack_cBytes rfl c.probe.fits []

theorem unpack_hostProbe : unpack HostSyncProbe.fields c.hostProbeBytes = c.hostProbe.tuple := by
  rw [← List.append_nil c.hostProbeBytes]
  exact unpack_cBytes rfl c.hostProbe.fits []

theorem unpackFrom_registryHeader :
    unpackFrom RegistryHeader.fields c.registryBytes 0 = c.registryHeader.tuple := by
  rw [unpackFrom, List.drop_zero, registryBytes_eq]
  exact unpack_cBytes rfl c.registryHeader.fits _

/-- An entry is at its offset. -/
theorem unpackFrom_entry (index : Fin 512) :
    unpackFrom KernelRegistration.fields c.registryBytes (32 + index * 296)
      = (c.entries index).tuple := by
  have hindex : index.val < (List.ofFn c.entries).length := by
    rw [List.length_ofFn]
    exact index.isLt
  rw [unpackFrom, registryBytes_eq, ← List.drop_drop,
    List.drop_left' (length_registryHeader c.registryHeader), drop_flatMap length_entry,
    List.drop_eq_getElem_cons hindex, List.flatMap_cons, List.getElem_ofFn]
  exact unpack_cBytes rfl (c.entries index).fits _

end Offsets

end YellowZone.DeadlockTrace
