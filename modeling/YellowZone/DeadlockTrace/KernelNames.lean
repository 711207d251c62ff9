import YellowZone.DeadlockTrace.RawDecoder
import YellowZone.DeadlockTrace.Registry

/-!
# The names of kernels in the report

The raw decoder looks up the object of every trace record among the handles of the registry, and
attaches the names it finds. It takes every entry that is committed. An entry that has been freed is
committed, too, and its handle is zero; so its name is found for the records that have no object.

## Main definitions and results

* `AttachesLive` — a record carries exactly the names in force for its object
* `attachesLive_iff` — when it does
* `registry_decodes_iff` — the registry, and what the decoder makes of it, after any calls
* `freed_name_attached` — the name of an unregistered kernel, on a record without an object
-/

namespace YellowZone.DeadlockTrace

open Machine

/-! ## What the decoder attaches -/

/-- The contents of a process with this registry. -/
structure Contents.HasRegistry (c : Contents) (r : Registry) : Prop where
  compatible : c.registryCompatible = true
  nextSequence : c.registryHeader.nextSequence.toNat = r.nextSequence
  dropped : c.registryHeader.dropped = r.dropped
  entries : c.entries = r.entries

/-- The names attached to a record. -/
def RecordReport.names (record : RecordReport) : List Text := record.kernelNames.getD []

/-- The record carries exactly the names in force for its object. -/
def AttachesLive (s : LiveMap) (object : UInt64) (record : RecordReport) : Prop :=
  ∀ name, name ∈ record.names ↔ ∃ x ∈ s, x.handle = object ∧ rawName x.name.val = name

theorem mem_attachedNames (names : List Text) (name : Text) :
    name ∈ (attachedNames names).getD [] ↔ name ∈ names := by
  unfold attachedNames
  by_cases hnames : names = []
  · simp [hnames]
  · simp [hnames, sortedSet]

section Attached

variable {c : Contents} {r : Registry}

theorem rawRegistration_of_committed {index : ℕ} {e : KernelRegistration}
    (h : e.committedSequence.toNat = index + 1) : ∃ report : RegistrationReport,
      rawRegistration index e.tuple = some (e.handle.toNat, report) ∧
        report.stubName = rawName e.stubName.val :=
  ⟨_, if_neg (not_not.mpr h), rfl⟩

/-- **The names of a handle** are those of all the entries with it, live or not. -/
theorem mem_namesByHandle (h : r.Wf) (hc : c.HasRegistry r) (handle : UInt64) (name : Text) :
    name ∈ namesByHandle (rawEntries c) handle.toNat ↔
      ∃ i : Fin 512, i.val < r.nextSequence ∧ (r.entries i).handle = handle ∧
        rawName (r.entries i).stubName.val = name := by
  have hcount : c.entryCount = r.nextSequence := by
    rw [Contents.entryCount, if_pos hc.compatible, hc.nextSequence]
    exact Nat.min_eq_left h.bound
  have hentry : ∀ i : Fin 512, c.entry i.val = r.entries i := by
    intro i
    rw [← hc.entries]
    exact congrArg c.entries (Fin.ext (Nat.mod_eq_of_lt i.isLt))
  simp only [namesByHandle, rawEntries, hcount, List.mem_map, List.mem_filter, List.mem_filterMap,
    List.mem_range, decide_eq_true_eq]
  constructor
  · rintro ⟨item, ⟨⟨index, hlt, hitem⟩, hhandle⟩, rfl⟩
    let i : Fin 512 := ⟨index, hlt.trans_le h.bound⟩
    obtain ⟨report, hreport, hname⟩ := rawRegistration_of_committed (h.committed i hlt)
    rw [show c.entry index = r.entries i from hentry i] at hitem
    obtain rfl := Option.some.inj (hreport.symm.trans hitem)
    exact ⟨i, hlt, UInt64.toNat_inj.mp hhandle, hname.symm⟩
  · rintro ⟨i, hlt, hhandle, rfl⟩
    obtain ⟨report, hreport, hname⟩ := rawRegistration_of_committed (h.committed i hlt)
    refine ⟨((r.entries i).handle.toNat, report), ⟨⟨i.val, hlt, ?_⟩, ?_⟩, hname⟩
    · rw [hentry i, hreport]
    · exact congrArg UInt64.toNat hhandle

/-- The names of a record come from the object in its slot. -/
theorem names_of_mem_rawRecords {limit : ℕ} {stringReader : Option (ℕ → Text)}
    {item : NamedRecordReport} (hitem : item ∈ rawRecords c limit stringReader) :
    item.record.kernelNames = attachedNames (namesByHandle (rawEntries c)
      (c.slot item.record.sequence).object.toNat) := by
  obtain ⟨sequence, -, hsome⟩ := List.mem_filterMap.mp hitem
  by_cases hcommitted : (c.slot sequence).committedSequence.toNat ≠ sequence
  · have hnone : none = some item := (if_pos hcommitted).symm.trans hsome
    contradiction
  · obtain rfl := Option.some.inj ((if_neg hcommitted).symm.trans hsome)
    rfl

/-- **The names in force are attached**, except that freed entries count as those of object 0. -/
theorem attachesLive_iff (h : r.Wf) (hc : c.HasRegistry r) {limit : ℕ}
    {stringReader : Option (ℕ → Text)} {item : NamedRecordReport}
    (hitem : item ∈ rawRecords c limit stringReader) :
    AttachesLive r.live (c.slot item.record.sequence).object item.record ↔
      (c.slot item.record.sequence).object ≠ 0 ∨
        ∀ i : Fin 512, i.val < r.nextSequence → (r.entries i).handle ≠ 0 := by
  generalize hobject : (c.slot item.record.sequence).object = object
  have hnames : ∀ name, name ∈ item.record.names ↔
      ∃ i : Fin 512, i.val < r.nextSequence ∧ (r.entries i).handle = object ∧
        rawName (r.entries i).stubName.val = name := by
    intro name
    rw [RecordReport.names, names_of_mem_rawRecords hitem, mem_attachedNames, hobject]
    exact mem_namesByHandle h hc object name
  have hlive : ∀ name, (∃ x ∈ r.live, x.handle = object ∧ rawName x.name.val = name) ↔
      ∃ i : Fin 512, (r.entries i).handle ≠ 0 ∧ (r.entries i).handle = object ∧
        rawName (r.entries i).stubName.val = name := by
    intro name
    constructor
    · rintro ⟨x, hx, hhandle, hname⟩
      obtain ⟨i, hi, rfl⟩ := mem_live.mp hx
      exact ⟨i, hi, hhandle, hname⟩
    · rintro ⟨i, hi, hhandle, hname⟩
      exact ⟨_, mem_live.mpr ⟨i, hi, rfl⟩, hhandle, hname⟩
  simp only [AttachesLive, hnames, hlive]
  constructor
  · intro hattach
    by_contra hnot
    obtain ⟨hzero, i, hlt, hfree⟩ : object = 0 ∧
        ∃ i : Fin 512, i.val < r.nextSequence ∧ (r.entries i).handle = 0 := by
      simpa using hnot
    obtain ⟨j, hj, hjzero, -⟩ := (hattach _).mp ⟨i, hlt, hfree.trans hzero.symm, rfl⟩
    exact hj (hjzero.trans hzero)
  · intro hcond name
    constructor
    · rintro ⟨i, hlt, hhandle, hname⟩
      refine ⟨i, ?_, hhandle, hname⟩
      rcases hcond with hne | hall
      · rwa [hhandle]
      · exact hall i hlt
    · rintro ⟨i, hi, hhandle, hname⟩
      exact ⟨i, h.lt_of_handle hi, hhandle, hname⟩

end Attached

/-- **The registry decodes to the live map**, for records whose object is not zero. After any calls
entries below `next_sequence` are committed under their index; no handle has two live entries of the
ACL mode; and a call is dropped only if all 512 entries are live. The decoder attaches exactly the
names in force for the object of a record, if it is not zero; for the object 0 exactly if no
entry has been freed, since a free entry has the handle 0 and is still committed. -/
theorem registry_decodes_iff (calls : List RegistryCall) (hcalls : ∀ call ∈ calls, call.Allowed) :
    (∀ i : Fin 512, i.val < (registryAfter calls).nextSequence →
      ((registryAfter calls).entries i).committedSequence.toNat = i.val + 1) ∧
    (∀ i j : Fin 512, ((registryAfter calls).entries i).handle ≠ 0 →
      ((registryAfter calls).entries i).handle = ((registryAfter calls).entries j).handle →
      ((registryAfter calls).entries i).functionMode = aclMode →
      ((registryAfter calls).entries j).functionMode = aclMode → i = j) ∧
    (∀ call : RegistryCall, call.Allowed →
      (applyCall (registryAfter calls) call).dropped ≠ (registryAfter calls).dropped →
      ∀ i, ((registryAfter calls).entries i).handle ≠ 0) ∧
    ∀ c : Contents, c.TraceCompatible → c.HasRegistry (registryAfter calls) →
      ∀ (limit : ℕ) (stringReader : Option (ℕ → Text)), ∃ report,
        decodeRawTrace c.traceBytes c.probeBytes c.hostProbeBytes c.registryBytes limit
            stringReader = .ok report ∧
        ∀ item ∈ report.records,
          AttachesLive (liveAfter calls) (c.slot item.record.sequence).object item.record ↔
            (c.slot item.record.sequence).object ≠ 0 ∨
              ∀ i : Fin 512, i.val < (registryAfter calls).nextSequence →
                ((registryAfter calls).entries i).handle ≠ 0 := by
  obtain ⟨hwf, hlive⟩ := registryAfter_spec hcalls
  refine ⟨hwf.committed, hwf.unique, fun call hcall => (applyCall_spec hwf hcall).dropped, ?_⟩
  intro c hc hregistry limit stringReader
  refine ⟨_, decodeRawTrace_contents c hc limit stringReader, fun item hitem => ?_⟩
  rw [← hlive]
  exact attachesLive_iff hwf hregistry hitem

/-- A process that has registered the kernel `k`, and has then unregistered it. -/
def kernelCalls : List RegistryCall :=
  [.register 1 0x1000 0x2000 (some [107]) 0 0, .unregister 0x1000]

/-- Its memory after some of these calls: they have left their records in the ring, and then a
synchronization has begun, which has no object. -/
def afterKernelCalls (n : ℕ) : Contents where
  header := ⟨0x5643414E4E545243, 3, 4096, 1, 1, 3⟩
  slotLocks _ := 0
  records i :=
    if i = 0 then ⟨1, 10, 0, 0x1000, 0x2000, 0, 39, 0, 0, 1⟩
    else if i = 1 then ⟨2, 20, 0, 0x1000, 0, 0, 40, 0, 0, 1⟩
    else ⟨3, 30, 0x3000, 0, 0, 0, 37, 0, 0, 1⟩
  probe := ⟨1, 0, 0, 0, 30, 3, 0x3000⟩
  hostProbe := ⟨0, 0, 0, 0, 0, 0, 0⟩
  registryHeader := ⟨0x5643414E4E4B5247, 1, 512, 1, 0, 0⟩
  entries := (registryAfter (kernelCalls.take n)).entries

theorem hasRegistry_afterKernelCalls {n : ℕ}
    (hnext : (registryAfter (kernelCalls.take n)).nextSequence = 1)
    (hdropped : (registryAfter (kernelCalls.take n)).dropped = 0) :
    (afterKernelCalls n).HasRegistry (registryAfter (kernelCalls.take n)) :=
  ⟨rfl, hnext.symm, hdropped.symm, rfl⟩

/-- The registered kernel is found. -/
theorem registry_decodes_iff_registered :
    (∀ call ∈ kernelCalls.take 1, call.Allowed) ∧ ∃ report,
      decodeRawTrace (afterKernelCalls 1).traceBytes (afterKernelCalls 1).probeBytes
        (afterKernelCalls 1).hostProbeBytes (afterKernelCalls 1).registryBytes 2 none
          = .ok report ∧
      ∀ item ∈ report.records, AttachesLive (liveAfter (kernelCalls.take 1))
        ((afterKernelCalls 1).slot item.record.sequence).object item.record := by
  have hcalls : ∀ call ∈ kernelCalls.take 1, call.Allowed := by decide
  obtain ⟨-, -, -, hdecode⟩ := registry_decodes_iff (kernelCalls.take 1) hcalls
  obtain ⟨report, hreport, hitems⟩ := hdecode (afterKernelCalls 1) ⟨rfl, rfl, rfl⟩
    (hasRegistry_afterKernelCalls (by decide +kernel) (by decide +kernel)) 2 none
  refine ⟨hcalls, report, hreport, fun item hitem => (hitems item hitem).mpr (Or.inr ?_)⟩
  decide +kernel

/-- **A freed name is attached.** No registration is in force, and the record of the
synchronization, with the object 0, carries the name `k`. -/
theorem freed_name_attached :
    (∀ call ∈ kernelCalls.take 2, call.Allowed) ∧ liveAfter (kernelCalls.take 2) = 0 ∧
      (afterKernelCalls 2).HasRegistry (registryAfter (kernelCalls.take 2)) ∧ ∃ report,
        decodeRawTrace (afterKernelCalls 2).traceBytes (afterKernelCalls 2).probeBytes
          (afterKernelCalls 2).hostProbeBytes (afterKernelCalls 2).registryBytes 4096 none
            = .ok report ∧
        report.records.map (fun item => (item.record.object, item.record.kernelNames)) =
          [("0x1000".toList, none), ("0x1000".toList, none), ("0x0".toList, some [[107]])] := by
  refine ⟨by decide, by decide +kernel,
    hasRegistry_afterKernelCalls (by decide +kernel) (by decide +kernel), _,
    decodeRawTrace_contents _ ⟨rfl, rfl, rfl⟩ 4096 none, ?_⟩
  decide +kernel

end YellowZone.DeadlockTrace
