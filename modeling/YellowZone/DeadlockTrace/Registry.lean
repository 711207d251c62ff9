import YellowZone.DeadlockTrace.Layout
import YellowZone.Machine.SlotTable

/-!
# The kernel registry

`deadlock_trace.c`, from `kernel_registry_slot_locked` on: a table of 512 entries with the names of
kernels. Kernels are registered under a handle, mapped, or unregistered; an entry that is freed
keeps its name and its commit mark, only its handle becomes zero, and it will be used again.

## The live map

What the registry is for is said by `LiveMap`: the multiset of the registrations that are in force,
without slots. It has room for 512, and the occupants of the table follow it through every call.

## Calls

The calls hold a lock, so they come one after the other. `tid` is the thread of a call. A name is
the C string at a pointer that may be NULL. The records that the calls leave in the trace ring are
not part of the registry.

## Main definitions and results

* `Registry`, `kernelRegister`, `kernelMapHandle`, `kernelUnregister` — the code
* `LiveMap`, `LiveMap.applyCall` — the map it implements
* `Registry.Wf` — commit marks, fresh entries, and one ACL entry for a handle
* `place_spec`, `applyCall_spec`, `registryAfter_spec` — the refinement, for an entry, a call, and
  any calls
-/

namespace YellowZone.DeadlockTrace

open Machine

/-! ## The code -/

/-- `VCANN_FUNCTION_MODE_ACL_HANDLE`. -/
def aclMode : UInt32 := 0xFFFFFFFF

/-- A C string at a pointer that may be NULL. -/
abbrev CName : Type := Option (List UInt8)

/-- The characters that `copy_kernel_name` copies. -/
def copiedPart (source : CName) : List UInt8 :=
  ((source.getD []).takeWhile (· ≠ 0)).take (kernelNameCapacity - 1)

theorem length_copiedPart (source : CName) : (copiedPart source).length < kernelNameCapacity := by
  rw [copiedPart, List.length_take]
  exact Nat.lt_of_le_of_lt (Nat.min_le_left _ _) (by decide)

/-- `copy_kernel_name`: the rest of the buffer is filled with NULs. -/
def copyKernelName (source : CName) : KernelName :=
  ⟨copiedPart source ++ List.replicate (kernelNameCapacity - (copiedPart source).length) 0, by
    have := length_copiedPart source
    rw [List.length_append, List.length_replicate]
    omega⟩

/-- The part of `g_vcann_kernel_registry` that the calls change. -/
structure Registry where
  nextSequence : ℕ
  dropped : UInt32
  entries : Fin 512 → KernelRegistration

/-- An entry as `vcann_trace_init` leaves it. -/
def zeroEntry : KernelRegistration :=
  ⟨0, 0, 0, 0, 0, 0, .zero, .zero⟩

/-- The registry after `vcann_trace_init`. -/
def emptyRegistry : Registry := ⟨0, 0, fun _ => zeroEntry⟩

namespace Registry

/-- The number of entries that the loops look at. -/
def count (r : Registry) : ℕ := min r.nextSequence kernelRegistryCapacity

/-- An entry is written. -/
def put (r : Registry) (i : Fin 512) (e : KernelRegistration) : Registry :=
  { r with entries := Function.update r.entries i e }

/-- The first entry that a loop finds. -/
def find (r : Registry) (p : KernelRegistration → Bool) : Option (Fin 512) :=
  (List.finRange 512).find? fun i =>
    i.val < r.count ∧ (r.entries i).committedSequence.toNat = i.val + 1 ∧ p (r.entries i)

end Registry

/-- `kernel_registry_slot_locked`. The sequence is the index plus one. -/
def kernelRegistrySlotLocked (r : Registry) : Registry × Option (Fin 512) :=
  match r.find fun e => e.handle = 0 with
  | some i => (r, some i)
  | none =>
    if r.count ≥ kernelRegistryCapacity then ({ r with dropped := r.dropped + 1 }, none)
    else ({ r with nextSequence := r.count + 1 }, some (Fin.ofNat 512 r.count))

/-- The entry that `kernel_registry_write_locked` leaves. -/
def registration (i : Fin 512) (handle stub : UInt64) (stubName : CName) (deviceFunction : UInt64)
    (functionMode tid : UInt32) : KernelRegistration where
  committedSequence := UInt64.ofNat (i.val + 1)
  handle := handle
  stub := stub
  deviceFunction := deviceFunction
  functionMode := functionMode
  tid := tid
  stubName := copyKernelName stubName
  -- the device function is opaque, and is never dereferenced
  deviceName := copyKernelName stubName

/-- A slot is searched for and written, if there is one. -/
def place (r : Registry) (e : Fin 512 → KernelRegistration) : Registry :=
  match kernelRegistrySlotLocked r with
  | (r, some i) => r.put i (e i)
  | (r, none) => r

/-- `vcann_trace_kernel_register_enabled`. -/
def kernelRegister (r : Registry) (tid : UInt32) (handle stub : UInt64) (stubName : CName)
    (deviceFunction : UInt64) (functionMode : UInt32) : Registry :=
  place r fun i => registration i handle stub stubName deviceFunction functionMode tid

/-- The locked part of `vcann_trace_kernel_map_handle_enabled`. -/
def mapHandleLocked (r : Registry) (tid : UInt32) (handle binaryHandle : UInt64)
    (truncatedName : KernelName) : Registry :=
  let entry := fun i => registration i handle binaryHandle (some truncatedName.val) 0 aclMode tid
  match r.find fun e => e.handle = handle ∧ e.functionMode = aclMode with
  | some i =>
    if (r.entries i).stub = binaryHandle ∧ (r.entries i).stubName = truncatedName then r
    -- the handle was reused: the stale name is invalidated first
    else place (r.put i { r.entries i with handle := 0 }) entry
  | none => place r entry

/-- `vcann_trace_kernel_map_handle_enabled`. -/
def kernelMapHandle (r : Registry) (tid : UInt32) (handle binaryHandle : UInt64)
    (kernelName : CName) : Registry :=
  if handle = 0 ∨ kernelName = none then r
  else mapHandleLocked r tid handle binaryHandle (copyKernelName kernelName)

/-- `vcann_trace_kernel_unregister_enabled`. -/
def kernelUnregister (r : Registry) (address : UInt64) : Registry :=
  { r with entries := fun i =>
      if i.val < r.count ∧ ((r.entries i).handle = address ∨
          (r.entries i).functionMode = aclMode ∧ (r.entries i).stub = address) then
        { r.entries i with handle := 0 }
      else r.entries i }

/-- The three calls. -/
inductive RegistryCall where
  | register (tid : UInt32) (handle stub : UInt64) (stubName : CName) (deviceFunction : UInt64)
      (functionMode : UInt32)
  | mapHandle (tid : UInt32) (handle binaryHandle : UInt64) (kernelName : CName)
  | unregister (handle : UInt64)
  deriving DecidableEq

/-- A call on the registry. -/
def applyCall (r : Registry) : RegistryCall → Registry
  | .register tid handle stub stubName deviceFunction functionMode =>
    kernelRegister r tid handle stub stubName deviceFunction functionMode
  | .mapHandle tid handle binaryHandle kernelName =>
    kernelMapHandle r tid handle binaryHandle kernelName
  | .unregister handle => kernelUnregister r handle

/-- Registrations have a handle, and not the mode of mapped handles. -/
def RegistryCall.Allowed : RegistryCall → Prop
  | .register _ handle _ _ _ functionMode => handle ≠ 0 ∧ functionMode ≠ aclMode
  | _ => True

instance (call : RegistryCall) : Decidable call.Allowed := by
  cases call <;> (unfold RegistryCall.Allowed; infer_instance)

/-! ## The live map -/

/-- A registration that is in force. -/
structure Live where
  handle : UInt64
  stub : UInt64
  functionMode : UInt32
  name : KernelName
  deriving DecidableEq

/-- The registrations that are in force. -/
abbrev LiveMap : Type := Multiset Live

namespace LiveMap

/-- One more registration, if there is room. -/
def add (s : LiveMap) (x : Live) : LiveMap :=
  if s.card = kernelRegistryCapacity then s else x ::ₘ s

/-- The registration is the mapping of a handle. -/
def IsMapping (handle : UInt64) (x : Live) : Prop :=
  x.handle = handle ∧ x.functionMode = aclMode
  deriving Decidable

/-- The registration belongs to an address: it is its handle, or the binary of a mapping. -/
def Belongs (address : UInt64) (x : Live) : Prop :=
  x.handle = address ∨ x.functionMode = aclMode ∧ x.stub = address
  deriving Decidable

/-- A handle is mapped: the new mapping replaces that of the handle, unless they are the same. -/
def remap (s : LiveMap) (x : Live) : LiveMap :=
  if x ∈ s then s else add (s.filter fun y => ¬ IsMapping x.handle y) x

/-- What a call does to the map. -/
def applyCall (s : LiveMap) : RegistryCall → LiveMap
  | .register _ handle stub stubName _ functionMode =>
    s.add ⟨handle, stub, functionMode, copyKernelName stubName⟩
  | .mapHandle _ handle binaryHandle kernelName =>
    if handle = 0 ∨ kernelName = none then s
    else s.remap ⟨handle, binaryHandle, aclMode, copyKernelName kernelName⟩
  | .unregister address => s.filter fun x => ¬ Belongs address x

end LiveMap

/-! ## Slots -/

/-- The registration in an entry, if its handle is not zero. -/
def KernelRegistration.live (e : KernelRegistration) : Option Live :=
  if e.handle = 0 then none else some ⟨e.handle, e.stub, e.functionMode, e.stubName⟩

/-- The registry as a table of registrations. -/
def Registry.table (r : Registry) (i : Fin 512) : Option Live := (r.entries i).live

/-- The live map of the registry. -/
def Registry.live (r : Registry) : LiveMap := occupants r.table

/-- What holds between calls. -/
structure Registry.Wf (r : Registry) : Prop where
  bound : r.nextSequence ≤ 512
  committed : ∀ i : Fin 512, i.val < r.nextSequence →
    (r.entries i).committedSequence.toNat = i.val + 1
  fresh : ∀ i : Fin 512, r.nextSequence ≤ i.val → (r.entries i).handle = 0
  /-- At most one live entry for a handle has the ACL mode. -/
  unique : ∀ i j : Fin 512, (r.entries i).handle ≠ 0 → (r.entries i).handle = (r.entries j).handle →
    (r.entries i).functionMode = aclMode → (r.entries j).functionMode = aclMode → i = j

/-- Entries lose their handle. -/
def Registry.free (r : Registry) (p : Fin 512 → Bool) : Registry :=
  { r with entries := fun i => if p i then { r.entries i with handle := 0 } else r.entries i }

section Slots

variable {r : Registry}

theorem KernelRegistration.live_eq_none_iff {e : KernelRegistration} :
    e.live = none ↔ e.handle = 0 := by
  simp [KernelRegistration.live]

theorem KernelRegistration.live_of_handle {e : KernelRegistration} (h : e.handle ≠ 0) :
    e.live = some ⟨e.handle, e.stub, e.functionMode, e.stubName⟩ := if_neg h

theorem mem_live {x : Live} : x ∈ r.live ↔ ∃ i, (r.entries i).handle ≠ 0 ∧
    ⟨(r.entries i).handle, (r.entries i).stub, (r.entries i).functionMode,
      (r.entries i).stubName⟩ = x := by
  rw [Registry.live, mem_occupants]
  refine exists_congr fun i => ?_
  simp [Registry.table, KernelRegistration.live]

theorem wf_emptyRegistry : emptyRegistry.Wf where
  bound := Nat.zero_le _
  committed _ hi := absurd hi (Nat.not_lt_zero _)
  fresh _ _ := rfl
  unique _ _ h := absurd rfl h

theorem live_emptyRegistry : emptyRegistry.live = 0 := by
  refine Multiset.eq_zero_of_forall_notMem fun x hx => ?_
  obtain ⟨i, hi, -⟩ := mem_live.mp hx
  exact hi rfl

namespace Registry.Wf

theorem count_eq (h : r.Wf) : r.count = r.nextSequence := Nat.min_eq_left h.bound

theorem lt_of_handle (h : r.Wf) {i : Fin 512} (hi : (r.entries i).handle ≠ 0) :
    i.val < r.nextSequence := by
  by_contra hle
  exact hi (h.fresh i (Nat.le_of_not_lt hle))

/-- What a loop finds. -/
theorem find_eq_some (h : r.Wf) {p : KernelRegistration → Bool} {i : Fin 512}
    (hi : r.find p = some i) : i.val < r.nextSequence ∧ p (r.entries i) = true := by
  have hp := List.find?_some hi
  simp only [decide_eq_true_eq] at hp
  rw [h.count_eq] at hp
  exact ⟨hp.1, hp.2.2⟩

theorem find_eq_none (h : r.Wf) {p : KernelRegistration → Bool} (hnone : r.find p = none)
    {i : Fin 512} (hi : i.val < r.nextSequence) : ¬ p (r.entries i) = true := by
  intro hp
  have := List.find?_eq_none.mp hnone i (List.mem_finRange i)
  simp only [decide_eq_true_eq] at this
  rw [h.count_eq] at this
  exact this ⟨hi, h.committed i hi, hp⟩

/-- Freeing entries keeps the invariant. -/
theorem free (h : r.Wf) (p : Fin 512 → Bool) : (r.free p).Wf := by
  have hfree : ∀ i, ((r.free p).entries i).handle ≠ 0 → (r.free p).entries i = r.entries i := by
    intro i hi
    by_cases hp : p i = true
    · simp [Registry.free, hp] at hi
    · simp [Registry.free, hp]
  refine ⟨h.bound, ?_, ?_, ?_⟩
  · intro i hi
    rw [← h.committed i hi]
    by_cases hp : p i = true <;> simp [Registry.free, hp]
  · intro i hi
    have := h.fresh i hi
    by_cases hp : p i = true <;> simp [Registry.free, hp, this]
  · intro i j hi hij hai haj
    have hj : ((r.free p).entries j).handle ≠ 0 := hij ▸ hi
    have hei := hfree i hi
    have hej := hfree j hj
    rw [hei] at hi hij hai
    rw [hej] at hij haj
    exact h.unique i j hi hij hai haj

end Registry.Wf

/-- The map after entries are freed: `q` says which registrations stay. -/
theorem live_free {p : Fin 512 → Bool} {q : Live → Prop} [DecidablePred q]
    (hpq : ∀ i, (r.entries i).handle ≠ 0 → (p i = true ↔
      ¬ q ⟨(r.entries i).handle, (r.entries i).stub, (r.entries i).functionMode,
        (r.entries i).stubName⟩)) :
    (r.free p).live = r.live.filter q := by
  rw [Registry.live, Registry.live, occupants_filter]
  refine congrArg occupants (funext fun i => ?_)
  show ((r.free p).entries i).live = ((r.entries i).live).filter _
  by_cases hi : (r.entries i).handle = 0
  · have hnone : ((r.free p).entries i).handle = 0 := by
      by_cases hp : p i = true <;> simp [Registry.free, hp, hi]
    rw [KernelRegistration.live_eq_none_iff.mpr hi, KernelRegistration.live_eq_none_iff.mpr hnone]
    rfl
  · rw [KernelRegistration.live_of_handle hi]
    by_cases hp : p i = true
    · have hq := (hpq i hi).mp hp
      have hnone : ((r.free p).entries i).handle = 0 := by simp [Registry.free, hp]
      rw [KernelRegistration.live_eq_none_iff.mpr hnone]
      simp [Option.filter, hq]
    · have hq := not_not.mp fun hq => hp ((hpq i hi).mpr hq)
      have hsame : (r.free p).entries i = r.entries i := by simp [Registry.free, hp]
      rw [hsame, KernelRegistration.live_of_handle hi]
      simp [Option.filter, hq]

/-- A slot has been found for a new entry. -/
structure SlotTaken (r r' : Registry) (i : Fin 512) : Prop where
  entries : r'.entries = r.entries
  dropped : r'.dropped = r.dropped
  free : (r.entries i).handle = 0
  lt : i.val < r'.nextSequence
  mono : r.nextSequence ≤ r'.nextSequence
  bound : r'.nextSequence ≤ 512
  old : ∀ j : Fin 512, j.val < r'.nextSequence → j = i ∨ j.val < r.nextSequence

/-- **The search for a slot.** It fails only if all the entries are live. -/
theorem kernelRegistrySlotLocked_spec (h : r.Wf) :
    (∃ r' i, kernelRegistrySlotLocked r = (r', some i) ∧ SlotTaken r r' i) ∨
      (kernelRegistrySlotLocked r = ({ r with dropped := r.dropped + 1 }, none) ∧
        ∀ i, (r.entries i).handle ≠ 0) := by
  unfold kernelRegistrySlotLocked
  cases hfind : r.find fun e => decide (e.handle = 0) with
  | some i =>
    obtain ⟨hlt, hfree⟩ := h.find_eq_some hfind
    exact Or.inl ⟨r, i, rfl, rfl, rfl, of_decide_eq_true hfree, hlt, le_rfl, h.bound,
      fun j hj => Or.inr hj⟩
  | none =>
    have hlive : ∀ i : Fin 512, i.val < r.nextSequence → (r.entries i).handle ≠ 0 := by
      intro i hi hzero
      exact h.find_eq_none hfind hi (decide_eq_true hzero)
    have hbound := h.bound
    by_cases hfull : r.nextSequence = 512
    · refine Or.inr ⟨if_pos ?_, fun i => hlive i (i.isLt.trans_eq hfull.symm)⟩
      rw [h.count_eq, hfull]
      exact le_rfl
    · have hlt : r.nextSequence < 512 := by omega
      have hslot : (Fin.ofNat 512 r.nextSequence).val = r.nextSequence := Nat.mod_eq_of_lt hlt
      have hnew : ¬ r.count ≥ kernelRegistryCapacity := by
        rw [h.count_eq]
        exact Nat.not_le_of_lt hlt
      refine Or.inl ⟨{ r with nextSequence := r.count + 1 }, Fin.ofNat 512 r.count,
        if_neg hnew, ?_⟩
      rw [h.count_eq]
      refine ⟨rfl, rfl, h.fresh _ hslot.ge, ?_, Nat.le_succ _, hlt, ?_⟩
      · exact hslot.trans_lt (Nat.lt_succ_self _)
      · intro j hj
        rcases Nat.lt_succ_iff_lt_or_eq.mp hj with hj | hj
        · exact Or.inr hj
        · exact Or.inl (Fin.ext (hj.trans hslot.symm))

/-- A new entry can be written. -/
structure Fresh (r : Registry) (e : Fin 512 → KernelRegistration) (x : Live) : Prop where
  live : ∀ i, (e i).live = some x
  committed : ∀ i, (e i).committedSequence.toNat = i.val + 1
  /-- There is no other mapping of the handle. -/
  unique : x.functionMode = aclMode → ∀ y ∈ r.live, ¬ LiveMap.IsMapping x.handle y

theorem live_put {i : Fin 512} {e : KernelRegistration} {x : Live}
    (hi : (r.entries i).handle = 0) (he : e.live = some x) : (r.put i e).live = x ::ₘ r.live := by
  have htable : (r.put i e).table = Function.update r.table i (some x) := by
    rw [← he]
    exact funext fun j => Function.apply_update (fun _ => KernelRegistration.live) r.entries i e j
  have hnone : r.table i = none := KernelRegistration.live_eq_none_iff.mpr hi
  rw [Registry.live, htable]
  exact occupants_update hnone x

theorem fields_of_live {e : KernelRegistration} {x : Live} (h : e.live = some x) :
    e.handle = x.handle ∧ e.functionMode = x.functionMode ∧ e.handle ≠ 0 := by
  have hne : e.handle ≠ 0 := fun hzero => by
    rw [KernelRegistration.live_eq_none_iff.mpr hzero] at h
    contradiction
  rw [KernelRegistration.live_of_handle hne] at h
  obtain rfl := Option.some.inj h
  exact ⟨rfl, rfl, hne⟩

theorem SlotTaken.wf {r' : Registry} {i : Fin 512} {e : Fin 512 → KernelRegistration} {x : Live}
    (hslot : SlotTaken r r' i) (h : r.Wf) (hfresh : Fresh r e x) : (r'.put i (e i)).Wf := by
  obtain ⟨hhandle, hmode, -⟩ := fields_of_live (hfresh.live i)
  have hput : ∀ j, j ≠ i → (r'.put i (e i)).entries j = r.entries j := by
    intro j hj
    rw [← hslot.entries]
    exact Function.update_of_ne hj (e i) r'.entries
  have hself : (r'.put i (e i)).entries i = e i := by simp [Registry.put]
  -- an entry other than the new one is no mapping of its handle
  have hother : ∀ j, j ≠ i → (r.entries j).handle = (e i).handle →
      (r.entries j).functionMode = aclMode → (e i).functionMode = aclMode → False := by
    intro j _ hsame hj hi
    have hne : (r.entries j).handle ≠ 0 := hsame ▸ (fields_of_live (hfresh.live i)).2.2
    refine hfresh.unique (hmode ▸ hi) _ (mem_live.mpr ⟨j, hne, rfl⟩) ⟨?_, hj⟩
    exact hsame.trans hhandle
  refine ⟨hslot.bound, ?_, ?_, ?_⟩
  · intro j hj
    by_cases hji : j = i
    · rw [hji, hself]
      exact hfresh.committed i
    · rw [hput j hji]
      exact h.committed j ((hslot.old j hj).resolve_left hji)
  · intro j hj
    have hlt := hslot.lt
    have hji : j ≠ i := fun hji => absurd (hji ▸ hlt) (Nat.not_lt_of_le hj)
    rw [hput j hji]
    exact h.fresh j (hslot.mono.trans hj)
  · intro j k hj hjk haj hak
    by_cases hji : j = i
    · by_cases hki : k = i
      · exact hji.trans hki.symm
      · rw [hji, hself] at hjk haj
        rw [hput k hki] at hjk hak
        exact (hother k hki hjk.symm hak haj).elim
    · rw [hput j hji] at hj hjk haj
      by_cases hki : k = i
      · rw [hki, hself] at hjk hak
        exact (hother j hji hjk haj hak).elim
      · rw [hput k hki] at hjk hak
        exact h.unique j k hj hjk haj hak

theorem card_live_of_full (h : ∀ i, (r.entries i).handle ≠ 0) : r.live.card = 512 := by
  refine (card_occupants_of_full fun i => ?_).trans (Fintype.card_fin 512)
  show ((r.entries i).live).isSome = true
  rw [KernelRegistration.live_of_handle (h i)]
  rfl

/-- What a call keeps, what it does to the map, and when it is dropped. -/
structure CallSpec (r r' : Registry) (s : LiveMap) : Prop where
  wf : r'.Wf
  live : r'.live = s
  dropped : r'.dropped ≠ r.dropped → ∀ i, (r.entries i).handle ≠ 0

/-- **An entry is placed.** -/
theorem place_spec {e : Fin 512 → KernelRegistration} {x : Live} (h : r.Wf)
    (hfresh : Fresh r e x) : CallSpec r (place r e) (r.live.add x) := by
  unfold place
  rcases kernelRegistrySlotLocked_spec h with ⟨r', i, heq, hslot⟩ | ⟨heq, hfull⟩
  · rw [heq]
    refine ⟨hslot.wf h hfresh, ?_, fun hne => absurd hslot.dropped hne⟩
    have hroom : r.live.card < 512 := by
      have hnone : r.table i = none := KernelRegistration.live_eq_none_iff.mpr hslot.free
      exact (card_occupants_lt hnone).trans_eq (Fintype.card_fin 512)
    have hsame : r'.live = r.live := by
      refine congrArg occupants (funext fun j => ?_)
      rw [Registry.table, hslot.entries]
      rfl
    have hfree : (r'.entries i).handle = 0 := by
      rw [hslot.entries]
      exact hslot.free
    rw [LiveMap.add, if_neg (show ¬ r.live.card = kernelRegistryCapacity from hroom.ne), ← hsame]
    exact live_put hfree (hfresh.live i)
  · rw [heq]
    refine ⟨⟨h.bound, h.committed, h.fresh, h.unique⟩, ?_, fun _ => hfull⟩
    exact (if_pos (card_live_of_full hfull)).symm

end Slots

/-! ## The calls on the map -/

theorem copyKernelName_copyKernelName (source : CName) :
    copyKernelName (some (copyKernelName source).val) = copyKernelName source := by
  have hpart : copiedPart (some (copyKernelName source).val) = copiedPart source := by
    have hno : ∀ b ∈ copiedPart source, decide (b ≠ 0) = true := by
      intro b hb
      have hmem := List.mem_takeWhile_imp (List.mem_of_mem_take hb)
      exact hmem
    have hpos : kernelNameCapacity - (copiedPart source).length
        = kernelNameCapacity - (copiedPart source).length - 1 + 1 := by
      have := length_copiedPart source
      omega
    have htake : ((copyKernelName source).val.takeWhile (· ≠ 0)) = copiedPart source := by
      show (copiedPart source ++ List.replicate _ 0).takeWhile _ = _
      rw [List.takeWhile_append_of_pos hno, hpos, List.replicate_succ,
        List.takeWhile_cons_of_neg (by decide), List.append_nil]
    have hlen := length_copiedPart source
    show List.take _ ((copyKernelName source).val.takeWhile (· ≠ 0)) = _
    rw [htake]
    exact List.take_of_length_le (by omega)
  refine Subtype.ext ?_
  show copiedPart _ ++ List.replicate _ 0 = copiedPart _ ++ List.replicate _ 0
  rw [hpart]

theorem committed_registration (i : Fin 512) (handle stub : UInt64) (stubName : CName)
    (deviceFunction : UInt64) (functionMode tid : UInt32) :
    (registration i handle stub stubName deviceFunction functionMode
      tid).committedSequence.toNat = i.val + 1 := by
  have := i.isLt
  show (UInt64.ofNat (i.val + 1)).toNat = i.val + 1
  rw [UInt64.toNat_ofNat']
  exact Nat.mod_eq_of_lt (by omega)

section Calls

variable {r : Registry}

theorem kernelRegister_spec (h : r.Wf) {tid : UInt32} {handle stub : UInt64} {stubName : CName}
    {deviceFunction : UInt64} {functionMode : UInt32} (hhandle : handle ≠ 0)
    (hmode : functionMode ≠ aclMode) :
    CallSpec r (kernelRegister r tid handle stub stubName deviceFunction functionMode)
      (r.live.add ⟨handle, stub, functionMode, copyKernelName stubName⟩) :=
  place_spec h ⟨fun _ => KernelRegistration.live_of_handle hhandle,
    fun i => committed_registration i _ _ _ _ _ _, fun hacl => absurd hacl hmode⟩

theorem kernelUnregister_eq_free (address : UInt64) : kernelUnregister r address = r.free fun i =>
    decide (i.val < r.count ∧ ((r.entries i).handle = address ∨
      (r.entries i).functionMode = aclMode ∧ (r.entries i).stub = address)) := by
  refine congrArg (Registry.mk _ _) (funext fun i => ?_)
  simp only [decide_eq_true_eq]

theorem kernelUnregister_spec (h : r.Wf) (address : UInt64) :
    CallSpec r (kernelUnregister r address)
      (r.live.filter fun x => ¬ LiveMap.Belongs address x) := by
  rw [kernelUnregister_eq_free]
  refine ⟨h.free _, live_free fun i hi => ?_, fun hne => absurd rfl hne⟩
  have hlt := h.lt_of_handle hi
  rw [h.count_eq, decide_eq_true_eq, not_not]
  exact ⟨fun hp => hp.2, fun hp => ⟨hlt, hp⟩⟩

/-- The entry of a mapping is the only one of its handle. -/
theorem Registry.Wf.mapping_unique (h : r.Wf) {handle : UInt64} (hhandle : handle ≠ 0)
    {i j : Fin 512} (hi : (r.entries i).handle = handle)
    (hai : (r.entries i).functionMode = aclMode) (hj : (r.entries j).handle = handle)
    (haj : (r.entries j).functionMode = aclMode) : i = j :=
  h.unique i j (hi ▸ hhandle) (hi.trans hj.symm) hai haj

theorem fresh_mapping (tid : UInt32) {handle : UInt64} (binaryHandle : UInt64)
    (hhandle : handle ≠ 0) (kernelName : CName)
    (hnone : ∀ y ∈ r.live, ¬ LiveMap.IsMapping handle y) :
    Fresh r (fun i => registration i handle binaryHandle
        (some (copyKernelName kernelName).val) 0 aclMode tid)
      ⟨handle, binaryHandle, aclMode, copyKernelName kernelName⟩ where
  live i := by
    rw [KernelRegistration.live_of_handle (show (registration i handle binaryHandle
      (some (copyKernelName kernelName).val) 0 aclMode tid).handle ≠ 0 from hhandle)]
    exact congrArg (fun name => some (Live.mk handle binaryHandle aclMode name))
      (copyKernelName_copyKernelName kernelName)
  committed i := committed_registration i _ _ _ _ _ _
  unique _ := hnone

theorem put_handle_eq_free (i : Fin 512) :
    r.put i { r.entries i with handle := 0 } = r.free fun j => decide (j = i) := by
  refine congrArg (Registry.mk _ _) (funext fun j => ?_)
  by_cases hji : j = i
  · subst hji
    simp [Function.update_self]
  · simp [hji]

/-- **A handle is mapped.** -/
theorem mapHandleLocked_spec (h : r.Wf) {tid : UInt32} {handle binaryHandle : UInt64}
    (hhandle : handle ≠ 0) (kernelName : CName) :
    CallSpec r (mapHandleLocked r tid handle binaryHandle (copyKernelName kernelName))
      (r.live.remap ⟨handle, binaryHandle, aclMode, copyKernelName kernelName⟩) := by
  unfold mapHandleLocked LiveMap.remap
  cases hfind : r.find fun e => decide (e.handle = handle ∧ e.functionMode = aclMode) with
  | none =>
    have hnone : ∀ y ∈ r.live, ¬ LiveMap.IsMapping handle y := by
      rintro y hy ⟨hyh, hym⟩
      obtain ⟨i, hi, rfl⟩ := mem_live.mp hy
      exact h.find_eq_none hfind (h.lt_of_handle hi) (decide_eq_true ⟨hyh, hym⟩)
    rw [if_neg fun hmem => hnone _ hmem ⟨rfl, rfl⟩, Multiset.filter_eq_self.mpr hnone]
    exact place_spec h (fresh_mapping tid binaryHandle hhandle kernelName hnone)
  | some i =>
    obtain ⟨-, hp⟩ := h.find_eq_some hfind
    obtain ⟨hih, him⟩ := of_decide_eq_true hp
    -- the registration is in force exactly if this entry has it
    have hmem : (⟨handle, binaryHandle, aclMode, copyKernelName kernelName⟩ : Live) ∈ r.live ↔
        (r.entries i).stub = binaryHandle ∧ (r.entries i).stubName = copyKernelName kernelName := by
      rw [mem_live]
      constructor
      · rintro ⟨j, -, hj⟩
        injection hj with hjh hjs hjm hjn
        obtain rfl := h.mapping_unique hhandle hih him hjh hjm
        exact ⟨hjs, hjn⟩
      · rintro ⟨hstub, hname⟩
        exact ⟨i, hih ▸ hhandle, by rw [hih, him, hstub, hname]⟩
    by_cases hdup : (r.entries i).stub = binaryHandle ∧
        (r.entries i).stubName = copyKernelName kernelName
    · rw [if_pos (hmem.mpr hdup)]
      simp only [if_pos hdup]
      exact ⟨h, rfl, fun hne => absurd rfl hne⟩
    · have hlive : (r.free fun j => decide (j = i)).live
          = r.live.filter fun y => ¬ LiveMap.IsMapping handle y := by
        refine live_free fun j _ => ?_
        rw [decide_eq_true_eq, not_not]
        constructor
        · rintro rfl
          exact ⟨hih, him⟩
        · rintro ⟨hjh, hjm⟩
          exact h.mapping_unique hhandle hjh hjm hih him
      have hnone : ∀ y ∈ (r.free fun j => decide (j = i)).live,
          ¬ LiveMap.IsMapping handle y := by
        rw [hlive]
        exact fun y hy => (Multiset.mem_filter.mp hy).2
      have hplace := place_spec (h.free fun j => decide (j = i))
        (fresh_mapping tid binaryHandle hhandle kernelName hnone)
      rw [hlive] at hplace
      rw [if_neg fun hin => hdup (hmem.mp hin)]
      simp only [if_neg hdup, put_handle_eq_free]
      refine ⟨hplace.wf, hplace.live, fun hne => ?_⟩
      -- the entry that was freed leaves room
      refine absurd (hplace.dropped hne i) (not_not.mpr ?_)
      simp [Registry.free]

theorem kernelMapHandle_spec (h : r.Wf) (tid : UInt32) (handle binaryHandle : UInt64)
    (kernelName : CName) :
    CallSpec r (kernelMapHandle r tid handle binaryHandle kernelName)
      (LiveMap.applyCall r.live (.mapHandle tid handle binaryHandle kernelName)) := by
  by_cases harg : handle = 0 ∨ kernelName = none
  · have hr : kernelMapHandle r tid handle binaryHandle kernelName = r := if_pos harg
    have hs : LiveMap.applyCall r.live (.mapHandle tid handle binaryHandle kernelName) = r.live :=
      if_pos harg
    rw [hr, hs]
    exact ⟨h, rfl, fun hne => absurd rfl hne⟩
  · have hr : kernelMapHandle r tid handle binaryHandle kernelName
        = mapHandleLocked r tid handle binaryHandle (copyKernelName kernelName) := if_neg harg
    have hs : LiveMap.applyCall r.live (.mapHandle tid handle binaryHandle kernelName)
        = r.live.remap ⟨handle, binaryHandle, aclMode, copyKernelName kernelName⟩ := if_neg harg
    rw [hr, hs]
    exact mapHandleLocked_spec h (fun hzero => harg (Or.inl hzero)) kernelName

/-- **Every call does on the registry what it does on the map.** -/
theorem applyCall_spec (h : r.Wf) {call : RegistryCall} (hcall : call.Allowed) :
    CallSpec r (applyCall r call) (LiveMap.applyCall r.live call) := by
  cases call with
  | register tid handle stub stubName deviceFunction functionMode =>
    exact kernelRegister_spec h hcall.1 hcall.2
  | mapHandle tid handle binaryHandle kernelName => exact kernelMapHandle_spec h _ _ _ _
  | unregister handle => exact kernelUnregister_spec h handle

end Calls

/-- The registry after calls. -/
def registryAfter (calls : List RegistryCall) : Registry := calls.foldl applyCall emptyRegistry

/-- The live map after calls. -/
def liveAfter (calls : List RegistryCall) : LiveMap := calls.foldl LiveMap.applyCall 0

/-- **The registry refines the live map**, after any calls. -/
theorem registryAfter_spec {calls : List RegistryCall} (hcalls : ∀ call ∈ calls, call.Allowed) :
    (registryAfter calls).Wf ∧ (registryAfter calls).live = liveAfter calls := by
  induction calls using List.reverseRecOn with
  | nil => exact ⟨wf_emptyRegistry, live_emptyRegistry⟩
  | append_singleton calls call ih =>
    obtain ⟨hwf, hlive⟩ := ih fun c hc => hcalls c (List.mem_append_left _ hc)
    have hspec := applyCall_spec hwf (hcalls call (by simp))
    rw [hlive] at hspec
    rw [registryAfter, liveAfter, List.foldl_concat, List.foldl_concat]
    exact ⟨hspec.wf, hspec.live⟩

end YellowZone.DeadlockTrace
