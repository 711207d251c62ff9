import YellowZone.NpuConfig.Loader

/-!
# The device table

`npu_manager.c` and the device selection of `device.c`: the table of devices that the vCANN runtime
has initialized, how it is filled from the configuration, and how `rtSetDevice` chooses from it.

## Indices and codes

`enpu_config_info` returns an index of the table, or `ENPU_FAIL`, through the same `int`; its caller
takes a negative number for a failure. But `ENPU_FAIL` is one. The model keeps the number as it is:
`enpuConfigInfo` returns an integer.

The DCMI layer is a function: for a physical id it gives card, device and logic id, or it fails.
What code it fails with is lost in `enpu_init_devices`, and is not modelled. A failing lookup also
leaves the slot as it is.

## Main definitions

* `NpuInfo`, `Manager` — the table
* `enpuConfigInfo`, `enpuDeviceInit`, `enpuInitDevices` — filling it
* `validateAndSetDeviceContext`, `rtSetDevice` — choosing from it
-/

namespace YellowZone.NpuManager

open NpuConfig

/-! ## The table -/

/-- `MAX_NPU_DEVICES`. -/
def maxNpuDevices : ℕ := 16

/-- `MB_TO_B`. -/
def mbToB : ℕ := 1024 * 1024

/-- `MAX_CORE_QUOTA`. -/
def maxCoreQuota : ℤ := 100

/-- `SCHED_POLICY_FIXED_SHARE`. -/
def schedPolicyFixedShare : ℤ := 1

/-- `SCHED_POLICY_ELASTIC`. -/
def schedPolicyElastic : ℤ := 2

/-- `SCHED_POLICY_BEST_EFFORT`. -/
def schedPolicyBestEffort : ℤ := 3

/-- A number converted to `size_t`. -/
def sizeT (v : ℤ) : ℕ := (v % 2 ^ 64).toNat

/-- A number converted to `uint8_t`. -/
def uint8 (v : ℤ) : ℕ := (v % 2 ^ 8).toNat

/-- `struct npu_info`, the part that initialization and selection use. -/
structure NpuInfo where
  pnpuId : ℤ
  logicId : ℤ
  cardId : ℤ
  deviceId : ℤ
  /-- A `uint8_t`. -/
  vnpuId : ℕ
  memLimitQuota : ℕ
  /-- A `uint8_t`. -/
  coreLimitQuota : ℕ
  isCoreLimit : Bool
  schedPolicy : ℤ
  shmId : List Char
  deriving DecidableEq, Repr

/-- The globals of `npu_manager.c`. -/
structure Manager where
  /-- `g_npu_info_array`; it has `MAX_NPU_DEVICES` slots. -/
  infos : ℕ → NpuInfo
  /-- `g_npu_device_count`. -/
  deviceCount : ℕ

/-- A slot is written. -/
def Manager.put (m : Manager) (i : ℕ) (npu : NpuInfo) : Manager :=
  { m with infos := Function.update m.infos i npu }

/-! ## Filling the table -/

/-- `CHECK_RETURN_RANGE_INT` lets the value pass. -/
def inRange (val min max : ℤ) : Bool := ¬ (val < min ∨ val > max)

/-- The configuration for a physical id: a section, or else the single configuration. -/
def findSection (l : Loader) (phyNpuId : ℤ) : Option Settings :=
  match l.list.find? fun sec => sec.phyNpuId = phyNpuId with
  | some sec => some sec.toSettings
  | none =>
    if l.deviceCount = 0 ∧ l.config.phyNpuId = phyNpuId then
      some { l.config with shmId := l.config.shmId.take (shmIdLen - 1) }
    else none

/-- The quotas of `enpu_config_info`, validated and set. -/
def setQuotas (cfg : Settings) (npu : NpuInfo) : Option NpuInfo :=
  if ¬ inRange (sizeT cfg.memoryQuota) 1 ((2 ^ 64 - 1) / mbToB) then none
  else if cfg.schedulingPolicy = schedPolicyFixedShare ∨
      cfg.schedulingPolicy = schedPolicyElastic then
    if ¬ inRange cfg.aicoreQuota 1 maxCoreQuota then none
    else some { npu with
      coreLimitQuota := uint8 cfg.aicoreQuota
      memLimitQuota := sizeT cfg.memoryQuota * mbToB % 2 ^ 64
      isCoreLimit := true }
  else if cfg.schedulingPolicy = schedPolicyBestEffort then
    some { npu with
      memLimitQuota := sizeT cfg.memoryQuota * mbToB % 2 ^ 64
      isCoreLimit := false }
  else none

/-- `enpu_config_info`: the index of the new device, or `ENPU_FAIL`. -/
def enpuConfigInfo (l : Loader) (m : Manager) (phyNpuId : ℤ) : ℤ × Manager :=
  match findSection l phyNpuId with
  | none => (enpuFail, m)
  | some cfg =>
    -- a device that has been initialized before
    if ∃ i < maxNpuDevices, (m.infos i).pnpuId = phyNpuId then (enpuFail, m)
    else
      let deviceIndex := m.deviceCount
      let npu := { m.infos deviceIndex with
        pnpuId := cfg.phyNpuId
        vnpuId := uint8 cfg.vnpuId }
      match setQuotas cfg npu with
      -- the slot keeps what has been written
      | none => (enpuFail, m.put deviceIndex npu)
      | some npu =>
        let npu := { npu with
          schedPolicy := cfg.schedulingPolicy
          shmId := cfg.shmId.take (shmIdLen - 1) }
        (deviceIndex, { m.put deviceIndex npu with deviceCount := deviceIndex + 1 })

/-- What the DCMI layer says about a device. -/
structure CardInfo where
  cardId : ℤ
  deviceId : ℤ
  logicId : ℤ
  deriving DecidableEq, Repr

/-- A slot with what the DCMI layer says. -/
def NpuInfo.withCard (npu : NpuInfo) (card : CardInfo) : NpuInfo :=
  { npu with
    cardId := card.cardId
    deviceId := card.deviceId
    logicId := card.logicId }

/-- The DCMI layer. -/
abbrev Dcmi : Type := ℤ → Option CardInfo

/-- `enpu_device_init`. -/
def enpuDeviceInit (dcmi : Dcmi) (l : Loader) (m : Manager) (phyNpuId : ℤ) : ℕ × Manager :=
  let (deviceIndex, m) := enpuConfigInfo l m phyNpuId
  if deviceIndex < 0 then (enpuFail, m)
  else
    let npu := m.infos deviceIndex.toNat
    match dcmi npu.pnpuId with
    | none => (enpuFail, m)
    | some card => (enpuSuccess, m.put deviceIndex.toNat (npu.withCard card))

/-- One round of the loop of `enpu_init_devices`, for a section that is configured. -/
def initSection (dcmi : Dcmi) (l : Loader) (s : ℕ × Manager) (n : SectionNum) : ℕ × Manager :=
  let (result, m) := enpuDeviceInit dcmi l s.2 (l.sections n).phyNpuId
  if result ≠ enpuSuccess then (enpuFail, m) else (s.1, m)

/-- The configured sections, in their order. -/
def configured (l : Loader) : List SectionNum :=
  (List.finRange 16).filter fun n => isConfigured (l.sections n)

/-- `enpu_init_devices`. -/
def enpuInitDevices (dcmi : Dcmi) (l : Loader) (m : Manager) : ℕ × Manager :=
  (configured l).foldl (initSection dcmi l) (enpuSuccess, m)

/-! ## Choosing from the table -/

/-- `set_active_device_id`. -/
def setActiveDeviceId (deviceIndex : ℤ) : ℤ :=
  if 0 ≤ deviceIndex ∧ deviceIndex < maxNpuDevices then deviceIndex else invalidValue

/-- `get_device_id`, with the active device. -/
def getDeviceId (m : Manager) (active : ℤ) : ℤ :=
  if 0 ≤ active ∧ active < maxNpuDevices then (m.infos active.toNat).deviceId else invalidValue

/-- `get_device_info_by_index`. -/
def getDeviceInfoByIndex (m : Manager) (deviceIndex : ℕ) : Option NpuInfo :=
  if maxNpuDevices ≤ deviceIndex then none
  else if m.deviceCount ≤ deviceIndex then none
  else some (m.infos deviceIndex)

/-- `validate_and_set_device_context`, for `deviceCount` configured devices: the new active device
and the device index, or an error. -/
def validateAndSetDeviceContext (m : Manager) (deviceCount : ℕ) (active devId : ℤ) :
    Option (ℤ × ℤ) :=
  if devId < 0 then none
  else if (0 ≤ active ∧ active < deviceCount) ∧ (devId = 0 ∨ devId = getDeviceId m active) then
    some (active, active)
  else
    let found := (List.range deviceCount).find? fun i =>
      ((getDeviceInfoByIndex m i).map NpuInfo.logicId) = some devId
    match (if devId ≠ 0 then found else none) with
    | some i => some (setActiveDeviceId i, i)
    -- the first device is the default
    | none => some (setActiveDeviceId 0, 0)

/-- What a call of `rtSetDevice` leads to. -/
structure SetDeviceResult where
  /-- The active device afterwards. -/
  active : ℤ
  /-- The id that was passed to the runtime, if it was called. -/
  passed : Option ℤ
  /-- The call succeeds. -/
  success : Bool
  deriving DecidableEq, Repr

/-- `rtSetDevice`, after the initialization; `runtime` is the answer of the runtime below: whether
it accepts an id. -/
def rtSetDevice (m : Manager) (deviceCount : ℕ) (active devId : ℤ) (runtime : ℤ → Bool) :
    SetDeviceResult :=
  match validateAndSetDeviceContext m deviceCount active devId with
  | none => ⟨active, none, false⟩
  | some (active, deviceIndex) =>
    let runtimeDeviceId :=
      if 0 ≤ deviceIndex ∧ deviceIndex < maxNpuDevices then (m.infos deviceIndex.toNat).logicId
      else getDeviceId m active
    ⟨active, some runtimeDeviceId, runtime runtimeDeviceId⟩

end YellowZone.NpuManager
