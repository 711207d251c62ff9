import YellowZone.NpuManager.Devices

/-!
# The report of the initialization

`enpu_init_devices` goes through the configured sections, fills a slot for each, and reports
success if every section was accepted. That is what it should do.

The slip is in the return value of `enpu_config_info`. A section that is rejected makes it return
`ENPU_FAIL`, which is one, and `enpu_device_init` takes this for the index one. It goes on with the
slot one and asks the DCMI layer about the id it finds there:

* If no section has been accepted so far, then the slot is untouched, and its id is `-1`. The
  failure is reported, provided that the DCMI layer does not know a device `-1`.
* If one has been accepted, then the slot has the id of the rejected section itself. If more have,
  it has the id of the second of them. The DCMI layer answers, and the failure is lost.

So all depends on the *first* section. And the table cuts the id of the vNPU down to eight bits.

## Main definitions and results

* `Accepted`, `Holds`, `Contract` — the contract of `enpu_init_devices`
* `enpuDeviceInit_accepted`, `enpuDeviceInit_rejected` — one section
* `Progress`, `progress_foldl` — the loop
* `init_devices_iff` — when the contract is met
* `rejection_unreported` — a configuration for which it is not
-/

namespace YellowZone.NpuManager

open NpuConfig

/-! ## The contract -/

/-- The section has quotas and a policy that can be used. -/
def Accepted (c : Settings) : Prop :=
  (1 ≤ c.memoryQuota ∧ c.memoryQuota ≤ (2 ^ 64 - 1) / mbToB) ∧
    ((c.schedulingPolicy = schedPolicyFixedShare ∨ c.schedulingPolicy = schedPolicyElastic) ∧
        1 ≤ c.aicoreQuota ∧ c.aicoreQuota ≤ maxCoreQuota ∨
      c.schedulingPolicy = schedPolicyBestEffort)
  deriving Decidable

/-- The slot has the quotas, the policy and the shared memory id of the section, its physical id,
and the ids that the DCMI layer gives for it. -/
structure Describes (dcmi : Dcmi) (npu : NpuInfo) (c : Settings) : Prop where
  pnpuId : npu.pnpuId = c.phyNpuId
  card : dcmi c.phyNpuId = some ⟨npu.cardId, npu.deviceId, npu.logicId⟩
  memory : (npu.memLimitQuota : ℤ) = c.memoryQuota * mbToB
  limit : npu.isCoreLimit = true ↔ c.schedulingPolicy ≠ schedPolicyBestEffort
  core : npu.isCoreLimit = true → (npu.coreLimitQuota : ℤ) = c.aicoreQuota
  policy : npu.schedPolicy = c.schedulingPolicy
  shm : npu.shmId = c.shmId

/-- The slot also has the id of the vNPU. -/
def Holds (dcmi : Dcmi) (npu : NpuInfo) (c : Settings) : Prop :=
  Describes dcmi npu c ∧ (npu.vnpuId : ℤ) = c.vnpuId

/-- **The contract.** Success is reported exactly if every section is accepted, and then the table
has them in their order. -/
def Contract (dcmi : Dcmi) (l : Loader) (m : Manager) : Prop :=
  ((enpuInitDevices dcmi l m).1 = enpuSuccess ↔
      ∀ n ∈ configured l, Accepted (l.sections n).toSettings) ∧
    ((enpuInitDevices dcmi l m).1 = enpuSuccess →
      (enpuInitDevices dcmi l m).2.deviceCount = (configured l).length ∧
        ∀ (k : ℕ) (n : SectionNum), (configured l)[k]? = some n →
          Holds dcmi ((enpuInitDevices dcmi l m).2.infos k) (l.sections n).toSettings)

/-- A configuration as it can be stored: an `int32_t` and a string have their size, and the
physical ids are distinct. -/
structure Stored (l : Loader) : Prop where
  memoryQuota : ∀ n, -2 ^ 31 ≤ (l.sections n).memoryQuota ∧ (l.sections n).memoryQuota < 2 ^ 31
  shmId : ∀ n, (l.sections n).shmId.length < shmIdLen
  distinct : ∀ n n', isConfigured (l.sections n) = true →
    (l.sections n).phyNpuId = (l.sections n').phyNpuId → n = n'

/-- The table that `enpu_soc_init` leaves, without a device. -/
structure Unfilled (m : Manager) : Prop where
  pnpuId : ∀ i < maxNpuDevices, (m.infos i).pnpuId = invalidValue
  deviceCount : m.deviceCount = 0

/-! ## One section -/

section OneSection

variable {dcmi : Dcmi} {l : Loader} {m : Manager}

theorem findSection_eq (hl : Stored l) {n : SectionNum}
    (hn : isConfigured (l.sections n) = true) :
    findSection l (l.sections n).phyNpuId = some (l.sections n).toSettings := by
  unfold findSection
  cases hfind : l.list.find? fun sec => sec.phyNpuId = (l.sections n).phyNpuId with
  | none =>
    rw [List.find?_eq_none] at hfind
    have hmem : l.sections n ∈ l.list := List.mem_map_of_mem (List.mem_finRange n)
    exact absurd (decide_eq_true rfl) (hfind _ hmem)
  | some sec =>
    obtain ⟨n', -, rfl⟩ := List.mem_map.mp (List.mem_of_find?_eq_some hfind)
    have hphy : (l.sections n').phyNpuId = (l.sections n).phyNpuId := by
      simpa using List.find?_some hfind
    rw [hl.distinct n n' hn hphy.symm]

theorem inRange_iff (val min max : ℤ) : inRange val min max = true ↔ min ≤ val ∧ val ≤ max := by
  simp only [inRange, decide_eq_true_eq]
  omega

/-- A quota that is out of range for an `int32_t` is so for a `size_t`. -/
theorem sizeT_inRange {v : ℤ} (hlo : -2 ^ 31 ≤ v) (hhi : v < 2 ^ 31) :
    inRange (sizeT v) 1 ((2 ^ 64 - 1) / mbToB) = true ↔
      1 ≤ v ∧ v ≤ (2 ^ 64 - 1) / mbToB := by
  rw [inRange_iff, sizeT]
  have hmax : ((2 : ℤ) ^ 64 - 1) / mbToB = 17592186044415 := by decide
  rw [hmax]
  omega

theorem uint8_of_range {v : ℤ} : (uint8 v : ℤ) = v ↔ 0 ≤ v ∧ v ≤ 255 := by
  unfold uint8
  omega

/-- The slot with the quotas of an accepted section. -/
def withQuotas (cfg : Settings) (npu : NpuInfo) : NpuInfo :=
  if cfg.schedulingPolicy = schedPolicyBestEffort then
    { npu with
      memLimitQuota := sizeT cfg.memoryQuota * mbToB % 2 ^ 64
      isCoreLimit := false }
  else
    { npu with
      coreLimitQuota := uint8 cfg.aicoreQuota
      memLimitQuota := sizeT cfg.memoryQuota * mbToB % 2 ^ 64
      isCoreLimit := true }

/-- **The quotas.** They are set exactly if the section is accepted. -/
theorem setQuotas_eq {cfg : Settings} (hlo : -2 ^ 31 ≤ cfg.memoryQuota)
    (hhi : cfg.memoryQuota < 2 ^ 31) (npu : NpuInfo) :
    setQuotas cfg npu = if Accepted cfg then some (withQuotas cfg npu) else none := by
  unfold setQuotas
  by_cases hmem : 1 ≤ cfg.memoryQuota ∧ cfg.memoryQuota ≤ (2 ^ 64 - 1) / mbToB
  · rw [if_neg (not_not.mpr ((sizeT_inRange hlo hhi).mpr hmem))]
    by_cases hpolicy : cfg.schedulingPolicy = schedPolicyFixedShare ∨
        cfg.schedulingPolicy = schedPolicyElastic
    · have hlimit : cfg.schedulingPolicy ≠ schedPolicyBestEffort := by
        rcases hpolicy with h | h <;> (rw [h]; decide)
      rw [if_pos hpolicy]
      by_cases hcore : 1 ≤ cfg.aicoreQuota ∧ cfg.aicoreQuota ≤ maxCoreQuota
      · rw [if_neg (not_not.mpr ((inRange_iff _ _ _).mpr hcore)),
          if_pos (show Accepted cfg from ⟨hmem, .inl ⟨hpolicy, hcore⟩⟩), withQuotas, if_neg hlimit]
      · rw [if_pos (mt (inRange_iff _ _ _).mp hcore), if_neg]
        rintro ⟨-, ⟨-, h⟩ | h⟩
        · exact hcore h
        · exact hlimit h
    · rw [if_neg hpolicy]
      by_cases hbest : cfg.schedulingPolicy = schedPolicyBestEffort
      · rw [if_pos hbest, if_pos (show Accepted cfg from ⟨hmem, .inr hbest⟩), withQuotas,
          if_pos hbest]
      · rw [if_neg hbest, if_neg]
        rintro ⟨-, ⟨h, -⟩ | h⟩
        · exact hpolicy h
        · exact hbest h
  · rw [if_pos (mt (sizeT_inRange hlo hhi).mp hmem), if_neg]
    exact fun h => hmem h.1

/-- The slot while the section is being checked. -/
def named (cfg : Settings) (npu : NpuInfo) : NpuInfo :=
  { npu with
    pnpuId := cfg.phyNpuId
    vnpuId := uint8 cfg.vnpuId }

/-- The slot when the section has been checked. -/
def checked (cfg : Settings) (npu : NpuInfo) : NpuInfo :=
  { withQuotas cfg (named cfg npu) with
    schedPolicy := cfg.schedulingPolicy
    shmId := cfg.shmId.take (shmIdLen - 1) }

/-- The slot of an accepted section. -/
def filled (cfg : Settings) (card : CardInfo) (npu : NpuInfo) : NpuInfo :=
  (checked cfg npu).withCard card

theorem checked_pnpuId (cfg : Settings) (npu : NpuInfo) :
    (checked cfg npu).pnpuId = cfg.phyNpuId ∧ (checked cfg npu).vnpuId = uint8 cfg.vnpuId := by
  unfold checked withQuotas named
  split
  · exact ⟨rfl, rfl⟩
  · exact ⟨rfl, rfl⟩

/-- It describes the section. -/
theorem describes_filled {cfg : Settings} {card : CardInfo} (hshm : cfg.shmId.length < shmIdLen)
    (hhi : cfg.memoryQuota < 2 ^ 31) (hok : Accepted cfg) (hcard : dcmi cfg.phyNpuId = some card)
    (npu : NpuInfo) : Describes dcmi (filled cfg card npu) cfg := by
  obtain ⟨⟨hmem, -⟩, hpolicy⟩ := hok
  have hquota : ((sizeT cfg.memoryQuota * mbToB % 2 ^ 64 : ℕ) : ℤ) = cfg.memoryQuota * mbToB := by
    simp only [sizeT, mbToB]
    omega
  refine ⟨(checked_pnpuId cfg npu).1, hcard, ?_, ?_, ?_, rfl, ?_⟩
  · unfold filled checked NpuInfo.withCard withQuotas
    split <;> exact hquota
  · unfold filled checked NpuInfo.withCard withQuotas
    split <;> simp_all
  · unfold filled checked NpuInfo.withCard withQuotas
    split
    · exact fun h => (nomatch h)
    · rename_i hlimit
      intro _
      have hcore : 1 ≤ cfg.aicoreQuota ∧ cfg.aicoreQuota ≤ maxCoreQuota := by
        rcases hpolicy with ⟨-, h⟩ | h
        · exact h
        · exact absurd h hlimit
      refine uint8_of_range.mpr ?_
      simp only [maxCoreQuota] at hcore
      omega
  · refine List.take_of_length_le ?_
    simp only [shmIdLen] at hshm ⊢
    omega

/-- `enpu_config_info` for a section whose device is not in the table. -/
theorem enpuConfigInfo_eq (hl : Stored l) {n : SectionNum}
    (hn : isConfigured (l.sections n) = true)
    (hnew : ∀ i < maxNpuDevices, (m.infos i).pnpuId ≠ (l.sections n).phyNpuId) :
    enpuConfigInfo l m (l.sections n).phyNpuId
      = if Accepted (l.sections n).toSettings then
          ((m.deviceCount : ℤ),
            { m.put m.deviceCount (checked (l.sections n).toSettings (m.infos m.deviceCount)) with
              deviceCount := m.deviceCount + 1 })
        else
          ((enpuFail : ℤ),
            m.put m.deviceCount (named (l.sections n).toSettings (m.infos m.deviceCount))) := by
  have hnone : ¬ ∃ i < maxNpuDevices, (m.infos i).pnpuId = (l.sections n).phyNpuId := by
    rintro ⟨i, hi, heq⟩
    exact hnew i hi heq
  obtain ⟨hlo, hhi⟩ := hl.memoryQuota n
  rw [enpuConfigInfo, findSection_eq hl hn]
  simp only [if_neg hnone, setQuotas_eq hlo hhi]
  by_cases hok : Accepted (l.sections n).toSettings
  · rw [if_pos hok, if_pos hok]
    rfl
  · rw [if_neg hok, if_neg hok]
    rfl

/-- **An accepted section** fills the next slot. -/
theorem enpuDeviceInit_accepted (hl : Stored l) {n : SectionNum}
    (hn : isConfigured (l.sections n) = true)
    (hnew : ∀ i < maxNpuDevices, (m.infos i).pnpuId ≠ (l.sections n).phyNpuId)
    (hok : Accepted (l.sections n).toSettings) {card : CardInfo}
    (hcard : dcmi (l.sections n).phyNpuId = some card) :
    enpuDeviceInit dcmi l m (l.sections n).phyNpuId
      = (enpuSuccess,
          { m.put m.deviceCount
              (filled (l.sections n).toSettings card (m.infos m.deviceCount)) with
            deviceCount := m.deviceCount + 1 }) := by
  have hindex : ¬ (m.deviceCount : ℤ) < 0 := by omega
  have hid := (checked_pnpuId (l.sections n).toSettings (m.infos m.deviceCount)).1
  rw [enpuDeviceInit, enpuConfigInfo_eq hl hn hnew, if_pos hok]
  simp only [hindex, if_false, Int.toNat_natCast, Manager.put, Function.update_self, hid, hcard,
    Function.update_idem, filled]

/-- **A rejected section** leaves its ids in the next slot, and the initialization goes on with the
slot one. -/
theorem enpuDeviceInit_rejected (dcmi : Dcmi) (hl : Stored l) {n : SectionNum}
    (hn : isConfigured (l.sections n) = true)
    (hnew : ∀ i < maxNpuDevices, (m.infos i).pnpuId ≠ (l.sections n).phyNpuId)
    (hno : ¬ Accepted (l.sections n).toSettings) :
    ∃ m' : Manager, m'.deviceCount = m.deviceCount ∧
      (∀ i, (m'.infos i).pnpuId
        = if i = m.deviceCount then (l.sections n).phyNpuId else (m.infos i).pnpuId) ∧
      enpuDeviceInit dcmi l m (l.sections n).phyNpuId
        = (if (dcmi (m'.infos 1).pnpuId).isSome then enpuSuccess else enpuFail, m') := by
  let m₁ := m.put m.deviceCount (named (l.sections n).toSettings (m.infos m.deviceCount))
  have hids : ∀ i, (m₁.infos i).pnpuId
      = if i = m.deviceCount then (l.sections n).phyNpuId else (m.infos i).pnpuId := by
    intro i
    by_cases hi : i = m.deviceCount
    · subst hi
      simp [m₁, Manager.put, named]
    · simp [m₁, Manager.put, hi]
  have hinit : enpuDeviceInit dcmi l m (l.sections n).phyNpuId
      = (dcmi (m₁.infos 1).pnpuId).elim (enpuFail, m₁)
          fun card => (enpuSuccess, m₁.put 1 ((m₁.infos 1).withCard card)) := by
    rw [enpuDeviceInit, enpuConfigInfo_eq hl hn hnew, if_neg hno]
    dsimp only
    rw [if_neg (by decide)]
    split <;> rename_i hd <;> rw [show dcmi (m₁.infos 1).pnpuId = _ from hd] <;> rfl
  cases hdcmi : dcmi (m₁.infos 1).pnpuId with
  | none =>
    rw [hdcmi] at hinit
    refine ⟨m₁, rfl, hids, ?_⟩
    rw [hinit, hdcmi]
    rfl
  | some card =>
    rw [hdcmi] at hinit
    refine ⟨m₁.put 1 ((m₁.infos 1).withCard card), rfl, fun i => ?_, ?_⟩
    · rw [← hids]
      by_cases hi : i = 1
      · subst hi
        simp [Manager.put, NpuInfo.withCard]
      · simp [Manager.put, hi]
    · rw [hinit]
      simp [Manager.put, NpuInfo.withCard, hdcmi]

end OneSection

/-! ## The loop -/

section Loop

variable {dcmi : Dcmi} {l : Loader}

/-- The first section is rejected, and the DCMI layer does not know a device `-1`. -/
def Reported (dcmi : Dcmi) (l : Loader) (ns : List SectionNum) : Prop :=
  ∃ n, ns.head? = some n ∧ ¬ Accepted (l.sections n).toSettings ∧ dcmi invalidValue = none

/-- The table and the report after some sections. -/
structure Progress (dcmi : Dcmi) (l : Loader) (ns : List SectionNum) (s : ℕ × Manager) : Prop where
  /-- A slot is untouched, or has the id of a section. -/
  known : ∀ i < maxNpuDevices, (s.2.infos i).pnpuId = invalidValue ∨
    ∃ n ∈ ns, (l.sections n).phyNpuId = (s.2.infos i).pnpuId
  /-- Slots of devices have been filled. -/
  used : ∀ i < s.2.deviceCount, (s.2.infos i).pnpuId ≠ invalidValue
  /-- Without a device the slot one is untouched. -/
  fresh : s.2.deviceCount = 0 → (s.2.infos 1).pnpuId = invalidValue
  /-- The first section that is accepted makes a device. -/
  count : s.2.deviceCount = 0 ↔ ∀ n ∈ ns, ¬ Accepted (l.sections n).toSettings
  report : s.1 = enpuSuccess ↔ ¬ Reported dcmi l ns
  /-- As long as all sections are accepted, the table has them in their order. -/
  described : (∀ n ∈ ns, Accepted (l.sections n).toSettings) → s.2.deviceCount = ns.length ∧
    ∀ (k : ℕ) (n : SectionNum), ns[k]? = some n →
      Describes dcmi (s.2.infos k) (l.sections n).toSettings ∧
        (s.2.infos k).vnpuId = uint8 (l.sections n).vnpuId

theorem reported_append (ns : List SectionNum) (n : SectionNum) :
    Reported dcmi l (ns ++ [n]) ↔ Reported dcmi l ns ∨
      ns = [] ∧ ¬ Accepted (l.sections n).toSettings ∧ dcmi invalidValue = none := by
  cases ns with
  | nil => simp [Reported]
  | cons k ns => simp [Reported]

theorem progress_nil {m : Manager} (hm : Unfilled m) : Progress dcmi l [] (enpuSuccess, m) := by
  refine ⟨fun i hi => .inl (hm.pnpuId i hi), fun i hi => ?_, fun _ => hm.pnpuId 1 (by decide),
    ?_, ?_, fun _ => ⟨hm.deviceCount, fun k n hk => (nomatch hk)⟩⟩
  · rw [hm.deviceCount] at hi
    exact absurd hi (Nat.not_lt_zero i)
  · exact ⟨fun _ _ hn => absurd hn List.not_mem_nil, fun _ => hm.deviceCount⟩
  · exact ⟨fun _ ⟨n, hn, _⟩ => (nomatch hn), fun _ => rfl⟩

variable (hl : Stored l)
  (hdcmi : ∀ n, isConfigured (l.sections n) = true → (dcmi (l.sections n).phyNpuId).isSome = true)
  {ns : List SectionNum} {s : ℕ × Manager} {n : SectionNum}

include hl in
/-- The device of a further section is not in the table. -/
theorem Progress.ne_phyNpuId (h : Progress dcmi l ns s) (hn : isConfigured (l.sections n) = true)
    (hnew : n ∉ ns) : ∀ i < maxNpuDevices, (s.2.infos i).pnpuId ≠ (l.sections n).phyNpuId := by
  intro i hi heq
  rcases h.known i hi with hfree | ⟨n', hmem, hphy⟩
  · have hset : (l.sections n).phyNpuId ≠ invalidValue := by simpa [isConfigured] using hn
    exact hset (heq.symm.trans hfree)
  · obtain rfl := hl.distinct n n' hn (heq.symm.trans hphy.symm)
    exact hnew hmem

include hl hdcmi in
/-- A section that is accepted. -/
theorem Progress.accepted (h : Progress dcmi l ns s) (hn : isConfigured (l.sections n) = true)
    (hnew : n ∉ ns) (hok : Accepted (l.sections n).toSettings) :
    Progress dcmi l (ns ++ [n]) (initSection dcmi l s n) := by
  obtain ⟨card, hcard⟩ := Option.isSome_iff_exists.mp (hdcmi n hn)
  have hinit := enpuDeviceInit_accepted hl hn (h.ne_phyNpuId hl hn hnew) hok hcard
  have hset : (l.sections n).phyNpuId ≠ invalidValue := by simpa [isConfigured] using hn
  have hstep : initSection dcmi l s n
      = (s.1, { s.2.put s.2.deviceCount
          (filled (l.sections n).toSettings card (s.2.infos s.2.deviceCount)) with
            deviceCount := s.2.deviceCount + 1 }) := by
    rw [initSection, hinit]
    rfl
  have hid := checked_pnpuId (l.sections n).toSettings (s.2.infos s.2.deviceCount)
  rw [hstep]
  refine ⟨fun i hi => ?_, fun i hi => ?_, fun h0 => (nomatch h0), ?_, ?_, fun hall => ?_⟩
  · by_cases hic : i = s.2.deviceCount
    · refine .inr ⟨n, by simp, ?_⟩
      rw [hic]
      simp only [Manager.put, Function.update_self]
      exact hid.1.symm
    · simp only [Manager.put, Function.update_of_ne hic]
      refine (h.known i hi).imp_right fun ⟨n', hmem, hphy⟩ => ?_
      exact ⟨n', List.mem_append_left _ hmem, hphy⟩
  · by_cases hic : i = s.2.deviceCount
    · rw [hic]
      simp only [Manager.put, Function.update_self]
      exact fun heq => hset (hid.1.symm.trans heq)
    · simp only [Manager.put, Function.update_of_ne hic]
      exact h.used i (by simp only at hi; omega)
  · exact ⟨fun h0 => (nomatch h0), fun hall => absurd hok (hall n (by simp))⟩
  · rw [reported_append]
    refine h.report.trans (not_congr ?_)
    exact ⟨.inl, fun hor => hor.elim id fun ⟨_, hno, _⟩ => absurd hok hno⟩
  · obtain ⟨hcount, hheld⟩ := h.described fun n' hn' => hall n' (List.mem_append_left _ hn')
    refine ⟨by simp [hcount], fun k n' hk => ?_⟩
    by_cases hlt : k < ns.length
    · rw [List.getElem?_append_left hlt] at hk
      simp only [Manager.put, Function.update_of_ne (show k ≠ s.2.deviceCount by omega)]
      exact hheld k n' hk
    · rw [List.getElem?_append_right (by omega), List.getElem?_singleton] at hk
      obtain ⟨hzero, rfl⟩ : k - ns.length = 0 ∧ n = n' := by simpa using hk
      obtain rfl : k = s.2.deviceCount := by omega
      simp only [Manager.put, Function.update_self]
      exact ⟨describes_filled (hl.shmId n) (hl.memoryQuota n).2 hok hcard _, hid.2⟩

include hl hdcmi in
/-- A section that is rejected. -/
theorem Progress.rejected (h : Progress dcmi l ns s)
    (hns : ∀ n ∈ ns, isConfigured (l.sections n) = true) (hn : isConfigured (l.sections n) = true)
    (hnew : n ∉ ns) (hno : ¬ Accepted (l.sections n).toSettings) :
    Progress dcmi l (ns ++ [n]) (initSection dcmi l s n) := by
  obtain ⟨m', hcount, hids, hinit⟩ :=
    enpuDeviceInit_rejected dcmi hl hn (h.ne_phyNpuId hl hn hnew) hno
  have hstep : initSection dcmi l s n
      = (if (dcmi (m'.infos 1).pnpuId).isSome then s.1 else enpuFail, m') := by
    rw [initSection, hinit]
    by_cases hsome : (dcmi (m'.infos 1).pnpuId).isSome = true
    · simp [hsome]
    · simp [hsome, enpuFail, enpuSuccess]
  rw [hstep]
  refine ⟨fun i hi => ?_, fun i hi => ?_, fun h0 => ?_, ?_, ?_, fun hall => ?_⟩
  · rw [hids i]
    by_cases hic : i = s.2.deviceCount
    · rw [if_pos hic]
      exact .inr ⟨n, by simp, rfl⟩
    · rw [if_neg hic]
      refine (h.known i hi).imp_right fun ⟨n', hmem, hphy⟩ => ?_
      exact ⟨n', List.mem_append_left _ hmem, hphy⟩
  · simp only [hcount] at hi
    rw [hids i, if_neg (by omega)]
    exact h.used i hi
  · simp only [hcount] at h0
    rw [hids 1, if_neg (by omega)]
    exact h.fresh h0
  · rw [hcount, h.count]
    constructor
    · intro hall n' hn'
      rcases List.mem_append.mp hn' with hn' | hn'
      · exact hall n' hn'
      · rw [List.mem_singleton.mp hn']
        exact hno
    · exact fun hall n' hn' => hall n' (List.mem_append_left _ hn')
  · rw [reported_append, not_or, ← h.report]
    by_cases h0 : s.2.deviceCount = 0
    · -- the DCMI layer is asked about `-1`
      have hslot : (m'.infos 1).pnpuId = invalidValue := by
        rw [hids 1, if_neg (by omega)]
        exact h.fresh h0
      rw [hslot]
      cases hminus : dcmi invalidValue with
      | some card => simp
      | none =>
        have hempty : s.1 = enpuSuccess → ns = [] := by
          intro hrc
          cases ns with
          | nil => rfl
          | cons k ns =>
            exact absurd ⟨k, rfl, h.count.mp h0 k List.mem_cons_self, hminus⟩ (h.report.mp hrc)
        simp only [Option.isSome_none, Bool.false_eq_true, if_false]
        constructor
        · exact fun hrc => absurd hrc (by decide)
        · exact fun ⟨hrc, hnot⟩ => absurd ⟨hempty hrc, hno, trivial⟩ hnot
    · -- the DCMI layer is asked about a section
      have hknown : ∃ n', isConfigured (l.sections n') = true ∧
          (l.sections n').phyNpuId = (m'.infos 1).pnpuId := by
        rw [hids 1]
        by_cases h1 : 1 = s.2.deviceCount
        · rw [if_pos h1]
          exact ⟨n, hn, rfl⟩
        · rw [if_neg h1]
          rcases h.known 1 (by decide) with hfree | ⟨n', hmem, hphy⟩
          · exact absurd hfree (h.used 1 (by omega))
          · exact ⟨n', hns n' hmem, hphy⟩
      obtain ⟨n', hn', hphy⟩ := hknown
      have hsome := hdcmi n' hn'
      rw [hphy] at hsome
      have hne : ns ≠ [] := by
        rintro rfl
        exact h0 (h.count.mpr fun _ hmem => absurd hmem List.not_mem_nil)
      simp [hsome, hne]
  · exact absurd (hall n (by simp)) hno

include hl hdcmi in
/-- **The loop.** -/
theorem progress_foldl (ks : List SectionNum) : ∀ {ns : List SectionNum} {s : ℕ × Manager},
    Progress dcmi l ns s → (ns ++ ks).Nodup →
    (∀ n ∈ ns ++ ks, isConfigured (l.sections n) = true) →
    Progress dcmi l (ns ++ ks) (ks.foldl (initSection dcmi l) s) := by
  induction ks with
  | nil =>
    intro ns s h _ _
    rwa [List.append_nil]
  | cons n ks ih =>
    intro ns s h hnodup hconf
    have hnew : n ∉ ns := by
      intro hmem
      exact (List.nodup_append.mp hnodup).2.2 n hmem n List.mem_cons_self rfl
    have hn := hconf n (by simp)
    have hns : ∀ k ∈ ns, isConfigured (l.sections k) = true := fun k hk =>
      hconf k (List.mem_append_left _ hk)
    rw [List.append_cons] at hnodup hconf ⊢
    rw [List.foldl_cons]
    refine ih ?_ hnodup hconf
    by_cases hok : Accepted (l.sections n).toSettings
    · exact h.accepted hl hdcmi hn hnew hok
    · exact h.rejected hl hdcmi hns hn hnew hok

end Loop

/-! ## The result -/

/-- **When the contract is met.** Either every section is accepted, and the ids of the vNPUs fit
eight bits; or the first section is rejected, and the DCMI layer does not know a device `-1`. -/
theorem init_devices_iff (dcmi : Dcmi) (l : Loader) (m : Manager) (hl : Stored l) (hm : Unfilled m)
    (hdcmi : ∀ n, isConfigured (l.sections n) = true →
      (dcmi (l.sections n).phyNpuId).isSome = true) :
    Contract dcmi l m ↔
      (∀ n ∈ configured l, Accepted (l.sections n).toSettings ∧
          0 ≤ (l.sections n).vnpuId ∧ (l.sections n).vnpuId ≤ 255) ∨
        ∃ n, (configured l).head? = some n ∧ ¬ Accepted (l.sections n).toSettings ∧
          dcmi invalidValue = none := by
  have hprogress : Progress dcmi l (configured l) (enpuInitDevices dcmi l m) := by
    refine progress_foldl hl hdcmi (configured l) (progress_nil hm) ?_ ?_
    · exact (List.nodup_finRange 16).filter fun n => isConfigured (l.sections n)
    · exact fun n hn => (List.mem_filter.mp hn).2
  constructor
  · rintro ⟨hiff, hholds⟩
    by_cases hall : ∀ n ∈ configured l, Accepted (l.sections n).toSettings
    · left
      intro n hn
      obtain ⟨k, hk⟩ := List.mem_iff_getElem?.mp hn
      have hvnpu := ((hholds (hiff.mpr hall)).2 k n hk).2
      rw [((hprogress.described hall).2 k n hk).2] at hvnpu
      exact ⟨hall n hn, uint8_of_range.mp hvnpu⟩
    · right
      by_contra hnot
      exact hall (hiff.mp (hprogress.report.mpr hnot))
  · rintro (hall | hreported)
    · have hok : ∀ n ∈ configured l, Accepted (l.sections n).toSettings := fun n hn => (hall n hn).1
      have hrc : (enpuInitDevices dcmi l m).1 = enpuSuccess := by
        refine hprogress.report.mpr ?_
        rintro ⟨n, hn, hno, -⟩
        exact hno (hok n (List.mem_of_mem_head? hn))
      obtain ⟨hcount, hheld⟩ := hprogress.described hok
      refine ⟨⟨fun _ => hok, fun _ => hrc⟩, fun _ => ⟨hcount, fun k n hk => ?_⟩⟩
      obtain ⟨hdescribes, hvnpu⟩ := hheld k n hk
      refine ⟨hdescribes, ?_⟩
      rw [hvnpu]
      exact uint8_of_range.mpr (hall n (List.mem_of_getElem? hk)).2
    · have hrc : (enpuInitDevices dcmi l m).1 ≠ enpuSuccess := fun hrc =>
        hprogress.report.mp hrc hreported
      obtain ⟨n, hn, hno, -⟩ := hreported
      refine ⟨⟨fun h => absurd h hrc, fun hall => ?_⟩, fun h => absurd h hrc⟩
      exact absurd (hall n (List.mem_of_mem_head? hn)) hno

/-- Sections with given policies, and otherwise sound settings. -/
def policySections (policies : List ℤ) : Loader where
  config := unsetSettings
  sections n :=
    match policies[n.val]? with
    | some policy => ⟨⟨n, n, 50, 1024, policy, "enpu".toList⟩, n⟩
    | none => unsetSection
  current := none
  deviceCount := policies.length

/-- The table after `enpu_soc_init`. -/
def emptyTable : Manager := ⟨fun _ => ⟨-1, 0, 0, 0, 0, 0, 0, false, 0, []⟩, 0⟩

/-- A DCMI layer that knows the devices `0` to `15`. -/
def sixteenDevices : Dcmi := fun id => if 0 ≤ id ∧ id < 16 then some ⟨id, 0, id⟩ else none

theorem unfilled_emptyTable : Unfilled emptyTable := ⟨fun _ _ => rfl, rfl⟩

theorem policySections_cases (policies : List ℤ) (n : SectionNum) :
    (policySections policies).sections n = unsetSection ∨
      ∃ policy, (policySections policies).sections n
        = ⟨⟨n, n, 50, 1024, policy, "enpu".toList⟩, n⟩ := by
  simp only [policySections]
  cases policies[n.val]? with
  | none => exact .inl rfl
  | some policy => exact .inr ⟨policy, rfl⟩

theorem stored_policySections (policies : List ℤ) : Stored (policySections policies) := by
  refine ⟨fun n => ?_, fun n => ?_, fun n n' hn heq => ?_⟩
  · rcases policySections_cases policies n with h | ⟨policy, h⟩
    · rw [h]
      decide
    · rw [h]
      exact (show -2 ^ 31 ≤ (1024 : ℤ) ∧ (1024 : ℤ) < 2 ^ 31 by decide)
  · rcases policySections_cases policies n with h | ⟨policy, h⟩
    · rw [h]
      decide
    · rw [h]
      exact (show "enpu".toList.length < shmIdLen by decide)
  · rcases policySections_cases policies n with h | ⟨policy, h⟩
    · rw [h] at hn
      exact absurd hn (by decide)
    · rcases policySections_cases policies n' with h' | ⟨policy', h'⟩
      · rw [h, h'] at heq
        have : (n.val : ℤ) = -1 := heq
        omega
      · rw [h, h'] at heq
        have : (n.val : ℤ) = n'.val := heq
        exact Fin.ext (by omega)

theorem sixteenDevices_policySections (policies : List ℤ) (n : SectionNum)
    (hn : isConfigured ((policySections policies).sections n) = true) :
    (sixteenDevices ((policySections policies).sections n).phyNpuId).isSome = true := by
  rcases policySections_cases policies n with h | ⟨policy, h⟩
  · rw [h] at hn
    exact absurd hn (by decide)
  · have hlt := n.isLt
    have hid : (0 : ℤ) ≤ (n.val : ℤ) ∧ (n.val : ℤ) < 16 := by omega
    rw [h, sixteenDevices, if_pos hid]
    rfl

/-- Three sections that are accepted. -/
theorem init_devices_iff_three :
    Stored (policySections [1, 2, 3]) ∧ Unfilled emptyTable ∧
      Contract sixteenDevices (policySections [1, 2, 3]) emptyTable := by
  refine ⟨stored_policySections _, unfilled_emptyTable, ?_⟩
  refine (init_devices_iff sixteenDevices (policySections [1, 2, 3]) emptyTable
    (stored_policySections _) unfilled_emptyTable (sixteenDevices_policySections _)).mpr (.inl ?_)
  decide +kernel

/-- **A rejection is not reported.** The second section has a policy that does not exist, and is
rejected; success is reported, with one device instead of two. -/
theorem rejection_unreported :
    Stored (policySections [1, 7]) ∧ Unfilled emptyTable ∧
      (∀ n, isConfigured ((policySections [1, 7]).sections n) = true →
        (sixteenDevices ((policySections [1, 7]).sections n).phyNpuId).isSome = true) ∧
      ¬ Accepted ((policySections [1, 7]).sections 1).toSettings ∧
      (enpuInitDevices sixteenDevices (policySections [1, 7]) emptyTable).1 = enpuSuccess ∧
      (enpuInitDevices sixteenDevices (policySections [1, 7]) emptyTable).2.deviceCount = 1 ∧
      ¬ Contract sixteenDevices (policySections [1, 7]) emptyTable := by
  have hrc : (enpuInitDevices sixteenDevices (policySections [1, 7]) emptyTable).1
      = enpuSuccess := by
    decide +kernel
  have hno : ¬ Accepted ((policySections [1, 7]).sections 1).toSettings := by decide +kernel
  refine ⟨stored_policySections _, unfilled_emptyTable, sixteenDevices_policySections _, hno, hrc,
    by decide +kernel, ?_⟩
  rintro ⟨hiff, -⟩
  exact hno (hiff.mp hrc 1 (by decide +kernel))

end YellowZone.NpuManager
