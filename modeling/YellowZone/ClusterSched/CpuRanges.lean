import YellowZone.ClusterSched.Calls

/-!
# The CPU ranges of the groups

Two VMs must not be pinned to one CPU of a layer, and none to a CPU that is skipped or that it may
not use. `CpuRangesOk` says this of a state, together with what the scheduler concludes it from:
that the bitmap of a layer is the skipped CPUs and the ranges of its groups, and that `idle` is the
number of the others.

It holds in every state of a run if every bitmap that was searched began with an idle row and the
group was new to its layer (`Sched.AllProper`), and no group was dropped. The search does not ask
for the first: it counts the idle CPUs behind the first one, and CPUs in use between them do not
stop it (`findFirstIdlePos_first`). After a VM was deleted there can be such a gap, and the next VM
with two virtual CPUs shares a CPU with the VM behind the gap. The second fails if a VM is added
again after its threads could not be pinned. A group that was dropped has no VM that says which CPUs
it may use.

## Main results

* `CpuRangesOk` — the property
* `cpu_ranges_apart` — when it holds
* `two_vms_on_one_cpu` — two VMs with a common CPU
-/

namespace YellowZone.ClusterSched

open Machine

/-- In every layer, the ranges of the groups lie in the cluster, are disjoint, and have no CPU that
is skipped or that their VM may not use; the bitmap has the skipped CPUs and these ranges, and
`idle` is the number of the other CPUs. -/
structure CpuRangesOk (host : Host) (s : Sched) : Prop where
  range : ∀ c l id, s.Records host c l id → ∃ g D, s.groupMap id = some g ∧
    s.vms g.domainKey = some D ∧ 0 ≤ g.start ∧ g.start + g.nrCpus ≤ host.clusterCpuNum ∧
      ∀ k, g.Covers k → c.bitMap[k]? = some false ∧ D.commonCpuMap[c.startCpu + k]? = some true
  disjoint : ∀ c l id id' g g', s.Records host c l id → s.Records host c l id' →
    s.groupMap id = some g → s.groupMap id' = some g' →
      ∀ k, g.Covers k → g'.Covers k → id = id'
  used : ∀ n c l, c ∈ host.clusters n → l < s.depth →
    (s.layers c.id l).usedBitmap.length = host.clusterCpuNum ∧
      ∀ k : ℕ, (s.layers c.id l).usedBitmap[k]? = some true ↔ c.bitMap[k]? = some true ∨
        ∃ id g, id ∈ (s.layers c.id l).groups ∧ s.groupMap id = some g ∧ g.Covers k
  idle : ∀ n c l, c ∈ host.clusters n → l < s.depth →
    (s.layers c.id l).idle = (s.layers c.id l).usedBitmap.count false

variable {host : Host} {s : Sched}

/-- The range of a group of a layer, by its id. -/
theorem LayerOk.covers_iff {m : Text → Option VmGroup} {c : ClusterInfo} {layer : ClusterLayer}
    {id : Text} {g : VmGroup} (h : LayerOk host m c layer) (hid : id ∈ layer.groups)
    (hg : m id = some g) (k : ℕ) : g.Covers k ↔ InArea (areaStart m id) (areaSize m id) k := by
  rw [areaStart_of_eq hg, areaSize_of_eq hg]
  exact VmGroup.covers_iff (h.start_nonneg id hid g hg) k

/-- No CPU of a group is skipped. -/
theorem Exact.notSkipped {dom : Text → Option VmDomain} (h : Exact host s dom) {c : ClusterInfo}
    {l k : ℕ} {id : Text} {g : VmGroup} (hr : s.Records host c l id) (hg : s.groupMap id = some g)
    (hk : g.Covers k) : c.bitMap[k]? = some false := by
  obtain ⟨⟨n, hc⟩, hdepth, hid⟩ := hr
  have hok := h.layer n c l hc hdepth
  have harea := (hok.covers_iff hid hg k).mp hk
  exact hok.areas.base_free id hid k harea.1 harea.2

/-- Exact books are right about the CPUs. -/
theorem cpuRangesOk_of_exact {pr : Promise} (hl : Linked host pr s s.vms) (hown : pr.own)
    (h : Exact host s s.vms) : CpuRangesOk host s := by
  refine ⟨?_, ?_, ?_, ?_⟩
  · intro c l id hr
    obtain ⟨g, hg, hcid, hlid⟩ := hl.recorded c l id hr
    obtain ⟨D, hD, hlist⟩ := hl.owned hown c l id g hr hg
    have hskip := fun k => h.notSkipped (k := k) hr hg
    obtain ⟨⟨n, hc⟩, hdepth, hid⟩ := hr
    have hok := h.layer n c l hc hdepth
    have hend := hok.areas.end_le hid
    have hstart := hok.start_nonneg id hid g hg
    rw [hok.areas.length_eq, host.length_bitMap n c hc, areaStart_of_eq hg, areaSize_of_eq hg]
      at hend
    refine ⟨g, D, hg, hD, hstart, by omega, fun k hk => ⟨hskip k hk, ?_⟩⟩
    -- the VM that lists the group is on the node of the cluster
    obtain ⟨g', hg', -, c', hc', hc'id⟩ := hl.listed _ D hD id hlist
    rw [hg, Option.some.injEq] at hg'
    rw [← hg', hcid] at hc'id
    obtain ⟨hn, rfl⟩ := host.cluster_unique _ c' n c hc' hc hc'id
    exact (h.listed _ D id g c' hD hlist hg hc' hcid.symm).2.2 k hk
  · intro c l id id' g g' hr hr' hg hg' k hk hk'
    obtain ⟨⟨n, hc⟩, hdepth, hid⟩ := hr
    have hok := h.layer n c l hc hdepth
    exact hok.areas.disjoint id hid id' hr'.2.2 k ((hok.covers_iff hid hg k).mp hk)
      ((hok.covers_iff hr'.2.2 hg' k).mp hk')
  · intro n c l hc hdepth
    have hok := h.layer n c l hc hdepth
    refine ⟨hok.areas.length_eq.trans (host.length_bitMap n c hc), fun k => ?_⟩
    rw [hok.areas.used k]
    refine or_congr_right ⟨?_, ?_⟩
    · rintro ⟨id, hid, harea⟩
      obtain ⟨g, hg, -⟩ := hl.recorded c l id ⟨⟨n, hc⟩, hdepth, hid⟩
      exact ⟨id, g, hid, hg, (hok.covers_iff hid hg k).mpr harea⟩
    · rintro ⟨id, g, hid, hg, hk⟩
      exact ⟨id, hid, (hok.covers_iff hid hg k).mp hk⟩
  · exact fun n c l hc hdepth => (h.layer n c l hc hdepth).idle_eq

/-- **CPU ranges stay apart** in every run in which new groups are placed where the bitmap begins
with an idle row and no call drops a group, whatever the calls and the outcomes of the writes. -/
theorem cpu_ranges_apart {tr : List Event} (h : Run host tr s) (hproper : s.AllProper)
    (hkept : ∀ e ∈ tr, e.dropped = []) : CpuRangesOk host s := by
  have hinv := inv_of_run True h fun _ => hkept
  exact cpuRangesOk_of_exact hinv.linked trivial (hinv.exact hproper)

/-- One cluster of four CPUs. -/
def fourCpus : Host :=
  .oneNode [⟨0, 0, List.replicate 4 false⟩] 4 false (by decide) (by decide)
    four_lt_two_pow_16

/-- The run that adds a VM with two virtual CPUs. -/
theorem cpu_ranges_apart_one_vm : ∃ tr s, Run fourCpus tr s ∧ s.AllProper ∧
    (s.layers 0 0).usedBitmap = [true, true, false, false] ∧ CpuRangesOk fourCpus s := by
  obtain ⟨tr, s, h, htest⟩ : ∃ tr s, Run fourCpus tr s ∧ _ := exists_run
    [.addDomainInfo (smallVm [97] 100 2 4) []]
    (fun tr s => decide (s.AllProper ∧ (∀ e ∈ tr, e.dropped = []) ∧
      (s.layers 0 0).usedBitmap = [true, true, false, false])) (by decide +kernel)
  obtain ⟨hproper, hkept, hused⟩ := of_decide_eq_true htest
  exact ⟨tr, s, h, hproper, hused, cpu_ranges_apart h hproper hkept⟩

/-- **Two VMs on one CPU.** VMs `a` and `b` have CPUs 0 and 1. After `a` was deleted, a VM with two
virtual CPUs gets the range from CPU 0 on: CPUs 0 and 2 are idle, and that is enough. -/
theorem two_vms_on_one_cpu : ∃ tr s, Run fourCpus tr s ∧ ¬ CpuRangesOk fourCpus s := by
  obtain ⟨tr, s, h, htest⟩ : ∃ tr s, Run fourCpus tr s ∧ _ := exists_run
    [.addDomainInfo (smallVm [97] 100 1 4) [], .addDomainInfo (smallVm [98] 200 1 4) [],
      .delDomainInfo [97] [] [[98]], .addDomainInfo (smallVm [99] 300 2 4) []]
    (fun _ s => decide (s.depth = 1 ∧
      (s.layers 0 0).groups = [groupIdOf [98, 95, 48] 0 0, groupIdOf [99, 95, 48] 0 0] ∧
      (s.groupMap (groupIdOf [98, 95, 48] 0 0)).map (fun g => (g.start, g.nrCpus)) = some (1, 1) ∧
      (s.groupMap (groupIdOf [99, 95, 48] 0 0)).map (fun g => (g.start, g.nrCpus)) = some (0, 2)))
    (by decide +kernel)
  obtain ⟨hdepth, hgroups, hb, hc⟩ := of_decide_eq_true htest
  obtain ⟨b, hb, hbarea⟩ := Option.map_eq_some_iff.mp hb
  obtain ⟨c, hc, hcarea⟩ := Option.map_eq_some_iff.mp hc
  rw [Prod.mk.injEq] at hbarea hcarea
  refine ⟨tr, s, h, fun hok => ?_⟩
  have hrec : ∀ id, id ∈ (s.layers 0 0).groups →
      s.Records fourCpus ⟨0, 0, List.replicate 4 false⟩ 0 id := by
    intro id hid
    exact ⟨⟨0, List.mem_singleton.mpr rfl⟩, by omega, hid⟩
  -- both have CPU 1
  have hbcover : b.Covers 1 := by
    rw [VmGroup.Covers, hbarea.1, hbarea.2]
    decide
  have hccover : c.Covers 1 := by
    rw [VmGroup.Covers, hcarea.1, hcarea.2]
    decide
  have hsame := hok.disjoint _ 0 _ _ b c (hrec (groupIdOf [98, 95, 48] 0 0) (by rw [hgroups]; simp))
    (hrec (groupIdOf [99, 95, 48] 0 0) (by rw [hgroups]; simp)) hb hc 1 hbcover hccover
  exact absurd hsame (by decide +kernel)

end YellowZone.ClusterSched
