import YellowZone.ClusterSched.Scheduler

/-!
# The NUMA node of a VM

`SelectVmNuma` intersects the nodes of the topology with the node sets of the virtual CPUs, one
after the other, and chooses among what is left: the fullest layer that has room for the VM, or
else the node with the fewest layers.

The loop over the virtual CPUs takes an empty intersection for one that has not been started: it
goes on with the node set of the next virtual CPU as it is. A VM whose virtual CPUs have no node
in common is then not refused. It is given a node that some of its virtual CPUs exclude, or that
the topology does not have.

The usage table is an argument, as in the source, where the caller may have added to it.

## Main results

* `Suits` — a node of the topology that every virtual CPU allows
* `selected_suits_iff` — the chosen node suits the VM exactly if some node does
* `selected_unsuitable` — a VM that no node suits is given one
-/

namespace YellowZone.ClusterSched

/-! ## The choice is one of the available nodes -/

variable {host : Host} {used : NumaUsedCpuMap} {vmInfo : VmInfo} {s : Sched} {numaId : ℕ}

/-- What has been selected so far is among the nodes. -/
def Selection.Among (sel : Selection) (numas : List ℕ) : Prop :=
  sel.usedCpu ≠ -1 → sel.numaId ∈ numas

theorem Selection.Among.step {sel : Selection} {numas : List ℕ} (h : sel.Among numas)
    {candidate : ℕ × ℕ} (hc : candidate.1 ∈ numas) :
    (selectStepFrom host used vmInfo s sel candidate).Among numas := by
  rw [selectStepFrom]
  split
  · exact fun _ => hc
  · exact h

theorem selectMinLayer_mem {numas : List ℕ} (h : selectMinLayer numas s = some numaId) :
    numaId ∈ numas := by
  have hfold : ∀ r : ℕ × ℕ, r = numas.foldl
      (fun r n => if s.overProvision n < r.2 then (n, s.overProvision n) else r)
      ((0, maxOverProvision) : ℕ × ℕ) → r.2 ≠ maxOverProvision → r.1 ∈ numas := by
    intro r hr
    rw [hr]
    refine List.foldlRecOn (motive := fun r : ℕ × ℕ => r.2 ≠ maxOverProvision → r.1 ∈ numas) numas
      _ (fun hne => absurd rfl hne) fun r ih n hn => ?_
    split
    · exact fun _ => hn
    · exact ih
  simp only [selectMinLayer] at h
  split at h
  · cases h
  · rename_i hne
    cases h
    exact hfold _ rfl hne

/-- **The selected node is an available one.** -/
theorem selected_mem (h : (selectVmNumaFrom host used vmInfo s).1 = some numaId) :
    numaId ∈ availableNumas host vmInfo := by
  simp only [selectVmNumaFrom] at h
  split at h
  · cases h
  · split at h
    · rename_i hused
      cases h
      refine List.foldlRecOn (motive := fun sel => sel.Among (availableNumas host vmInfo)) _
        (selectStepFrom host used vmInfo s) (fun hne => absurd rfl hne) (fun sel ih c hc => ?_)
        hused
      refine ih.step ?_
      obtain ⟨n, hn, hl⟩ := List.mem_flatMap.mp hc
      obtain ⟨l, -, rfl⟩ := List.mem_map.mp hl
      exact hn
    · exact selectMinLayer_mem h

/-! ## The available nodes -/

/-- The loop over the virtual CPUs. While they have a node in common, what is available is in all
their sets. -/
theorem availableNumas_common {numas : List ℕ} {vcpus : List (ℕ × VcpuInfo)} {n : ℕ}
    (hn : n ∈ numas) (hcommon : ∀ vcpu ∈ vcpus, n ∈ vcpu.2.numaSet) {x : ℕ}
    (hx : x ∈ vcpus.foldl (fun numas vcpu =>
      if numas = [] then vcpu.2.numaSet else numas.filter (· ∈ vcpu.2.numaSet)) numas) :
    x ∈ numas ∧ ∀ vcpu ∈ vcpus, x ∈ vcpu.2.numaSet := by
  induction vcpus generalizing numas with
  | nil => exact ⟨hx, nofun⟩
  | cons vcpu vcpus ih =>
    have hne : numas ≠ [] := List.ne_nil_of_mem hn
    rw [List.foldl_cons, if_neg hne] at hx
    -- the common node keeps the intersection from being empty
    have hkeep : n ∈ numas.filter (· ∈ vcpu.2.numaSet) :=
      List.mem_filter.mpr ⟨hn, decide_eq_true (hcommon vcpu List.mem_cons_self)⟩
    obtain ⟨hmem, hrest⟩ := ih hkeep (fun v hv => hcommon v (List.mem_cons_of_mem _ hv)) hx
    obtain ⟨hx, hin⟩ := List.mem_filter.mp hmem
    refine ⟨hx, fun v hv => ?_⟩
    rcases List.mem_cons.mp hv with rfl | hv
    · exact of_decide_eq_true hin
    · exact hrest v hv

/-- The node is in the topology and in the node set of every virtual CPU of the VM. -/
def Suits (host : Host) (vmInfo : VmInfo) (numaId : ℕ) : Prop :=
  numaId ∈ host.numas ∧ ∀ vcpu ∈ vmInfo.vcpuMap, numaId ∈ vcpu.2.numaSet

instance (host : Host) (vmInfo : VmInfo) (numaId : ℕ) : Decidable (Suits host vmInfo numaId) :=
  inferInstanceAs (Decidable (_ ∧ _))

/-- **The chosen node suits every virtual CPU exactly if some node does.** This holds for every
usage table, all numbers of layers and every order in which the virtual CPUs are visited. -/
theorem selected_suits_iff (h : (selectVmNumaFrom host used vmInfo s).1 = some numaId) :
    Suits host vmInfo numaId ↔ ∃ n, Suits host vmInfo n := by
  refine ⟨fun hsuits => ⟨numaId, hsuits⟩, ?_⟩
  rintro ⟨n, hn, hcommon⟩
  exact availableNumas_common hn hcommon (selected_mem h)

/-! ## A VM that no node suits -/

/-- Two nodes with one cluster of two CPUs each. -/
def Host.twoNodes : Host where
  numas := [0, 1]
  clusters n := if n = 0 then [⟨0, 0, [false, false]⟩] else if n = 1 then [⟨1, 2, [false, false]⟩]
    else []
  clusterCpuNum := 2
  granularity := 1
  dynamicAffinity := true
  numas_nodup := by decide
  clusters_of_notMem n hn := by
    have h₀ : n ≠ 0 := fun h => hn (by simp [h])
    have h₁ : n ≠ 1 := fun h => hn (by simp [h])
    rw [if_neg h₀, if_neg h₁]
  clusters_nodup n := by
    split
    · decide
    · split <;> decide
  cluster_unique n c n' c' hc hc' hid := by
    split at hc <;> split at hc' <;> simp_all
  length_bitMap n c hc := by
    split at hc
    · simp_all
    · split at hc <;> simp_all
  clusterCpuNum_lt := by decide

/-- A VM whose virtual CPUs have these node sets. -/
def vmWithNodes (sets : List (List ℕ)) : VmInfo where
  uuid := [1]
  name := [1]
  vcpuMap := sets.zipIdx.map fun p => (p.2, ⟨p.2 + 10, p.1, [true, true, true, true]⟩)

theorem selected_suits_iff_common :
    (selectVmNumaFrom Host.twoNodes (fun _ _ => 0) (vmWithNodes [[0, 1], [1]])
        (initClusterInfo Host.twoNodes)).1 = some 1 ∧
      Suits Host.twoNodes (vmWithNodes [[0, 1], [1]]) 1 := by
  have h : (selectVmNumaFrom Host.twoNodes (fun _ _ => 0) (vmWithNodes [[0, 1], [1]])
      (initClusterInfo Host.twoNodes)).1 = some 1 := by decide
  exact ⟨h, (selected_suits_iff h).mpr ⟨1, by decide⟩⟩

/-- **A VM that no node suits is given one.** The first two virtual CPUs have no node in common;
the third starts the intersection anew. -/
theorem selected_unsuitable :
    (selectVmNumaFrom Host.twoNodes (fun _ _ => 0) (vmWithNodes [[0], [1], [1]])
        (initClusterInfo Host.twoNodes)).1 = some 1 ∧
      ¬Suits Host.twoNodes (vmWithNodes [[0], [1], [1]]) 1 := by
  decide

end YellowZone.ClusterSched
