import YellowZone.ClusterSched.Operations

/-!
# The calls keep the books

What `Inv` promises survives every call, with one exception. `AddDomainInfo` works on a copy of the
VM, and if the allocation fails, the copy is given up together with the groups that it had gained.
The layers keep them. So that all groups are owned survives the call only if the copy had gained
nothing (`dropped`); what does not depend on it survives any call.

`DelDomainInfo` frees copies of the VMs, while the map still has them with their groups. The
invariant is about the map with the copies in their place (`pending`).

## Main results

* `inv_addDomainInfo`, `inv_delDomainInfo`, `inv_reSchedVm` — the calls
* `inv_of_run` — runs
* `absent_of_delDomainInfo` — a VM that was deleted is not there
-/

namespace YellowZone.ClusterSched

open Machine

variable {host : Host} {pr : Promise} {s : Sched} {dom : Text → Option VmDomain} {D : VmDomain}
  {K : Text}

/-! ## Adding a VM -/

/-- Whether a VM is marked as scheduled does not matter. -/
theorem Inv.mark (h : Inv host pr s (Function.update dom K (some D))) (b : Bool) :
    Inv host pr s (Function.update dom K (some { D with isReScheded := b })) := by
  have hnodup := h.linked.listed_nodup K D (Function.update_self _ _ _)
  exact h.replace ⟨rfl, rfl, rfl, rfl, hnodup, fun _ hid => hid⟩ fun _ _ hid => hid

/-- A VM that was not known is entered. -/
theorem inv_updateDomainInfoFrom {used : NumaUsedCpuMap} {vmInfo : VmInfo} {s' : Sched}
    (h : Inv host pr s s.vms) (hgone : ∀ K, ¬ pr.gone K)
    (hu : (updateDomainInfoFrom host used vmInfo s).1 = some (D, s')) :
    Inv host pr s' s'.vms ∧ ∃ K, s'.domainMap.lookup K = some D := by
  rw [updateDomainInfoFrom] at hu
  split at hu
  · exact absurd hu (by simp)
  · next numaId _ _ =>
    simp only at hu
    split at hu
    · next D₁ hD₁ =>
      cases hu
      exact ⟨h, _, hD₁⟩
    · next hnone =>
      cases hu
      have henter := h.enter (D := newDomain vmInfo numaId) (fun _ => hnone) rfl
        (Or.inl ⟨rfl, fun _ => hgone _⟩)
      exact ⟨Inv.store (s := s) henter rfl, _, AList.lookup_insert _⟩

theorem vms_congr {s s' : Sched} (h : s'.domainMap = s.domainMap) : s'.vms = s.vms := by
  funext K
  simp only [Sched.vms, h]

/-- **`ReSched`.** A copy that is given up must not own groups that the VM in the map does not. -/
theorem inv_reSched (h : Inv host pr s s.vms) (hD : s.domainMap.lookup K = some D)
    (hkeep : pr.own → (alloc host D s).result = false →
      (alloc host D s).domain.groups ⊆ D.groups) :
    Inv host pr (reSched host D s).2 (reSched host D s).2.vms := by
  have hnodup := h.linked.listed_nodup K D hD
  have hkey : K = domainKeyOf D.uuid D.numaId ∨ D.pidVcpuMap = [] :=
    (h.linked.key K D hD).imp_right fun hrest => hrest.2.2.1
  rw [← update_vms_self hD] at h
  have ha := allocated_alloc h hkey
  rw [reSched]
  generalize alloc host D s = a at hkeep ha ⊢
  have hwithin : D.Within a.domain := by
    refine ⟨?_, ?_, ?_, ?_, hnodup, ha.subset⟩
    all_goals rw [ha.domain_eq]
  simp only
  split
  · have hD' := Function.update_self K (some a.domain) s.vms
    obtain ⟨hinv, hmap⟩ := inv_assign hD' ha.inv
    generalize assign host a.domain a.sched = r at hinv hmap ⊢
    have hmap := hmap.trans ha.domainMap_eq
    rcases ha.inv.linked.key K a.domain hD' with hK | ⟨hnot, hnil, -⟩
    · rw [← hK]
      exact (hinv.mark r.1).store hmap
    · -- the VM is under a key that is not its own: it has no groups
      have hback := hinv.replace hwithin fun hown => absurd hown hnot
      rw [update_vms_self hD] at hback
      exact Inv.store (s := s) (hback.enter (fun hown => absurd hown hnot) hnil
        (Or.inl ⟨rfl, fun hown => absurd hown hnot⟩)) hmap
  · next hfail =>
    -- the copy is given up
    have hback := ha.inv.replace hwithin fun hown => hkeep hown (Bool.eq_false_iff.mpr hfail)
    rw [update_vms_self hD] at hback
    rw [vms_congr ha.domainMap_eq]
    exact hback

/-- **`AddDomainInfo`.** -/
theorem inv_addDomainInfo (h : Inv host pr s s.vms) (hgone : ∀ K, ¬ pr.gone K) (vmInfo : VmInfo)
    (outcomes : List Bool)
    (hdropped : pr.own → dropped host s (.addDomainInfo vmInfo outcomes) = []) :
    Inv host pr (call host s (.addDomainInfo vmInfo outcomes))
      (call host s (.addDomainInfo vmInfo outcomes)).vms := by
  have h' : Inv host pr (s.withOutcomes outcomes) (s.withOutcomes outcomes).vms :=
    h.frame _ _ _ _
  simp only [call, addDomainInfo]
  simp only [dropped] at hdropped
  split
  · exact h'
  · next D s' hu =>
    obtain ⟨hinv, K, hD⟩ := inv_updateDomainInfoFrom h' hgone hu
    refine inv_reSched hinv hD fun hown hfail id hid => ?_
    have hnone := hdropped hown
    simp only [hu, hfail, Bool.false_eq_true, if_false, List.filter_eq_nil_iff] at hnone
    simpa using hnone id hid

/-! ## Deleting a VM -/

/-- The map with VMs of a list in their place. -/
def pending (es : List (Σ _ : Text, VmDomain)) (dom : Text → Option VmDomain) :
    Text → Option VmDomain := fun K => (es.dlookup K).or (dom K)

theorem pending_cons (K : Text) (D : VmDomain) (es : List (Σ _ : Text, VmDomain)) :
    pending (⟨K, D⟩ :: es) dom = Function.update (pending es dom) K (some D) := by
  funext K'
  by_cases hK : K' = K
  · subst hK
    rw [Function.update_self, pending, List.dlookup_cons_eq, Option.some_or]
  · rw [Function.update_of_ne hK, pending, pending,
      List.dlookup_cons_ne es (⟨K, D⟩ : Σ _ : Text, VmDomain) hK]

theorem vms_deReSchedDomain (host : Host) (D : VmDomain) (s : Sched) (K : Text) :
    (deReSchedDomain host s D).vms K =
      if K = domainKeyOf D.uuid D.numaId then none else s.vms K := by
  simp only [deReSchedDomain, Sched.vms, domainMap_free, domainMap_unassign]
  split
  · next hK =>
    rw [hK]
    exact AList.lookup_erase _ _
  · next hK => exact AList.lookup_erase_ne hK

/-- The VMs that are to be deleted, one after another. A VM is erased under the key that it names,
which is its own unless it has nothing. -/
theorem inv_deReSched :
    ∀ (es : List (Σ _ : Text, VmDomain)) {s : Sched}, es.NodupKeys →
      (∀ e ∈ es, s.vms e.1 = some e.2 ∨ s.vms e.1 = none) →
      Inv host pr s (pending es s.vms) →
      Inv host pr ((es.map (·.2)).foldl (deReSchedDomain host) s)
        ((es.map (·.2)).foldl (deReSchedDomain host) s).vms := by
  intro es
  induction es with
  | nil => exact fun _ _ h => h
  | cons e es ih =>
    intro s hnodup hstored h
    obtain ⟨K, D⟩ := e
    obtain ⟨hnew, hnodup⟩ := List.nodupKeys_cons.mp hnodup
    rw [pending_cons] at h
    have hfree := inv_free (inv_unassign h D)
    have hvms := vms_deReSchedDomain host D s
    rw [List.map_cons, List.foldl_cons]
    refine ih hnodup (fun e' he' => ?_) ?_
    · rw [hvms]
      split
      · exact Or.inr rfl
      · exact hstored e' (List.mem_cons_of_mem _ he')
    · -- the map without the VM, from the map in which it has no groups
      have hkey := h.linked.key K D (Function.update_self _ _ _)
      have hinv : Inv host pr (deReSchedDomain host s D)
          (Function.update (pending es s.vms) K (some { D with groups := [] })) :=
        hfree.frame _ _ _ _
      have hlookup : es.dlookup K = none := List.dlookup_eq_none.mpr hnew
      rcases hkey with hK | ⟨hnot, hnil, -⟩
      · have hdom : pending es (deReSchedDomain host s D).vms =
            Function.update (pending es s.vms) K none := by
          funext K'
          by_cases hK' : K' = K
          · rw [hK', Function.update_self, pending, hlookup, Option.none_or, hvms, if_pos hK]
          · rw [Function.update_of_ne hK', pending, pending, hvms, if_neg]
            rw [← hK]
            exact hK'
        rw [hdom]
        exact hinv.remove fun _ => rfl
      · refine hinv.redom (fun K' D' hD' => Or.inl ?_) fun hown => absurd hown hnot
        rw [pending, hvms] at hD'
        by_cases hK' : K' = K
        · -- the VM may still be there under this key; it has no groups
          subst hK'
          rw [hlookup, Option.none_or] at hD'
          split at hD'
          · exact absurd hD' (by simp)
          · rcases hstored _ List.mem_cons_self with hD | hD
            · have hsame : D = D' := Option.some.inj (hD.symm.trans hD')
              subst hsame
              refine ⟨_, Function.update_self _ _ _, rfl, rfl, rfl, rfl, ?_, ?_⟩
              · rw [hnil]
                exact List.nodup_nil
              · rw [hnil]
                exact List.Subset.refl _
            · exact absurd (hD.symm.trans hD') (by simp)
        · have hold : Function.update (pending es s.vms) K (some { D with groups := [] }) K' =
              some D' := by
            rw [Function.update_of_ne hK', pending]
            split at hD'
            · rw [Option.or_none] at hD'
              rw [hD', Option.some_or]
            · exact hD'
          exact ⟨D', hold, rfl, rfl, rfl, rfl, hinv.linked.listed_nodup K' D' hold,
            fun _ hid => hid⟩

/-- The VMs with a UUID, with their keys. -/
def entriesByUuid (uuid : Text) (s : Sched) : List (Σ _ : Text, VmDomain) :=
  s.domainMap.entries.filter (·.2.uuid = uuid)

theorem getDomainsByUuid_eq (uuid : Text) (s : Sched) :
    getDomainsByUuid uuid s = (entriesByUuid uuid s).map (·.2) := by
  rw [getDomainsByUuid, entriesByUuid, List.filter_map]
  rfl

/-- Taking copies changes nothing. -/
theorem pending_entriesByUuid (uuid : Text) (s : Sched) :
    pending (entriesByUuid uuid s) s.vms = s.vms := by
  funext K
  rw [pending]
  cases hK : (entriesByUuid uuid s).dlookup K with
  | none => rw [Option.none_or]
  | some D =>
    have hmem := List.of_mem_dlookup hK
    rw [Option.some_or, Sched.vms]
    exact (AList.mem_lookup_iff.mpr (List.mem_of_mem_filter hmem)).symm

theorem nodupKeys_entriesByUuid (uuid : Text) (s : Sched) :
    (entriesByUuid uuid s).NodupKeys :=
  s.domainMap.nodupKeys.sublist List.filter_sublist

theorem inv_deReSched_entries (h : Inv host pr s s.vms) (uuid : Text) :
    Inv host pr ((getDomainsByUuid uuid s).foldl (deReSchedDomain host) s)
      ((getDomainsByUuid uuid s).foldl (deReSchedDomain host) s).vms := by
  rw [getDomainsByUuid_eq]
  refine inv_deReSched _ (nodupKeys_entriesByUuid uuid s) (fun e he => Or.inl ?_) ?_
  · exact AList.mem_lookup_iff.mpr (List.mem_of_mem_filter he)
  · rw [pending_entriesByUuid]
    exact h

/-- **`DelDomainInfo`.** -/
theorem inv_delDomainInfo (h : Inv host pr s s.vms) (uuid : Text) (running : List Text) :
    Inv host pr (delDomainInfo host uuid running s) (delDomainInfo host uuid running s).vms :=
  inv_clusterCompactionWithoutLock (inv_deReSched_entries h uuid) running

theorem vms_deReSched {ds : List VmDomain} {s : Sched}
    (hD : (ds.foldl (deReSchedDomain host) s).vms K = some D) :
    s.vms K = some D ∧ ∀ d ∈ ds, K ≠ domainKeyOf d.uuid d.numaId := by
  induction ds generalizing s with
  | nil => exact ⟨hD, fun d hd => absurd hd List.not_mem_nil⟩
  | cons d ds ih =>
    obtain ⟨hs, hds⟩ := ih hD
    rw [vms_deReSchedDomain] at hs
    split at hs
    · exact absurd hs (by simp)
    · next hK =>
      refine ⟨hs, fun d' hd' => ?_⟩
      rcases List.mem_cons.mp hd' with rfl | hd'
      · exact hK
      · exact hds d' hd'

/-- **A VM that was deleted is not there** afterwards, on any node, if all groups were owned. -/
theorem absent_of_delDomainInfo (h : Inv host ⟨True, fun _ => False⟩ s s.vms) (uuid : Text)
    (running : List Text) (n : ℕ) :
    (delDomainInfo host uuid running s).vms (domainKeyOf uuid n) = none := by
  have hinv := (inv_deReSched_entries h uuid).promise (fun K => ∃ n, K = domainKeyOf uuid n) ?_
  · exact (inv_clusterCompactionWithoutLock hinv running).linked.absent trivial _ ⟨n, rfl⟩
  · rintro - K ⟨n', rfl⟩
    refine Option.eq_none_iff_forall_ne_some.mpr fun D hD => ?_
    obtain ⟨hs, hds⟩ := vms_deReSched hD
    have hkey := (h.linked.key _ D hs).resolve_right fun ⟨hnot, _⟩ => hnot trivial
    obtain ⟨huuid, -⟩ := domainKeyOf_inj hkey
    refine hds D ?_ hkey
    rw [getDomainsByUuid_eq, List.mem_map]
    refine ⟨⟨_, D⟩, List.mem_filter.mpr ⟨AList.mem_lookup_iff.mp hs, ?_⟩, rfl⟩
    exact decide_eq_true huuid.symm

/-! ## Placing VMs anew -/

theorem inv_assignAllocated {s' : Sched} {D' : VmDomain} {a : Allocation Bool}
    (ha : Allocated host pr dom K D' s' a) :
    Inv host pr (assignAllocated host a).sched
        (Function.update dom K (some (assignAllocated host a).domain)) ∧
      (assignAllocated host a).sched.domainMap = s'.domainMap := by
  rw [assignAllocated]
  split
  · obtain ⟨hinv, hmap⟩ := inv_assign (Function.update_self _ _ _) ha.inv
    exact ⟨hinv.mark _, hmap.trans ha.domainMap_eq⟩
  · exact ⟨ha.inv, ha.domainMap_eq⟩

theorem inv_reSchedDomain (h : Inv host pr s s.vms) (hD : s.domainMap.lookup K = some D) :
    Inv host pr (reSchedDomain host D s).sched
        (Function.update s.vms K (some (reSchedDomain host D s).domain)) ∧
      (reSchedDomain host D s).sched.domainMap = s.domainMap := by
  have hkey : K = domainKeyOf D.uuid D.numaId ∨ D.pidVcpuMap = [] :=
    (h.linked.key K D hD).imp_right fun hrest => hrest.2.2.1
  rw [← update_vms_self hD] at h
  have hfree := inv_free ((inv_unassign h D).mark false)
  obtain ⟨hinv, hmap⟩ := inv_assignAllocated (allocated_alloc hfree hkey)
  exact ⟨hinv, hmap.trans ((domainMap_free _ _).trans (domainMap_unassign D s))⟩

/-- **`ReSchedVm`.** -/
theorem inv_reSchedVm (h : Inv host pr s s.vms) (value : Text) (running : List Text) :
    Inv host pr (reSchedVm host value running s).2 (reSchedVm host value running s).2.vms := by
  rw [reSchedVm]
  split
  · refine inv_clusterCompactionWithoutLock (List.foldlRecOn
      (motive := fun r => Inv host pr r.2 r.2.vms) s.domainMap.keys (reSchedVmStep host value)
      (b := (.ok, s)) h fun r hr K _ => ?_) running
    rw [reSchedVmStep]
    split
    · exact hr
    · next D hD =>
      split
      · obtain ⟨hinv, hmap⟩ := inv_reSchedDomain hr hD
        exact hinv.store hmap
      · exact hr
  · exact h

/-! ## Runs -/

/-- **The calls keep the books.** All groups stay owned if the call drops none. -/
theorem inv_call {own : Prop} (h : Inv host ⟨own, fun _ => False⟩ s s.vms) (a : Action)
    (hdropped : own → dropped host s a = []) :
    Inv host ⟨own, fun _ => False⟩ (call host s a) (call host s a).vms := by
  have hout : ∀ outcomes, Inv host ⟨own, fun _ => False⟩ (s.withOutcomes outcomes)
      (s.withOutcomes outcomes).vms := fun outcomes => h.frame _ outcomes _ _
  cases a with
  | addDomainInfo vmInfo outcomes =>
    exact inv_addDomainInfo h (fun _ hgone => hgone) vmInfo outcomes hdropped
  | delDomainInfo uuid outcomes running => exact inv_delDomainInfo (hout outcomes) uuid running
  | reSchedVm value outcomes running => exact inv_reSchedVm (hout outcomes) value running
  | clusterCompaction outcomes running =>
    exact inv_clusterCompactionWithoutLock (hout outcomes) running
  | rehash domainMap =>
    rw [call]
    split
    · next hperm =>
      have hvms : Sched.vms { s with domainMap := domainMap } = s.vms :=
        funext fun K => AList.perm_lookup hperm
      rw [hvms]
      exact h.frame _ _ _ _
    · exact h

/-- A run of the scheduler. -/
abbrev Run (host : Host) (tr : List Event) (s : Sched) : Prop :=
  (system host).Exec (fun _ _ => True) (initClusterInfo host) tr s

theorem step_eq {s' : Sched} {a : Action} (hs : (system host).step s a = some s') :
    s' = call host s a := by
  simp only [system] at hs
  split at hs
  · exact absurd hs (by simp)
  · exact (Option.some.inj hs).symm

/-- **Runs keep the books**, and all groups are owned as long as no call drops one. -/
theorem inv_of_run (own : Prop) {tr : List Event} (h : Run host tr s)
    (hown : own → ∀ e ∈ tr, e.dropped = []) : Inv host ⟨own, fun _ => False⟩ s s.vms := by
  induction h with
  | start =>
    have hvms : (initClusterInfo host).vms = fun _ => none :=
      funext fun K => AList.lookup_empty K
    rw [hvms]
    exact inv_initClusterInfo
  | next _ _ hs ih =>
    rw [step_eq hs]
    exact inv_call (ih fun ho e he => hown ho e (List.mem_cons_of_mem _ he)) _
      fun ho => hown ho _ List.mem_cons_self

/-- A list of calls that has been evaluated, for its end. -/
theorem exists_run (as : List Action) (test : List Event → Sched → Bool)
    (h : ((system host).run (fun _ _ => true) (initClusterInfo host) [] as).any
      (fun r => test r.1 r.2) = true) : ∃ tr s, Run host tr s ∧ test tr s = true :=
  Lts.exists_exec (fun _ _ _ => trivial) as test h

/-! ## A machine with one node -/

/-- A machine whose clusters are all on one NUMA node; a virtual CPU takes one CPU. -/
def Host.oneNode (cs : List ClusterInfo) (clusterCpuNum : ℕ) (dynamicAffinity : Bool)
    (hids : (cs.map (·.id)).Nodup) (hlength : ∀ c ∈ cs, c.bitMap.length = clusterCpuNum)
    (hlt : clusterCpuNum < 2 ^ 16) : Host where
  numas := [0]
  clusters n := if n = 0 then cs else []
  clusterCpuNum := clusterCpuNum
  granularity := 1
  dynamicAffinity := dynamicAffinity
  numas_nodup := List.nodup_singleton 0
  clusters_of_notMem n hn := if_neg fun h => hn (List.mem_singleton.mpr h)
  clusters_nodup n := by
    split
    · exact hids.of_map _
    · exact List.nodup_nil
  cluster_unique n c n' c' hc hc' hid := by
    split at hc
    · next hn =>
      split at hc'
      · next hn' => exact ⟨hn.trans hn'.symm, List.inj_on_of_nodup_map hids hc hc' hid⟩
      · exact absurd hc' List.not_mem_nil
    · exact absurd hc List.not_mem_nil
  length_bitMap n c hc := by
    split at hc
    · exact hlength c hc
    · exact absurd hc List.not_mem_nil
  clusterCpuNum_lt := hlt

theorem two_lt_two_pow_16 : 2 < 2 ^ 16 := by decide

theorem four_lt_two_pow_16 : 4 < 2 ^ 16 := by decide

/-- A VM with threads `pid`, `pid + 1`, …, that may use the CPUs below `cpus` on node 0. -/
def smallVm (uuid : Text) (pid vcpus cpus : ℕ) : VmInfo where
  uuid := uuid
  name := uuid
  vcpuMap := (List.range vcpus).map fun i => (i, ⟨pid + i, [0], List.replicate cpus true⟩)

end YellowZone.ClusterSched
