import YellowZone.ClusterSched.Books

/-!
# The functions of the scheduler keep the books

One lemma for each function of the source: it keeps `Inv`. Allocation, assignment and freeing work
on one VM, which may be a copy, so their lemmas are about `Function.update dom key (some domain)`:
the map with the VM as the function leaves it. Compaction works on the map itself.

A loop that takes groups out of a set goes over the set as it was when the loop began. That the
groups still to come are in the set is part of what is carried through the loop.

## Main results

* `allocated_alloc`, `inv_free`, `inv_assign`, `inv_unassign` — one VM
* `moved_moveGroup` — a group moves to another layer
* `inv_clusterCompactionWithoutLock` — compaction
-/

namespace YellowZone.ClusterSched

open Machine

variable {host : Host} {pr : Promise} {s : Sched} {dom : Text → Option VmDomain} {D : VmDomain}
  {K : Text} {c : ClusterInfo} {g : VmGroup} {id : Text} {l : ℕ}

/-! ## Allocation -/

/-- What an allocation for the VM `D` leaves: the books agree, the VM has at least the groups it
had, what it has gained is in a layer, and no layer has lost a group. -/
structure Allocated {α : Type} (host : Host) (pr : Promise) (dom : Text → Option VmDomain)
    (K : Text) (D : VmDomain) (s : Sched) (a : Allocation α) : Prop where
  inv : Inv host pr a.sched (Function.update dom K (some a.domain))
  domain_eq : a.domain = { D with groups := a.domain.groups }
  subset : D.groups ⊆ a.domain.groups
  domainMap_eq : a.sched.domainMap = s.domainMap
  kept : ∀ c l id, s.Records host c l id → a.sched.Records host c l id
  gained : ∀ id ∈ a.domain.groups, id ∈ D.groups ∨ ∃ c l, a.sched.Records host c l id

theorem Allocated.refl {α : Type} (h : Inv host pr s (Function.update dom K (some D))) (r : α) :
    Allocated host pr dom K D s ⟨s, D, r⟩ :=
  ⟨h, rfl, fun _ hid => hid, rfl, fun _ _ _ hr => hr, fun _ hid => Or.inl hid⟩

theorem Allocated.trans {α β : Type} {a : Allocation α} {b : Allocation β}
    (ha : Allocated host pr dom K D s a) (hb : Allocated host pr dom K a.domain a.sched b) :
    Allocated host pr dom K D s b where
  inv := hb.inv
  domain_eq := by
    rw [hb.domain_eq, ha.domain_eq]
  subset _ hid := hb.subset (ha.subset hid)
  domainMap_eq := hb.domainMap_eq.trans ha.domainMap_eq
  kept c l id hr := hb.kept c l id (ha.kept c l id hr)
  gained id hid := by
    rcases hb.gained id hid with hid | hr
    · rcases ha.gained id hid with hid | ⟨c, l, hr⟩
      · exact Or.inl hid
      · exact Or.inr ⟨c, l, hb.kept c l id hr⟩
    · exact Or.inr hr

/-- Another result for the same allocation. -/
theorem Allocated.map {α β : Type} {a : Allocation α} (h : Allocated host pr dom K D s a) (r : β) :
    Allocated host pr dom K D s ⟨a.sched, a.domain, r⟩ :=
  ⟨h.inv, h.domain_eq, h.subset, h.domainMap_eq, h.kept, h.gained⟩

theorem records_bindGroup (available : List Bool) (g : VmGroup) (D : VmDomain)
    (hr : s.Records host c l id) : (bindGroup available g D s).sched.Records host c l id := by
  obtain ⟨hc, hdepth, hmem⟩ := hr
  refine ⟨hc, hdepth, ?_⟩
  by_cases hat : c.id = g.clusterId ∧ l = g.layerId
  · rw [hat.1, hat.2] at hmem ⊢
    rw [bindGroup_layers_self]
    exact mem_setInsert.mpr (Or.inr hmem)
  · rw [bindGroup_layers_of_ne _ _ _ _ hat]
    exact hmem

theorem allocated_allocGroupFromCluster (h : Inv host pr s (Function.update dom K (some D)))
    (hK : K = domainKeyOf D.uuid D.numaId) (hc : c ∈ host.clusters D.numaId)
    (hl : l < s.overProvision D.numaId) (nr : ℕ) :
    Allocated host pr dom K D s (allocGroupFromCluster host nr l D c s) := by
  simp only [allocGroupFromCluster]
  generalize hfound : (if (s.layers c.id l).total ≤ nr ∧ (s.layers c.id l).total =
    (s.layers c.id l).idle then (findFirstIdlePos (availableCpuMap host D c (s.layers c.id l)) 0
      (s.layers c.id l).total, (s.layers c.id l).total)
    else if nr ≤ (s.layers c.id l).idle then
      (findFirstIdlePos (availableCpuMap host D c (s.layers c.id l)) 0 nr, nr)
    else ((-1 : ℤ), 0)) = found
  split
  · exact .refl h 0
  · next hne =>
    have hstart : findFirstIdlePos (availableCpuMap host D c (s.layers c.id l)) 0 found.2 =
        found.1 := by
      rw [← hfound] at hne ⊢
      split
      · rfl
      · next hcond =>
        rw [if_neg hcond] at hne
        split
        · rfl
        · next hcond' => exact absurd (by rw [if_neg hcond']) hne
    have hdepth := Nat.lt_of_lt_of_le hl (h.linked.over_le_depth _)
    subst hK
    have hinv := h.bind (g := ⟨domainKeyOf D.uuid D.numaId, groupIdOf
      (domainKeyOf D.uuid D.numaId) c.id l, c.id, l, found.1, found.2,
      List.replicate host.clusterCpuNum false, []⟩) (Function.update_self _ _ _) rfl rfl hc rfl hl
      hstart hne rfl
    rw [Function.update_idem] at hinv
    refine ⟨hinv, rfl, fun id hid => mem_setInsert.mpr (Or.inr hid), rfl,
      fun c' l' id hr => records_bindGroup _ _ _ hr, fun id hid => ?_⟩
    rcases mem_setInsert.mp hid with rfl | hid
    · refine Or.inr ⟨c, l, ⟨_, hc⟩, hdepth, ?_⟩
      rw [bindGroup_layers_self]
      exact mem_setInsert.mpr (Or.inl rfl)
    · exact Or.inl hid

theorem allocated_allocInLayer (h : Inv host pr s (Function.update dom K (some D)))
    (hK : K = domainKeyOf D.uuid D.numaId) (hl : l < s.overProvision D.numaId) (nr : ℕ)
    {cs : List ClusterInfo} (hcs : ∀ c ∈ cs, c ∈ host.clusters D.numaId) :
    Allocated host pr dom K D s (allocInLayer host nr l D cs s) := by
  induction cs with
  | nil => exact .refl h 0
  | cons c cs ih =>
    have hrest := ih fun c' hc' => hcs c' (List.mem_cons_of_mem _ hc')
    rw [allocInLayer]
    split
    · exact hrest
    · simp only
      split
      · exact hrest
      · exact allocated_allocGroupFromCluster h hK (hcs c List.mem_cons_self) hl nr

theorem records_overProvisionUp (n : ℕ) (hr : s.Records host c l id) :
    (overProvisionUp host n s).Records host c l id := by
  obtain ⟨hc, hdepth, hmem⟩ := hr
  refine ⟨hc, ?_, ?_⟩
  · simp only [overProvisionUp]
    omega
  · simp only [overProvisionUp]
    rw [if_neg (by omega)]
    exact hmem

theorem allocated_allocInLayers (hK : K = domainKeyOf D.uuid D.numaId) (nr : ℕ) :
    ∀ (turns l : ℕ) {s : Sched}, Inv host pr s (Function.update dom K (some D)) →
      Allocated host pr dom K D s (allocInLayers host nr D turns l s) := by
  intro turns
  induction turns with
  | zero => exact fun l s h => .refl h 0
  | succ turns ih =>
    intro l s h
    rw [allocInLayers]
    split
    · next hl =>
      simp only
      split
      · exact allocated_allocInLayer h hK hl nr fun _ hc => hc
      · split
        · -- a layer is pushed, and the loop goes on with it
          have hup := ih (l + 1) (h.up (Nat.zero_lt_of_lt hl))
          exact ⟨hup.inv, hup.domain_eq, hup.subset, hup.domainMap_eq,
            fun c l id hr => hup.kept c l id (records_overProvisionUp _ hr), hup.gained⟩
        · exact ih (l + 1) h
    · exact .refl h 0

theorem allocated_allocLoop :
    ∀ (turns nr : ℕ) {D : VmDomain} {s : Sched}, K = domainKeyOf D.uuid D.numaId →
      Inv host pr s (Function.update dom K (some D)) →
      Allocated host pr dom K D s (allocLoop host turns nr D s) := by
  intro turns
  induction turns with
  | zero =>
    intro nr D s _ h
    cases nr with
    | zero => exact .refl h true
    | succ nr => exact .refl h false
  | succ turns ih =>
    intro nr D s hK h
    cases nr with
    | zero => exact .refl h true
    | succ nr =>
      have ha : Allocated host pr dom K D s (allocClusterGroupToDomain host (nr + 1) D s) :=
        allocated_allocInLayers hK (nr + 1) _ 0 h
      rw [allocLoop]
      split
      · exact ha.map false
      · have hkey : K = domainKeyOf (allocClusterGroupToDomain host (nr + 1) D s).domain.uuid
            (allocClusterGroupToDomain host (nr + 1) D s).domain.numaId := by
          rw [ha.domain_eq]
          exact hK
        exact ha.trans (ih _ hkey ha.inv)

/-- **`Alloc`.** A VM without threads needs no CPUs, so its key does not matter. -/
theorem allocated_alloc (h : Inv host pr s (Function.update dom K (some D)))
    (hK : K = domainKeyOf D.uuid D.numaId ∨ D.pidVcpuMap = []) :
    Allocated host pr dom K D s (alloc host D s) := by
  simp only [alloc]
  split
  · exact .refl h false
  split
  · exact .refl h true
  split
  · exact .refl h false
  rcases hK with hK | hnil
  · exact allocated_allocLoop _ _ hK h
  · rw [hnil, List.length_nil, Nat.zero_mul, Nat.zero_mod, allocLoop]
    exact .refl h true

/-! ## Freeing -/

theorem hasCluster_iff {n x : ℕ} :
    host.hasCluster n x = true ↔ ∃ c ∈ host.clusters n, c.id = x := by
  simp [Host.hasCluster]

theorem domainMap_free (D : VmDomain) (s : Sched) :
    (free host D s).sched.domainMap = s.domainMap := by
  refine List.foldlRecOn (motive := fun s' => s'.domainMap = s.domainMap) D.groups
    (freeGroup host D.numaId) rfl fun s' hs' id _ => ?_
  rw [freeGroup]
  split
  · exact hs'
  · split <;> exact hs'

/-- One group that the VM lists is freed. -/
theorem inv_freeGroup (h : Inv host pr s (Function.update dom K (some D))) (hid : id ∈ D.groups) :
    Inv host pr (freeGroup host D.numaId s id) (Function.update dom K (some (D.without id))) := by
  have hD := Function.update_self K (some D) dom
  obtain ⟨g, hg, hkey, c, hc, hcid⟩ := h.linked.listed K D hD id hid
  have hgid := (h.linked.keyed id g hg).1
  subst hgid hkey
  have hcluster : host.hasCluster D.numaId g.clusterId = true := hasCluster_iff.mpr ⟨c, hc, hcid⟩
  simp only [freeGroup, hg, hcluster, true_and]
  split
  · have hdrop := h.drop (o := none) hg hD (h.records_of_listed hD hid) nofun
    rw [Function.update_idem] at hdrop
    exact hdrop.frame _ _ _ _
  · next hlayer =>
    have hforget := h.forget (o := none) hg hD hid hlayer nofun
    rw [Function.update_idem] at hforget
    exact hforget

/-- **`Free`.** -/
theorem inv_free (h : Inv host pr s (Function.update dom K (some D))) :
    Inv host pr (free host D s).sched (Function.update dom K (some { D with groups := [] })) := by
  -- the VM as it lists the groups that are still to be freed
  have hloop : ∀ (ids : List Text) (s : Sched),
      Inv host pr s (Function.update dom K (some { D with groups := ids })) →
      Inv host pr (ids.foldl (freeGroup host D.numaId) s)
        (Function.update dom K (some { D with groups := [] })) := by
    intro ids
    induction ids with
    | nil => exact fun s h => h
    | cons id ids ih =>
      intro s h
      have hstep := inv_freeGroup h List.mem_cons_self
      rw [VmDomain.without] at hstep
      simp only [List.erase_cons_head] at hstep
      exact ih _ hstep
  exact hloop D.groups s h

/-! ## Threads -/

/-- Only the map of the threads and the outcomes change, and whether all of it is defined. -/
def Sched.OnlyThreads (s s' : Sched) : Prop :=
  ∃ entityMap outcomes undefined,
    s' = { s with entityMap := entityMap, outcomes := outcomes, undefined := undefined }

theorem Sched.OnlyThreads.refl (s : Sched) : s.OnlyThreads s :=
  ⟨s.entityMap, s.outcomes, s.undefined, rfl⟩

theorem Sched.OnlyThreads.trans {s s' s'' : Sched} (h : s.OnlyThreads s')
    (h' : s'.OnlyThreads s'') : s.OnlyThreads s'' := by
  obtain ⟨e, o, u, rfl⟩ := h
  obtain ⟨e', o', u', rfl⟩ := h'
  exact ⟨e', o', u', rfl⟩

theorem onlyThreads_setEntity (s : Sched) (pid : ℕ) (cpuIdx : Option ℤ) :
    s.OnlyThreads (s.setEntity pid cpuIdx) := ⟨_, s.outcomes, s.undefined, rfl⟩

theorem onlyThreads_writes (s : Sched) (bitSet : List Bool) (start size : ℕ) :
    s.OnlyThreads (s.writes bitSet start size) := ⟨s.entityMap, s.outcomes, _, rfl⟩

theorem onlyThreads_setVcpuAffinity (s : Sched) : s.OnlyThreads s.setVcpuAffinity.2 := by
  rw [Sched.setVcpuAffinity]
  split
  · exact .refl s
  · next rest _ => exact ⟨s.entityMap, rest, s.undefined, rfl⟩

theorem Inv.threads {s' : Sched} (h : Inv host pr s dom) (hs : s.OnlyThreads s') :
    Inv host pr s' dom := by
  obtain ⟨e, o, u, rfl⟩ := hs
  exact h.frame e o s.domainMap u

theorem onlyThreads_dropEntities (pids : List ℕ) (bits : List Bool) (s : Sched) :
    s.OnlyThreads (pids.foldl dropEntity (bits, s)).2 := by
  refine List.foldlRecOn (motive := fun r => s.OnlyThreads r.2) pids dropEntity
    (b := (bits, s)) (.refl s) ?_
  intro r hr pid _
  rw [dropEntity]
  split
  · exact hr
  · exact (hr.trans (onlyThreads_setEntity _ _ _)).trans (onlyThreads_writes _ _ _ _)

theorem domainMap_unassign (D : VmDomain) (s : Sched) :
    (unassign D s).domainMap = s.domainMap := by
  refine List.foldlRecOn (motive := fun s' => s'.domainMap = s.domainMap) D.groups
    unAssignGroup rfl fun s' hs' id _ => ?_
  rw [unAssignGroup]
  split
  · exact hs'
  · next g _ =>
    obtain ⟨e, o, u, heq⟩ := onlyThreads_dropEntities g.entityPids g.usedBitmap s'
    simp only [Sched.setGroup]
    rw [heq]
    exact hs'

/-- **`Unassign`.** -/
theorem inv_unassign (h : Inv host pr s dom) (D : VmDomain) : Inv host pr (unassign D s) dom := by
  rw [unassign]
  refine List.foldlRecOn (motive := fun s' => Inv host pr s' dom)
    D.groups unAssignGroup h fun s' h' id _ => ?_
  rw [unAssignGroup]
  split
  · exact h'
  · next g hg =>
    have hthreads := onlyThreads_dropEntities g.entityPids g.usedBitmap s'
    have hinv := h'.threads hthreads
    obtain ⟨e, o, u, heq⟩ := hthreads
    refine hinv.touch (g := g) ?_ ⟨rfl, rfl, rfl, rfl, rfl, rfl⟩
    rw [heq]
    exact hg

theorem groupAt_of_eq (hg : s.groupMap id = some g) : s.groupAt id = (g, s) := by
  rw [Sched.groupAt, hg]

/-- `AssignPidCpu`, over some of the groups that the VM lists. -/
theorem inv_assignPidCpu (hD : dom K = some D) (pid : ℕ) (ids : List Text)
    (hids : ∀ id ∈ ids, id ∈ D.groups) :
    ∀ {s : Sched}, Inv host pr s dom → Inv host pr (assignPidCpu host D pid ids s).2 dom ∧
      (assignPidCpu host D pid ids s).2.domainMap = s.domainMap := by
  induction ids with
  | nil => exact fun h => ⟨h, rfl⟩
  | cons id ids ih =>
    intro s h
    obtain ⟨g, hg, -⟩ := h.linked.listed K D hD id (hids id List.mem_cons_self)
    rw [assignPidCpu, groupAt_of_eq hg]
    simp only
    split
    · exact ih (fun id' hid' => hids id' (List.mem_cons_of_mem _ hid')) h
    · have hset := onlyThreads_setVcpuAffinity s
      split
      · have hthreads := hset.trans (onlyThreads_setEntity s.setVcpuAffinity.2 pid
          (some (findFirstIdlePos g.usedBitmap (uint16 g.start) host.granularity)))
        have hinv := h.threads hthreads
        obtain ⟨e, o, u, heq⟩ := hthreads
        refine ⟨hinv.touch (g := g) ?_ ⟨rfl, rfl, rfl, rfl, rfl, rfl⟩, ?_⟩
        · rw [heq]
          exact hg
        · simp only [Sched.setGroup]
          rw [heq]
      · refine ⟨h.threads hset, ?_⟩
        obtain ⟨e, o, u, heq⟩ := hset
        rw [heq]

/-- **`Assign`.** -/
theorem inv_assign (hD : dom K = some D) (h : Inv host pr s dom) :
    Inv host pr (assign host D s).2 dom ∧ (assign host D s).2.domainMap = s.domainMap := by
  rw [assign]
  refine List.foldlRecOn (motive := fun r => Inv host pr r.2 dom ∧ r.2.domainMap = s.domainMap)
    D.pidVcpuMap (assignStep host D) (b := (true, s)) ⟨h, rfl⟩ ?_
  rintro r ⟨h', hmap⟩ thread _
  rw [assignStep]
  split
  · exact ⟨h', hmap⟩
  · obtain ⟨hinv, hmap'⟩ := inv_assignPidCpu hD thread.1 D.groups (fun _ hid => hid) h'
    exact ⟨hinv, hmap'.trans hmap⟩

/-! ## Threads that are gone -/

/-- The VM as `CleanDyingPidByGroup` leaves it: it may list fewer groups. -/
structure Cleaned (host : Host) (pr : Promise) (dom : Text → Option VmDomain) (K : Text)
    (D : VmDomain) (s : Sched) (r : VmDomain × Sched) : Prop where
  inv : Inv host pr r.2 (Function.update dom K (some r.1))
  domain_eq : r.1 = { D with groups := r.1.groups }
  domainMap_eq : r.2.domainMap = s.domainMap

theorem cleanGroupPids_alike (D : VmDomain) (g : VmGroup) (s : Sched) :
    g.Alike (cleanGroupPids D g s).1 := ⟨rfl, rfl, rfl, rfl, rfl, rfl⟩

theorem onlyThreads_cleanGroupPids (D : VmDomain) (g : VmGroup) (s : Sched) :
    s.OnlyThreads (cleanGroupPids D g s).2 := onlyThreads_dropEntities _ _ s

theorem delGroupFromClusterLayer_alike {g' : VmGroup} (h : g.Alike g') :
    delGroupFromClusterLayer g' = delGroupFromClusterLayer g := by
  obtain ⟨-, hid, -, -, hstart, hnr⟩ := h
  funext layer
  rw [delGroupFromClusterLayer, delGroupFromClusterLayer, hid, hstart, hnr]

/-- One group that the VM lists: it is kept, or it has no threads and is removed. -/
theorem cleaned_cleanGroup (h : Inv host pr s (Function.update dom K (some D)))
    (hid : id ∈ D.groups) : Cleaned host pr dom K D s (cleanGroup host (D, s) id) ∧
      ((cleanGroup host (D, s) id).1 = D ∨ (cleanGroup host (D, s) id).1 = D.without id) := by
  have hD := Function.update_self K (some D) dom
  obtain ⟨g, hg, hkey, c, hc, hcid⟩ := h.linked.listed K D hD id hid
  have hgid := (h.linked.keyed id g hg).1
  subst hgid hkey
  have hcluster : host.hasCluster D.numaId g.clusterId = true := hasCluster_iff.mpr ⟨c, hc, hcid⟩
  have halike := cleanGroupPids_alike D g s
  have hthreads := onlyThreads_cleanGroupPids D g s
  have hinv := h.threads hthreads
  simp only [cleanGroup, hg, hcluster, Bool.true_eq_false, if_false]
  generalize (cleanGroupPids D g s).1 = g' at halike ⊢
  generalize (cleanGroupPids D g s).2 = s' at hthreads hinv ⊢
  have hg' : s'.groupMap g.id = some g := by
    obtain ⟨e, o, u, rfl⟩ := hthreads
    exact hg
  have hmap : s'.domainMap = s.domainMap := by
    obtain ⟨e, o, u, rfl⟩ := hthreads
    rfl
  have hgid' : g'.id = g.id := halike.2.1
  split
  · refine ⟨⟨?_, ?_, ?_⟩, Or.inr ?_⟩
    · simp only [delGroupFromDomain, hgid']
      rw [delGroupFromClusterLayer_alike halike, halike.2.2.1, halike.2.2.2.1]
      have ho : ∀ g₂, some g' = some g₂ → g.Alike g₂ := by
        intro g₂ hg₂
        cases hg₂
        exact halike
      split
      · have hdrop := hinv.drop hg' hD (hinv.records_of_listed hD hid) ho
        rw [Function.update_idem] at hdrop
        exact hdrop.frame _ _ _ true
      · next hlayer =>
        have hforget := hinv.forget hg' hD hid hlayer ho
        rw [Function.update_idem] at hforget
        exact hforget.frame _ _ _ true
    · rfl
    · split
      · exact hmap
      · exact hmap
    · simp only [delGroupFromDomain, hgid', VmDomain.without]
  · exact ⟨⟨hinv.touch hg' halike, rfl, hmap⟩, Or.inl rfl⟩

/-- **`CleanDyingPidByGroup`.** -/
theorem cleaned_cleanDyingPidByGroup (h : Inv host pr s (Function.update dom K (some D))) :
    Cleaned host pr dom K D s (cleanDyingPidByGroup host D s) := by
  -- the groups that are still to come are listed
  have hloop : ∀ (ids : List Text) (r : VmDomain × Sched), ids.Nodup →
      (∀ id ∈ ids, id ∈ r.1.groups) → Cleaned host pr dom K D s r →
      Cleaned host pr dom K D s (ids.foldl (cleanGroup host) r) := by
    intro ids
    induction ids with
    | nil => exact fun r _ _ hr => hr
    | cons id ids ih =>
      intro r hnodup hids hr
      obtain ⟨hnew, hnodup⟩ := List.nodup_cons.mp hnodup
      obtain ⟨hstep, hdomain⟩ := cleaned_cleanGroup hr.inv (hids id List.mem_cons_self)
      refine ih _ hnodup (fun id' hid' => ?_) ⟨hstep.inv, ?_, ?_⟩
      · have hlisted := hids id' (List.mem_cons_of_mem _ hid')
        rcases hdomain with heq | heq
        · rw [heq]
          exact hlisted
        · rw [heq]
          refine (List.mem_erase_of_ne ?_).mpr hlisted
          rintro rfl
          exact hnew hid'
      · rw [hstep.domain_eq, hr.domain_eq]
      · exact hstep.domainMap_eq.trans hr.domainMap_eq
  have hnodup := h.linked.listed_nodup K D (Function.update_self _ _ _)
  exact hloop D.groups (D, s) hnodup (fun _ hid => hid) ⟨h, rfl, rfl⟩

/-! ## The map of the VMs -/

/-- The VMs by their keys. -/
def Sched.vms (s : Sched) : Text → Option VmDomain := fun K => s.domainMap.lookup K

theorem lookup_insert_eq (m : AList fun _ : Text => VmDomain) (K : Text) (D : VmDomain) :
    (fun K' => (m.insert K D).lookup K') =
      Function.update (fun K' => m.lookup K') K (some D) := by
  funext K'
  by_cases hK : K' = K
  · subst hK
    rw [AList.lookup_insert, Function.update_self]
  · rw [AList.lookup_insert_ne hK, Function.update_of_ne hK]

theorem lookup_erase_eq (m : AList fun _ : Text => VmDomain) (K : Text) :
    (fun K' => (m.erase K).lookup K') = Function.update (fun K' => m.lookup K') K none := by
  funext K'
  by_cases hK : K' = K
  · subst hK
    rw [AList.lookup_erase, Function.update_self]
  · rw [AList.lookup_erase_ne hK, Function.update_of_ne hK]

/-- A VM that was worked on is stored. -/
theorem Inv.store {s' : Sched} (h : Inv host pr s' (Function.update s.vms K (some D)))
    (hmap : s'.domainMap = s.domainMap) :
    Inv host pr { s' with domainMap := s'.domainMap.insert K D }
      (Sched.vms { s' with domainMap := s'.domainMap.insert K D }) := by
  have hdom : Sched.vms { s' with domainMap := s'.domainMap.insert K D } =
      Function.update s.vms K (some D) := by
    change (fun K' => (s'.domainMap.insert K D).lookup K') =
      Function.update (fun K' => s.domainMap.lookup K') K (some D)
    rw [← hmap]
    exact lookup_insert_eq _ _ _
  rw [hdom]
  exact h.frame _ _ _ _

/-- A VM without groups is erased. -/
theorem Inv.erase {s' : Sched} (h : Inv host pr s' (Function.update s.vms K (some D)))
    (hmap : s'.domainMap = s.domainMap) (hnil : D.groups = []) :
    Inv host pr { s' with domainMap := s'.domainMap.erase K }
      (Sched.vms { s' with domainMap := s'.domainMap.erase K }) := by
  have hdom : Sched.vms { s' with domainMap := s'.domainMap.erase K } =
      Function.update s.vms K none := by
    change (fun K' => (s'.domainMap.erase K).lookup K') =
      Function.update (fun K' => s.domainMap.lookup K') K none
    rw [← hmap]
    exact lookup_erase_eq _ _
  rw [hdom]
  exact (h.remove fun _ => hnil).frame _ _ _ _

theorem update_vms_self (hD : s.domainMap.lookup K = some D) :
    Function.update s.vms K (some D) = s.vms := by
  rw [← hD]
  exact Function.update_eq_self K s.vms

theorem inv_cleanDomain (h : Inv host pr s s.vms) (running : List Text) (K : Text) :
    Inv host pr (cleanDomain host running s K) (cleanDomain host running s K).vms := by
  rw [cleanDomain]
  split
  · exact h
  · next D hD =>
    rw [← update_vms_self hD] at h
    have hclean := cleaned_cleanDyingPidByGroup h
    generalize cleanDyingPidByGroup host D s = r at hclean ⊢
    simp only
    split
    · next hgone => exact hclean.inv.erase hclean.domainMap_eq hgone.2
    · exact hclean.inv.store hclean.domainMap_eq

/-- **`CleanDyingPid`.** -/
theorem inv_cleanDyingPid (h : Inv host pr s s.vms) (running : List Text) :
    Inv host pr (cleanDyingPid host running s) (cleanDyingPid host running s).vms :=
  List.foldlRecOn (motive := fun s' => Inv host pr s' s'.vms) s.domainMap.keys
    (cleanDomain host running) h fun _ hs K _ => inv_cleanDomain hs running K

/-! ## A group moves -/

/-- What moving a group from `source` in layer `l` to `cluster` in layer `l'` leaves. -/
structure Moved (host : Host) (pr : Promise) (cluster source : ClusterInfo) (l' l : ℕ) (id : Text)
    (s s' : Sched) : Prop where
  inv : Inv host pr s' s'.vms
  depth_eq : s'.depth = s.depth
  over_eq : s'.overProvision = s.overProvision
  proper : s'.AllProper → s.AllProper
  other : ∀ x y, ¬ (x = cluster.id ∧ y = l') → ¬ (x = source.id ∧ y = l) →
    s'.layers x y = s.layers x y
  source_groups : ∀ id' ∈ (s.layers source.id l).groups, id' ≠ id →
    id' ∈ (s'.layers source.id l).groups

theorem onlyThreads_migrateEntities (shift : ℤ) (pids : List ℕ) :
    ∀ (backup : List (ℕ × ℤ)) (s : Sched),
      s.OnlyThreads (migrateEntities shift pids backup s).2 := by
  induction pids with
  | nil => exact fun _ s => .refl s
  | cons pid pids ih =>
    intro backup s
    rw [migrateEntities]
    split
    · exact .refl s
    · next cpuIdx _ =>
      have hset := (onlyThreads_setEntity s pid (some (cpuIdx + shift))).trans
        (onlyThreads_setVcpuAffinity _)
      simp only
      split
      · exact hset.trans (ih _ _)
      · -- the rollback
        refine List.foldlRecOn (motive := fun s' => s.OnlyThreads s') backup _ hset ?_
        exact fun _ hs old _ => hs.trans (onlyThreads_setEntity _ _ _)

/-- CPUs are found for a VM only if it may use some. -/
theorem commonCpuMap_ne_nil {layer : ClusterLayer} {size : ℕ}
    (h : findFirstIdlePos (availableCpuMap host D c layer) 0 size ≠ -1) : D.commonCpuMap ≠ [] := by
  obtain ⟨p, -, hp, -⟩ :=
    findFirstIdlePos_first (length_availableCpuMap D c layer ▸ host.clusterCpuNum_lt) h
  intro hnil
  have hbit := getElem?_cpuMap_of_available hp
  rw [hnil] at hbit
  exact absurd hbit (by simp)

/-- The VM of a group that is looked up and was not there: it is created, with nothing. -/
theorem inv_touchDomain (h : Inv host pr s s.vms) (hrec : s.Records host c l id)
    (hg : s.groupMap id = some g) :
    Inv host pr (s.touchDomain g.domainKey).2 (s.touchDomain g.domainKey).2.vms := by
  rw [Sched.touchDomain]
  split
  · exact h
  · next hnone =>
    have hnot : ¬ pr.own := by
      intro hown
      obtain ⟨D, hD, -⟩ := h.linked.owned hown c l id g hrec hg
      exact absurd (hnone.symm.trans hD) (by simp)
    exact Inv.store (s := s) (h.enter (fun _ => hnone) rfl (Or.inr ⟨hnot, rfl, rfl⟩)) rfl

/-- What stays when a VM is looked up. -/
theorem touchDomain_frame (s : Sched) (K : Text) :
    ∃ domainMap, (s.touchDomain K).2 = { s with domainMap := domainMap } := by
  rw [Sched.touchDomain]
  split
  · exact ⟨s.domainMap, rfl⟩
  · exact ⟨_, rfl⟩

theorem lookup_touchDomain (s : Sched) (K : Text) :
    (s.touchDomain K).2.domainMap.lookup K = some (s.touchDomain K).1 := by
  rw [Sched.touchDomain]
  split
  · next hD => exact hD
  · exact AList.lookup_insert _

/-- The group is moved for good: it leaves one layer and is bound to the other. -/
theorem moved_bind (h : Inv host pr s s.vms) {cluster source : ClusterInfo} {n l' l : ℕ}
    (hcluster : cluster ∈ host.clusters n) (hsource : source ∈ host.clusters n)
    (hlayer : l' < s.overProvision n) (hdepth : l < s.depth)
    (hne : ¬ (cluster.id = source.id ∧ l' = l)) (hid : g.id ∈ (s.layers source.id l).groups)
    (hg : s.groupMap g.id = some g) (hD : s.domainMap.lookup g.domainKey = some D)
    {start : ℤ} {available : List Bool}
    (havailable : available = availableCpuMap host D cluster (s.layers cluster.id l'))
    (hstart : start = findFirstIdlePos available 0 g.nrCpus) (hfound : start ≠ -1)
    {s' : Sched}
    (hs' : (s.updateLayer source.id l (delGroupFromClusterLayer g)).OnlyThreads s') :
    let a := bindGroup available (g.movedTo host start cluster l')
      { D with groups := D.groups.erase g.id } (s'.setGroup g.id none)
    Moved host pr cluster source l' l g.id s
      { a.sched with domainMap := a.sched.domainMap.insert g.domainKey a.domain } := by
  have hrec : s.Records host source l g.id := ⟨⟨n, hsource⟩, hdepth, hid⟩
  obtain ⟨g₁, hg₁, hcid, hlid⟩ := h.linked.recorded source l g.id hrec
  rw [hg, Option.some.injEq] at hg₁
  subst hg₁
  -- the VM is of this node
  have hcpus := commonCpuMap_ne_nil (havailable ▸ hstart ▸ hfound)
  have hkey : g.domainKey = domainKeyOf D.uuid D.numaId :=
    (h.linked.key g.domainKey D hD).resolve_right fun ⟨_, _, _, hnil⟩ => hcpus hnil
  obtain ⟨uuid, n', hn', hhome⟩ := h.linked.homed source l g.id g hrec hg
  have hnuma : D.numaId = n := by
    rw [hkey] at hhome
    rw [(domainKeyOf_inj hhome).2]
    exact (host.cluster_unique n' source n source hn' hsource rfl).1
  -- it leaves its layer
  have hdrop := h.drop (o := none) hg hD (fun _ => ⟨source, l, hrec⟩) nofun
  rw [hcid, hlid] at hdrop
  obtain ⟨e, o, u, rfl⟩ := hs'
  have hdrop := hdrop.frame e o s.domainMap u
  -- and is bound to the other one
  have hsame : available = availableCpuMap host (D.without g.id) cluster
      ((s.updateLayer source.id l (delGroupFromClusterLayer g)).layers cluster.id l') := by
    rw [layers_updateLayer_of_ne _ _ hne]
    exact havailable
  have hbind := hdrop.bind (g := g.movedTo host start cluster l') (Function.update_self _ _ _)
    hkey rfl (hnuma ▸ hcluster) rfl (hnuma ▸ hlayer) hstart.symm hfound hsame
  rw [show (g.movedTo host start cluster l').domainKey = g.domainKey from rfl,
    Function.update_idem] at hbind
  -- apart from the layer it moves to, the layers are those without the group
  have hlayers : ∀ x y, ¬ (x = cluster.id ∧ y = l') →
      (bindGroup available (g.movedTo host start cluster l') (D.without g.id)
        (Sched.setGroup { s.updateLayer source.id l (delGroupFromClusterLayer g) with
          entityMap := e, outcomes := o, undefined := u } g.id none)).sched.layers x y =
        (s.updateLayer source.id l (delGroupFromClusterLayer g)).layers x y :=
    fun x y hx => bindGroup_layers_of_ne _ _ _ _ hx
  refine ⟨Inv.store (s := s) hbind rfl, rfl, rfl, fun hproper p hp => ?_, fun x y hx hy => ?_,
    fun id' hid' hne' => ?_⟩
  · exact hproper p (List.mem_cons_of_mem _ hp)
  · exact (hlayers x y hx).trans (layers_updateLayer_of_ne _ _ hy)
  · have hmem : id' ∈ (delGroupFromClusterLayer g (s.layers source.id l)).groups :=
      (List.mem_erase_of_ne hne').mpr hid'
    have hlayer := (hlayers source.id l fun hat => hne ⟨hat.1.symm, hat.2.symm⟩).trans
      (layers_updateLayer_self s (delGroupFromClusterLayer g) source.id l)
    rw [← hlayer] at hmem
    exact hmem

/-- The group is put back. -/
theorem moved_refill (h : Inv host pr s s.vms) (cluster : ClusterInfo) {source : ClusterInfo}
    {n l : ℕ} (l' : ℕ) (hsource : source ∈ host.clusters n) (hdepth : l < s.depth)
    (hid : g.id ∈ (s.layers source.id l).groups) (hg : s.groupMap g.id = some g)
    {s' : Sched}
    (hs' : (s.updateLayer source.id l (delGroupFromClusterLayer g)).OnlyThreads s') :
    Moved host pr cluster source l' l g.id s
      (s'.updateLayer source.id l (addGroupToClusterLayer g)) := by
  have hrefill := h.refill hg ⟨⟨n, hsource⟩, hdepth, hid⟩
  obtain ⟨e, o, u, rfl⟩ := hs'
  refine ⟨hrefill.frame e o s.domainMap u, rfl, rfl, fun hproper => hproper, fun x y _ hy => ?_,
    fun id' hid' hne' => ?_⟩
  · rw [layers_updateLayer_of_ne _ _ hy]
    exact layers_updateLayer_of_ne _ _ hy
  · rw [layers_updateLayer_self]
    change id' ∈ (addGroupToClusterLayer g ((s.updateLayer source.id l
      (delGroupFromClusterLayer g)).layers source.id l)).groups
    rw [layers_updateLayer_self]
    exact mem_setInsert.mpr (Or.inr ((List.mem_erase_of_ne hne').mpr hid'))

/-- **A group moves**, or stays where it is. -/
theorem moved_moveGroup (h : Inv host pr s s.vms) {cluster source : ClusterInfo} {n l' l : ℕ}
    (hcluster : cluster ∈ host.clusters n) (hsource : source ∈ host.clusters n)
    (hlayer : l' < s.overProvision n) (hdepth : l < s.depth)
    (hne : ¬ (cluster.id = source.id ∧ l' = l)) (hid : id ∈ (s.layers source.id l).groups)
    (hg : s.groupMap id = some g) (down : Bool) :
    Moved host pr cluster source l' l id s
      (moveGroup host down cluster l' source.id l id g s) := by
  have hgid := (h.linked.keyed id g hg).1
  subst hgid
  have htouch := inv_touchDomain h ⟨⟨n, hsource⟩, hdepth, hid⟩ hg
  obtain ⟨m, hframe⟩ := touchDomain_frame s g.domainKey
  have hD := lookup_touchDomain s g.domainKey
  rw [moveGroup]
  generalize s.touchDomain g.domainKey = t at htouch hframe hD ⊢
  obtain ⟨D, s₁⟩ := t
  simp only at hframe htouch hD ⊢
  subst hframe
  -- what holds after looking up the VM carries over, since only the map of the VMs has changed
  suffices hmoved : ∀ s', Moved host pr cluster source l' l g.id { s with domainMap := m } s' →
      Moved host pr cluster source l' l g.id s s' by
    refine hmoved _ ?_
    split
    · exact ⟨htouch, rfl, rfl, fun hp => hp, fun _ _ _ _ => rfl, fun _ hid' _ => hid'⟩
    · next hgo =>
      rw [not_or] at hgo
      have hthreads := onlyThreads_migrateEntities
        (findFirstIdlePos (availableCpuMap host D cluster (s.layers cluster.id l')) 0 g.nrCpus -
          g.start) g.entityPids []
        (Sched.updateLayer { s with domainMap := m } source.id l (delGroupFromClusterLayer g))
      split
      · next s' heq =>
        rw [heq] at hthreads
        exact moved_refill htouch cluster l' hsource hdepth hid hg
          (hthreads.trans (onlyThreads_writes _ _ _ _))
      · next s' heq =>
        rw [heq] at hthreads
        exact moved_bind htouch hcluster hsource hlayer hdepth hne hid hg hD rfl rfl hgo.1
          (hthreads.trans (onlyThreads_writes _ _ _ _))
  exact fun s' hs' =>
    ⟨hs'.inv, hs'.depth_eq, hs'.over_eq, hs'.proper, hs'.other, hs'.source_groups⟩

/-! ## Compaction -/

/-- What moving groups out of layer `l` of `source` leaves: apart from that layer and the one the
groups go to, the layers are the same. -/
structure Drained (host : Host) (pr : Promise) (cluster source : ClusterInfo) (l' l : ℕ)
    (s s' : Sched) : Prop where
  inv : Inv host pr s' s'.vms
  depth_eq : s'.depth = s.depth
  over_eq : s'.overProvision = s.overProvision
  proper : s'.AllProper → s.AllProper
  other : ∀ x y, ¬ (x = cluster.id ∧ y = l') → ¬ (x = source.id ∧ y = l) →
    s'.layers x y = s.layers x y

/-- A loop that moves groups of a layer, each of which is in the layer at the start. -/
theorem drained_foldl (down : Bool) {cluster source : ClusterInfo} {n l' l : ℕ}
    {f : Sched → Text → Sched}
    (hf : ∀ s id g, s.groupMap id = some g →
      f s id = moveGroup host down cluster l' source.id l id g s)
    (hcluster : cluster ∈ host.clusters n) (hsource : source ∈ host.clusters n)
    (hne : ¬ (cluster.id = source.id ∧ l' = l)) :
    ∀ (ids : List Text) {s : Sched}, ids.Nodup → (∀ id ∈ ids, id ∈ (s.layers source.id l).groups) →
      Inv host pr s s.vms → l' < s.overProvision n → l < s.depth →
      Drained host pr cluster source l' l s (ids.foldl f s) := by
  intro ids
  induction ids with
  | nil => exact fun _ _ h _ _ => ⟨h, rfl, rfl, fun hp => hp, fun _ _ _ _ => rfl⟩
  | cons id ids ih =>
    intro s hnodup hids h hlayer hdepth
    obtain ⟨hnew, hnodup⟩ := List.nodup_cons.mp hnodup
    have hid := hids id List.mem_cons_self
    obtain ⟨g, hg, -⟩ := h.linked.recorded source l id ⟨⟨n, hsource⟩, hdepth, hid⟩
    have hmoved := moved_moveGroup h hcluster hsource hlayer hdepth hne hid hg down
    rw [← hf s id g hg] at hmoved
    have hrest := ih hnodup (fun id' hid' => hmoved.source_groups id'
        (hids id' (List.mem_cons_of_mem _ hid')) (by rintro rfl; exact hnew hid'))
      hmoved.inv (hmoved.over_eq ▸ hlayer) (hmoved.depth_eq ▸ hdepth)
    exact ⟨hrest.inv, hrest.depth_eq.trans hmoved.depth_eq, hrest.over_eq.trans hmoved.over_eq,
      fun hp => hmoved.proper (hrest.proper hp),
      fun x y hx hy => (hrest.other x y hx hy).trans (hmoved.other x y hx hy)⟩

/-- **`CompactionGroupWithinCluster`.** -/
theorem drained_compactionGroupWithinCluster {cluster next : ClusterInfo} {n : ℕ}
    (h : Inv host pr s s.vms) (hcluster : cluster ∈ host.clusters n)
    (hnext : next ∈ host.clusters n) (hne : cluster ≠ next) (hl : l < s.overProvision n) :
    Drained host pr cluster next l l s (compactionGroupWithinCluster host cluster next l s) := by
  have hids : ¬ (cluster.id = next.id ∧ l = l) :=
    fun hat => hne (host.cluster_unique n cluster n next hcluster hnext hat.1).2
  refine drained_foldl false (fun s id g hg => ?_) hcluster hnext hids _
    (h.linked.recorded_nodup _ _) (fun _ hid => hid) h hl
    (Nat.lt_of_lt_of_le hl (h.linked.over_le_depth n))
  simp only [hg]

theorem drained_compactionFromLastCluster {cluster lastCluster : ClusterInfo} {n last : ℕ}
    (h : Inv host pr s s.vms) (hcluster : cluster ∈ host.clusters n)
    (hlast : lastCluster ∈ host.clusters n) (hne : l ≠ last) (hl : l < s.overProvision n)
    (hdepth : last < s.depth) :
    Drained host pr cluster lastCluster l last s
      (compactionFromLastCluster host cluster l last lastCluster.id s) := by
  refine drained_foldl true (fun s id g hg => ?_) hcluster hlast (fun hat => hne hat.2) _
    (h.linked.recorded_nodup _ _) (fun _ hid => hid) h hl hdepth
  simp only [groupAt_of_eq hg]

/-- The loop over the last layers, after the clusters `done`: if all of them were counted, none of
them has a group in its last layer. -/
structure LastLayers (host : Host) (pr : Promise) (last : ℕ) (s : Sched) (done : List ClusterInfo)
    (r : ℕ × Sched) : Prop where
  inv : Inv host pr r.2 r.2.vms
  depth_eq : r.2.depth = s.depth
  over_eq : r.2.overProvision = s.overProvision
  count_le : r.1 ≤ done.length
  empty : r.2.AllProper → r.1 = done.length → ∀ c ∈ done, (r.2.layers c.id last).groups = []

theorem groups_of_isEmptyLayer {n : ℕ} (h : Inv host pr s s.vms) (hproper : s.AllProper)
    (hc : c ∈ host.clusters n) (hdepth : l < s.depth) (hempty : s.isEmptyLayer c.id l = true) :
    (s.layers c.id l).groups = [] :=
  ((h.exact hproper).layer n c l hc hdepth).groups_eq_nil hc (beq_iff_eq.mp hempty)

theorem lastLayers_lastLayerStep {cluster lastCluster : ClusterInfo} {n last : ℕ}
    {done : List ClusterInfo} {r : ℕ × Sched} (hr : LastLayers host pr last s done r)
    (hcluster : cluster ∈ host.clusters n) (hlast : lastCluster ∈ host.clusters n)
    (hdone : ∀ c ∈ done, c ∈ host.clusters n ∧ c ≠ lastCluster) (hne : l ≠ last)
    (hl : l < s.overProvision n) (hdepth : last < s.depth) :
    LastLayers host pr last s (done ++ [lastCluster])
      (lastLayerStep host cluster l last r lastCluster) := by
  have hcount := hr.count_le
  have hlength : (done ++ [lastCluster]).length = done.length + 1 := by simp
  rw [lastLayerStep]
  split
  · next hempty =>
    refine ⟨hr.inv, hr.depth_eq, hr.over_eq, by rw [hlength]; omega, fun hproper heq c hc => ?_⟩
    rw [hlength] at heq
    rcases List.mem_append.mp hc with hc | hc
    · exact hr.empty hproper (by omega) c hc
    · rw [List.mem_singleton.mp hc]
      exact groups_of_isEmptyLayer hr.inv hproper hlast (hr.depth_eq ▸ hdepth) hempty
  · have hdrain := drained_compactionFromLastCluster hr.inv hcluster hlast hne (hr.over_eq ▸ hl)
      (hr.depth_eq ▸ hdepth)
    simp only
    refine ⟨hdrain.inv, hdrain.depth_eq.trans hr.depth_eq, hdrain.over_eq.trans hr.over_eq, ?_,
      fun hproper heq c hc => ?_⟩
    · rw [hlength]
      split <;> omega
    · rw [hlength] at heq
      split at heq
      · next hempty =>
        rcases List.mem_append.mp hc with hc | hc
        · -- the cluster was done before, and this turn left its last layer alone
          obtain ⟨hcn, hcne⟩ := hdone c hc
          rw [hdrain.other c.id last (fun hat => hne hat.2.symm) fun hat =>
            hcne (host.cluster_unique n c n lastCluster hcn hlast hat.1).2]
          exact hr.empty (hdrain.proper hproper) (by omega) c hc
        · rw [List.mem_singleton.mp hc]
          refine groups_of_isEmptyLayer hdrain.inv hproper hlast ?_ hempty
          rw [hdrain.depth_eq, hr.depth_eq]
          exact hdepth
      · omega

theorem lastLayers_foldl {cluster : ClusterInfo} {n last : ℕ}
    (hcluster : cluster ∈ host.clusters n) (hne : l ≠ last) (hl : l < s.overProvision n)
    (hdepth : last < s.depth) :
    ∀ (cs done : List ClusterInfo) {r : ℕ × Sched}, done ++ cs = host.clusters n →
      LastLayers host pr last s done r →
      LastLayers host pr last s (host.clusters n)
        (cs.foldl (lastLayerStep host cluster l last) r) := by
  intro cs
  induction cs with
  | nil =>
    intro done r heq hr
    rw [List.append_nil] at heq
    rw [← heq]
    exact hr
  | cons c cs ih =>
    intro done r heq hr
    have hnodup := host.clusters_nodup n
    rw [← heq] at hnodup
    have hmem : ∀ c', c' ∈ done ∨ c' ∈ c :: cs → c' ∈ host.clusters n := by
      intro c' hc'
      rw [← heq]
      exact List.mem_append.mpr hc'
    refine ih (done ++ [c]) (by rw [List.append_assoc]; exact heq)
      (lastLayers_lastLayerStep hr hcluster (hmem c (Or.inr List.mem_cons_self)) ?_ hne hl hdepth)
    intro c' hc'
    refine ⟨hmem c' (Or.inl hc'), ?_⟩
    rintro rfl
    exact List.disjoint_of_nodup_append hnodup hc' List.mem_cons_self

/-- **`CompactionGroupFromLastLayer`.** The layer that is compacted stays in use. -/
theorem inv_compactionGroupFromLastLayer {cluster : ClusterInfo} {n : ℕ} (h : Inv host pr s s.vms)
    (hcluster : cluster ∈ host.clusters n) (hl : l < s.overProvision n)
    (hne : l + 1 ≠ s.overProvision n) :
    Inv host pr (compactionGroupFromLastLayer host n cluster l s)
        (compactionGroupFromLastLayer host n cluster l s).vms ∧
      l < (compactionGroupFromLastLayer host n cluster l s).overProvision n := by
  have hover := h.linked.over_le_depth n
  have hlast : LastLayers host pr (s.overProvision n - 1) s (host.clusters n) _ :=
    lastLayers_foldl hcluster (by omega) hl (by omega) (host.clusters n) [] (r := (0, s)) rfl
    ⟨h, rfl, rfl, Nat.zero_le _, fun _ _ c hc => absurd hc List.not_mem_nil⟩
  rw [compactionGroupFromLastLayer]
  generalize (host.clusters n).foldl (lastLayerStep host cluster l (s.overProvision n - 1)) (0, s) =
    r at hlast ⊢
  have hsame : r.2.overProvision n = s.overProvision n := by rw [hlast.over_eq]
  split
  · next hall =>
    refine ⟨hlast.inv.down (by omega) fun hproper c hc => ?_, ?_⟩
    · rw [hsame]
      exact hlast.empty hproper hall c hc
    · simp only [overProvisionDown, Function.update_self]
      omega
  · exact ⟨hlast.inv, by omega⟩

theorem inv_compactionFromNext {n : ℕ} {cs : List ClusterInfo} (h : Inv host pr s s.vms)
    (hcs : ∀ c' ∈ c :: cs, c' ∈ host.clusters n) (hnew : c ∉ cs) (hl : l < s.overProvision n) :
    Inv host pr (compactionFromNext host c cs l s) (compactionFromNext host c cs l s).vms ∧
      l < (compactionFromNext host c cs l s).overProvision n := by
  cases cs with
  | nil =>
    simp only [compactionFromNext, ite_self]
    exact ⟨h, hl⟩
  | cons next rest =>
    rw [compactionFromNext]
    split
    · exact ⟨h, hl⟩
    · have hdrain := drained_compactionGroupWithinCluster h (hcs c List.mem_cons_self)
        (hcs next (List.mem_cons_of_mem _ List.mem_cons_self))
        (fun heq => hnew (heq ▸ List.mem_cons_self)) hl
      exact ⟨hdrain.inv, hdrain.over_eq ▸ hl⟩

/-- **`CompactionClusterOneLayer`.** -/
theorem inv_compactionClusterOneLayer {n : ℕ} :
    ∀ (cs : List ClusterInfo) {s : Sched}, cs.Nodup → (∀ c ∈ cs, c ∈ host.clusters n) →
      Inv host pr s s.vms → l < s.overProvision n →
      Inv host pr (compactionClusterOneLayer host n l cs s)
        (compactionClusterOneLayer host n l cs s).vms := by
  intro cs
  induction cs with
  | nil => exact fun _ _ h _ => h
  | cons c cs ih =>
    intro s hnodup hcs h hl
    obtain ⟨hnew, hnodup⟩ := List.nodup_cons.mp hnodup
    have hc := hcs c List.mem_cons_self
    have hrest := fun c' hc' => hcs c' (List.mem_cons_of_mem _ hc')
    rw [compactionClusterOneLayer]
    split
    · exact ih hnodup hrest h hl
    · -- groups of the next cluster, then groups of the last layer
      obtain ⟨hinv, hl'⟩ := inv_compactionFromNext h hcs hnew hl
      generalize compactionFromNext host c cs l s = s' at hinv hl' ⊢
      simp only
      split
      · exact ih hnodup hrest hinv hl'
      · next hne =>
        obtain ⟨hinv, hl'⟩ := inv_compactionGroupFromLastLayer hinv hc hl' hne
        exact ih hnodup hrest hinv hl'

/-- **`ClusterCompactionWithoutLock`.** -/
theorem inv_clusterCompactionWithoutLock (h : Inv host pr s s.vms) (running : List Text) :
    Inv host pr (clusterCompactionWithoutLock host running s)
      (clusterCompactionWithoutLock host running s).vms := by
  rw [clusterCompactionWithoutLock]
  refine List.foldlRecOn (motive := fun s' => Inv host pr s' s'.vms) host.numas
    (compactionCluster host) (inv_cleanDyingPid h running) fun s' hs' n _ => ?_
  rw [compactionCluster]
  refine List.foldlRecOn (motive := fun s'' => Inv host pr s'' s''.vms) _ _ hs'
    fun s'' hs'' l _ => ?_
  split
  · next hl =>
    exact inv_compactionClusterOneLayer _ (host.clusters_nodup n) (fun _ hc => hc) hs'' hl
  · exact hs''

end YellowZone.ClusterSched
