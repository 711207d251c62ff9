import YellowZone.ClusterSched.Calls

/-!
# A group that could not be moved

Compaction takes a group out of its layer, pins its threads to their new CPUs one after the other
and enters the group in the other layer. If a thread cannot be pinned, `GroupEntityMigrate` gives
the threads before it their old CPU index back, and the loop puts the group back into its layer.

The thread whose pinning failed is forgotten. Its index has been overwritten before the attempt,
and the list of old indices gets its entry only after it. So the thread keeps the index of the CPU
it has not been moved to, and the next compaction adds to that.

The maps are consistent in the sense of `Books`, with every group owned by its VM; and the sets of
groups are in order, and the threads of a group are known.

## Main results

* `MapsConsistent` — the maps agree with each other
* `migrateEntities_failed` — the one index that a failed migration leaves changed
* `failed_migration_restores_iff` — the maps are restored exactly if the group would have kept its
  first CPU index
* `failed_migration_moves_index` — a run that leaves a wrong index
-/

namespace YellowZone.ClusterSched

open Machine

/-- **The maps agree with each other.** -/
structure MapsConsistent (host : Host) (s : Sched) : Prop where
  linked : Linked host ⟨True, fun _ => False⟩ s s.vms
  exact : Exact host s s.vms
  sorted : ∀ n, ∀ c ∈ host.clusters n, ∀ l < s.depth,
    (s.layers c.id l).groups.Pairwise fun id id' => ¬ id' < id
  threads_nodup : ∀ c l id g, s.Records host c l id → s.groupMap id = some g → g.entityPids.Nodup
  threads_known : ∀ c l id g, s.Records host c l id → s.groupMap id = some g →
    ∀ pid ∈ g.entityPids, (s.entityMap pid).isSome = true

/-- The entities, groups, VMs and layers of two states are the same. -/
structure Sched.SameBooks (s s' : Sched) : Prop where
  entityMap_eq : s'.entityMap = s.entityMap
  groupMap_eq : s'.groupMap = s.groupMap
  domainMap_eq : s'.domainMap = s.domainMap
  layers_eq : s'.layers = s.layers
  depth_eq : s'.depth = s.depth

/-! ## The indices -/

/-- The map with old indices put back. -/
def restored (backup : List (ℕ × ℤ)) (m : ℕ → Option ℤ) : ℕ → Option ℤ :=
  backup.foldl (fun m old => Function.update m old.1 (some old.2)) m

theorem entityMap_foldl_setEntity (backup : List (ℕ × ℤ)) (s : Sched) :
    (backup.foldl (fun s old => s.setEntity old.1 (some old.2)) s).entityMap =
      restored backup s.entityMap := by
  induction backup generalizing s with
  | nil => rfl
  | cons old backup ih => exact ih _

@[simp] theorem entityMap_setVcpuAffinity (s : Sched) :
    s.setVcpuAffinity.2.entityMap = s.entityMap := by
  rw [Sched.setVcpuAffinity]
  split <;> rfl

/-- **One index stays changed**: that of the thread at which the migration failed. -/
theorem migrateEntities_failed (shift : ℤ) {pids : List ℕ} {backup : List (ℕ × ℤ)} {s : Sched}
    (hnodup : pids.Nodup) (hknown : ∀ pid ∈ pids, (s.entityMap pid).isSome = true)
    (hfail : (migrateEntities shift pids backup s).1 = false) :
    ∃ pid ∈ pids, ∃ cpuIdx, s.entityMap pid = some cpuIdx ∧
      (migrateEntities shift pids backup s).2.entityMap =
        restored backup (Function.update s.entityMap pid (some (cpuIdx + shift))) := by
  -- induction on the threads; the backup holds the old indices of those already done
  induction pids generalizing backup s with
  | nil => exact absurd hfail (by simp [migrateEntities])
  | cons pid pids ih =>
    obtain ⟨hnew, hnodup⟩ := List.nodup_cons.mp hnodup
    obtain ⟨cpuIdx, hidx⟩ := Option.isSome_iff_exists.mp (hknown pid List.mem_cons_self)
    have hentity : ((s.setEntity pid (some (cpuIdx + shift))).setVcpuAffinity).2.entityMap =
        Function.update s.entityMap pid (some (cpuIdx + shift)) := entityMap_setVcpuAffinity _
    rw [migrateEntities, hidx] at hfail ⊢
    simp only at hfail ⊢
    generalize (s.setEntity pid (some (cpuIdx + shift))).setVcpuAffinity = r at hfail hentity ⊢
    split
    · next hok =>
      rw [if_pos hok] at hfail
      have hsame : ∀ p ∈ pids, r.2.entityMap p = s.entityMap p := by
        intro p hp
        rw [hentity, Function.update_of_ne]
        rintro rfl
        exact hnew hp
      obtain ⟨p, hp, i, hi, hmap⟩ := ih hnodup
        (fun p hp => hsame p hp ▸ hknown p (List.mem_cons_of_mem _ hp)) hfail
      have hne : p ≠ pid := by
        rintro rfl
        exact hnew hp
      rw [hsame p hp] at hi
      refine ⟨p, List.mem_cons_of_mem _ hp, i, hi, hmap.trans ?_⟩
      -- the thread at the head is among those that get their index back
      rw [restored, List.foldl_cons, hentity, Function.update_comm hne, Function.update_idem,
        ← hidx, Function.update_eq_self]
      rfl
    · refine ⟨pid, List.mem_cons_self, cpuIdx, hidx, ?_⟩
      rw [entityMap_foldl_setEntity, hentity]

/-! ## The layer -/

/-- A group that leaves an ordered set and comes back leaves it as it was. -/
theorem setInsert_erase {l : List Text} {id : Text} (hid : id ∈ l) (hnodup : l.Nodup)
    (hsorted : l.Pairwise fun id id' => ¬ id' < id) : setInsert id (l.erase id) = l := by
  have : Std.Antisymm fun id id' : Text => ¬ id' < id :=
    ⟨fun a b hab hba => le_antisymm (not_lt.mp hab) (not_lt.mp hba)⟩
  rw [setInsert, if_neg hnodup.not_mem_erase]
  -- the two equality tests on texts differ only in how they are derived
  convert List.orderedInsert_erase id l hid hsorted

variable {host : Host} {s : Sched} {g : VmGroup}

/-- **A group that leaves its layer and comes back** leaves the layer as it was. -/
theorem LayerOk.add_del {m : Text → Option VmGroup} {c : ClusterInfo} {layer : ClusterLayer} {n : ℕ}
    (h : LayerOk host m c layer) (hc : c ∈ host.clusters n) (hg : m g.id = some g)
    (hmem : g.id ∈ layer.groups)
    (hsorted : layer.groups.Pairwise fun id id' => ¬ id' < id) :
    addGroupToClusterLayer g (delGroupFromClusterLayer g layer) = layer := by
  have hpos := h.areas.size_pos g.id hmem
  have hle := h.areas.end_le hmem
  have harea := h.areas.areaIs hmem
  have hstart := h.start_nonneg g.id hmem g hg
  have hlt := h.length_lt hc
  rw [areaStart_of_eq hg, areaSize_of_eq hg] at hle harea
  rw [areaSize_of_eq hg] at hpos
  have hfirst : uint16 g.start = g.start.toNat := uint16_of_nonneg hstart (by omega)
  have hbits : dynamicBitsetSet (dynamicBitsetClear layer.usedBitmap g.start.toNat g.nrCpus)
      g.start.toNat g.nrCpus = layer.usedBitmap := by
    rw [dynamicBitsetClear_of_le hpos hle,
      dynamicBitsetSet_of_le hpos (by rw [length_setArea hle]; exact hle)]
    refine List.ext_getElem? fun k => ?_
    rw [getElem?_setArea (by rw [length_setArea hle]; exact hle), getElem?_setArea hle]
    split
    · next hk => exact (harea k hk.1 hk.2).symm
    · rfl
  have hidle : uint16 (uint16 (layer.idle + g.nrCpus) - g.nrCpus) = layer.idle := by
    have hcount : layer.usedBitmap.count false ≤ layer.usedBitmap.length := List.count_le_length
    have hidle := h.idle_eq
    rw [uint16, uint16]
    omega
  have hgroups := setInsert_erase hmem h.areas.nodup hsorted
  simp only [addGroupToClusterLayer, delGroupFromClusterLayer, hfirst, hbits, hidle, hgroups]

/-! ## The iteration -/

/-- Where the group would go. -/
def newStart (host : Host) (cluster : ClusterInfo) (layerId : ℕ) (group : VmGroup) (s : Sched) :
    ℤ :=
  let (domain, s) := s.touchDomain group.domainKey
  findFirstIdlePos (availableCpuMap host domain cluster (s.layers cluster.id layerId)) 0
    group.nrCpus

/-- The iteration gets to `GroupEntityMigrate`, and that fails. -/
structure MigrationFails (host : Host) (down : Bool) (cluster : ClusterInfo)
    (layerId source sourceLayer : ℕ) (group : VmGroup) (s : Sched) : Prop where
  found : newStart host cluster layerId group s ≠ -1
  lower : ¬ (down = true ∧ group.start < newStart host cluster layerId group s)
  failed : (migrateEntities (newStart host cluster layerId group s - group.start)
    group.entityPids [] ((s.touchDomain group.domainKey).2.updateLayer source sourceLayer
      (delGroupFromClusterLayer group))).1 = false

theorem touchDomain_of_lookup {key : Text} {D : VmDomain} (h : s.domainMap.lookup key = some D) :
    s.touchDomain key = (D, s) := by
  rw [Sched.touchDomain, h]

/-- After an iteration with a failed migration, everything but the indices is as before. -/
theorem moveGroup_of_fails (h : MapsConsistent host s) {source : ClusterInfo} {n l : ℕ} {id : Text}
    (hsource : source ∈ host.clusters n) (hdepth : l < s.depth)
    (hid : id ∈ (s.layers source.id l).groups) (hg : s.groupMap id = some g) {down : Bool}
    {cluster : ClusterInfo} {layerId : ℕ}
    (hfail : MigrationFails host down cluster layerId source.id l g s) :
    ∃ pid cpuIdx outcomes undefined, s.entityMap pid = some cpuIdx ∧
      moveGroup host down cluster layerId source.id l id g s =
        { s with
          entityMap := Function.update s.entityMap pid
            (some (cpuIdx + (newStart host cluster layerId g s - g.start)))
          outcomes := outcomes
          undefined := undefined } := by
  have hrec : s.Records host source l id := ⟨⟨n, hsource⟩, hdepth, hid⟩
  have hgid := (h.linked.keyed id g hg).1
  subst hgid
  obtain ⟨D, hD, -⟩ := h.linked.owned trivial source l g.id g hrec hg
  obtain ⟨hfound, hlower, hfailed⟩ := hfail
  have hlayer := (h.exact.layer n source l hsource hdepth).add_del hsource hg hid
    (h.sorted n source hsource l hdepth)
  have hstart : newStart host cluster layerId g s = findFirstIdlePos
      (availableCpuMap host D cluster (s.layers cluster.id layerId)) 0 g.nrCpus := by
    rw [newStart, touchDomain_of_lookup hD]
  rw [touchDomain_of_lookup hD] at hfailed
  obtain ⟨pid, -, cpuIdx, hidx, hmap⟩ := migrateEntities_failed _
    (s := s.updateLayer source.id l (delGroupFromClusterLayer g))
    (h.threads_nodup source l g.id g hrec hg) (h.threads_known source l g.id g hrec hg) hfailed
  have hthreads := onlyThreads_migrateEntities (newStart host cluster layerId g s - g.start)
    g.entityPids [] (s.updateLayer source.id l (delGroupFromClusterLayer g))
  rw [moveGroup, touchDomain_of_lookup hD]
  simp only [← hstart]
  rw [if_neg (not_or.mpr ⟨hfound, hlower⟩)]
  generalize migrateEntities (newStart host cluster layerId g s - g.start) g.entityPids []
    (s.updateLayer source.id l (delGroupFromClusterLayer g)) = r at hfailed hmap hthreads ⊢
  obtain ⟨ok, s'⟩ := r
  simp only at hfailed hmap hthreads
  subst hfailed
  obtain ⟨entityMap, outcomes, u, rfl⟩ := hthreads
  simp only [restored, List.foldl_nil] at hmap
  subst hmap
  refine ⟨pid, cpuIdx, outcomes, u || decide (g.nrCpus ≠ 0 ∧
    (s.layers source.id l).usedBitmap.length < uint16 g.start), hidx, ?_⟩
  -- what is left is that the source layer has got its group back
  simp only [Sched.updateLayer, Sched.writes, Sched.mk.injEq, and_true]
  funext c l'
  by_cases hat : c = source.id ∧ l' = l
  · obtain ⟨rfl, rfl⟩ := hat
    simp only [and_self, if_true]
    exact hlayer
  · rw [if_neg hat, if_neg hat]

/-- **A failed migration is rolled back exactly if the group would have kept its first index.** In
every consistent state, for every group of a layer that either of the two loops tries to move and
every pattern of failures, the maps and the layers are the same after the iteration if and only if
the CPUs found for the group begin at the index at which it is. -/
theorem failed_migration_restores_iff (h : MapsConsistent host s) {source : ClusterInfo} {n l : ℕ}
    {id : Text} (hsource : source ∈ host.clusters n) (hdepth : l < s.depth)
    (hid : id ∈ (s.layers source.id l).groups) (hg : s.groupMap id = some g) {down : Bool}
    {cluster : ClusterInfo} {layerId : ℕ}
    (hfail : MigrationFails host down cluster layerId source.id l g s) :
    s.SameBooks (moveGroup host down cluster layerId source.id l id g s) ↔
      newStart host cluster layerId g s = g.start := by
  obtain ⟨pid, cpuIdx, outcomes, u, hidx, heq⟩ := moveGroup_of_fails h hsource hdepth hid hg hfail
  rw [heq]
  constructor
  · intro hsame
    have hpid := congrFun hsame.entityMap_eq pid
    simp only [Function.update_self, hidx, Option.some.injEq] at hpid
    omega
  · intro hstart
    refine ⟨?_, rfl, rfl, rfl, rfl⟩
    rw [hstart, sub_self, add_zero, ← hidx]
    exact Function.update_eq_self _ _

/-! ## Runs with a failed migration -/

/-- The sets of a layer's groups and of their threads are sets, and the threads are known. -/
def Sched.threadsOk (s : Sched) (layer : ClusterLayer) : Bool :=
  decide (layer.groups.Pairwise fun id id' => ¬ id' < id) &&
    layer.groups.all fun id => (s.groupMap id).all fun g =>
      decide g.entityPids.Nodup && g.entityPids.all fun pid => (s.entityMap pid).isSome

/-- What a state must pass, besides the books, to be consistent. -/
def Sched.allThreadsOk (s : Sched) (host : Host) : Bool :=
  host.numas.all fun n => (host.clusters n).all fun c => (List.range s.depth).all fun l =>
    s.threadsOk (s.layers c.id l)

theorem threadsOk_of_allThreadsOk (h : s.allThreadsOk host = true) {n l : ℕ} {c : ClusterInfo}
    (hc : c ∈ host.clusters n) (hl : l < s.depth) : s.threadsOk (s.layers c.id l) = true := by
  have hn : n ∈ host.numas := by
    by_contra hn
    rw [host.clusters_of_notMem n hn] at hc
    exact List.not_mem_nil hc
  have hall := List.all_eq_true.mp h n hn
  exact List.all_eq_true.mp (List.all_eq_true.mp hall c hc) l (List.mem_range.mpr hl)

/-- A state with exact books that passes the check is consistent. -/
theorem mapsConsistent_of_inv (h : Inv host ⟨True, fun _ => False⟩ s s.vms)
    (hproper : s.AllProper) (hok : s.allThreadsOk host = true) : MapsConsistent host s := by
  have hthreads : ∀ c l id g, s.Records host c l id → s.groupMap id = some g →
      g.entityPids.Nodup ∧ ∀ pid ∈ g.entityPids, (s.entityMap pid).isSome = true := by
    rintro c l id g ⟨⟨n, hc⟩, hl, hid⟩ hg
    have hlayer := threadsOk_of_allThreadsOk hok hc hl
    rw [Sched.threadsOk, Bool.and_eq_true] at hlayer
    have hgroup := List.all_eq_true.mp hlayer.2 id hid
    rw [hg, Option.all_some, Bool.and_eq_true] at hgroup
    exact ⟨of_decide_eq_true hgroup.1, List.all_eq_true.mp hgroup.2⟩
  refine ⟨h.linked, h.exact hproper, fun n c hc l hl => ?_,
    fun c l id g hr hg => (hthreads c l id g hr hg).1,
    fun c l id g hr hg => (hthreads c l id g hr hg).2⟩
  have hlayer := threadsOk_of_allThreadsOk hok hc hl
  rw [Sched.threadsOk, Bool.and_eq_true] at hlayer
  exact of_decide_eq_true hlayer.1

/-- Two clusters of four CPUs. -/
def twoByFour : Host :=
  .oneNode [⟨0, 0, List.replicate 4 false⟩, ⟨1, 4, List.replicate 4 false⟩] 4 false (by decide)
    (by decide) four_lt_two_pow_16

/-- VM `a` has some CPUs of the first cluster, `b` the rest of it, `c` two CPUs of the second. -/
def threeVms (nr : ℕ) : List Action :=
  [.addDomainInfo (smallVm [97] 100 nr 8) [], .addDomainInfo (smallVm [98] 200 (4 - nr) 8) [],
    .addDomainInfo (smallVm [99] 300 2 8) []]

/-- The group of VM `c`. -/
def groupOfC : Text := groupIdOf (domainKeyOf [99] 0) 1 0

/-- `DelDomainInfo` up to the compaction, in which the second write fails. -/
def deletedUpToCompaction (uuid : Text) (s : Sched) : Sched :=
  (getDomainsByUuid uuid s).foldl (deReSchedDomain twoByFour) (s.withOutcomes [true, false])

/-- The calls before have dropped no group, and the state is consistent and passes the test. -/
def passes (uuid : Text) (test : Sched → Bool) (tr : List Event) (s : Sched) : Bool :=
  tr.all (·.dropped = []) && decide (deletedUpToCompaction uuid s).AllProper &&
    (deletedUpToCompaction uuid s).allThreadsOk twoByFour && test (deletedUpToCompaction uuid s)

/-- Such a state of a run is consistent. -/
theorem exists_consistent (nr : ℕ) (uuid : Text) (test : Sched → Bool)
    (h : ((system twoByFour).run (fun _ _ => true) (initClusterInfo twoByFour) [] (threeVms nr)).any
      (fun r => passes uuid test r.1 r.2) = true) :
    ∃ s, MapsConsistent twoByFour s ∧ test s = true := by
  obtain ⟨tr, s, hrun, htest⟩ := exists_run (threeVms nr) (passes uuid test) h
  simp only [passes, Bool.and_eq_true, decide_eq_true_eq, List.all_eq_true] at htest
  obtain ⟨⟨⟨hkept, hproper⟩, hok⟩, htest⟩ := htest
  refine ⟨_, mapsConsistent_of_inv (inv_deReSched_entries ?_ uuid) hproper hok, htest⟩
  exact (inv_of_run True hrun fun _ => hkept).frame _ [true, false] _ _

instance (down : Bool) (cluster : ClusterInfo) (layerId source sourceLayer : ℕ) (group : VmGroup)
    (s : Sched) : Decidable (MigrationFails host down cluster layerId source sourceLayer group s) :=
  decidable_of_iff (_ ∧ _ ∧ _) ⟨fun h => ⟨h.1, h.2.1, h.2.2⟩, fun h => ⟨h.found, h.lower, h.failed⟩⟩

/-- VMs `a` and `b` have half of the first cluster each. With `a` gone, the group of `c` would
begin at index 0 again. -/
theorem failed_migration_restores_iff_same_index : ∃ s g, MapsConsistent twoByFour s ∧
    s.groupMap groupOfC = some g ∧ g.entityPids = [300, 301] ∧
    s.SameBooks (moveGroup twoByFour false ⟨0, 0, List.replicate 4 false⟩ 0 1 0 groupOfC g s) := by
  obtain ⟨s, hs, htest⟩ := exists_consistent 2 [97] (fun s => decide (s.depth = 1 ∧
    groupOfC ∈ (s.layers 1 0).groups) && (s.groupMap groupOfC).any fun g : VmGroup => decide (
      g.entityPids = [300, 301] ∧
      MigrationFails twoByFour false ⟨0, 0, List.replicate 4 false⟩ 0 1 0 g s ∧
      newStart twoByFour ⟨0, 0, List.replicate 4 false⟩ 0 g s = g.start)) (by decide +kernel)
  rw [Bool.and_eq_true, Option.any_eq_true] at htest
  obtain ⟨hlayer, g, hg, htest⟩ := htest
  obtain ⟨hdepth, hid⟩ := of_decide_eq_true hlayer
  obtain ⟨hpids, hfail, hstart⟩ := of_decide_eq_true htest
  have hsource : (⟨1, 4, List.replicate 4 false⟩ : ClusterInfo) ∈ twoByFour.clusters 0 := by decide
  refine ⟨s, g, hs, hg, hpids, ?_⟩
  exact (failed_migration_restores_iff hs hsource (by omega) hid hg hfail).mpr hstart

/-- **A failed migration leaves a wrong index.** VM `a` has one CPU of the first cluster. With `b`
gone, the group of `c` would begin at index 1. Its second thread cannot be pinned, and is then
recorded at index 2 and not 1. -/
theorem failed_migration_moves_index : ∃ s g, MapsConsistent twoByFour s ∧
    groupOfC ∈ (s.layers 1 0).groups ∧ s.groupMap groupOfC = some g ∧
    MigrationFails twoByFour false ⟨0, 0, List.replicate 4 false⟩ 0 1 0 g s ∧
    s.entityMap 301 = some 1 ∧
    (moveGroup twoByFour false ⟨0, 0, List.replicate 4 false⟩ 0 1 0 groupOfC g s).entityMap 301 =
      some 2 := by
  obtain ⟨s, hs, htest⟩ := exists_consistent 1 [98] (fun s => decide (
    groupOfC ∈ (s.layers 1 0).groups) && (s.groupMap groupOfC).any fun g : VmGroup => decide (
      MigrationFails twoByFour false ⟨0, 0, List.replicate 4 false⟩ 0 1 0 g s ∧
      s.entityMap 301 = some 1 ∧ (moveGroup twoByFour false ⟨0, 0, List.replicate 4 false⟩ 0 1 0
        groupOfC g s).entityMap 301 = some 2)) (by decide +kernel)
  rw [Bool.and_eq_true, Option.any_eq_true] at htest
  obtain ⟨hid, g, hg, htest⟩ := htest
  exact ⟨s, g, hs, of_decide_eq_true hid, hg, of_decide_eq_true htest⟩

end YellowZone.ClusterSched
