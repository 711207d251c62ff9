import YellowZone.ClusterSched.Scheduler

/-!
# The books of the scheduler

The scheduler keeps the same fact in several places: a group is in `groupMap_`, in a layer and in a
VM. There are two levels of agreement between these books.

`Linked` says that they name the same groups. A group of a layer is in `groupMap_` with that
cluster and that layer, a group of a VM is in `groupMap_` with that VM, and, if `own`, a group of a
layer is listed by its VM. This does not depend on which CPUs the groups have.

`Exact` says that the bitmaps are right: in every layer the ranges of the groups lie in the
cluster, are disjoint and keep clear of skipped CPUs; the bitmap has the skipped CPUs and these
ranges, and `idle` is the number of other CPUs. It needs that every range that was marked had been
idle (`Placement.Proper`), so in `Inv` it stands under that condition.

The VMs are given as a function `dom`, since a call works on a copy of a VM, or on a VM that is
still in the map after it was freed: `dom` is the map as it will be.

This module has what the elementary changes do to the books: a group is bound, removed or touched,
a layer pushed or popped, a VM entered or erased.

## Main definitions and results

* `Linked`, `Exact`, `Inv` — the books agree
* `Inv.bind`, `Inv.drop`, `Inv.touch`, `Inv.refill` — groups
* `Inv.up`, `Inv.down` — layers
* `Inv.replace`, `Inv.remove`, `Inv.enter` — VMs
-/

namespace YellowZone.ClusterSched

open Machine

/-! ## Keys and sets -/

theorem separator_notMem_decimal (n : ℕ) : separator ∉ decimal n := by
  rw [decimal]
  split
  · decide
  · intro hmem
    rw [List.mem_reverse, List.mem_map] at hmem
    obtain ⟨d, hd, hsep⟩ := hmem
    have hlt := Nat.digits_lt_base (by decide) hd
    rw [separator] at hsep
    omega

theorem decimal_injective {m n : ℕ} (h : decimal m = decimal n) : m = n := by
  have hzero : ∀ k : ℕ, k ≠ 0 → ((Nat.digits 10 k).map (· + 48)).reverse ≠ [48] := by
    intro k hk hrev
    rw [List.reverse_eq_iff, List.reverse_singleton, List.map_eq_singleton_iff] at hrev
    obtain ⟨d, hd, h48⟩ := hrev
    have hvalue := Nat.ofDigits_digits 10 k
    rw [hd, Nat.ofDigits_singleton] at hvalue
    omega
  rw [decimal, decimal] at h
  split at h
  · next hm =>
    split at h
    · next hn => rw [hm, hn]
    · next hn => exact absurd h.symm (hzero n hn)
  · next hm =>
    split at h
    · exact absurd h (hzero m hm)
    · rw [List.reverse_inj, List.map_inj_right (fun a b => Nat.add_right_cancel)] at h
      exact Nat.digits_inj_iff.mp h

/-- The last separator splits a text in one way only. -/
theorem append_separator_inj {x : ℕ} {a a' b b' : Text} (hb : x ∉ b) (hb' : x ∉ b')
    (h : a ++ x :: b = a' ++ x :: b') : a = a' ∧ b = b' := by
  rcases List.append_eq_append_iff.mp h with ⟨t, ha, ht⟩ | ⟨t, ha, ht⟩
  · cases t with
    | nil =>
      rw [List.append_nil] at ha
      rw [List.nil_append, List.cons.injEq] at ht
      exact ⟨ha.symm, ht.2⟩
    | cons y t =>
      rw [List.cons_append, List.cons.injEq] at ht
      exact absurd (ht.2 ▸ List.mem_append_right _ List.mem_cons_self) hb
  · cases t with
    | nil =>
      rw [List.append_nil] at ha
      rw [List.nil_append, List.cons.injEq] at ht
      exact ⟨ha, ht.2.symm⟩
    | cons y t =>
      rw [List.cons_append, List.cons.injEq] at ht
      exact absurd (ht.2 ▸ List.mem_append_right _ List.mem_cons_self) hb'

theorem domainKeyOf_inj {uuid uuid' : Text} {n n' : ℕ}
    (h : domainKeyOf uuid n = domainKeyOf uuid' n') : uuid = uuid' ∧ n = n' := by
  obtain ⟨huuid, hn⟩ :=
    append_separator_inj (separator_notMem_decimal n) (separator_notMem_decimal n') h
  exact ⟨huuid, decimal_injective hn⟩

/-- The id of a group determines the VM, the cluster and the layer. -/
theorem groupIdOf_inj {key key' : Text} {c c' l l' : ℕ}
    (h : groupIdOf key c l = groupIdOf key' c' l') : key = key' ∧ c = c' ∧ l = l' := by
  have hassoc : ∀ (k : Text) (m n : ℕ), groupIdOf k m n =
      (k ++ separator :: decimal m) ++ separator :: decimal n := fun k m n => by
    rw [groupIdOf, List.append_assoc, List.cons_append]
  rw [hassoc, hassoc] at h
  obtain ⟨hkey, hl⟩ :=
    append_separator_inj (separator_notMem_decimal l) (separator_notMem_decimal l') h
  obtain ⟨hkey, hc⟩ :=
    append_separator_inj (separator_notMem_decimal c) (separator_notMem_decimal c') hkey
  exact ⟨hkey, decimal_injective hc, decimal_injective hl⟩

section Sets

variable {α : Type} [DecidableEq α] [LT α] [DecidableLT α] {a b : α} {l : List α}

@[simp] theorem mem_setInsert : b ∈ setInsert a l ↔ b = a ∨ b ∈ l := by
  rw [setInsert]
  split
  · next h =>
    refine ⟨Or.inr, ?_⟩
    rintro (rfl | hb)
    · exact h
    · exact hb
  · exact List.mem_orderedInsert _

theorem nodup_setInsert (h : l.Nodup) : (setInsert a l).Nodup := by
  rw [setInsert]
  split
  · exact h
  · next ha => exact (List.perm_orderedInsert _ a l).nodup_iff.mpr (List.nodup_cons.mpr ⟨ha, h⟩)

end Sets

/-! ## The CPUs of a layer -/

/-- The bitmap that was searched began with an idle row, and the group was new. -/
def Placement.Proper (p : Placement) : Prop :=
  p.isNew = true ∧ IdleRow p.available p.nrCpus

instance (p : Placement) : Decidable p.Proper := inferInstanceAs (Decidable (_ ∧ _))

/-- The CPU, counted in its cluster, is in the range of the group. -/
def VmGroup.Covers (g : VmGroup) (k : ℕ) : Prop := g.start ≤ k ∧ (k : ℤ) < g.start + g.nrCpus

theorem VmGroup.covers_iff {g : VmGroup} (h : 0 ≤ g.start) (k : ℕ) :
    g.Covers k ↔ InArea g.start.toNat g.nrCpus k := by
  rw [VmGroup.Covers, InArea]
  omega

/-- The first CPU of a group, by its id. -/
def areaStart (m : Text → Option VmGroup) (id : Text) : ℕ := ((m id).map (·.start.toNat)).getD 0

/-- The number of CPUs of a group, by its id. -/
def areaSize (m : Text → Option VmGroup) (id : Text) : ℕ := ((m id).map (·.nrCpus)).getD 0

variable {host : Host} {m m' : Text → Option VmGroup} {c : ClusterInfo} {layer : ClusterLayer}
  {g : VmGroup} {id : Text}

theorem areaStart_of_eq (h : m id = some g) : areaStart m id = g.start.toNat := by
  rw [areaStart, h]
  rfl

theorem areaSize_of_eq (h : m id = some g) : areaSize m id = g.nrCpus := by
  rw [areaSize, h]
  rfl

/-- The bitmap and the counter of a layer are in accordance with its groups. -/
structure LayerOk (host : Host) (m : Text → Option VmGroup) (c : ClusterInfo)
    (layer : ClusterLayer) : Prop where
  total_eq : layer.total = host.clusterCpuNum
  idle_eq : layer.idle = layer.usedBitmap.count false
  start_nonneg : ∀ id ∈ layer.groups, ∀ g, m id = some g → 0 ≤ g.start
  areas : AreasOk c.bitMap layer.usedBitmap layer.groups (areaStart m) (areaSize m)

/-- Two groups with the same range. -/
def VmGroup.SameArea (g g' : VmGroup) : Prop := g.start = g'.start ∧ g.nrCpus = g'.nrCpus

/-- Only the ranges of the layer's own groups matter. -/
theorem LayerOk.congr (h : LayerOk host m c layer)
    (hm : ∀ id ∈ layer.groups, m' id = m id ∨
      ∃ g g', m id = some g ∧ m' id = some g' ∧ g.SameArea g') :
    LayerOk host m' c layer where
  total_eq := h.total_eq
  idle_eq := h.idle_eq
  start_nonneg id hid g' hg' := by
    rcases hm id hid with heq | ⟨g, g₁, hg, hg₁, hsame⟩
    · rw [heq] at hg'
      exact h.start_nonneg id hid g' hg'
    · rw [hg', Option.some.injEq] at hg₁
      rw [hg₁, ← hsame.1]
      exact h.start_nonneg id hid g hg
  areas := by
    refine h.areas.congr h.areas.nodup (fun _ => Iff.rfl) fun id hid => ?_
    rcases hm id hid with heq | ⟨g, g', hg, hg', hsame⟩
    · rw [areaStart, areaStart, areaSize, areaSize, heq]
      exact ⟨rfl, rfl⟩
    · rw [areaStart_of_eq hg, areaStart_of_eq hg', areaSize_of_eq hg, areaSize_of_eq hg',
        hsame.1, hsame.2]
      exact ⟨rfl, rfl⟩

theorem LayerOk.length_lt (h : LayerOk host m c layer) {n : ℕ} (hc : c ∈ host.clusters n) :
    layer.usedBitmap.length < 2 ^ 16 := by
  rw [h.areas.length_eq, host.length_bitMap n c hc]
  exact host.clusterCpuNum_lt

theorem uint16_of_nonneg {z : ℤ} (h : 0 ≤ z) (hlt : z.toNat < 2 ^ 16) : uint16 z = z.toNat := by
  rw [uint16]
  omega

/-- A new group on idle CPUs is added to a layer. -/
theorem LayerOk.add {n : ℕ} (h : LayerOk host m c layer) (hc : c ∈ host.clusters n)
    (hm : ∀ id ∈ layer.groups, m' id = m id) (hg : m' g.id = some g) (hstart : 0 ≤ g.start)
    (hpos : 0 < g.nrCpus)
    (hfree : AreaIs layer.usedBitmap g.start.toNat g.nrCpus false) :
    LayerOk host m' c (addGroupToClusterLayer g layer) := by
  have hle := hfree.end_le hpos
  have hlt := h.length_lt hc
  have hset : dynamicBitsetSet layer.usedBitmap (uint16 g.start) g.nrCpus =
      setArea layer.usedBitmap (areaStart m' g.id) (areaSize m' g.id) true := by
    rw [uint16_of_nonneg hstart (by omega), dynamicBitsetSet_of_le hpos hle, areaStart_of_eq hg,
      areaSize_of_eq hg]
  have hcount := count_setArea_true_add hfree hle
  have hm' := h.congr fun id hid => Or.inl (hm id hid)
  refine ⟨h.total_eq, ?_, ?_, ?_⟩
  · have hbound : layer.usedBitmap.count false ≤ layer.usedBitmap.length := List.count_le_length
    simp only [addGroupToClusterLayer, hset, areaStart_of_eq hg, areaSize_of_eq hg, h.idle_eq]
    rw [uint16]
    omega
  · intro id hid g' hg'
    rcases mem_setInsert.mp hid with rfl | hid
    · rw [hg, Option.some.injEq] at hg'
      rw [← hg']
      exact hstart
    · exact hm'.start_nonneg id hid g' hg'
  · simp only [addGroupToClusterLayer, hset]
    refine hm'.areas.take ?_ ?_ (nodup_setInsert h.areas.nodup) fun _ => mem_setInsert
    · rw [areaSize_of_eq hg]
      exact hpos
    · rw [areaStart_of_eq hg, areaSize_of_eq hg]
      exact hfree

/-- A group leaves a layer. -/
theorem LayerOk.del {n : ℕ} (h : LayerOk host m c layer) (hc : c ∈ host.clusters n)
    (hg : m g.id = some g) (hmem : g.id ∈ layer.groups) :
    LayerOk host m c (delGroupFromClusterLayer g layer) := by
  have hle := h.areas.end_le hmem
  have hlt := h.length_lt hc
  have hpos := h.areas.size_pos g.id hmem
  have harea := h.areas.areaIs hmem
  have hcount := count_setArea_false harea hle
  have hstart := h.start_nonneg g.id hmem g hg
  have hset : dynamicBitsetClear layer.usedBitmap (uint16 g.start) g.nrCpus =
      setArea layer.usedBitmap (areaStart m g.id) (areaSize m g.id) false := by
    rw [areaStart_of_eq hg, areaSize_of_eq hg] at hle ⊢
    rw [areaSize_of_eq hg] at hpos
    rw [uint16_of_nonneg hstart (by omega), dynamicBitsetClear_of_le hpos hle]
  refine ⟨h.total_eq, ?_, ?_, ?_⟩
  · have hbound : (setArea layer.usedBitmap (areaStart m g.id) (areaSize m g.id) false).count false
        ≤ layer.usedBitmap.length := by
      refine le_of_le_of_eq List.count_le_length ?_
      exact length_setArea hle
    simp only [delGroupFromClusterLayer, hset, h.idle_eq]
    rw [areaSize_of_eq hg] at hcount hbound ⊢
    rw [uint16]
    omega
  · exact fun id hid => h.start_nonneg id (List.mem_of_mem_erase hid)
  · simp only [delGroupFromClusterLayer, hset]
    exact h.areas.give hmem

/-- A layer in accordance with its groups has none if all its CPUs are idle. -/
theorem LayerOk.groups_eq_nil {n : ℕ} (h : LayerOk host m c layer) (hc : c ∈ host.clusters n)
    (hidle : layer.total = layer.idle) : layer.groups = [] := by
  refine h.areas.names_eq_nil ?_
  rw [← h.idle_eq, ← hidle, h.total_eq, h.areas.length_eq, host.length_bitMap n c hc]

theorem layerOk_emptyLayer (m : Text → Option VmGroup) (c : ClusterInfo) :
    LayerOk host m c (host.emptyLayer c) where
  total_eq := rfl
  idle_eq := rfl
  start_nonneg _ hid := absurd hid List.not_mem_nil
  areas := .nil

/-! ## Agreement -/

/-- A layer of the machine has the group. -/
def Sched.Records (s : Sched) (host : Host) (c : ClusterInfo) (l : ℕ) (id : Text) : Prop :=
  (∃ n, c ∈ host.clusters n) ∧ l < s.depth ∧ id ∈ (s.layers c.id l).groups

/-- What is promised of the VMs, beyond what always holds: that every group of a layer is listed by
its VM (`own`), and then that some keys have no VM. -/
structure Promise where
  own : Prop
  gone : Text → Prop

/-- The books name the same groups. A VM under a key that is not its own is one that was created
by looking it up: it has nothing, and there is none if every group is owned. -/
structure Linked (host : Host) (pr : Promise) (s : Sched) (dom : Text → Option VmDomain) :
    Prop where
  not_stuck : s.stuck = false
  depth_eq : s.depth = 1 + (host.numas.map fun n => s.overProvision n - 1).sum
  over_pos : ∀ n, n ∈ host.numas ↔ 0 < s.overProvision n
  keyed : ∀ id g, s.groupMap id = some g →
    g.id = id ∧ id = groupIdOf g.domainKey g.clusterId g.layerId
  recorded_nodup : ∀ c l, (s.layers c l).groups.Nodup
  recorded : ∀ c l id, s.Records host c l id →
    ∃ g, s.groupMap id = some g ∧ g.clusterId = c.id ∧ g.layerId = l
  owned : pr.own → ∀ c l id g, s.Records host c l id → s.groupMap id = some g →
    ∃ D, dom g.domainKey = some D ∧ id ∈ D.groups
  listed_nodup : ∀ K D, dom K = some D → D.groups.Nodup
  listed : ∀ K D, dom K = some D → ∀ id ∈ D.groups,
    ∃ g, s.groupMap id = some g ∧ g.domainKey = K ∧ ∃ c ∈ host.clusters D.numaId,
      c.id = g.clusterId
  key : ∀ K D, dom K = some D → K = domainKeyOf D.uuid D.numaId ∨
    ¬ pr.own ∧ D.groups = [] ∧ D.pidVcpuMap = [] ∧ D.commonCpuMap = []
  homed : ∀ c l id g, s.Records host c l id → s.groupMap id = some g →
    ∃ uuid n, c ∈ host.clusters n ∧ g.domainKey = domainKeyOf uuid n
  absent : pr.own → ∀ K, pr.gone K → dom K = none
  total_eq : ∀ c l, (s.layers c l).total = (host.emptyLayers c).total

/-- The layers are in accordance with their groups, layers not in use have none, and the groups of
a VM are in their layers and have CPUs that the VM may use. -/
structure Exact (host : Host) (s : Sched) (dom : Text → Option VmDomain) : Prop where
  layer : ∀ n c l, c ∈ host.clusters n → l < s.depth →
    LayerOk host s.groupMap c (s.layers c.id l)
  above : ∀ n c l, c ∈ host.clusters n → s.overProvision n ≤ l → l < s.depth →
    (s.layers c.id l).groups = []
  listed : ∀ K D id g c, dom K = some D → id ∈ D.groups → s.groupMap id = some g →
    c ∈ host.clusters D.numaId → c.id = g.clusterId →
      g.layerId < s.depth ∧ id ∈ (s.layers c.id g.layerId).groups ∧
        ∀ k, g.Covers k → D.commonCpuMap[c.startCpu + k]? = some true

/-- Every range so far was idle when it was marked. -/
def Sched.AllProper (s : Sched) : Prop := ∀ p ∈ s.placements, p.Proper

instance (s : Sched) : Decidable s.AllProper := inferInstanceAs (Decidable (∀ p ∈ s.placements, _))

/-- **The invariant.** -/
structure Inv (host : Host) (pr : Promise) (s : Sched) (dom : Text → Option VmDomain) : Prop where
  linked : Linked host pr s dom
  exact : s.AllProper → Exact host s dom

variable {pr : Promise} {s : Sched} {dom dom' : Text → Option VmDomain} {D D' : VmDomain}
  {K : Text} {l : ℕ}

/-- The id of a group of a layer says where it is. -/
theorem Linked.id_of_records (h : Linked host pr s dom) (hr : s.Records host c l id) :
    ∃ key, id = groupIdOf key c.id l := by
  obtain ⟨g, hg, hc, hl⟩ := h.recorded c l id hr
  refine ⟨g.domainKey, ?_⟩
  rw [(h.keyed id g hg).2, hc, hl]

/-- Two records of one group are the same. -/
theorem Linked.records_unique (h : Linked host pr s dom) {c' : ClusterInfo} {l' : ℕ}
    (hr : s.Records host c l id) (hr' : s.Records host c' l' id) : c = c' ∧ l = l' := by
  obtain ⟨g, hg, hc, hl⟩ := h.recorded c l id hr
  obtain ⟨g', hg', hc', hl'⟩ := h.recorded c' l' id hr'
  rw [hg, Option.some.injEq] at hg'
  obtain ⟨⟨n, hn⟩, _⟩ := hr
  obtain ⟨⟨n', hn'⟩, _⟩ := hr'
  refine ⟨(host.cluster_unique n c n' c' hn hn' ?_).2, ?_⟩
  · rw [← hc, ← hc', hg']
  · rw [← hl, ← hl', hg']

/-- A group is listed by the VM of its key only. -/
theorem Linked.key_of_listed (h : Linked host pr s dom) (hD : dom K = some D)
    (hid : id ∈ D.groups) (hg : s.groupMap id = some g) : g.domainKey = K := by
  obtain ⟨g', hg', hkey, _⟩ := h.listed K D hD id hid
  rw [hg, Option.some.injEq] at hg'
  rw [hg']
  exact hkey

theorem Linked.over_le_depth (h : Linked host pr s dom) (n : ℕ) : s.overProvision n ≤ s.depth := by
  by_cases hn : n ∈ host.numas
  · have hle := List.single_le_sum (l := host.numas.map fun n => s.overProvision n - 1)
      (fun _ _ => Nat.zero_le _) _ (List.mem_map.mpr ⟨n, hn, rfl⟩)
    have hdepth := h.depth_eq
    omega
  · have hzero := (not_congr (h.over_pos n)).mp hn
    omega

theorem updateLayer_groups (s : Sched) (f : ClusterLayer → ClusterLayer) (x y c l : ℕ) :
    ((s.updateLayer x y f).layers c l).groups =
      if c = x ∧ l = y then (f (s.layers c l)).groups else (s.layers c l).groups := by
  simp only [Sched.updateLayer]
  split <;> rfl

theorem total_add (s : Sched) (g : VmGroup) (x y c l : ℕ) :
    ((s.updateLayer x y (addGroupToClusterLayer g)).layers c l).total = (s.layers c l).total := by
  simp only [Sched.updateLayer]
  split <;> rfl

theorem total_del (s : Sched) (g : VmGroup) (x y c l : ℕ) :
    ((s.updateLayer x y (delGroupFromClusterLayer g)).layers c l).total = (s.layers c l).total := by
  simp only [Sched.updateLayer]
  split <;> rfl

theorem layers_updateLayer_self (s : Sched) (f : ClusterLayer → ClusterLayer) (x y : ℕ) :
    (s.updateLayer x y f).layers x y = f (s.layers x y) := by
  simp [Sched.updateLayer]

theorem layers_updateLayer_of_ne (s : Sched) (f : ClusterLayer → ClusterLayer) {x y c l : ℕ}
    (h : ¬ (c = x ∧ l = y)) : (s.updateLayer x y f).layers c l = s.layers c l := by
  simp [Sched.updateLayer, h]

/-! ## A group is bound -/

theorem bindGroup_groupMap (available : List Bool) (g : VmGroup) (D : VmDomain) (s : Sched)
    (id : Text) : (bindGroup available g D s).sched.groupMap id =
      if id = g.id then some g else s.groupMap id := by
  simp only [bindGroup, Sched.updateLayer, Sched.setGroup, Function.update_apply]

theorem bindGroup_layers_self (available : List Bool) (g : VmGroup) (D : VmDomain) (s : Sched) :
    (bindGroup available g D s).sched.layers g.clusterId g.layerId =
      addGroupToClusterLayer g (s.layers g.clusterId g.layerId) := by
  simp [bindGroup, Sched.updateLayer, Sched.setGroup]

theorem bindGroup_layers_of_ne (available : List Bool) (g : VmGroup) (D : VmDomain) (s : Sched)
    {c l : ℕ} (h : ¬ (c = g.clusterId ∧ l = g.layerId)) :
    (bindGroup available g D s).sched.layers c l = s.layers c l := by
  simp [bindGroup, Sched.updateLayer, Sched.setGroup, h]

theorem Linked.bind (h : Linked host pr s dom) (available : List Bool)
    (hD : dom g.domainKey = some D) (hkey : g.domainKey = domainKeyOf D.uuid D.numaId)
    (hid : g.id = groupIdOf g.domainKey g.clusterId g.layerId)
    (hc : c ∈ host.clusters D.numaId) (hcid : c.id = g.clusterId) :
    Linked host pr (bindGroup available g D s).sched
      (Function.update dom g.domainKey (some (bindGroup available g D s).domain)) := by
  -- the groups of a layer afterwards
  have hrec : ∀ c' l' id', (bindGroup available g D s).sched.Records host c' l' id' →
      (id' = g.id ∧ c'.id = g.clusterId ∧ l' = g.layerId) ∨
        s.Records host c' l' id' := by
    rintro c' l' id' ⟨hn, hl', hmem⟩
    simp only [bindGroup, updateLayer_groups, Sched.setGroup] at hmem
    split at hmem
    · next hat =>
      rcases mem_setInsert.mp hmem with rfl | hmem
      · exact Or.inl ⟨rfl, hat⟩
      · exact Or.inr ⟨hn, hl', hmem⟩
    · exact Or.inr ⟨hn, hl', hmem⟩
  -- an old record of the group is at the same place
  have hold : ∀ c' l', s.Records host c' l' g.id → c'.id = g.clusterId ∧ l' = g.layerId := by
    intro c' l' hr
    obtain ⟨key, hkey'⟩ := h.id_of_records hr
    rw [hid] at hkey'
    obtain ⟨-, hc', hl'⟩ := groupIdOf_inj hkey'
    exact ⟨hc'.symm, hl'.symm⟩
  have hmap := bindGroup_groupMap available g D s
  refine ⟨h.not_stuck, h.depth_eq, h.over_pos, ?_, ?_, ?_, ?_, ?_, ?_, ?_, ?_, ?_, fun c' l' =>
    (total_add s g _ _ c' l').trans (h.total_eq c' l')⟩
  · intro id' g' hg'
    rw [hmap] at hg'
    split at hg'
    · next heq =>
      cases hg'
      rw [heq]
      exact ⟨rfl, hid⟩
    · exact h.keyed id' g' hg'
  · intro c' l'
    simp only [bindGroup, updateLayer_groups, Sched.setGroup]
    split
    · exact nodup_setInsert (h.recorded_nodup c' l')
    · exact h.recorded_nodup c' l'
  · intro c' l' id' hr
    rw [hmap]
    rcases hrec c' l' id' hr with ⟨rfl, hc', hl'⟩ | hr'
    · rw [if_pos rfl]
      exact ⟨g, rfl, hc'.symm, hl'.symm⟩
    · split
      · next heq =>
        rw [heq] at hr'
        obtain ⟨hc', hl'⟩ := hold c' l' hr'
        exact ⟨g, rfl, hc'.symm, hl'.symm⟩
      · exact h.recorded c' l' id' hr'
  · intro hown c' l' id' g' hr hg'
    rw [hmap] at hg'
    split at hg'
    · next heq =>
      cases hg'
      refine ⟨_, Function.update_self _ _ _, ?_⟩
      rw [heq]
      exact mem_setInsert.mpr (Or.inl rfl)
    · next hne =>
      rcases hrec c' l' id' hr with ⟨heq, _⟩ | hr'
      · exact absurd heq hne
      · obtain ⟨D₁, hD₁, hmem⟩ := h.owned hown c' l' id' g' hr' hg'
        by_cases hK : g'.domainKey = g.domainKey
        · rw [hK] at hD₁ ⊢
          rw [hD, Option.some.injEq] at hD₁
          refine ⟨_, Function.update_self _ _ _, ?_⟩
          rw [← hD₁] at hmem
          exact mem_setInsert.mpr (Or.inr hmem)
        · refine ⟨D₁, ?_, hmem⟩
          rw [Function.update_of_ne hK]
          exact hD₁
  · intro K' D' hD'
    rw [Function.update_apply] at hD'
    split at hD'
    · cases hD'
      exact nodup_setInsert (h.listed_nodup _ D hD)
    · exact h.listed_nodup K' D' hD'
  · intro K' D' hD' id' hid'
    rw [hmap]
    rw [Function.update_apply] at hD'
    split at hD'
    · next hK =>
      cases hD'
      split
      · exact ⟨g, rfl, hK.symm, c, hc, hcid⟩
      · next hne =>
        rw [hK]
        exact h.listed _ D hD id' ((mem_setInsert.mp hid').resolve_left hne)
    · next hK =>
      split
      · next heq =>
        -- another VM cannot list the group
        obtain ⟨g', hg', hkey', -⟩ := h.listed K' D' hD' id' hid'
        have hform := (h.keyed id' g' hg').2
        rw [heq, hid, hkey'] at hform
        exact absurd (groupIdOf_inj hform).1.symm hK
      · exact h.listed K' D' hD' id' hid'
  · intro K' D' hD'
    rw [Function.update_apply] at hD'
    split at hD'
    · next hK =>
      cases hD'
      rw [hK]
      exact Or.inl hkey
    · exact h.key K' D' hD'
  · intro c' l' id' g' hr hg'
    rw [hmap] at hg'
    have hplace : id' = g.id → c' = c := by
      intro heq
      obtain ⟨n', hn'⟩ := hr.1
      have hc'id : c'.id = g.clusterId := by
        rcases hrec c' l' id' hr with ⟨-, hc', -⟩ | hr'
        · exact hc'
        · rw [heq] at hr'
          exact (hold c' l' hr').1
      exact (host.cluster_unique n' c' _ c hn' hc (hc'id.trans hcid.symm)).2
    split at hg'
    · next heq =>
      cases hg'
      rw [hplace heq]
      exact ⟨D.uuid, D.numaId, hc, hkey⟩
    · next hne =>
      rcases hrec c' l' id' hr with ⟨heq, -⟩ | hr'
      · exact absurd heq hne
      · exact h.homed c' l' id' g' hr' hg'
  · intro hown K' hgone
    have hnone := h.absent hown K' hgone
    rw [Function.update_of_ne]
    · exact hnone
    · rintro rfl
      rw [hD] at hnone
      exact absurd hnone (by simp)

theorem length_availableCpuMap (D : VmDomain) (c : ClusterInfo) (layer : ClusterLayer) :
    (availableCpuMap host D c layer).length = host.clusterCpuNum := by
  rw [availableCpuMap, dynamicBitsetOr]
  split
  · next heq =>
    rw [List.length_zipWith, ← heq, Nat.min_self]
    simp [dynamicBitsetNot, dynamicBitsetCut]
  · simp [dynamicBitsetNot, dynamicBitsetCut]

/-- The group is in the layer for the first time, its CPUs were idle and the VM may use them. -/
theorem Exact.bind (hl : Linked host pr s dom) (h : Exact host s dom) (available : List Bool)
    (hD : dom g.domainKey = some D) (hid : g.id = groupIdOf g.domainKey g.clusterId g.layerId)
    (hc : c ∈ host.clusters D.numaId) (hcid : c.id = g.clusterId)
    (hlayer : g.layerId < s.overProvision D.numaId)
    (hnew : g.id ∉ (s.layers g.clusterId g.layerId).groups) (hstart : 0 ≤ g.start)
    (hpos : 0 < g.nrCpus)
    (hfree : AreaIs (availableCpuMap host D c (s.layers g.clusterId g.layerId)) g.start.toNat
      g.nrCpus false) :
    Exact host (bindGroup available g D s).sched
      (Function.update dom g.domainKey (some (bindGroup available g D s).domain)) := by
  have hdepth : g.layerId < s.depth := Nat.lt_of_lt_of_le hlayer (hl.over_le_depth _)
  have hok := h.layer D.numaId c g.layerId hc hdepth
  rw [hcid] at hok
  have hcpus : ∀ k, InArea g.start.toNat g.nrCpus k →
      (s.layers g.clusterId g.layerId).usedBitmap[k]? = some false ∧
        D.commonCpuMap[c.startCpu + k]? = some true := by
    intro k hk
    have hbit := hfree k hk.1 hk.2
    have hlength : host.clusterCpuNum =
        (s.layers g.clusterId g.layerId).usedBitmap.length := by
      rw [hok.areas.length_eq, host.length_bitMap _ c hc]
    rw [availableCpuMap, hlength] at hbit
    exact getElem?_available hbit
  have hmap := bindGroup_groupMap available g D s
  have hself := bindGroup_layers_self available g D s
  -- the group is in no other layer
  have hnowhere : ∀ c' l', ¬ s.Records host c' l' g.id := by
    intro c' l' hr
    obtain ⟨key, hkey⟩ := hl.id_of_records hr
    rw [hid] at hkey
    obtain ⟨-, hc', hl'⟩ := groupIdOf_inj hkey
    obtain ⟨-, -, hmem⟩ := hr
    rw [← hc', ← hl'] at hmem
    exact hnew hmem
  refine ⟨?_, ?_, ?_⟩
  · intro n c' l' hc' hl'
    by_cases hat : c'.id = g.clusterId ∧ l' = g.layerId
    · obtain ⟨hc'id, rfl⟩ := hat
      obtain ⟨-, rfl⟩ := host.cluster_unique n c' D.numaId c hc' hc (hc'id.trans hcid.symm)
      rw [hc'id, hself]
      refine hok.add hc' ?_ ?_ hstart hpos fun k hlow hhigh => (hcpus k ⟨hlow, hhigh⟩).1
      · intro id' hid'
        rw [hmap, if_neg]
        rintro rfl
        exact hnew hid'
      · rw [hmap, if_pos rfl]
    · rw [bindGroup_layers_of_ne _ _ _ _ hat]
      refine (h.layer n c' l' hc' hl').congr fun id' hid' => Or.inl ?_
      rw [hmap, if_neg]
      rintro rfl
      exact hnowhere c' l' ⟨⟨n, hc'⟩, hl', hid'⟩
  · intro n c' l' hc' hover hl'
    rw [bindGroup_layers_of_ne]
    · exact h.above n c' l' hc' hover hl'
    · rintro ⟨hc'id, rfl⟩
      obtain ⟨rfl, -⟩ := host.cluster_unique n c' D.numaId c hc' hc (hc'id.trans hcid.symm)
      have hle : s.overProvision D.numaId ≤ g.layerId := hover
      omega
  · intro K' D' id' g' c' hD' hid' hg' hc' hc'id
    rw [hmap] at hg'
    have hkeep : id' ∈ (s.layers c'.id g'.layerId).groups →
        id' ∈ ((bindGroup available g D s).sched.layers c'.id g'.layerId).groups := by
      intro hmem
      by_cases hat : c'.id = g.clusterId ∧ g'.layerId = g.layerId
      · rw [hat.1, hat.2] at hmem ⊢
        rw [hself]
        exact mem_setInsert.mpr (Or.inr hmem)
      · rw [bindGroup_layers_of_ne _ _ _ _ hat]
        exact hmem
    rw [Function.update_apply] at hD'
    split at hg'
    · next heq =>
      cases hg'
      split at hD'
      · cases hD'
        obtain ⟨-, rfl⟩ := host.cluster_unique _ c' D.numaId c hc' hc (hc'id.trans hcid.symm)
        refine ⟨hdepth, ?_, fun k hk => (hcpus k ((VmGroup.covers_iff hstart k).mp hk)).2⟩
        rw [heq, hc'id, hself]
        exact mem_setInsert.mpr (Or.inl rfl)
      · next hK =>
        obtain ⟨g', hg', hkey', -⟩ := hl.listed K' D' hD' id' hid'
        have hform := (hl.keyed id' g' hg').2
        rw [heq, hid, hkey'] at hform
        exact absurd (groupIdOf_inj hform).1.symm hK
    · next hne =>
      split at hD'
      · cases hD'
        have hmem := (mem_setInsert.mp hid').resolve_left hne
        obtain ⟨hlt, hin, hallowed⟩ := h.listed _ D id' g' c' hD hmem hg' hc' hc'id
        exact ⟨hlt, hkeep hin, hallowed⟩
      · obtain ⟨hlt, hin, hallowed⟩ := h.listed K' D' id' g' c' hD' hid' hg' hc' hc'id
        exact ⟨hlt, hkeep hin, hallowed⟩

/-- **A group is bound** to a layer and to a VM, on CPUs that a search returned. -/
theorem Inv.bind (h : Inv host pr s dom) (hD : dom g.domainKey = some D)
    (hkey : g.domainKey = domainKeyOf D.uuid D.numaId)
    (hid : g.id = groupIdOf g.domainKey g.clusterId g.layerId)
    (hc : c ∈ host.clusters D.numaId) (hcid : c.id = g.clusterId)
    (hlayer : g.layerId < s.overProvision D.numaId) {available : List Bool}
    (hstart : findFirstIdlePos available 0 g.nrCpus = g.start) (hfound : g.start ≠ -1)
    (havailable : available = availableCpuMap host D c (s.layers g.clusterId g.layerId)) :
    Inv host pr (bindGroup available g D s).sched
      (Function.update dom g.domainKey (some (bindGroup available g D s).domain)) := by
  refine ⟨h.linked.bind available hD hkey hid hc hcid, fun hproper => ?_⟩
  obtain ⟨hnew, hrow⟩ := hproper _ List.mem_cons_self
  have hbefore : s.AllProper := fun p hp => hproper p (List.mem_cons_of_mem _ hp)
  have hlength : available.length < 2 ^ 16 := by
    rw [havailable, length_availableCpuMap]
    exact host.clusterCpuNum_lt
  rw [← hstart] at hfound
  obtain ⟨hpos, hfree⟩ := areaIs_of_idleRow hlength hfound hrow
  rw [havailable, ← havailable, hstart, havailable] at hfree
  exact Exact.bind h.linked (h.exact hbefore) available hD hid hc hcid hlayer
    (of_decide_eq_true hnew) (hstart ▸ hpos) (size_pos_of_found hfound) hfree

/-! ## A group is removed -/

/-- The same group, up to the threads that it has. -/
def VmGroup.Alike (g g' : VmGroup) : Prop :=
  g'.domainKey = g.domainKey ∧ g'.id = g.id ∧ g'.clusterId = g.clusterId ∧
    g'.layerId = g.layerId ∧ g'.start = g.start ∧ g'.nrCpus = g.nrCpus

variable {o : Option VmGroup}

/-- The VM without a group. -/
def VmDomain.without (D : VmDomain) (id : Text) : VmDomain :=
  { D with groups := D.groups.erase id }

/-- No layer has the group any more, and its VM does not list it. What is left of it in `groupMap_`
does not matter. -/
theorem Linked.drop (h : Linked host pr s dom) (hg : s.groupMap g.id = some g)
    (hD : dom g.domainKey = some D) {layers' : ℕ → ℕ → ClusterLayer}
    (hlayers : ∀ c l id, (∃ n, c ∈ host.clusters n) → l < s.depth →
      id ∈ (layers' c.id l).groups → id ∈ (s.layers c.id l).groups ∧ id ≠ g.id)
    (hnodup : ∀ c l, (layers' c l).groups.Nodup)
    (htotal : ∀ c l, (layers' c l).total = (s.layers c l).total)
    (ho : ∀ g', o = some g' → g.Alike g') :
    Linked host pr
      { s with layers := layers', groupMap := Function.update s.groupMap g.id o }
      (Function.update dom g.domainKey (some (D.without g.id))) := by
  have hrec : ∀ c l id,
      Sched.Records { s with
        layers := layers', groupMap := Function.update s.groupMap g.id o } host c l id →
      s.Records host c l id ∧ id ≠ g.id := by
    rintro c l id ⟨hn, hl, hmem⟩
    obtain ⟨hmem, hne⟩ := hlayers c l id hn hl hmem
    exact ⟨⟨hn, hl, hmem⟩, hne⟩
  refine ⟨h.not_stuck, h.depth_eq, h.over_pos, ?_, hnodup, ?_, ?_, ?_, ?_, ?_, ?_, ?_,
    fun c l => (htotal c l).trans (h.total_eq c l)⟩
  · intro id g' hg'
    simp only [Function.update_apply] at hg'
    split at hg'
    · next heq =>
      obtain ⟨hkey, hid, hcluster, hlayer, -, -⟩ := ho g' hg'
      have hold := h.keyed _ g hg
      rw [heq, hid, hkey, hcluster, hlayer]
      exact ⟨rfl, hold.2⟩
    · exact h.keyed id g' hg'
  · intro c l id hr
    obtain ⟨hr, hne⟩ := hrec c l id hr
    simp only [Function.update_of_ne hne]
    exact h.recorded c l id hr
  · intro hown c l id g' hr hg'
    obtain ⟨hr, hne⟩ := hrec c l id hr
    simp only [Function.update_of_ne hne] at hg'
    obtain ⟨D₁, hD₁, hmem⟩ := h.owned hown c l id g' hr hg'
    by_cases hK : g'.domainKey = g.domainKey
    · rw [hK] at hD₁ ⊢
      rw [hD, Option.some.injEq] at hD₁
      rw [← hD₁] at hmem
      exact ⟨_, Function.update_self _ _ _, (List.mem_erase_of_ne hne).mpr hmem⟩
    · refine ⟨D₁, ?_, hmem⟩
      rw [Function.update_of_ne hK]
      exact hD₁
  · intro K' D' hD'
    rw [Function.update_apply] at hD'
    split at hD'
    · cases hD'
      exact (h.listed_nodup _ D hD).erase _
    · exact h.listed_nodup K' D' hD'
  · intro K' D' hD' id hid
    rw [Function.update_apply] at hD'
    split at hD'
    · next hK =>
      cases hD'
      obtain ⟨hne, hmem⟩ := (h.listed_nodup _ D hD).mem_erase_iff.mp hid
      simp only [Function.update_of_ne hne]
      rw [hK]
      exact h.listed _ D hD id hmem
    · next hK =>
      have hne : id ≠ g.id := by
        rintro rfl
        exact hK (h.key_of_listed hD' hid hg).symm
      simp only [Function.update_of_ne hne]
      exact h.listed K' D' hD' id hid
  · intro K' D' hD'
    rw [Function.update_apply] at hD'
    split at hD'
    · next hK =>
      cases hD'
      rw [hK]
      refine (h.key _ D hD).imp_right ?_
      rintro ⟨hnot, hgroups, hpids, hcpus⟩
      refine ⟨hnot, ?_, hpids, hcpus⟩
      simp only [VmDomain.without, hgroups, List.erase_nil]
    · exact h.key K' D' hD'
  · intro c l id g' hr hg'
    obtain ⟨hr, hne⟩ := hrec c l id hr
    simp only [Function.update_of_ne hne] at hg'
    exact h.homed c l id g' hr hg'
  · intro hown K' hgone
    have hnone := h.absent hown K' hgone
    rw [Function.update_of_ne]
    · exact hnone
    · rintro rfl
      rw [hD] at hnone
      exact absurd hnone (by simp)

/-- The CPUs of the group are unused afterwards. -/
theorem Exact.drop (hl : Linked host pr s dom) (h : Exact host s dom)
    (hg : s.groupMap g.id = some g) (hD : dom g.domainKey = some D)
    (hrec : s.Records host c l g.id) :
    Exact host ((s.updateLayer g.clusterId g.layerId (delGroupFromClusterLayer g)).setGroup g.id o)
      (Function.update dom g.domainKey (some (D.without g.id))) := by
  obtain ⟨g₁, hg₁, hcid, hlid⟩ := hl.recorded c l g.id hrec
  rw [hg, Option.some.injEq] at hg₁
  subst hg₁
  have hrec' := hrec
  obtain ⟨⟨n, hc⟩, hdepth, hmem⟩ := hrec'
  have hok := (h.layer n c l hc hdepth).del hc hg hmem
  refine ⟨?_, ?_, ?_⟩
  · intro n' c' l' hc' hl'
    simp only [Sched.setGroup]
    by_cases hat : c'.id = g.clusterId ∧ l' = g.layerId
    · obtain ⟨-, rfl⟩ := host.cluster_unique n' c' n c hc' hc (hat.1.trans hcid)
      rw [hat.2, hcid, layers_updateLayer_self, hlid]
      refine hok.congr fun id hid => Or.inl (Function.update_of_ne ?_ _ _)
      rintro rfl
      exact (h.layer _ _ _ hc hdepth).areas.nodup.not_mem_erase hid
    · rw [layers_updateLayer_of_ne _ _ hat]
      refine (h.layer n' c' l' hc' hl').congr fun id hid => Or.inl (Function.update_of_ne ?_ _ _)
      rintro rfl
      obtain ⟨rfl, rfl⟩ := hl.records_unique hrec ⟨⟨n', hc'⟩, hl', hid⟩
      exact hat ⟨hcid.symm, hlid.symm⟩
  · intro n' c' l' hc' hover hl'
    simp only [Sched.setGroup, updateLayer_groups]
    have hnil := h.above n' c' l' hc' hover hl'
    split
    · simp only [delGroupFromClusterLayer, hnil, List.erase_nil]
    · exact hnil
  · intro K' D' id g' c' hD' hid hg' hc' hc'id
    have hne : id ≠ g.id := by
      rintro rfl
      rw [Function.update_apply] at hD'
      split at hD'
      · cases hD'
        exact (hl.listed_nodup _ D hD).not_mem_erase hid
      · next hK => exact hK (hl.key_of_listed hD' hid hg).symm
    simp only [Sched.setGroup, Function.update_of_ne hne] at hg'
    have hlisted : g'.layerId < s.depth ∧ id ∈ (s.layers c'.id g'.layerId).groups ∧
        ∀ k, g'.Covers k → D'.commonCpuMap[c'.startCpu + k]? = some true := by
      rw [Function.update_apply] at hD'
      split at hD'
      · cases hD'
        exact h.listed _ D id g' c' hD (List.mem_of_mem_erase hid) hg' hc' hc'id
      · exact h.listed K' D' id g' c' hD' hid hg' hc' hc'id
    obtain ⟨hlt, hin, hallowed⟩ := hlisted
    refine ⟨hlt, ?_, hallowed⟩
    simp only [Sched.setGroup, updateLayer_groups]
    split
    · exact (List.mem_erase_of_ne hne).mpr hin
    · exact hin

/-- A group that a VM lists is in a layer, if the bitmaps are right. -/
theorem Inv.records_of_listed (h : Inv host pr s dom) (hD : dom K = some D)
    (hid : id ∈ D.groups) (hproper : s.AllProper) : ∃ c l, s.Records host c l id := by
  obtain ⟨g, hg, -, c, hc, hcid⟩ := h.linked.listed K D hD id hid
  obtain ⟨hlt, hin, -⟩ := (h.exact hproper).listed K D id g c hD hid hg hc hcid
  exact ⟨c, g.layerId, ⟨_, hc⟩, hlt, hin⟩

/-- **A group is removed** from its layer and from its VM. -/
theorem Inv.drop (h : Inv host pr s dom) (hg : s.groupMap g.id = some g)
    (hD : dom g.domainKey = some D) (hrec : s.AllProper → ∃ c l, s.Records host c l g.id)
    (ho : ∀ g', o = some g' → g.Alike g') :
    Inv host pr
      ((s.updateLayer g.clusterId g.layerId (delGroupFromClusterLayer g)).setGroup g.id o)
      (Function.update dom g.domainKey (some (D.without g.id))) := by
  refine ⟨h.linked.drop hg hD ?_ ?_ (total_del s g _ _) ho,
    fun hproper => ?_⟩
  · intro c l id hn hl hmem
    change id ∈ ((s.updateLayer g.clusterId g.layerId (delGroupFromClusterLayer g)).layers c.id
      l).groups at hmem
    rw [updateLayer_groups] at hmem
    split at hmem
    · exact And.symm ((h.linked.recorded_nodup _ _).mem_erase_iff.mp hmem)
    · next hat =>
      refine ⟨hmem, ?_⟩
      rintro rfl
      obtain ⟨g₁, hg₁, hc₁, hl₁⟩ := h.linked.recorded c l g.id ⟨hn, hl, hmem⟩
      rw [hg, Option.some.injEq] at hg₁
      rw [hg₁] at hat
      exact hat ⟨hc₁.symm, hl₁.symm⟩
  · intro c l
    have hnodup := h.linked.recorded_nodup c l
    change ((s.updateLayer g.clusterId g.layerId (delGroupFromClusterLayer g)).layers c
      l).groups.Nodup
    rw [updateLayer_groups]
    split
    · exact hnodup.erase _
    · exact hnodup
  · obtain ⟨c, l, hr⟩ := hrec hproper
    exact Exact.drop h.linked (h.exact hproper) hg hD hr

/-- A group whose layer is not there is only forgotten. -/
theorem Inv.forget (h : Inv host pr s dom) (hg : s.groupMap g.id = some g)
    (hD : dom g.domainKey = some D) (hid : g.id ∈ D.groups) (hlayer : ¬ g.layerId < s.depth)
    (ho : ∀ g', o = some g' → g.Alike g') :
    Inv host pr (s.setGroup g.id o)
      (Function.update dom g.domainKey (some (D.without g.id))) := by
  have hnowhere : ∀ c l, ¬ s.Records host c l g.id := by
    intro c l hr
    obtain ⟨g₁, hg₁, -, hl₁⟩ := h.linked.recorded c l g.id hr
    rw [hg, Option.some.injEq] at hg₁
    rw [hg₁, hl₁] at hlayer
    exact hlayer hr.2.1
  refine ⟨h.linked.drop hg hD ?_ h.linked.recorded_nodup (fun _ _ => rfl) ho, fun hproper => ?_⟩
  · intro c l id hn hl hmem
    refine ⟨hmem, ?_⟩
    rintro rfl
    exact hnowhere c l ⟨hn, hl, hmem⟩
  · obtain ⟨c, l, hr⟩ := h.records_of_listed hD hid hproper
    exact absurd hr (hnowhere c l)

/-! ## A group is touched -/

/-- Its threads change. -/
theorem Inv.touch {g' : VmGroup} (h : Inv host pr s dom) (hg : s.groupMap id = some g)
    (hsame : g.Alike g') : Inv host pr (s.setGroup id (some g')) dom := by
  obtain ⟨hkey, hid, hcluster, hlayer, hstart, hnr⟩ := hsame
  -- what is known of a group afterwards was known before
  have hmap : ∀ x g₂, (s.setGroup id (some g')).groupMap x = some g₂ →
      ∃ g₁, s.groupMap x = some g₁ ∧ g₁.Alike g₂ := by
    intro x g₂ hg₂
    simp only [Sched.setGroup, Function.update_apply] at hg₂
    split at hg₂
    · next heq =>
      cases hg₂
      rw [heq]
      exact ⟨g, hg, hkey, hid, hcluster, hlayer, hstart, hnr⟩
    · exact ⟨g₂, hg₂, rfl, rfl, rfl, rfl, rfl, rfl⟩
  have hmap' : ∀ x g₁, s.groupMap x = some g₁ →
      ∃ g₂, (s.setGroup id (some g')).groupMap x = some g₂ ∧ g₁.Alike g₂ := by
    intro x g₁ hg₁
    simp only [Sched.setGroup, Function.update_apply]
    split
    · next heq =>
      rw [heq, hg, Option.some.injEq] at hg₁
      rw [← hg₁]
      exact ⟨g', rfl, hkey, hid, hcluster, hlayer, hstart, hnr⟩
    · exact ⟨g₁, hg₁, rfl, rfl, rfl, rfl, rfl, rfl⟩
  have hl := h.linked
  refine ⟨⟨hl.not_stuck, hl.depth_eq, hl.over_pos, ?_, hl.recorded_nodup, ?_, ?_,
    hl.listed_nodup, ?_, hl.key, ?_, hl.absent, hl.total_eq⟩,
    fun hproper => ⟨?_, (h.exact hproper).above, ?_⟩⟩
  · intro x g₂ hg₂
    obtain ⟨g₁, hg₁, hkey₁, hid₁, hcluster₁, hlayer₁, -⟩ := hmap x g₂ hg₂
    rw [hid₁, hkey₁, hcluster₁, hlayer₁]
    exact hl.keyed x g₁ hg₁
  · intro c l x hr
    obtain ⟨g₁, hg₁, hc, hl₁⟩ := hl.recorded c l x hr
    obtain ⟨g₂, hg₂, -, -, hcluster₂, hlayer₂, -⟩ := hmap' x g₁ hg₁
    exact ⟨g₂, hg₂, hcluster₂.trans hc, hlayer₂.trans hl₁⟩
  · intro hown c l x g₂ hr hg₂
    obtain ⟨g₁, hg₁, hkey₁, -⟩ := hmap x g₂ hg₂
    rw [hkey₁]
    exact hl.owned hown c l x g₁ hr hg₁
  · intro K D hD x hx
    obtain ⟨g₁, hg₁, hkey₁, c, hc, hcid⟩ := hl.listed K D hD x hx
    obtain ⟨g₂, hg₂, hkey₂, -, hcluster₂, -⟩ := hmap' x g₁ hg₁
    exact ⟨g₂, hg₂, hkey₂.trans hkey₁, c, hc, hcid.trans hcluster₂.symm⟩
  · intro c l x g₂ hr hg₂
    obtain ⟨g₁, hg₁, hkey₁, -⟩ := hmap x g₂ hg₂
    rw [hkey₁]
    exact hl.homed c l x g₁ hr hg₁
  · intro n c l hc hl'
    refine ((h.exact hproper).layer n c l hc hl').congr fun x hx => ?_
    obtain ⟨g₁, hg₁, -⟩ := hl.recorded c l x ⟨⟨n, hc⟩, hl', hx⟩
    obtain ⟨g₂, hg₂, -, -, -, -, hstart₂, hnr₂⟩ := hmap' x g₁ hg₁
    exact Or.inr ⟨g₁, g₂, hg₁, hg₂, hstart₂.symm, hnr₂.symm⟩
  · intro K D x g₂ c hD hx hg₂ hc hcid
    obtain ⟨g₁, hg₁, -, -, hcluster₁, hlayer₁, hstart₁, hnr₁⟩ := hmap x g₂ hg₂
    rw [hcluster₁] at hcid
    have hlisted := (h.exact hproper).listed K D x g₁ c hD hx hg₁ hc hcid
    simp only [VmGroup.Covers, hstart₁, hnr₁, hlayer₁]
    exact hlisted

/-- The threads, the outcomes of writes and the map of the VMs are no part of the books; `dom` takes
the place of the map. -/
theorem Inv.frame (h : Inv host pr s dom) (entityMap : ℕ → Option ℤ) (outcomes : List Bool)
    (domainMap : AList fun _ : Text => VmDomain) (undefined : Bool) :
    Inv host pr { s with
      entityMap := entityMap, outcomes := outcomes, domainMap := domainMap
      undefined := undefined } dom :=
  ⟨⟨h.linked.not_stuck, h.linked.depth_eq, h.linked.over_pos, h.linked.keyed,
    h.linked.recorded_nodup, h.linked.recorded, h.linked.owned, h.linked.listed_nodup,
    h.linked.listed, h.linked.key, h.linked.homed, h.linked.absent, h.linked.total_eq⟩,
    fun hproper =>
      ⟨(h.exact hproper).layer, (h.exact hproper).above, (h.exact hproper).listed⟩⟩

/-- **A group is put back** into the layer that it was just taken out of. -/
theorem Inv.refill (h : Inv host pr s dom) (hg : s.groupMap g.id = some g)
    (hrec : s.Records host c l g.id) :
    Inv host pr ((s.updateLayer c.id l (delGroupFromClusterLayer g)).updateLayer c.id l
      (addGroupToClusterLayer g)) dom := by
  have hl := h.linked
  obtain ⟨⟨n, hc⟩, hdepth, hmem⟩ := hrec
  have hself : ((s.updateLayer c.id l (delGroupFromClusterLayer g)).updateLayer c.id l
      (addGroupToClusterLayer g)).layers c.id l =
      addGroupToClusterLayer g (delGroupFromClusterLayer g (s.layers c.id l)) := by
    rw [layers_updateLayer_self, layers_updateLayer_self]
  have hother : ∀ c' l', ¬ (c' = c.id ∧ l' = l) →
      ((s.updateLayer c.id l (delGroupFromClusterLayer g)).updateLayer c.id l
        (addGroupToClusterLayer g)).layers c' l' = s.layers c' l' := by
    intro c' l' hne
    rw [layers_updateLayer_of_ne _ _ hne, layers_updateLayer_of_ne _ _ hne]
  have hgroups : ∀ c' l' id', id' ∈ (((s.updateLayer c.id l
      (delGroupFromClusterLayer g)).updateLayer c.id l
        (addGroupToClusterLayer g)).layers c' l').groups ↔ id' ∈ (s.layers c' l').groups := by
    intro c' l' id'
    by_cases hat : c' = c.id ∧ l' = l
    · rw [hat.1, hat.2, hself]
      simp only [addGroupToClusterLayer, delGroupFromClusterLayer, mem_setInsert,
        (hl.recorded_nodup c.id l).mem_erase_iff]
      refine ⟨?_, fun hid => ?_⟩
      · rintro (rfl | hid)
        · exact hmem
        · exact hid.2
      · by_cases heq : id' = g.id
        · exact Or.inl heq
        · exact Or.inr ⟨heq, hid⟩
    · rw [hother _ _ hat]
  have hrec : ∀ c' l' id', Sched.Records ((s.updateLayer c.id l
      (delGroupFromClusterLayer g)).updateLayer c.id l (addGroupToClusterLayer g)) host c' l' id' →
      s.Records host c' l' id' :=
    fun c' l' id' ⟨hn, hl', hid⟩ => ⟨hn, hl', (hgroups _ _ _).mp hid⟩
  refine ⟨⟨hl.not_stuck, hl.depth_eq, hl.over_pos, hl.keyed, ?_,
    fun c' l' id' hr => hl.recorded c' l' id' (hrec c' l' id' hr),
    fun hown c' l' id' g' hr => hl.owned hown c' l' id' g' (hrec c' l' id' hr),
    hl.listed_nodup, hl.listed, hl.key,
    fun c' l' id' g' hr => hl.homed c' l' id' g' (hrec c' l' id' hr), hl.absent, fun c' l' => ?_⟩,
    fun hproper => ⟨?_, ?_, ?_⟩⟩
  · intro c' l'
    by_cases hat : c' = c.id ∧ l' = l
    · rw [hat.1, hat.2, hself]
      exact nodup_setInsert ((hl.recorded_nodup c.id l).erase _)
    · rw [hother _ _ hat]
      exact hl.recorded_nodup c' l'
  · rw [total_add, total_del]
    exact hl.total_eq c' l'
  · intro n' c' l' hc' hl'
    by_cases hat : c'.id = c.id ∧ l' = l
    · obtain ⟨-, rfl⟩ := host.cluster_unique n' c' n c hc' hc hat.1
      rw [hat.2, hself]
      have hok := (h.exact hproper).layer n' c' l hc' hdepth
      have hdel := hok.del hc' hg hmem
      have hend := hok.areas.end_le hmem
      have hpos := hok.areas.size_pos _ hmem
      have hstart := hok.start_nonneg _ hmem g hg
      have hlt := hok.length_lt hc'
      rw [areaStart_of_eq hg, areaSize_of_eq hg] at hend
      rw [areaSize_of_eq hg] at hpos
      refine hdel.add hc' (fun _ _ => rfl) hg hstart hpos ?_
      simp only [delGroupFromClusterLayer]
      rw [uint16_of_nonneg hstart (by omega), dynamicBitsetClear_of_le hpos hend]
      exact areaIs_setArea hend
    · rw [hother _ _ hat]
      exact (h.exact hproper).layer n' c' l' hc' hl'
  · intro n' c' l' hc' hover hl'
    have hnil := (h.exact hproper).above n' c' l' hc' hover hl'
    refine List.eq_nil_iff_forall_not_mem.mpr fun id' hid' => ?_
    rw [hgroups, hnil] at hid'
    exact List.not_mem_nil hid'
  · intro K D id' g' c' hD hid' hg' hc' hcid
    obtain ⟨hlt, hin, hallowed⟩ := (h.exact hproper).listed K D id' g' c' hD hid' hg' hc' hcid
    exact ⟨hlt, (hgroups _ _ _).mpr hin, hallowed⟩

/-! ## Layers -/

/-- A sum over the nodes, with the summand of one of them changed. -/
theorem sum_update {ns : List ℕ} (hnodup : ns.Nodup) {n : ℕ} (hn : n ∈ ns) (f : ℕ → ℕ) (v : ℕ) :
    (ns.map fun k => Function.update f n v k - 1).sum + (f n - 1) =
      (ns.map fun k => f k - 1).sum + (v - 1) := by
  have hafter := List.sum_map_erase (fun k => Function.update f n v k - 1) hn
  have hbefore := List.sum_map_erase (fun k => f k - 1) hn
  have hrest : (ns.erase n).map (fun k => Function.update f n v k - 1) =
      (ns.erase n).map fun k => f k - 1 := by
    refine List.map_congr_left fun k hk => ?_
    rw [Function.update_of_ne (hnodup.mem_erase_iff.mp hk).1]
  rw [hrest, Function.update_self] at hafter
  omega

theorem emptyLayers_of_mem {n : ℕ} (hc : c ∈ host.clusters n) :
    host.emptyLayers c.id = host.emptyLayer c := by
  have hn : n ∈ host.numas := by
    by_contra hn
    rw [host.clusters_of_notMem n hn] at hc
    exact List.not_mem_nil hc
  have hfound : (host.cluster? c.id).isSome := by
    rw [Host.cluster?, List.find?_isSome]
    exact ⟨c, List.mem_flatMap.mpr ⟨n, hn, hc⟩, beq_self_eq_true _⟩
  obtain ⟨c', hc'⟩ := Option.isSome_iff_exists.mp hfound
  have hid := List.find?_some hc'
  obtain ⟨n', -, hmem⟩ := List.mem_flatMap.mp (List.mem_of_find?_eq_some hc')
  obtain ⟨-, rfl⟩ := host.cluster_unique n' c' n c hmem hc (beq_iff_eq.mp hid)
  rw [Host.emptyLayers, hc']

theorem emptyLayers_groups (c : ℕ) : (host.emptyLayers c).groups = [] := by
  rw [Host.emptyLayers]
  split <;> rfl

/-- **A layer is pushed** on every cluster. -/
theorem Inv.up (h : Inv host pr s dom) {n : ℕ} (hn : 0 < s.overProvision n) :
    Inv host pr (overProvisionUp host n s) dom := by
  have hl := h.linked
  have hmem := (hl.over_pos n).mpr hn
  have hrec : ∀ c l id, (overProvisionUp host n s).Records host c l id → s.Records host c l id := by
    rintro c l id ⟨hc, hlt, hid⟩
    simp only [overProvisionUp] at hlt hid
    split at hid
    · rw [emptyLayers_groups] at hid
      exact absurd hid List.not_mem_nil
    · exact ⟨hc, by omega, hid⟩
  refine ⟨⟨hl.not_stuck, ?_, ?_, hl.keyed, ?_,
    fun c l id hr => hl.recorded c l id (hrec c l id hr),
    fun hown c l id g hr => hl.owned hown c l id g (hrec c l id hr),
    hl.listed_nodup, hl.listed, hl.key,
    fun c l id g hr => hl.homed c l id g (hrec c l id hr), hl.absent, ?_⟩,
    fun hproper => ⟨?_, ?_, ?_⟩⟩
  · have hsum := sum_update host.numas_nodup hmem s.overProvision (s.overProvision n + 1)
    have hdepth := hl.depth_eq
    simp only [overProvisionUp]
    omega
  · intro k
    have hk := hl.over_pos k
    simp only [overProvisionUp, Function.update_apply]
    split
    · next heq =>
      rw [heq]
      exact iff_of_true hmem (by omega)
    · exact hk
  · intro c l
    simp only [overProvisionUp]
    split
    · rw [emptyLayers_groups]
      exact List.nodup_nil
    · exact hl.recorded_nodup c l
  · intro c l
    simp only [overProvisionUp]
    split
    · rfl
    · exact hl.total_eq c l
  · intro k c l hc hlt
    simp only [overProvisionUp] at hlt ⊢
    split
    · rw [emptyLayers_of_mem hc]
      exact layerOk_emptyLayer _ c
    · exact (h.exact hproper).layer k c l hc (by omega)
  · intro k c l hc hover hlt
    simp only [overProvisionUp] at hover hlt ⊢
    split
    · exact emptyLayers_groups _
    · refine (h.exact hproper).above k c l hc ?_ (by omega)
      rw [Function.update_apply] at hover
      split at hover
      · next heq =>
        rw [heq]
        omega
      · exact hover
  · intro K D id g c hD hid hg hc hcid
    obtain ⟨hlt, hin, hallowed⟩ := (h.exact hproper).listed K D id g c hD hid hg hc hcid
    simp only [overProvisionUp]
    refine ⟨by omega, ?_, hallowed⟩
    rw [if_neg (by omega)]
    exact hin

/-- **A layer is popped** from every cluster, after the last layer of a node was found empty. -/
theorem Inv.down (h : Inv host pr s dom) {n : ℕ} (hn : 1 < s.overProvision n)
    (hempty : s.AllProper → ∀ c ∈ host.clusters n,
      (s.layers c.id (s.overProvision n - 1)).groups = []) :
    Inv host pr (overProvisionDown n s) dom := by
  have hl := h.linked
  have hmem := (hl.over_pos n).mpr (by omega)
  have hrec : ∀ c l id, (overProvisionDown n s).Records host c l id → s.Records host c l id := by
    rintro c l id ⟨hc, hlt, hid⟩
    simp only [overProvisionDown] at hlt
    exact ⟨hc, by omega, hid⟩
  have hlinked : Linked host pr (overProvisionDown n s) dom := by
    refine ⟨hl.not_stuck, ?_, ?_, hl.keyed, hl.recorded_nodup,
      fun c l id hr => hl.recorded c l id (hrec c l id hr),
      fun hown c l id g hr => hl.owned hown c l id g (hrec c l id hr),
      hl.listed_nodup, hl.listed, hl.key,
      fun c l id g hr => hl.homed c l id g (hrec c l id hr), hl.absent, hl.total_eq⟩
    · have hsum := sum_update host.numas_nodup hmem s.overProvision (s.overProvision n - 1)
      have hdepth := hl.depth_eq
      simp only [overProvisionDown]
      omega
    · intro k
      have hk := hl.over_pos k
      simp only [overProvisionDown, Function.update_apply]
      split
      · next heq =>
        rw [heq]
        exact iff_of_true hmem (by omega)
      · exact hk
  -- the layers that are not used afterwards are empty
  have habove : s.AllProper → ∀ k c l, c ∈ host.clusters k →
      (overProvisionDown n s).overProvision k ≤ l → l < s.depth →
        (s.layers c.id l).groups = [] := by
    intro hproper k c l hc hover hlt
    simp only [overProvisionDown, Function.update_apply] at hover
    split at hover
    · next heq =>
      subst heq
      rcases Nat.lt_or_ge l (s.overProvision k) with hlow | hhigh
      · have hlast : l = s.overProvision k - 1 := by omega
        rw [hlast]
        exact hempty hproper c hc
      · exact (h.exact hproper).above k c l hc hhigh hlt
    · exact (h.exact hproper).above k c l hc hover hlt
  refine ⟨hlinked, fun hproper => ⟨?_, ?_, ?_⟩⟩
  · intro k c l hc hlt
    simp only [overProvisionDown] at hlt
    exact (h.exact hproper).layer k c l hc (by omega)
  · intro k c l hc hover hlt
    simp only [overProvisionDown] at hlt
    exact habove hproper k c l hc hover (by omega)
  · intro K D id g c hD hid hg hc hcid
    obtain ⟨hlt, hin, hallowed⟩ := (h.exact hproper).listed K D id g c hD hid hg hc hcid
    refine ⟨?_, hin, hallowed⟩
    by_contra hge
    have hle := hlinked.over_le_depth D.numaId
    have hnil := habove hproper D.numaId c g.layerId hc (by omega) hlt
    rw [hnil] at hin
    exact List.not_mem_nil hin

/-! ## VMs -/

/-- `D'` is the VM `D`, possibly with fewer groups. -/
def VmDomain.Within (D' D : VmDomain) : Prop :=
  D'.uuid = D.uuid ∧ D'.numaId = D.numaId ∧ D'.pidVcpuMap = D.pidVcpuMap ∧
    D'.commonCpuMap = D.commonCpuMap ∧ D'.groups.Nodup ∧ D'.groups ⊆ D.groups

/-- **The VMs change**: some list fewer groups, some are erased, and new ones have none. If all
groups are owned, a listed group stays listed. -/
theorem Inv.redom (h : Inv host pr s dom)
    (hdom : ∀ K D', dom' K = some D' → (∃ D, dom K = some D ∧ D'.Within D) ∨
      D'.groups = [] ∧ (K = domainKeyOf D'.uuid D'.numaId ∧ (pr.own → ¬ pr.gone K) ∨
        ¬ pr.own ∧ D'.pidVcpuMap = [] ∧ D'.commonCpuMap = []))
    (hown : pr.own → ∀ K D id, dom K = some D → id ∈ D.groups →
      ∃ D', dom' K = some D' ∧ id ∈ D'.groups) :
    Inv host pr s dom' := by
  have hl := h.linked
  refine ⟨⟨hl.not_stuck, hl.depth_eq, hl.over_pos, hl.keyed, hl.recorded_nodup, hl.recorded, ?_,
    ?_, ?_, ?_, hl.homed, ?_, hl.total_eq⟩,
    fun hproper => ⟨(h.exact hproper).layer, (h.exact hproper).above, ?_⟩⟩
  · intro ho c l id g hr hg
    obtain ⟨D, hD, hid⟩ := hl.owned ho c l id g hr hg
    exact hown ho _ D id hD hid
  · intro K D' hD'
    rcases hdom K D' hD' with ⟨D, -, hwithin⟩ | ⟨hnil, -⟩
    · exact hwithin.2.2.2.2.1
    · rw [hnil]
      exact List.nodup_nil
  · intro K D' hD' id hid
    rcases hdom K D' hD' with ⟨D, hD, -, hnuma, -, -, -, hsub⟩ | ⟨hnil, -⟩
    · rw [hnuma]
      exact hl.listed K D hD id (hsub hid)
    · rw [hnil] at hid
      exact absurd hid List.not_mem_nil
  · intro K D' hD'
    rcases hdom K D' hD' with ⟨D, hD, huuid, hnuma, hpids, hcpus, -, hsub⟩ | ⟨hnil, hkey⟩
    · rw [huuid, hnuma, hpids, hcpus]
      refine (hl.key K D hD).imp_right ?_
      rintro ⟨hnot, hgroups, hrest⟩
      rw [hgroups] at hsub
      exact ⟨hnot, List.subset_nil.mp hsub, hrest⟩
    · exact hkey.imp And.left fun ⟨hnot, hrest⟩ => ⟨hnot, hnil, hrest⟩
  · intro ho K hgone
    have hnone := hl.absent ho K hgone
    refine Option.eq_none_iff_forall_ne_some.mpr fun D' hD' => ?_
    rcases hdom K D' hD' with ⟨D, hD, -⟩ | ⟨-, ⟨-, hnot⟩ | ⟨hnot, -⟩⟩
    · rw [hnone] at hD
      exact absurd hD (by simp)
    · exact hnot ho hgone
    · exact hnot ho
  · intro K D' id g c hD' hid hg hc hcid
    rcases hdom K D' hD' with ⟨D, hD, -, hnuma, -, hcpus, -, hsub⟩ | ⟨hnil, -⟩
    · rw [hnuma] at hc
      rw [hcpus]
      exact (h.exact hproper).listed K D id g c hD (hsub hid) hg hc hcid
    · rw [hnil] at hid
      exact absurd hid List.not_mem_nil

/-- One VM lists fewer groups. -/
theorem Inv.replace (h : Inv host pr s (Function.update dom K (some D))) (hwithin : D'.Within D)
    (hown : pr.own → D.groups ⊆ D'.groups) :
    Inv host pr s (Function.update dom K (some D')) := by
  refine h.redom (fun K₁ D₁ hD₁ => Or.inl ?_) fun ho K₁ D₁ id hD₁ hid => ?_
  · by_cases hK : K₁ = K
    · rw [hK, Function.update_self, Option.some.injEq] at hD₁
      rw [hK, ← hD₁]
      exact ⟨D, Function.update_self _ _ _, hwithin⟩
    · rw [Function.update_of_ne hK] at hD₁
      have hD : Function.update dom K (some D) K₁ = some D₁ := by
        rw [Function.update_of_ne hK]
        exact hD₁
      exact ⟨D₁, hD, rfl, rfl, rfl, rfl, h.linked.listed_nodup K₁ D₁ hD, fun _ hid => hid⟩
  · by_cases hK : K₁ = K
    · rw [hK, Function.update_self, Option.some.injEq] at hD₁
      rw [← hD₁] at hid
      rw [hK]
      exact ⟨D', Function.update_self _ _ _, hown ho hid⟩
    · rw [Function.update_of_ne hK] at hD₁ ⊢
      exact ⟨D₁, hD₁, hid⟩

/-- One VM is erased. -/
theorem Inv.remove (h : Inv host pr s (Function.update dom K (some D)))
    (hown : pr.own → D.groups = []) : Inv host pr s (Function.update dom K none) := by
  refine h.redom (fun K₁ D₁ hD₁ => Or.inl ?_) fun ho K₁ D₁ id hD₁ hid => ?_
  · by_cases hK : K₁ = K
    · rw [hK, Function.update_self] at hD₁
      exact absurd hD₁ (by simp)
    · rw [Function.update_of_ne hK] at hD₁
      have hD : Function.update dom K (some D) K₁ = some D₁ := by
        rw [Function.update_of_ne hK]
        exact hD₁
      exact ⟨D₁, hD, rfl, rfl, rfl, rfl, h.linked.listed_nodup K₁ D₁ hD, fun _ hid => hid⟩
  · by_cases hK : K₁ = K
    · rw [hK, Function.update_self, Option.some.injEq] at hD₁
      rw [← hD₁, hown ho] at hid
      exact absurd hid List.not_mem_nil
    · rw [Function.update_of_ne hK] at hD₁ ⊢
      exact ⟨D₁, hD₁, hid⟩

/-- A VM without groups is entered, where there was none if all groups are owned. -/
theorem Inv.enter (h : Inv host pr s dom) (hown : pr.own → dom K = none) (hnil : D.groups = [])
    (hkey : K = domainKeyOf D.uuid D.numaId ∧ (pr.own → ¬ pr.gone K) ∨
      ¬ pr.own ∧ D.pidVcpuMap = [] ∧ D.commonCpuMap = []) :
    Inv host pr s (Function.update dom K (some D)) := by
  refine h.redom (fun K₁ D₁ hD₁ => ?_) fun ho K₁ D₁ id hD₁ hid => ?_
  · by_cases hK : K₁ = K
    · rw [hK, Function.update_self, Option.some.injEq] at hD₁
      rw [hK, ← hD₁]
      exact Or.inr ⟨hnil, hkey⟩
    · rw [Function.update_of_ne hK] at hD₁
      exact Or.inl ⟨D₁, hD₁, rfl, rfl, rfl, rfl, h.linked.listed_nodup K₁ D₁ hD₁,
        fun _ hid => hid⟩
  · refine ⟨D₁, ?_, hid⟩
    rw [Function.update_of_ne]
    · exact hD₁
    · rintro rfl
      rw [hown ho] at hD₁
      exact absurd hD₁ (by simp)

/-- Another promise about the VMs that are not there. -/
theorem Inv.promise (h : Inv host pr s dom) (gone : Text → Prop)
    (hgone : pr.own → ∀ K, gone K → dom K = none) : Inv host ⟨pr.own, gone⟩ s dom :=
  ⟨⟨h.linked.not_stuck, h.linked.depth_eq, h.linked.over_pos, h.linked.keyed,
    h.linked.recorded_nodup, h.linked.recorded, h.linked.owned, h.linked.listed_nodup,
    h.linked.listed, h.linked.key, h.linked.homed, hgone, h.linked.total_eq⟩, h.exact⟩

/-- The books of a scheduler without VMs. -/
theorem inv_initClusterInfo : Inv host pr (initClusterInfo host) fun _ => none := by
  have hgroups : ∀ c l, ((initClusterInfo host).layers c l).groups = [] :=
    fun c _ => emptyLayers_groups c
  have hrec : ∀ c l id, ¬ (initClusterInfo host).Records host c l id := by
    rintro c l id ⟨-, -, hid⟩
    rw [hgroups] at hid
    exact List.not_mem_nil hid
  have hone : ∀ k ∈ host.numas, (initClusterInfo host).overProvision k - 1 = 0 := by
    intro k hk
    simp only [initClusterInfo, if_pos hk]
  refine ⟨⟨rfl, ?_, ?_, nofun, ?_, fun c l id hr => absurd hr (hrec c l id),
    fun _ c l id g hr => absurd hr (hrec c l id), nofun, nofun, nofun,
    fun c l id g hr => absurd hr (hrec c l id), fun _ _ _ => rfl, fun _ _ => rfl⟩,
    fun _ => ⟨?_, fun _ c l _ _ _ => hgroups c.id l, nofun⟩⟩
  · rw [List.map_congr_left hone, List.map_const', List.sum_replicate]
    rfl
  · intro k
    simp only [initClusterInfo]
    split
    · next hk => exact iff_of_true hk (by decide)
    · next hk => exact iff_of_false hk (by decide)
  · intro c l
    rw [hgroups]
    exact List.nodup_nil
  · intro k c l hc _
    change LayerOk host _ c (host.emptyLayers c.id)
    rw [emptyLayers_of_mem hc]
    exact layerOk_emptyLayer _ c

end YellowZone.ClusterSched
