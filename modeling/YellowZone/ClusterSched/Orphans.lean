import YellowZone.ClusterSched.Calls

/-!
# Orphaned groups

A group in a layer holds CPUs, and only the VM that lists it gives them back. So every group of a
layer should be in `groupMap_` and be listed by the VM of its key, and by no other one.

This is kept by every call except an `AddDomainInfo` that fails half way. The allocation takes the
groups one cluster at a time, for a copy of the VM, and if the CPUs of the node do not suffice, the
copy is given up; the groups stay in the layers. From then on they have no owner: deleting the VM
does not free them, and compaction creates a VM with no name when it meets them. The condition is
exact: a call drops a group in this way, or there is no orphan after it (`no_orphans_iff`). A VM
that asks for at most as many CPUs as a cluster has is placed in one turn or not at all, so its call
drops none (`fits`).

## Main results

* `NoOrphans` — the property
* `no_orphans_iff` — when a call leaves no orphan, and that a deleted VM then holds no CPU
* `no_orphans_of_fits` — no run in which the VMs fit has an orphan
* `failed_add_leaves_orphan` — a VM that is too large for the node
-/

namespace YellowZone.ClusterSched

open Machine

/-- Every group of a layer is in `groupMap_` and is listed by exactly one VM, that of its key. -/
def NoOrphans (host : Host) (s : Sched) : Prop :=
  ∀ c l id, s.Records host c l id → ∃ g D, s.groupMap id = some g ∧
    s.vms g.domainKey = some D ∧ id ∈ D.groups ∧
      ∀ K D', s.vms K = some D' → id ∈ D'.groups → K = g.domainKey

/-- No CPU is held for the VM with the UUID. -/
def HoldsNothing (host : Host) (s : Sched) (uuid : Text) : Prop :=
  ∀ c l id g n, s.Records host c l id → s.groupMap id = some g → g.domainKey ≠ domainKeyOf uuid n

variable {host : Host} {s : Sched}

theorem noOrphans_of_inv (h : Inv host ⟨True, fun _ => False⟩ s s.vms) : NoOrphans host s := by
  intro c l id hr
  obtain ⟨g, hg, -⟩ := h.linked.recorded c l id hr
  obtain ⟨D, hD, hid⟩ := h.linked.owned trivial c l id g hr hg
  exact ⟨g, D, hg, hD, hid, fun K D' hD' hid' => (h.linked.key_of_listed hD' hid' hg).symm⟩

/-- A group that is dropped is an orphan. -/
theorem orphan_of_dropped (h : Inv host ⟨True, fun _ => False⟩ s s.vms) {a : Action}
    (hdropped : dropped host s a ≠ []) : ¬ NoOrphans host (call host s a) := by
  cases a with
  | addDomainInfo vmInfo outcomes =>
    have h' : Inv host ⟨True, fun _ => False⟩ (s.withOutcomes outcomes)
        (s.withOutcomes outcomes).vms := h.frame _ _ _ _
    simp only [dropped] at hdropped
    simp only [call, addDomainInfo]
    split at hdropped
    · exact absurd rfl hdropped
    · next D s' hu =>
      obtain ⟨hinv, K, hD⟩ := inv_updateDomainInfoFrom h' (fun _ hgone => hgone) hu
      have hkey := (hinv.linked.key K D hD).resolve_right fun hnot => hnot.1 trivial
      rw [← update_vms_self hD] at hinv
      have ha := allocated_alloc hinv (Or.inl hkey)
      split at hdropped
      · exact absurd rfl hdropped
      · next hfail =>
        obtain ⟨id, hid⟩ := List.exists_mem_of_ne_nil _ hdropped
        obtain ⟨hgained, hnew⟩ := List.mem_filter.mp hid
        have hnew : id ∉ D.groups := of_decide_eq_true hnew
        -- the group is in a layer, and the VM in the map does not list it
        obtain ⟨c, l, hr⟩ := (ha.gained id hgained).resolve_left hnew
        obtain ⟨g, hg, hgkey, -⟩ :=
          ha.inv.linked.listed K _ (Function.update_self _ _ _) id hgained
        simp only [reSched, hfail, Bool.false_eq_true, if_false]
        intro hno
        obtain ⟨g', D', hg', hD', hlist, -⟩ := hno c l id hr
        rw [hg, Option.some.injEq] at hg'
        rw [← hg', hgkey, vms_congr ha.domainMap_eq] at hD'
        have hsame : D = D' := Option.some.inj (hD.symm.trans hD')
        rw [← hsame] at hlist
        exact hnew hlist
  | delDomainInfo uuid outcomes running => exact absurd rfl hdropped
  | reSchedVm value outcomes running => exact absurd rfl hdropped
  | clusterCompaction outcomes running => exact absurd rfl hdropped
  | rehash domainMap => exact absurd rfl hdropped

/-- **When there are no orphans.** After calls that have dropped no group, a further call leaves no
orphan if and only if it drops none. And if it deletes a VM, no CPU is held for the VM
afterwards. -/
theorem no_orphans_iff {tr : List Event} {e : Event} (h : Run host (e :: tr) s)
    (hkept : ∀ e' ∈ tr, e'.dropped = []) :
    (NoOrphans host s ↔ e.dropped = []) ∧
      ∀ uuid outcomes running, e.action = .delDomainInfo uuid outcomes running →
        HoldsNothing host s uuid := by
  cases h with
  | @next _ s₁ _ a hbefore _ hs =>
    have hinv := inv_of_run True hbefore fun _ => hkept
    rw [step_eq hs]
    refine ⟨⟨fun hno => ?_, fun hnone => ?_⟩, ?_⟩
    · by_contra hdropped
      exact orphan_of_dropped hinv hdropped hno
    · exact noOrphans_of_inv (inv_call hinv a fun _ => hnone)
    · rintro uuid outcomes running rfl c l id g n hr hg hkey
      have hafter := inv_call hinv (.delDomainInfo uuid outcomes running) fun _ => rfl
      obtain ⟨D, hD, -⟩ := hafter.linked.owned trivial c l id g hr hg
      rw [hkey] at hD
      have hout : Inv host ⟨True, fun _ => False⟩ (s₁.withOutcomes outcomes)
          (s₁.withOutcomes outcomes).vms := hinv.frame _ _ _ _
      have hnone := absent_of_delDomainInfo hout uuid running n
      exact absurd (hnone.symm.trans hD) (by simp)

/-! ## VMs that fit a cluster -/

/-- An `AddDomainInfo` is for a VM that is placed already, or that asks for at most as many CPUs as
a cluster has. -/
def fits (host : Host) (s : Sched) : Action → Bool
  | .addDomainInfo vmInfo outcomes =>
    (updateDomainInfoWithoutLock host vmInfo (s.withOutcomes outcomes)).all fun entered =>
      entered.1.isReScheded ||
        decide (entered.1.pidVcpuMap.length * host.granularity % 2 ^ 16 ≤ host.clusterCpuNum)
  | _ => true

/-- The allocation is of all that was asked for, or the VM has gained nothing. -/
def Allocation.Whole (nr : ℕ) (D : VmDomain) (a : Allocation ℕ) : Prop :=
  a.result = nr ∨ a.result = 0 ∧ a.domain = D

variable {D : VmDomain} {nr : ℕ}

theorem whole_allocGroupFromCluster {c : ClusterInfo} {l : ℕ} (h : nr ≤ (s.layers c.id l).total) :
    (allocGroupFromCluster host nr l D c s).Whole nr D := by
  simp only [allocGroupFromCluster]
  split
  · next htotal =>
    split
    · exact Or.inr ⟨rfl, rfl⟩
    · exact Or.inl (Nat.le_antisymm htotal.1 h)
  · split
    · split
      · exact Or.inr ⟨rfl, rfl⟩
      · exact Or.inl rfl
    · rw [if_pos rfl]
      exact Or.inr ⟨rfl, rfl⟩

theorem whole_allocInLayer {l : ℕ} {cs : List ClusterInfo}
    (h : ∀ c ∈ cs, nr ≤ (s.layers c.id l).total) :
    (allocInLayer host nr l D cs s).Whole nr D := by
  induction cs with
  | nil => exact Or.inr ⟨rfl, rfl⟩
  | cons c cs ih =>
    have hrest := ih fun c' hc' => h c' (List.mem_cons_of_mem _ hc')
    rw [allocInLayer]
    split
    · exact hrest
    · simp only
      split
      · exact hrest
      · exact whole_allocGroupFromCluster (h c List.mem_cons_self)

theorem whole_allocInLayers (hnr : nr ≤ host.clusterCpuNum) :
    ∀ (turns l : ℕ) {s : Sched},
      (∀ c ∈ host.clusters D.numaId, ∀ l, nr ≤ (s.layers c.id l).total) →
      (allocInLayers host nr D turns l s).Whole nr D := by
  intro turns
  induction turns with
  | zero => exact fun _ _ _ => Or.inr ⟨rfl, rfl⟩
  | succ turns ih =>
    intro l s h
    rw [allocInLayers]
    split
    · simp only
      split
      · exact whole_allocInLayer fun c hc => h c hc l
      · split
        · refine ih (l + 1) fun c hc l' => ?_
          simp only [overProvisionUp]
          split
          · rw [emptyLayers_of_mem hc]
            exact hnr
          · exact h c hc l'
        · exact ih (l + 1) h
    · exact Or.inr ⟨rfl, rfl⟩

/-- **The VM is placed in one turn, or not at all.** -/
theorem alloc_whole {pr : Promise} {dom : Text → Option VmDomain} (h : Inv host pr s dom)
    (hnr : D.pidVcpuMap.length * host.granularity % 2 ^ 16 ≤ host.clusterCpuNum) :
    (alloc host D s).result = true ∨ (alloc host D s).domain = D := by
  simp only [alloc]
  split
  · exact Or.inr rfl
  split
  · exact Or.inl rfl
  split
  · exact Or.inr rfl
  generalize D.pidVcpuMap.length * host.granularity % 2 ^ 16 = nr at hnr ⊢
  cases nr with
  | zero => exact Or.inl rfl
  | succ nr =>
    have hwhole : (allocClusterGroupToDomain host (nr + 1) D s).Whole (nr + 1) D := by
      refine whole_allocInLayers hnr _ 0 fun c hc l => ?_
      rw [h.linked.total_eq, emptyLayers_of_mem hc]
      exact hnr
    rw [allocLoop]
    rcases hwhole with hall | ⟨hnone, hsame⟩
    · rw [if_neg (by omega), hall, Nat.sub_self]
      exact Or.inl (by rw [allocLoop])
    · rw [if_pos hnone]
      exact Or.inr hsame

/-- A call for a VM that fits drops nothing. -/
theorem dropped_of_fits {pr : Promise} (h : Inv host pr s s.vms) (hgone : ∀ K, ¬ pr.gone K)
    {a : Action} (hfits : fits host s a = true) : dropped host s a = [] := by
  cases a with
  | addDomainInfo vmInfo outcomes =>
    simp only [dropped]
    split
    · rfl
    · next D s' hu =>
      have hinv := (inv_updateDomainInfoFrom (h.frame _ outcomes _ _) hgone hu).1
      simp only [fits, hu, Option.all_some, Bool.or_eq_true, decide_eq_true_eq] at hfits
      split
      · rfl
      · next hfail =>
        rcases hfits with hplaced | hnr
        · simp only [alloc, hplaced, if_true] at hfail ⊢
          split at hfail
          · next hzero => simp [hzero]
          · exact absurd rfl hfail
        · rw [(alloc_whole hinv hnr).resolve_left hfail]
          simp
  | delDomainInfo uuid outcomes running => rfl
  | reSchedVm value outcomes running => rfl
  | clusterCompaction outcomes running => rfl
  | rehash domainMap => rfl

/-- A run in which the VMs that are added fit. -/
abbrev FittingRun (host : Host) (tr : List Event) (s : Sched) : Prop :=
  (system host).Exec (fun s a => fits host s a = true) (initClusterInfo host) tr s

theorem kept_of_fits {tr : List Event} (h : FittingRun host tr s) :
    Run host tr s ∧ ∀ e ∈ tr, e.dropped = [] := by
  induction h with
  | start => exact ⟨.start, nofun⟩
  | next _ hfits hs ih =>
    refine ⟨ih.1.next trivial hs, fun e he => ?_⟩
    rcases List.mem_cons.mp he with rfl | he
    · exact dropped_of_fits (inv_of_run False ih.1 False.elim) (fun _ => id) hfits
    · exact ih.2 e he

/-- **No orphans as long as the VMs fit a cluster.** In every state of every such run there is no
orphan, and after a `DelDomainInfo` no CPU is held for the VM. And the next call, for whatever VM,
leaves an orphan exactly if it drops a group. -/
theorem no_orphans_of_fits {tr : List Event} (h : FittingRun host tr s) :
    NoOrphans host s ∧
      (∀ e tr' uuid outcomes running, tr = e :: tr' →
        e.action = .delDomainInfo uuid outcomes running → HoldsNothing host s uuid) ∧
      ∀ a s', (system host).step s a = some s' → (NoOrphans host s' ↔ dropped host s a = []) := by
  obtain ⟨hrun, hkept⟩ := kept_of_fits h
  refine ⟨noOrphans_of_inv (inv_of_run True hrun fun _ => hkept), ?_, fun a s' hs => ?_⟩
  · rintro e tr' uuid outcomes running rfl hdel
    exact (no_orphans_iff hrun fun e' he' => hkept e' (List.mem_cons_of_mem _ he')).2 uuid outcomes
      running hdel
  · exact (no_orphans_iff (hrun.next trivial hs) hkept).1

/-- Two clusters of two CPUs. -/
def twoClusters : Host :=
  .oneNode [⟨0, 0, List.replicate 2 false⟩, ⟨1, 2, List.replicate 2 false⟩] 2 false (by decide)
    (by decide) two_lt_two_pow_16

/-- Two VMs are added and one of them is deleted. -/
theorem no_orphans_add_delete : ∃ tr s, FittingRun twoClusters tr s ∧ NoOrphans twoClusters s ∧
    (s.layers 1 0).groups ≠ [] := by
  obtain ⟨tr, s, h, htest⟩ : ∃ tr s, FittingRun twoClusters tr s ∧ _ :=
    Lts.exists_exec (fun _ _ hfits => hfits)
      [.addDomainInfo (smallVm [97] 100 2 4) [], .addDomainInfo (smallVm [98] 200 2 4) [],
        .delDomainInfo [97] [] [[98]]]
      (fun _ (s : Sched) => decide ((s.layers 1 0).groups ≠ [])) (by decide +kernel)
  exact ⟨tr, s, h, (no_orphans_of_fits h).1, of_decide_eq_true htest⟩

/-- **A failed call leaves an orphan.** VM `a` has a CPU of the first cluster. VM `b` needs four
CPUs: it is given the second cluster, and then there is no further CPU for it. Its CPUs are held
even after it was deleted. -/
theorem failed_add_leaves_orphan : ∃ tr s, Run twoClusters tr s ∧ ¬ NoOrphans twoClusters s ∧
    ¬ HoldsNothing twoClusters s [98] := by
  obtain ⟨tr, s, h, htest⟩ : ∃ tr s, Run twoClusters tr s ∧ _ := exists_run
    [.addDomainInfo (smallVm [97] 100 1 4) [], .addDomainInfo (smallVm [98] 200 4 4) [],
      .delDomainInfo [98] [] [[97]]]
    (fun _ s => decide (s.depth = 1 ∧
      groupIdOf (domainKeyOf [98] 0) 1 0 ∈ (s.layers 1 0).groups ∧
      (s.groupMap (groupIdOf (domainKeyOf [98] 0) 1 0)).map (·.domainKey) =
        some (domainKeyOf [98] 0) ∧
      (s.domainMap.lookup (domainKeyOf [98] 0)).map (·.groups) = some []))
    (by decide +kernel)
  obtain ⟨hdepth, hmem, hgroup, hvm⟩ := of_decide_eq_true htest
  obtain ⟨g, hg, hkey⟩ := Option.map_eq_some_iff.mp hgroup
  obtain ⟨D, hD, hnil⟩ := Option.map_eq_some_iff.mp hvm
  have hrec : s.Records twoClusters ⟨1, 2, List.replicate 2 false⟩ 0
      (groupIdOf (domainKeyOf [98] 0) 1 0) :=
    ⟨⟨0, List.mem_cons_of_mem _ (List.mem_singleton.mpr rfl)⟩, by omega, hmem⟩
  refine ⟨tr, s, h, fun hno => ?_, fun hnothing => hnothing _ 0 _ g 0 hrec hg hkey⟩
  obtain ⟨g', D', hg', hD', hlist, -⟩ := hno _ 0 _ hrec
  rw [hg, Option.some.injEq] at hg'
  rw [← hg', hkey] at hD'
  have hsame : D = D' := Option.some.inj (hD.symm.trans hD')
  rw [← hsame, hnil] at hlist
  exact List.not_mem_nil hlist

end YellowZone.ClusterSched
