import YellowZone.ClusterSched.CpuRanges
import YellowZone.ClusterSched.NumaChoice
import YellowZone.ClusterSched.Orphans

/-!
# The daemon around the scheduler

The calls of `Scheduler` answer events and commands. The daemon does more by itself. At its start
it places the VMs that already run (`ReSchedStartedVms`). A timer enters the VMs that the
virtualization layer reports and places those that have no CPUs yet (`UpdateDomainInfosAndSched`).
And when the policy is changed at run time, all placements are forgotten and made anew
(`ReSetSchedPolicy`).

These loops work on the VMs in the map, not on copies. An allocation that fails half way leaves its
groups with the VM that gained them, so that none of them makes an orphan, unlike `AddDomainInfo`.

## The model

`SetConfig` stores the new policy first and resets the placements after it, under a lock that the
other threads can take in between. So these are two steps here, and any others may come between.

What `ReSetSchedPolicy` writes to the cpusets before it forgets the placements is left out: nobody
looks at how these writes end. The list of VMs is an argument, as it is taken before the lock.

## Main results

* `updateDomainInfosAndSched`, `reSchedStartedVms`, `reSetSchedPolicy` — the loops
* `Daemon`, `daemonSystem` — the calls, the loops and changes of the policy, in any order
* `daemon_keeps_books` — every run keeps the books
-/

namespace YellowZone.ClusterSched

open Machine

variable (host : Host)

/-! ## The loops of the daemon -/

/-- One turn of the loop: a VM is entered, and the usage table is that of the turns before. -/
def updateDomainInfosStep (r : NumaUsedCpuMap × Sched) (vmInfo : VmInfo) : NumaUsedCpuMap × Sched :=
  let (entered, used) := updateDomainInfoFrom host r.1 vmInfo r.2
  (used, (entered.map (·.2)).getD r.2)

def updateDomainInfosWithoutLock (vmInfos : List VmInfo) (s : Sched) : Sched :=
  (vmInfos.foldl (updateDomainInfosStep host) (numaUsedCpu host s, s)).2

/-- A VM of the map is given CPUs and its threads are pinned. What it has gained stays with it if
that fails. -/
def placeDomain (s : Sched) (key : Text) : Sched :=
  match s.domainMap.lookup key with
  | none => s
  | some domain =>
    let a := assignAllocated host (alloc host domain s)
    { a.sched with domainMap := a.sched.domainMap.insert key a.domain }

/-- The timer leaves the VMs alone that are placed. -/
def placeUnplaced (s : Sched) (key : Text) : Sched :=
  if (s.domainMap.lookup key).any (·.isReScheded) then s else placeDomain host s key

def updateDomainInfosAndSched (vmInfos : List VmInfo) (s : Sched) : Sched :=
  let s := updateDomainInfosWithoutLock host vmInfos s
  s.domainMap.keys.foldl (placeUnplaced host) s

def reSchedStartedVmsWithoutLock (s : Sched) : Sched :=
  s.domainMap.keys.foldl (placeDomain host) s

def reSchedStartedVms (vmInfos : List VmInfo) (s : Sched) : Sched :=
  reSchedStartedVmsWithoutLock host (updateDomainInfosWithoutLock host vmInfos s)

/-- The VM as it was before it was placed. -/
def VmDomain.unplaced (domain : VmDomain) : VmDomain :=
  { domain with groups := [], isReScheded := false }

/-- One empty layer for every cluster, and no VM has CPUs. -/
def restoreVmInfoWithoutLock (s : Sched) : Sched :=
  { s with
    layers := fun c _ => host.emptyLayers c
    depth := 1
    overProvision := fun n => if n ∈ host.numas then 1 else s.overProvision n
    domainMap := ⟨_, s.domainMap.nodupKeys.map₂ (fun _ => VmDomain.unplaced)⟩
    groupMap := fun _ => none
    entityMap := fun _ => none }

def reSetSchedPolicy (s : Sched) : Sched :=
  reSchedStartedVmsWithoutLock host (restoreVmInfoWithoutLock host s)

/-! ## The daemon -/

/-- The machine under another policy. -/
def Host.withPolicy (dynamicAffinity : Bool) : Host :=
  { host with dynamicAffinity := dynamicAffinity }

structure Daemon where
  dynamicAffinity : Bool
  sched : Sched

inductive DaemonAction where
  | call (a : Action)
  | setPolicy (dynamicAffinity : Bool)
  | updateDomainInfosAndSched (vmInfos : List VmInfo) (outcomes : List Bool)
  | reSchedStartedVms (vmInfos : List VmInfo) (outcomes : List Bool)
  | reSetSchedPolicy (outcomes : List Bool)

/-- The state after an action, if it returns. -/
def Daemon.after (d : Daemon) : DaemonAction → Daemon
  | .call a => ⟨d.dynamicAffinity, ClusterSched.call (host.withPolicy d.dynamicAffinity) d.sched a⟩
  | .setPolicy dynamicAffinity => ⟨dynamicAffinity, d.sched⟩
  | .updateDomainInfosAndSched vmInfos outcomes =>
    ⟨d.dynamicAffinity, ClusterSched.updateDomainInfosAndSched (host.withPolicy d.dynamicAffinity)
      vmInfos (d.sched.withOutcomes outcomes)⟩
  | .reSchedStartedVms vmInfos outcomes =>
    ⟨d.dynamicAffinity, ClusterSched.reSchedStartedVms (host.withPolicy d.dynamicAffinity) vmInfos
      (d.sched.withOutcomes outcomes)⟩
  | .reSetSchedPolicy outcomes =>
    ⟨d.dynamicAffinity, ClusterSched.reSetSchedPolicy (host.withPolicy d.dynamicAffinity)
      (d.sched.withOutcomes outcomes)⟩

/-- What is observed of an action: the groups that an `AddDomainInfo` drops. -/
def Daemon.drops (d : Daemon) : DaemonAction → List Text
  | .call a => dropped (host.withPolicy d.dynamicAffinity) d.sched a
  | _ => []

def daemonSystem : Lts Daemon DaemonAction (List Text) where
  step d a :=
    if (d.after host a).sched.stuck ∨ (d.after host a).sched.undefined then none
    else some (d.after host a)
  event d a _ := d.drops host a

abbrev DaemonRun (tr : List (List Text)) (d : Daemon) : Prop :=
  (daemonSystem host).Exec (fun _ _ => True) ⟨host.dynamicAffinity, initClusterInfo host⟩ tr d

variable {host} {pr : Promise} {s : Sched} {dom : Text → Option VmDomain} {K : Text}

/-! ## What the loops keep -/

/-- The policy is not in the books. -/
theorem inv_withPolicy {p : Bool} :
    Inv (host.withPolicy p) pr s dom ↔ Inv host pr s dom := by
  constructor
  all_goals
    rintro ⟨⟨h₁, h₂, h₃, h₄, h₅, h₆, h₇, h₈, h₉, h₁₀, h₁₁, h₁₂, h₁₃⟩, hexact⟩
    refine ⟨⟨h₁, h₂, h₃, h₄, h₅, h₆, h₇, h₈, h₉, h₁₀, h₁₁, h₁₂, h₁₃⟩, fun hproper => ?_⟩
    obtain ⟨hlayer, habove, hlisted⟩ := hexact hproper
    refine ⟨fun n c l hc hl => ?_, habove, hlisted⟩
    obtain ⟨htotal, hidle, hstart, hareas⟩ := hlayer n c l hc hl
    exact ⟨htotal, hidle, hstart, hareas⟩

theorem inv_updateDomainInfosWithoutLock (h : Inv host pr s s.vms) (hgone : ∀ K, ¬ pr.gone K)
    (vmInfos : List VmInfo) :
    Inv host pr (updateDomainInfosWithoutLock host vmInfos s)
      (updateDomainInfosWithoutLock host vmInfos s).vms := by
  refine List.foldlRecOn (motive := fun r : NumaUsedCpuMap × Sched => Inv host pr r.2 r.2.vms)
    vmInfos (updateDomainInfosStep host) h fun r hr vmInfo _ => ?_
  simp only [updateDomainInfosStep]
  cases hu : (updateDomainInfoFrom host r.1 vmInfo r.2).1 with
  | none => exact hr
  | some entered => exact (inv_updateDomainInfoFrom hr hgone hu).1

theorem inv_placeDomain (h : Inv host pr s s.vms) (K : Text) :
    Inv host pr (placeDomain host s K) (placeDomain host s K).vms := by
  rw [placeDomain]
  split
  · exact h
  · next D hD =>
    have hkey : K = domainKeyOf D.uuid D.numaId ∨ D.pidVcpuMap = [] :=
      (h.linked.key K D hD).imp_right fun hrest => hrest.2.2.1
    rw [← update_vms_self hD] at h
    obtain ⟨hinv, hmap⟩ := inv_assignAllocated (allocated_alloc h hkey)
    exact hinv.store hmap

theorem inv_updateDomainInfosAndSched (h : Inv host pr s s.vms) (hgone : ∀ K, ¬ pr.gone K)
    (vmInfos : List VmInfo) :
    Inv host pr (updateDomainInfosAndSched host vmInfos s)
      (updateDomainInfosAndSched host vmInfos s).vms := by
  refine List.foldlRecOn (motive := fun s => Inv host pr s s.vms) _ (placeUnplaced host)
    (inv_updateDomainInfosWithoutLock h hgone vmInfos) fun s hs K _ => ?_
  rw [placeUnplaced]
  split
  · exact hs
  · exact inv_placeDomain hs K

theorem inv_reSchedStartedVmsWithoutLock (h : Inv host pr s s.vms) :
    Inv host pr (reSchedStartedVmsWithoutLock host s) (reSchedStartedVmsWithoutLock host s).vms :=
  List.foldlRecOn (motive := fun s => Inv host pr s s.vms) _ (placeDomain host) h
    fun _ hs K _ => inv_placeDomain hs K

theorem vms_restoreVmInfoWithoutLock (s : Sched) (K : Text) :
    (restoreVmInfoWithoutLock host s).vms K = (s.vms K).map VmDomain.unplaced :=
  List.dlookup_map₂ K

/-- **Forgetting all placements.** The VMs stay, and what was promised of them. -/
theorem inv_restoreVmInfoWithoutLock (h : Inv host pr s s.vms) :
    Inv host pr (restoreVmInfoWithoutLock host s) (restoreVmInfoWithoutLock host s).vms := by
  have hgroups : ∀ c l, ((restoreVmInfoWithoutLock host s).layers c l).groups = [] :=
    fun c _ => emptyLayers_groups c
  have hrec : ∀ c l id, ¬ (restoreVmInfoWithoutLock host s).Records host c l id := by
    rintro c l id ⟨-, -, hid⟩
    rw [hgroups] at hid
    exact List.not_mem_nil hid
  have hvms : ∀ K D, (restoreVmInfoWithoutLock host s).vms K = some D →
      ∃ D₀, s.vms K = some D₀ ∧ D₀.unplaced = D := by
    intro K D hD
    rw [vms_restoreVmInfoWithoutLock] at hD
    exact Option.map_eq_some_iff.mp hD
  have hnil : ∀ K D, (restoreVmInfoWithoutLock host s).vms K = some D → D.groups = [] := by
    intro K D hD
    obtain ⟨D₀, -, rfl⟩ := hvms K D hD
    rfl
  have hone : ∀ k ∈ host.numas, (restoreVmInfoWithoutLock host s).overProvision k - 1 = 0 := by
    intro k hk
    simp only [restoreVmInfoWithoutLock, if_pos hk]
  constructor
  · exact
      { not_stuck := h.linked.not_stuck
        depth_eq := by
          rw [List.map_congr_left hone, List.map_const', List.sum_replicate]
          rfl
        over_pos := by
          intro k
          simp only [restoreVmInfoWithoutLock]
          split
          · next hk => exact iff_of_true hk (by decide)
          · exact h.linked.over_pos k
        keyed := by
          intro id g hg
          cases hg
        recorded_nodup := fun c l => by rw [hgroups]; exact List.nodup_nil
        recorded := fun c l id hr => absurd hr (hrec c l id)
        owned := fun _ c l id g hr => absurd hr (hrec c l id)
        listed_nodup := fun K D hD => by rw [hnil K D hD]; exact List.nodup_nil
        listed := fun K D hD id hid => by
          rw [hnil K D hD] at hid
          exact absurd hid List.not_mem_nil
        key := by
          intro K D hD
          obtain ⟨D₀, hD₀, rfl⟩ := hvms K D hD
          exact (h.linked.key K D₀ hD₀).imp_right fun hrest => ⟨hrest.1, rfl, hrest.2.2⟩
        homed := fun c l id g hr => absurd hr (hrec c l id)
        absent := fun hown K hgone => by
          rw [vms_restoreVmInfoWithoutLock, h.linked.absent hown K hgone, Option.map_none]
        total_eq := fun _ _ => rfl }
  · refine fun _ => ⟨fun n c l hc _ => ?_, fun _ c l _ _ _ => hgroups c.id l, ?_⟩
    · change LayerOk host _ c (host.emptyLayers c.id)
      rw [emptyLayers_of_mem hc]
      exact layerOk_emptyLayer _ c
    · intro K D id g c hD hid
      rw [hnil K D hD] at hid
      exact absurd hid List.not_mem_nil

/-! ## Runs -/

/-- **The daemon keeps the books.** All groups stay owned if no call drops one. -/
theorem inv_after {own : Prop} {d : Daemon} (h : Inv host ⟨own, fun _ => False⟩ d.sched d.sched.vms)
    (a : DaemonAction) (hdrops : own → d.drops host a = []) :
    Inv host ⟨own, fun _ => False⟩ (d.after host a).sched (d.after host a).sched.vms := by
  have hpolicy : ∀ outcomes, Inv (host.withPolicy d.dynamicAffinity) ⟨own, fun _ => False⟩
      (d.sched.withOutcomes outcomes) (d.sched.withOutcomes outcomes).vms :=
    fun outcomes => inv_withPolicy.mpr (h.frame _ outcomes _ _)
  cases a with
  | call a => exact inv_withPolicy.mp (inv_call (inv_withPolicy.mpr h) a hdrops)
  | setPolicy dynamicAffinity => exact h
  | updateDomainInfosAndSched vmInfos outcomes =>
    exact inv_withPolicy.mp (inv_updateDomainInfosAndSched (hpolicy outcomes) (fun _ => id) vmInfos)
  | reSchedStartedVms vmInfos outcomes =>
    exact inv_withPolicy.mp (inv_reSchedStartedVmsWithoutLock
      (inv_updateDomainInfosWithoutLock (hpolicy outcomes) (fun _ => id) vmInfos))
  | reSetSchedPolicy outcomes =>
    exact inv_withPolicy.mp (inv_reSchedStartedVmsWithoutLock
      (inv_restoreVmInfoWithoutLock (hpolicy outcomes)))

theorem inv_of_daemonRun (own : Prop) {tr : List (List Text)} {d : Daemon}
    (h : DaemonRun host tr d) (hown : own → ∀ e ∈ tr, e = []) :
    Inv host ⟨own, fun _ => False⟩ d.sched d.sched.vms := by
  induction h with
  | start =>
    have hvms : (initClusterInfo host).vms = fun _ => none :=
      funext fun K => AList.lookup_empty K
    change Inv _ _ (initClusterInfo host) (initClusterInfo host).vms
    rw [hvms]
    exact inv_initClusterInfo
  | next _ _ hs ih =>
    simp only [daemonSystem] at hs
    split at hs
    · cases hs
    · cases hs
      exact inv_after (ih fun ho e he => hown ho e (List.mem_cons_of_mem _ he)) _
        fun ho => hown ho _ List.mem_cons_self

/-- A list of actions that has been evaluated, for its end. -/
theorem exists_daemonRun (as : List DaemonAction) (test : List (List Text) → Daemon → Bool)
    (h : ((daemonSystem host).run (fun _ _ => true) ⟨host.dynamicAffinity, initClusterInfo host⟩ []
      as).any (fun r => test r.1 r.2) = true) : ∃ tr d, DaemonRun host tr d ∧ test tr d = true :=
  Lts.exists_exec (fun _ _ _ => trivial) as test h

end YellowZone.ClusterSched
