import YellowZone.ClusterSched.Bitset
import YellowZone.Machine.Execution
import YellowZone.Machine.Utf8

/-!
# The cluster scheduler

`ClusterSched` of the scheduling daemon pins the virtual CPUs of virtual machines to CPUs. The CPUs
come in clusters. A VM that has been placed has *groups*: a group is a range of CPUs of one cluster,
in one of the *layers* of that cluster. There is one layer as long as CPUs are not overcommitted,
and with the policy `dynamicAffinity` up to six.

Four maps record this, and every function of the source updates them on its own: the layers of the
clusters with their bitmap, their number of idle CPUs and the ids of their groups; `domainMap_`, the
VMs by `uuid_numa`, each with the ids of its groups; `groupMap_`, the groups by
`uuid_numa_cluster_layer`; and `entityMap_`, the pinned threads by their pid.

## The model

A `Host` is what does not change: the topology, the skipped CPUs and the policy. `Sched` is the
state. The layers of all clusters are pushed and popped together, so that a state has one `depth`.
The unordered maps are an association list where the source iterates over it, and functions where it
does not; a set of strings is a sorted list.

Writing a cpuset can fail. `outcomes` holds how the next writes will end; a call brings its own
list, and writes beyond the list succeed. The source asks the system which VMs run; that is the
list `running`.

`domainMap_[key]` and `groupMap_[id]` create an entry if there is none, and so do `touchDomain` and
`groupAt`. Where the source loops without moving on, because an id of a layer has no group, the
state is `stuck`: such a call does not return. Where its behaviour is undefined, the state is
`undefined`: `CleanDyingPidByGroup` erases the element that its loop over the groups stands on, and
a thread whose index has been shifted too often has its bit cleared outside the bitmap. Neither has
a result.

`placements` is not part of the program. It records the bitmap that was searched for every range
that was marked, and whether the group was new to the layer.

## Main definitions

* `Host`, `VmInfo`, `Sched` — the machine, a VM and the state
* `alloc`, `free`, `assign`, `unassign` — groups and threads of one VM
* `compactionGroupWithinCluster`, `compactionGroupFromLastLayer` — moving groups
* `addDomainInfo`, `delDomainInfo`, `reSchedVm`, `clusterCompactionWithoutLock` — the calls
-/

namespace YellowZone.ClusterSched

open Machine

/-! ## Keys and sets -/

/-- `std::to_string` of a number. -/
def decimal (n : ℕ) : Text := if n = 0 then [48] else ((Nat.digits 10 n).map (· + 48)).reverse

/-- The underscore between the parts of a key. -/
def separator : ℕ := 95

/-- The key of a VM on a NUMA node. -/
def domainKeyOf (uuid : Text) (numaId : ℕ) : Text := uuid ++ separator :: decimal numaId

/-- The id of the group of a VM in a layer of a cluster. -/
def groupIdOf (domainKey : Text) (clusterId layerId : ℕ) : Text :=
  domainKey ++ separator :: (decimal clusterId ++ separator :: decimal layerId)

/-- Insertion into a set, kept as a sorted list. -/
def setInsert {α : Type} [DecidableEq α] [LT α] [DecidableLT α] (a : α) (l : List α) : List α :=
  if a ∈ l then l else l.orderedInsert (fun x y => ¬ y < x) a

/-! ## The machine -/

/-- A cluster: its CPUs are `startCpu`, `startCpu + 1`, …; `bitMap` has the skipped ones. -/
structure ClusterInfo where
  id : ℕ
  startCpu : ℕ
  bitMap : List Bool
  deriving DecidableEq, Repr

/-- The topology and the settings. The clusters of a NUMA node come in the order of their ids, and
all clusters have the same number of CPUs. -/
structure Host where
  numas : List ℕ
  clusters : ℕ → List ClusterInfo
  clusterCpuNum : ℕ
  /-- `GetGranularity`: the CPUs that a virtual CPU takes. -/
  granularity : ℕ
  /-- The policy is `dynamicAffinity`. -/
  dynamicAffinity : Bool
  numas_nodup : numas.Nodup
  clusters_of_notMem : ∀ n, n ∉ numas → clusters n = []
  clusters_nodup : ∀ n, (clusters n).Nodup
  cluster_unique : ∀ n c n' c', c ∈ clusters n → c' ∈ clusters n' → c.id = c'.id → n = n' ∧ c = c'
  length_bitMap : ∀ n c, c ∈ clusters n → c.bitMap.length = clusterCpuNum
  clusterCpuNum_lt : clusterCpuNum < 2 ^ 16

structure ClusterLayer where
  idle : ℕ
  total : ℕ
  usedBitmap : List Bool
  groups : List Text
  deriving DecidableEq, Repr

structure VmDomain where
  uuid : Text
  name : Text
  numaId : ℕ
  /-- The threads of the virtual CPUs, by pid. -/
  pidVcpuMap : List (ℕ × ℕ)
  commonCpuMap : List Bool
  groups : List Text
  isReScheded : Bool
  deriving DecidableEq, Repr

structure VmGroup where
  domainKey : Text
  id : Text
  clusterId : ℕ
  layerId : ℕ
  start : ℤ
  nrCpus : ℕ
  usedBitmap : List Bool
  entityPids : List ℕ
  deriving DecidableEq, Repr

instance : Inhabited VmDomain := ⟨⟨[], [], 0, [], [], [], false⟩⟩

instance : Inhabited VmGroup := ⟨⟨[], [], 0, 0, 0, 0, [], []⟩⟩

structure VcpuInfo where
  pid : ℕ
  numaSet : List ℕ
  cpuMaps : List Bool
  deriving DecidableEq, Repr

/-- What the virtualization layer reports of a VM. -/
structure VmInfo where
  uuid : Text
  name : Text
  vcpuMap : List (ℕ × VcpuInfo)
  deriving DecidableEq, Repr

/-- A range that was marked: the bitmap that was searched for so many CPUs, and whether the layer
did not have the group yet. -/
structure Placement where
  available : List Bool
  nrCpus : ℕ
  isNew : Bool
  deriving DecidableEq, Repr

structure Sched where
  /-- `clusterLayers` of every cluster, by cluster and layer; the first `depth` are there. -/
  layers : ℕ → ℕ → ClusterLayer
  depth : ℕ
  overProvision : ℕ → ℕ
  domainMap : AList fun _ : Text => VmDomain
  groupMap : Text → Option VmGroup
  /-- `cpuIdx` of the pinned threads. -/
  entityMap : ℕ → Option ℤ
  outcomes : List Bool
  stuck : Bool
  undefined : Bool
  placements : List Placement

inductive VasRet where
  | ok | error | inval
  deriving DecidableEq, Repr

variable (host : Host)

namespace Host

/-- The cluster with an id. -/
def cluster? (id : ℕ) : Option ClusterInfo :=
  (host.numas.flatMap host.clusters).find? (·.id == id)

def hasCluster (numaId clusterId : ℕ) : Bool := (host.clusters numaId).any (·.id == clusterId)

/-- A layer without groups. -/
def emptyLayer (c : ClusterInfo) : ClusterLayer where
  idle := c.bitMap.count false
  total := host.clusterCpuNum
  usedBitmap := c.bitMap
  groups := []

/-- An empty layer for every cluster. -/
def emptyLayers (id : ℕ) : ClusterLayer :=
  match host.cluster? id with
  | some c => host.emptyLayer c
  | none => ⟨0, 0, [], []⟩

end Host

/-- After `InitClusterInfo`. -/
def initClusterInfo : Sched where
  layers id _ := host.emptyLayers id
  depth := 1
  overProvision n := if n ∈ host.numas then 1 else 0
  domainMap := ∅
  groupMap _ := none
  entityMap _ := none
  outcomes := []
  stuck := false
  undefined := false
  placements := []

def maxOverProvision : ℕ := 6

namespace Sched

def updateLayer (s : Sched) (clusterId layerId : ℕ) (f : ClusterLayer → ClusterLayer) : Sched :=
  { s with layers := fun c l =>
      if c = clusterId ∧ l = layerId then f (s.layers c l) else s.layers c l }

def setGroup (s : Sched) (id : Text) (group : Option VmGroup) : Sched :=
  { s with groupMap := Function.update s.groupMap id group }

def setEntity (s : Sched) (pid : ℕ) (cpuIdx : Option ℤ) : Sched :=
  { s with entityMap := Function.update s.entityMap pid cpuIdx }

/-- `groupMap_[id]`. -/
def groupAt (s : Sched) (id : Text) : VmGroup × Sched :=
  match s.groupMap id with
  | some group => (group, s)
  | none => (default, s.setGroup id (some default))

/-- `domainMap_[key]`. -/
def touchDomain (s : Sched) (key : Text) : VmDomain × Sched :=
  match s.domainMap.lookup key with
  | some domain => (domain, s)
  | none => (default, { s with domainMap := s.domainMap.insert key default })

/-- Bits are written from `start` on. If that is behind the end of the bitset, the test of
`DynamicBitsetSetArea` wraps and lets it pass. -/
def writes (s : Sched) (bitSet : List Bool) (start size : ℕ) : Sched :=
  { s with undefined := s.undefined || decide (size ≠ 0 ∧ bitSet.length < start) }

/-- How the next `SetVcpuAffinity` ends. -/
def setVcpuAffinity (s : Sched) : Bool × Sched :=
  match s.outcomes with
  | [] => (true, s)
  | ok :: rest => (ok, { s with outcomes := rest })

end Sched

/-! ## Layers -/

def addGroupToClusterLayer (group : VmGroup) (layer : ClusterLayer) : ClusterLayer where
  idle := uint16 (layer.idle - group.nrCpus)
  total := layer.total
  usedBitmap := dynamicBitsetSet layer.usedBitmap (uint16 group.start) group.nrCpus
  groups := setInsert group.id layer.groups

def delGroupFromClusterLayer (group : VmGroup) (layer : ClusterLayer) : ClusterLayer where
  idle := uint16 (layer.idle + group.nrCpus)
  total := layer.total
  usedBitmap := dynamicBitsetClear layer.usedBitmap (uint16 group.start) group.nrCpus
  groups := layer.groups.erase group.id

def addGroupToDomain (group : VmGroup) (domain : VmDomain) : VmDomain :=
  { domain with groups := setInsert group.id domain.groups }

def delGroupFromDomain (group : VmGroup) (domain : VmDomain) : VmDomain :=
  { domain with groups := domain.groups.erase group.id }

/-- A layer is pushed on every cluster of every NUMA node. -/
def overProvisionUp (numaId : ℕ) (s : Sched) : Sched :=
  { s with
    layers := fun c l => if l = s.depth then host.emptyLayers c else s.layers c l
    depth := s.depth + 1
    overProvision := Function.update s.overProvision numaId (s.overProvision numaId + 1) }

/-- The last layer of every cluster of every NUMA node is popped. -/
def overProvisionDown (numaId : ℕ) (s : Sched) : Sched :=
  { s with
    depth := s.depth - 1
    overProvision := Function.update s.overProvision numaId (s.overProvision numaId - 1) }

/-! ## Allocation -/

/-- The VM may use the CPU and it is idle: such CPUs have an unset bit. -/
def availableCpuMap (domain : VmDomain) (cluster : ClusterInfo) (layer : ClusterLayer) :
    List Bool :=
  dynamicBitsetOr
    (dynamicBitsetNot
      (dynamicBitsetCut domain.commonCpuMap cluster.startCpu host.clusterCpuNum))
    layer.usedBitmap

/-- A state, the VM that is worked on, and a result. -/
structure Allocation (α : Type) where
  sched : Sched
  domain : VmDomain
  result : α

/-- The group is entered in `groupMap_`, in the layer and in the VM. -/
def bindGroup (available : List Bool) (group : VmGroup) (domain : VmDomain) (s : Sched) :
    Allocation ℕ where
  sched :=
    let layer := s.layers group.clusterId group.layerId
    { (s.setGroup group.id (some group)).updateLayer group.clusterId group.layerId
        (addGroupToClusterLayer group) with
      placements := ⟨available, group.nrCpus, decide (group.id ∉ layer.groups)⟩ :: s.placements
      undefined := (s.writes layer.usedBitmap (uint16 group.start) group.nrCpus).undefined }
  domain := addGroupToDomain group domain
  result := group.nrCpus

def allocGroupFromCluster (nr layerId : ℕ) (domain : VmDomain) (cluster : ClusterInfo)
    (s : Sched) : Allocation ℕ :=
  let layer := s.layers cluster.id layerId
  let available := availableCpuMap host domain cluster layer
  let found : ℤ × ℕ :=
    if layer.total ≤ nr ∧ layer.total = layer.idle then
      (findFirstIdlePos available 0 layer.total, layer.total)
    else if nr ≤ layer.idle then (findFirstIdlePos available 0 nr, nr)
    else (-1, 0)
  if found.1 = -1 then ⟨s, domain, 0⟩
  else
    bindGroup available
      { domainKey := domainKeyOf domain.uuid domain.numaId
        id := groupIdOf (domainKeyOf domain.uuid domain.numaId) cluster.id layerId
        clusterId := cluster.id
        layerId := layerId
        start := found.1
        nrCpus := found.2
        usedBitmap := List.replicate host.clusterCpuNum false
        entityPids := [] }
      domain s

/-- The clusters of one layer are tried in their order. -/
def allocInLayer (nr layerId : ℕ) (domain : VmDomain) : List ClusterInfo → Sched → Allocation ℕ
  | [], s => ⟨s, domain, 0⟩
  | cluster :: rest, s =>
    if s.depth ≤ layerId then allocInLayer nr layerId domain rest s
    else
      let a := allocGroupFromCluster host nr layerId domain cluster s
      if a.result = 0 then allocInLayer nr layerId domain rest s else a

/-- The layers from `layerId` on. At the last one a further layer is added if the policy allows
it, and the loop goes on with that. -/
def allocInLayers (nr : ℕ) (domain : VmDomain) : (turns layerId : ℕ) → Sched → Allocation ℕ
  | 0, _, s => ⟨s, domain, 0⟩
  | turns + 1, layerId, s =>
    if layerId < s.overProvision domain.numaId then
      let a := allocInLayer host nr layerId domain (host.clusters domain.numaId) s
      if a.result ≠ 0 then a
      else if layerId + 1 = s.overProvision domain.numaId ∧
          s.overProvision domain.numaId < maxOverProvision ∧ host.dynamicAffinity = true then
        allocInLayers nr domain turns (layerId + 1) (overProvisionUp host domain.numaId s)
      else allocInLayers nr domain turns (layerId + 1) s
    else ⟨s, domain, 0⟩

/-- The loop has at most as many turns as there are layers in the end. -/
def allocClusterGroupToDomain (nr : ℕ) (domain : VmDomain) (s : Sched) : Allocation ℕ :=
  allocInLayers host nr domain (max maxOverProvision (s.overProvision domain.numaId)) 0 s

/-- The loop of `Alloc`. A turn that does not fail allocates a CPU, so `nr` turns are enough. -/
def allocLoop : (turns nr : ℕ) → VmDomain → Sched → Allocation Bool
  | _, 0, domain, s => ⟨s, domain, true⟩
  | 0, _ + 1, domain, s => ⟨s, domain, false⟩
  | turns + 1, nr + 1, domain, s =>
    let a := allocClusterGroupToDomain host (nr + 1) domain s
    if a.result = 0 then ⟨a.sched, a.domain, false⟩
    else allocLoop turns (nr + 1 - a.result) a.domain a.sched

def getNumaTotalCpus (numaId : ℕ) (s : Sched) : ℕ :=
  ((host.clusters numaId).map fun c => (s.layers c.id 0).total * s.depth).sum % 2 ^ 16

def alloc (domain : VmDomain) (s : Sched) : Allocation Bool :=
  let nr := domain.pidVcpuMap.length * host.granularity % 2 ^ 16
  if host.granularity = 0 then ⟨s, domain, false⟩
  else if domain.isReScheded then ⟨s, domain, true⟩
  else if getNumaTotalCpus host domain.numaId s < nr then ⟨s, domain, false⟩
  else allocLoop host nr nr domain s

def freeGroup (numaId : ℕ) (s : Sched) (groupId : Text) : Sched :=
  match s.groupMap groupId with
  | none => s
  | some group =>
    if host.hasCluster numaId group.clusterId ∧ group.layerId < s.depth then
      ((s.updateLayer group.clusterId group.layerId (delGroupFromClusterLayer group)).setGroup
        groupId none).writes (s.layers group.clusterId group.layerId).usedBitmap
        (uint16 group.start) group.nrCpus
    else s.setGroup groupId none

def free (domain : VmDomain) (s : Sched) : Allocation Unit :=
  ⟨domain.groups.foldl (freeGroup host domain.numaId) s, { domain with groups := [] }, ()⟩

/-! ## Threads -/

/-- The groups of the VM are searched for a CPU for the thread. -/
def assignPidCpu (domain : VmDomain) (pid : ℕ) : List Text → Sched → Bool × Sched
  | [], s => (false, s)
  | groupId :: rest, s =>
    let (group, s) := s.groupAt groupId
    let index := findFirstIdlePos group.usedBitmap (uint16 group.start) host.granularity
    if index = -1 ∨ group.start + group.nrCpus - 1 < index ∨
        host.hasCluster domain.numaId group.clusterId = false then
      assignPidCpu domain pid rest s
    else
      let (ok, s) := s.setVcpuAffinity
      if ok then
        (true, (s.setEntity pid (some index)).setGroup groupId
          (some { group with
            usedBitmap := dynamicBitsetSet group.usedBitmap (uint16 index) host.granularity
            entityPids := setInsert pid group.entityPids }))
      else (false, s)

def assignStep (domain : VmDomain) (r : Bool × Sched) (thread : ℕ × ℕ) : Bool × Sched :=
  if (r.2.entityMap thread.1).isSome then r
  else
    let (ok, s) := assignPidCpu host domain thread.1 domain.groups r.2
    (r.1 && ok, s)

def assign (domain : VmDomain) (s : Sched) : Bool × Sched :=
  domain.pidVcpuMap.foldl (assignStep host domain) (true, s)

/-- A thread leaves a group: its bit is cleared and its entity erased. -/
def dropEntity (r : List Bool × Sched) (pid : ℕ) : List Bool × Sched :=
  match r.2.entityMap pid with
  | none => r
  | some cpuIdx =>
    (dynamicBitsetClear r.1 (uint16 cpuIdx) 1,
      (r.2.setEntity pid none).writes r.1 (uint16 cpuIdx) 1)

def unAssignGroup (s : Sched) (groupId : Text) : Sched :=
  match s.groupMap groupId with
  | none => s
  | some group =>
    let r := group.entityPids.foldl dropEntity (group.usedBitmap, s)
    r.2.setGroup groupId (some { group with usedBitmap := r.1, entityPids := [] })

def unassign (domain : VmDomain) (s : Sched) : Sched := domain.groups.foldl unAssignGroup s

/-! ## Compaction -/

/-- Of the threads of a group, those the VM no longer has are removed. -/
def cleanGroupPids (domain : VmDomain) (group : VmGroup) (s : Sched) : VmGroup × Sched :=
  let dying := group.entityPids.filter fun pid =>
    domain.pidVcpuMap.all (·.1 ≠ pid) && (s.entityMap pid).isSome
  let r := dying.foldl dropEntity (group.usedBitmap, s)
  ({ group with usedBitmap := r.1, entityPids := group.entityPids.filter (· ∉ dying) }, r.2)

/-- A group without threads leaves its layer and its VM; its entry in `groupMap_` stays. It is the
one that the loop over the groups of the VM stands on. -/
def cleanGroup (r : VmDomain × Sched) (groupId : Text) : VmDomain × Sched :=
  match r.2.groupMap groupId with
  | none => r
  | some group =>
    if host.hasCluster r.1.numaId group.clusterId = false then r
    else
      let (group, s) := cleanGroupPids r.1 group r.2
      let s := s.setGroup groupId (some group)
      if group.entityPids = [] then
        (delGroupFromDomain group r.1,
          { (if group.layerId < s.depth then
              s.updateLayer group.clusterId group.layerId (delGroupFromClusterLayer group)
            else s) with undefined := true })
      else (r.1, s)

def cleanDyingPidByGroup (domain : VmDomain) (s : Sched) : VmDomain × Sched :=
  domain.groups.foldl (cleanGroup host) (domain, s)

def cleanDomain (running : List Text) (s : Sched) (key : Text) : Sched :=
  match s.domainMap.lookup key with
  | none => s
  | some domain =>
    let (domain, s) := cleanDyingPidByGroup host domain s
    if domain.uuid ∉ running ∧ domain.groups = [] then
      { s with domainMap := s.domainMap.erase key }
    else { s with domainMap := s.domainMap.insert key domain }

def cleanDyingPid (running : List Text) (s : Sched) : Sched :=
  s.domainMap.keys.foldl (cleanDomain host running) s

/-- The threads of a group are pinned to their new CPUs one by one. If that fails, those already
done get their old index back, in the map only. -/
def migrateEntities (shift : ℤ) : List ℕ → (backup : List (ℕ × ℤ)) → Sched → Bool × Sched
  | [], _, s => (true, s)
  | pid :: rest, backup, s =>
    match s.entityMap pid with
    | none => (false, s)
    | some cpuIdx =>
      let (ok, s) := (s.setEntity pid (some (cpuIdx + shift))).setVcpuAffinity
      if ok then migrateEntities shift rest ((pid, cpuIdx) :: backup) s
      else (false, backup.foldl (fun s old => s.setEntity old.1 (some old.2)) s)

/-- The group after it has moved. -/
def VmGroup.movedTo (group : VmGroup) (start : ℤ) (cluster : ClusterInfo) (layerId : ℕ) :
    VmGroup :=
  { group with
    id := groupIdOf group.domainKey cluster.id layerId
    clusterId := cluster.id
    layerId := layerId
    usedBitmap :=
      dynamicBitsetSet (List.replicate host.clusterCpuNum false) (uint16 start) group.nrCpus
    start := start }

/-- The body of the two loops that move the groups of a layer: of `source` in `sourceLayer`, to
`cluster` in `layerId`. The one that empties the last layer (`down`) does not move a group to a
higher position. -/
def moveGroup (down : Bool) (cluster : ClusterInfo) (layerId source sourceLayer : ℕ)
    (oldGroupId : Text) (group : VmGroup) (s : Sched) : Sched :=
  let (domain, s) := s.touchDomain group.domainKey
  let available := availableCpuMap host domain cluster (s.layers cluster.id layerId)
  let start := findFirstIdlePos available 0 group.nrCpus
  if start = -1 ∨ (down = true ∧ group.start < start) then s
  else
    let bitSet := (s.layers source sourceLayer).usedBitmap
    let s := s.updateLayer source sourceLayer (delGroupFromClusterLayer group)
    match migrateEntities (start - group.start) group.entityPids [] s with
    | (false, s) =>
      (s.updateLayer source sourceLayer (addGroupToClusterLayer group)).writes bitSet
        (uint16 group.start) group.nrCpus
    | (true, s) =>
      let moved := group.movedTo host start cluster layerId
      let a := bindGroup available moved { domain with groups := domain.groups.erase oldGroupId }
        ((s.setGroup oldGroupId none).writes bitSet (uint16 group.start) group.nrCpus)
      { a.sched with domainMap := a.sched.domainMap.insert group.domainKey a.domain }

def compactionGroupWithinCluster (cluster nextCluster : ClusterInfo) (layerId : ℕ) (s : Sched) :
    Sched :=
  (s.layers nextCluster.id layerId).groups.foldl
    (fun s groupId =>
      match s.groupMap groupId with
      | none => { s with stuck := true }
      | some group =>
        moveGroup host false cluster layerId nextCluster.id layerId groupId group s) s

/-- The groups of the last layer of one cluster. -/
def compactionFromLastCluster (cluster : ClusterInfo) (layerId last lastCluster : ℕ) (s : Sched) :
    Sched :=
  (s.layers lastCluster last).groups.foldl
    (fun s groupId =>
      let (group, s) := s.groupAt groupId
      moveGroup host true cluster layerId lastCluster last groupId group s) s

/-- The last layer of a cluster has no groups, by the number of its idle CPUs. -/
def Sched.isEmptyLayer (s : Sched) (clusterId layerId : ℕ) : Bool :=
  (s.layers clusterId layerId).total == (s.layers clusterId layerId).idle

/-- One turn of the loop over the last layers of the clusters, with the number of empty ones. -/
def lastLayerStep (cluster : ClusterInfo) (layerId last : ℕ) (r : ℕ × Sched)
    (lastCluster : ClusterInfo) : ℕ × Sched :=
  if r.2.isEmptyLayer lastCluster.id last then (r.1 + 1, r.2)
  else
    let s := compactionFromLastCluster host cluster layerId last lastCluster.id r.2
    (if s.isEmptyLayer lastCluster.id last then r.1 + 1 else r.1, s)

def compactionGroupFromLastLayer (numaId : ℕ) (cluster : ClusterInfo) (layerId : ℕ) (s : Sched) :
    Sched :=
  let last := s.overProvision numaId - 1
  let r := (host.clusters numaId).foldl (lastLayerStep host cluster layerId last) (0, s)
  if r.1 = (host.clusters numaId).length then overProvisionDown numaId r.2 else r.2

/-- A cluster that has some groups in the layer takes those of the next one. -/
def compactionFromNext (cluster : ClusterInfo) (rest : List ClusterInfo) (layerId : ℕ)
    (s : Sched) : Sched :=
  if (s.layers cluster.id layerId).idle = (s.layers cluster.id layerId).total then s
  else
    match rest with
    | [] => s
    | nextCluster :: _ => compactionGroupWithinCluster host cluster nextCluster layerId s

def compactionClusterOneLayer (numaId layerId : ℕ) : List ClusterInfo → Sched → Sched
  | [], s => s
  | cluster :: rest, s =>
    if (s.layers cluster.id layerId).idle = 0 then compactionClusterOneLayer numaId layerId rest s
    else
      let s := compactionFromNext host cluster rest layerId s
      let s :=
        if layerId + 1 = s.overProvision numaId then s
        else compactionGroupFromLastLayer host numaId cluster layerId s
      compactionClusterOneLayer numaId layerId rest s

/-- Layers can only be popped meanwhile. -/
def compactionCluster (s : Sched) (numaId : ℕ) : Sched :=
  (List.range (s.overProvision numaId)).foldl
    (fun s layerId =>
      if layerId < s.overProvision numaId then
        compactionClusterOneLayer host numaId layerId (host.clusters numaId) s
      else s) s

def clusterCompactionWithoutLock (running : List Text) (s : Sched) : Sched :=
  host.numas.foldl (compactionCluster host) (cleanDyingPid host running s)

/-! ## The NUMA node of a VM -/

def getNumaCpuCount (numaId : ℕ) (s : Sched) : ℕ :=
  ((host.clusters numaId).map fun c => (s.layers c.id 0).total).sum % 2 ^ 16

/-- The entry of `GetNumaUsedCpuMap`. -/
def numaUsedCpu (s : Sched) (layerId numaId : ℕ) : ℕ :=
  ((host.clusters numaId).map fun c =>
    uint16 ((s.layers c.id layerId).total - (s.layers c.id layerId).idle)).sum % 2 ^ 16

def availableNumas (vmInfo : VmInfo) : List ℕ :=
  vmInfo.vcpuMap.foldl
    (fun numas vcpu =>
      if numas = [] then vcpu.2.numaSet else numas.filter (· ∈ vcpu.2.numaSet)) host.numas

/-- The node so far, with the layer and the number of used CPUs it was selected for. -/
structure Selection where
  numaId : ℕ
  layerId : ℕ
  usedCpu : ℤ

/-- The used CPUs, by layer and node. -/
abbrev NumaUsedCpuMap : Type := ℕ → ℕ → ℕ

/-- One turn of the loop over the nodes and their layers: the fullest layer that has room for the
VM, lower layers first. -/
def selectStepFrom (used : NumaUsedCpuMap) (vmInfo : VmInfo) (s : Sched) (sel : Selection)
    (candidate : ℕ × ℕ) : Selection :=
  if sel.usedCpu < used candidate.2 candidate.1 ∧ candidate.2 ≤ sel.layerId ∧
      used candidate.2 candidate.1 + vmInfo.vcpuMap.length ≤ getNumaCpuCount host candidate.1 s then
    ⟨candidate.1, candidate.2, int16 (used candidate.2 candidate.1)⟩
  else sel

def selectMinLayer (numas : List ℕ) (s : Sched) : Option ℕ :=
  let r := numas.foldl
    (fun r numaId => if s.overProvision numaId < r.2 then (numaId, s.overProvision numaId) else r)
    ((0, maxOverProvision) : ℕ × ℕ)
  if r.2 = maxOverProvision then none else some r.1

/-- The CPUs of the VM are added to the table. -/
def addUsed (used : NumaUsedCpuMap) (sel : Selection) (count : ℕ) : NumaUsedCpuMap :=
  fun layerId numaId =>
    if layerId = sel.layerId ∧ numaId = sel.numaId then (used layerId numaId + count) % 2 ^ 16
    else used layerId numaId

/-- `SelectVmNuma`: the node, if the call succeeds, and the usage table after it. -/
def selectVmNumaFrom (used : NumaUsedCpuMap) (vmInfo : VmInfo) (s : Sched) :
    Option ℕ × NumaUsedCpuMap :=
  let numas := availableNumas host vmInfo
  if numas = [] then (none, used)
  else
    let candidates := numas.flatMap fun n => (List.range (s.overProvision n)).map fun l => (n, l)
    let sel := candidates.foldl (selectStepFrom host used vmInfo s) ⟨0, maxOverProvision, -1⟩
    if sel.usedCpu ≠ -1 then (some sel.numaId, addUsed used sel vmInfo.vcpuMap.length)
    else (selectMinLayer numas s, used)

/-- The CPUs that all virtual CPUs may use; the size is that of the first one. -/
def getCommonCpuMap (vcpuMap : List (ℕ × VcpuInfo)) : List Bool :=
  let sorted := vcpuMap.insertionSort (·.1 ≤ ·.1)
  match sorted with
  | [] => []
  | first :: _ =>
    sorted.foldl (fun ret vcpu => dynamicBitsetAnd ret vcpu.2.cpuMaps)
      (List.replicate (first.2.cpuMaps.length % 2 ^ 16) true)

def pidVcpuMapOf (vcpuMap : List (ℕ × VcpuInfo)) : List (ℕ × ℕ) :=
  vcpuMap.foldl
    (fun m vcpu =>
      (m.filter (·.1 ≠ vcpu.2.pid)).orderedInsert (·.1 ≤ ·.1) (vcpu.2.pid, vcpu.1)) []

def newDomain (vmInfo : VmInfo) (numaId : ℕ) : VmDomain where
  uuid := vmInfo.uuid
  name := vmInfo.name
  numaId := numaId
  pidVcpuMap := pidVcpuMapOf vmInfo.vcpuMap
  commonCpuMap := getCommonCpuMap vmInfo.vcpuMap
  groups := []
  isReScheded := false

/-- `UpdateDomainInfoWithoutLock`: a VM that is not known on the node is entered. The caller gets a
copy of the VM. -/
def updateDomainInfoFrom (used : NumaUsedCpuMap) (vmInfo : VmInfo) (s : Sched) :
    Option (VmDomain × Sched) × NumaUsedCpuMap :=
  match selectVmNumaFrom host used vmInfo s with
  | (none, used) => (none, used)
  | (some numaId, used) =>
    let key := domainKeyOf vmInfo.uuid numaId
    match s.domainMap.lookup key with
    | some domain => (some (domain, s), used)
    | none =>
      (some (newDomain vmInfo numaId,
        { s with domainMap := s.domainMap.insert key (newDomain vmInfo numaId) }), used)

/-- With the usage table of the moment. -/
def updateDomainInfoWithoutLock (vmInfo : VmInfo) (s : Sched) : Option (VmDomain × Sched) :=
  (updateDomainInfoFrom host (numaUsedCpu host s) vmInfo s).1

/-! ## The calls -/

/-- The copy is worked on, and stored if CPUs could be allocated. -/
def reSched (domain : VmDomain) (s : Sched) : VasRet × Sched :=
  let a := alloc host domain s
  if a.result then
    let (ok, s) := assign host a.domain a.sched
    let key := domainKeyOf a.domain.uuid a.domain.numaId
    (.ok, { s with domainMap := s.domainMap.insert key { a.domain with isReScheded := ok } })
  else (.error, a.sched)

def addDomainInfo (vmInfo : VmInfo) (s : Sched) : VasRet × Sched :=
  match updateDomainInfoWithoutLock host vmInfo s with
  | none => (.error, s)
  | some (domain, s) => reSched host domain s

def deReSchedDomain (s : Sched) (domain : VmDomain) : Sched :=
  let a := free host domain (unassign domain s)
  { a.sched with
    domainMap := a.sched.domainMap.erase (domainKeyOf domain.uuid domain.numaId) }

def getDomainsByUuid (uuid : Text) (s : Sched) : List VmDomain :=
  (s.domainMap.entries.map (·.2)).filter (·.uuid = uuid)

def delDomainInfo (uuid : Text) (running : List Text) (s : Sched) : Sched :=
  clusterCompactionWithoutLock host running
    ((getDomainsByUuid uuid s).foldl (deReSchedDomain host) s)

/-- The threads of the VM are pinned if it has been given CPUs. -/
def assignAllocated (a : Allocation Bool) : Allocation VasRet :=
  if a.result then
    let r := assign host a.domain a.sched
    ⟨r.2, { a.domain with isReScheded := r.1 }, if r.1 then .ok else .error⟩
  else ⟨a.sched, a.domain, .error⟩

/-- A VM is placed anew, in the map itself. -/
def reSchedDomain (domain : VmDomain) (s : Sched) : Allocation VasRet :=
  let f := free host { domain with isReScheded := false } (unassign domain s)
  assignAllocated host (alloc host f.domain f.sched)

/-- The text that stands for every VM. -/
def allVms : Text := [97, 108, 108]

def VmDomain.isNamed (value : Text) (domain : VmDomain) : Bool :=
  value = allVms ∨ value = domain.name ∨ value = domain.uuid

/-- One turn of the loop of `ReSchedVm`. -/
def reSchedVmStep (value : Text) (r : VasRet × Sched) (key : Text) : VasRet × Sched :=
  match r.2.domainMap.lookup key with
  | none => r
  | some domain =>
    if domain.isNamed value then
      let a := reSchedDomain host domain r.2
      (if a.result = .ok then r.1 else a.result,
        { a.sched with domainMap := a.sched.domainMap.insert key a.domain })
    else r

def reSchedVm (value : Text) (running : List Text) (s : Sched) : VasRet × Sched :=
  if s.domainMap.entries.any (fun e => e.2.isNamed value) then
    let r := s.domainMap.keys.foldl (reSchedVmStep host value) (.ok, s)
    (r.1, clusterCompactionWithoutLock host running r.2)
  else (.inval, s)

/-! ## Runs -/

/-- The calls, each with the outcomes of its writes and the VMs that run, and the map of the VMs
changing its order. -/
inductive Action where
  | addDomainInfo (vmInfo : VmInfo) (outcomes : List Bool)
  | delDomainInfo (uuid : Text) (outcomes : List Bool) (running : List Text)
  | reSchedVm (value : Text) (outcomes : List Bool) (running : List Text)
  | clusterCompaction (outcomes : List Bool) (running : List Text)
  | rehash (domainMap : AList fun _ : Text => VmDomain)

def Sched.withOutcomes (s : Sched) (outcomes : List Bool) : Sched := { s with outcomes := outcomes }

/-- The state after a call, if it returns. -/
def call (s : Sched) : Action → Sched
  | .addDomainInfo vmInfo outcomes => (addDomainInfo host vmInfo (s.withOutcomes outcomes)).2
  | .delDomainInfo uuid outcomes running =>
    delDomainInfo host uuid running (s.withOutcomes outcomes)
  | .reSchedVm value outcomes running =>
    (reSchedVm host value running (s.withOutcomes outcomes)).2
  | .clusterCompaction outcomes running =>
    clusterCompactionWithoutLock host running (s.withOutcomes outcomes)
  | .rehash domainMap =>
    if domainMap.entries.Perm s.domainMap.entries then { s with domainMap := domainMap } else s

/-- The groups that the copy of the VM had gained when its allocation failed: the layers have them,
and the copy is given up. -/
def dropped (s : Sched) : Action → List Text
  | .addDomainInfo vmInfo outcomes =>
    match updateDomainInfoWithoutLock host vmInfo (s.withOutcomes outcomes) with
    | none => []
    | some (domain, s) =>
      let a := alloc host domain s
      if a.result then [] else a.domain.groups.filter (· ∉ domain.groups)
  | _ => []

/-- What is observed of a call: the call and the groups it drops. -/
structure Event where
  action : Action
  dropped : List Text

/-- The scheduler; its calls are serialized. -/
def system : Lts Sched Action Event where
  step s a :=
    if (call host s a).stuck ∨ (call host s a).undefined then none else some (call host s a)
  event s a _ := ⟨a, dropped host s a⟩

end YellowZone.ClusterSched
