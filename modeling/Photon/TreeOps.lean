import Photon.TreeHeap
/-!
# TreeOps — the operations of `Hierarchy`

`LeafSchedulerMap.java` and `Hierarchy.java`.  What the JVM decides is a parameter: the order in which a hash map lists
its values and the number a random generator draws (`Chance`), and the ids `UUID.randomUUID` gives out (`Uuid`).  The
ids are assumed never to repeat, which is what a UUID is documented for; nothing is assumed of the other two.

Hosts outside the tree are staged: they are registered in `hosts` and have no parent scheduler until `scan` finds or
makes a leaf for them.
-/
namespace Photon.Chairman

open Keyed (KeyedList LinkedMap)

/-- The ids `generateSchedulerId` gives out, the `n`-th to the scheduler object at address `n`. -/
structure Uuid where
  gen : Nat → String
  inj : ∀ m n, gen m = gen n → m = n
  ne_root : ∀ n, gen n ≠ rootSchedulerId

/-- What one scan leaves to chance: the order a hash map of leaves is listed in, and the draw of `rand.nextInt`. -/
structure Chance where
  order : List SchedulerRef → List SchedulerRef
  order_perm : ∀ ls, (order ls).Perm ls
  nextInt : SchedulerRef → Nat → Nat
  nextInt_lt : ∀ l n, 0 < n → nextInt l n < n

def Uuid.unary : Uuid where
  gen := fun n => String.ofList (List.replicate (n + 1) 'u')
  inj := by
    intro m n h
    have := congrArg String.toList h
    simpa using this
  ne_root := by
    intro n h
    have := congrArg String.toList h
    simp [rootSchedulerId, List.replicate_succ] at this

def Chance.first : Chance where
  order := fun ls => ls
  order_perm := fun _ => List.Perm.refl _
  nextInt := fun _ _ => 0
  nextInt_lt := fun _ _ h => h

/-! ## `LeafSchedulerMap` -/

def stripConstraintSet (set : Finset ResourceConstraint) (strip : List ResourceConstraintType) :
    Finset ResourceConstraint := set.filter (fun c => c.type ∉ strip)

/-- Host ids and datastore tags are ignored when constraints are compared. -/
def strip : List ResourceConstraintType := [.host, .datastoreTag]

def hostConstraintsToMatch (h : Host) : Finset ResourceConstraint :=
  stripConstraintSet (if h.managementOnly then {mgmtConst} else getHostConstraintsSet h) strip

def schConstraintsToMatch (set : Finset ResourceConstraint) : Finset ResourceConstraint :=
  stripConstraintSet (if mgmtConst ∈ set then {mgmtConst} else set) strip

/-- The larger of the two sets has to contain the smaller. -/
def correspondingSet (schConstraints hostConstraints : Finset ResourceConstraint) : Bool :=
  if schConstraints.card > hostConstraints.card then decide (hostConstraints ⊆ schConstraints)
  else decide (schConstraints ⊆ hostConstraints)

/-- `findLeafScheduler` over the leaves in the order they are listed: the first with room that corresponds, and the
heap with the constraint sets that were asked for on the way. -/
def findLeafScheduler (maxPerTier : Nat) (h : Host) : List SchedulerRef → Heap → Option SchedulerRef × Heap
  | [], H => (none, H)
  | l :: ls, H =>
    if (H.scheduler l).hosts.size < maxPerTier then
      let (set, H) := H.getConstraintSet l
      if correspondingSet (schConstraintsToMatch set) (hostConstraintsToMatch h) then (some l, H)
      else findLeafScheduler maxPerTier h ls H
    else findLeafScheduler maxPerTier h ls H

def compareDatastoresWithTags (setA setB : DatastoreSet) : Bool :=
  if setA.size ≠ setB.size then false
  else setB.elems.all (fun ds => match setA.find ds.id with
    | none => false
    | some dest => decide (ds.tags = dest.tags))

/-! ## `Hierarchy` -/

structure Hierarchy where
  heap : Heap
  hosts : LinkedMap String HostRef
  rootScheduler : SchedulerRef
  leafSchedulers : LinkedMap String SchedulerRef
  rootFanout : Nat
  leafFanout : Nat
  rootHost : HostRef

namespace Hierarchy

def host (s : Hierarchy) (r : HostRef) : Host := s.heap.host r

def scheduler (s : Hierarchy) (l : SchedulerRef) : Scheduler := s.heap.scheduler l

def new (rootFanout leafFanout : Nat) : Hierarchy :=
  let H := Heap.empty.allocHost (Host.new rootSchedulerHostId rootSchedulerAvailabilityZone KeyedList.empty
    KeyedList.empty false none (-1))
  let H := H.allocScheduler (Scheduler.new rootSchedulerId)
  { heap := H.setOwner ⟨0⟩ (some ⟨0⟩)
    hosts := LinkedMap.empty
    rootScheduler := ⟨0⟩
    leafSchedulers := LinkedMap.empty
    rootFanout := rootFanout
    leafFanout := leafFanout
    rootHost := ⟨0⟩ }

def clear (s : Hierarchy) : Hierarchy :=
  { s with
    hosts := LinkedMap.empty
    leafSchedulers := LinkedMap.empty
    heap := s.heap.removeAllChildren s.rootScheduler }

/-- The host leaves its leaf and comes back with the new datastores; a staged host keeps the old ones. -/
def updateHostTags (s : Hierarchy) (r : HostRef) (newDatastores : DatastoreSet) : Hierarchy :=
  match (s.host r).parentScheduler with
  | none => s
  | some parent =>
    { s with heap := ((s.heap.removeHost parent r).modifyHost r (·.setDatastores newDatastores)).addHost parent r }

def removeHost (s : Hierarchy) (id : String) : Hierarchy :=
  match s.hosts.get id with
  | none => s
  | some r => { s with hosts := s.hosts.remove id, heap := s.heap.removeFromHierarchy r }

def registerHost (s : Hierarchy) (h : Host) : Hierarchy :=
  { s with heap := s.heap.allocHost h, hosts := s.hosts.put h.id s.heap.nextHost }

/-- `addHost`, with the host it returns: the known object when nothing but tags changed, else the new one. -/
def addHost (s : Hierarchy) (id : String) (availabilityZone : AvailabilityZone) (datastores : DatastoreSet)
    (networks : NetworkSet) (managementOnly : Bool) (address : String) (port : Int) : HostRef × Hierarchy :=
  let h := Host.new id availabilityZone datastores networks managementOnly (some address) port
  match s.hosts.get id with
  | none => (s.heap.nextHost, s.registerHost h)
  | some known =>
    if (s.host known).equals h then
      let s₁ := { s with heap := s.heap.modifyHost known (fun k => { k with configured := false, missing := false }) }
      if compareDatastoresWithTags (s.host known).datastores datastores then (known, s₁)
      else (known, s₁.updateHostTags known datastores)
    else
      let s₁ := s.removeHost id
      (s₁.heap.nextHost, s₁.registerHost h)

def insertLeaf (s : Hierarchy) (leaf : SchedulerRef) : Hierarchy :=
  { s with leafSchedulers := s.leafSchedulers.put (s.scheduler leaf).id leaf
           heap := s.heap.addChild s.rootScheduler leaf }

def addHosts (s : Hierarchy) (hosts : LinkedMap String HostRef) : Hierarchy :=
  { s with hosts := hosts.entries.foldl (fun m e => m.put e.1 e.2) s.hosts }

def addLeaves (s : Hierarchy) (leaves : LinkedMap String SchedulerRef) : Hierarchy :=
  leaves.values.foldl (fun s leaf =>
    ({ s with hosts := (s.scheduler leaf).hosts.values.foldl (fun m r => m.put (s.host r).id r) s.hosts }).insertLeaf
      leaf) s

def addRootHost (s : Hierarchy) (address : String) (port : Int) : Hierarchy :=
  { s with heap := s.heap.modifyHost s.rootHost (fun h => ((h.setAddress (some address)).setPort port).setDirty true) }

def removeRootHost (s : Hierarchy) : Hierarchy :=
  { s with heap := s.heap.modifyHost s.rootHost (fun h => ((h.setAddress none).setPort (-1)).setDirty true) }

def getAllHosts (s : Hierarchy) : LinkedMap String HostRef := s.hosts.put (s.host s.rootHost).id s.rootHost

def setAllHostsDirty (s : Hierarchy) (dirty : Bool) : Hierarchy :=
  { s with heap := s.getAllHosts.values.foldl (fun H r => H.modifyHost r (·.setDirty dirty)) s.heap }

/-- `setAllHostsConfigured(false)`, the one call the manager makes. -/
def setAllHostsNotConfigured (s : Hierarchy) : Hierarchy :=
  { s with
    heap := s.getAllHosts.values.foldl (fun H r => H.modifyHost r (fun h => { h with configured := false })) s.heap }

def markMissing (s : Hierarchy) (hostId : String) : Hierarchy :=
  match s.hosts.get hostId with
  | none => s
  | some r => { s with heap := s.heap.modifyHost r (·.setMissing true) }

def markResurrected (s : Hierarchy) (hostId : String) : Hierarchy :=
  match s.hosts.get hostId with
  | none => s
  | some r => { s with heap := s.heap.modifyHost r (·.setMissing false) }

/-- Hosts, the root host included, that are not configured or are missing. -/
def getNonConfiguredHosts (s : Hierarchy) : List HostRef :=
  s.getAllHosts.values.filter (fun r => !(s.host r).configured || (s.host r).missing)

/-- Dirty registered hosts, the root host not included. -/
def getDirtyHosts (s : Hierarchy) : List HostRef := s.hosts.values.filter (fun r => (s.host r).dirty)

/-! ### `scan` -/

/-- One turn of `insertHosts`: a staged host joins a leaf, makes one, or stays staged when there is no room. -/
def insertHost (u : Uuid) (c : Chance) (s : Hierarchy) (r : HostRef) : Hierarchy :=
  match (s.host r).parentScheduler with
  | some _ => s
  | none =>
    let (availableLeaf, H) := findLeafScheduler s.leafFanout (s.host r) (c.order s.leafSchedulers.values) s.heap
    let s := { s with heap := H }
    match availableLeaf with
    | some leaf => { s with heap := s.heap.addHost leaf r }
    | none =>
      if s.leafSchedulers.size ≥ s.rootFanout then s
      else
        let newLeaf := s.heap.nextScheduler
        let s := { s with heap := s.heap.allocScheduler (Scheduler.new (u.gen newLeaf.addr)) }
        let s := s.insertLeaf newLeaf
        { s with heap := (s.heap.addHost newLeaf r).setOwner newLeaf (some r) }

def insertHosts (u : Uuid) (c : Chance) (s : Hierarchy) : Hierarchy := s.hosts.values.foldl (insertHost u c) s

/-- The empty leaves are listed and leave the leaf map first, then they leave the root. -/
def removeEmptySchedulers (s : Hierarchy) : Hierarchy :=
  let toBeDeleted := (s.scheduler s.rootScheduler).children.values.filter (fun l => (s.scheduler l).hosts.size == 0)
  let s := toBeDeleted.foldl (fun s l =>
    { s with heap := s.heap.setOwner l none, leafSchedulers := s.leafSchedulers.remove (s.scheduler l).id }) s
  { s with heap := toBeDeleted.foldl (fun H l => H.removeChild s.rootScheduler l) s.heap }

/-- The owner of a leaf is to be replaced: there is none, it is missing, or it was persisted and not configured. -/
def needsOwner (s : Hierarchy) (leaf : SchedulerRef) : Bool :=
  match (s.scheduler leaf).owner with
  | none => true
  | some o => (s.host o).missing || (!(s.host o).dirty && !(s.host o).configured)

def availableHosts (s : Hierarchy) (leaf : SchedulerRef) : List HostRef :=
  (s.scheduler leaf).hosts.values.filter (fun r => decide (some r ≠ (s.scheduler leaf).owner))

def assignOwner (c : Chance) (s : Hierarchy) (leaf : SchedulerRef) : Hierarchy :=
  if s.needsOwner leaf then
    match (s.availableHosts leaf)[c.nextInt leaf (s.availableHosts leaf).length]? with
    | none => s
    | some newHost => { s with heap := s.heap.setOwner leaf (some newHost) }
  else s

def assignOwners (c : Chance) (s : Hierarchy) : Hierarchy := s.leafSchedulers.values.foldl (assignOwner c) s

def scan (u : Uuid) (c : Chance) (s : Hierarchy) : Hierarchy :=
  ((s.insertHosts u c).removeEmptySchedulers).assignOwners c

end Hierarchy
end Photon.Chairman
