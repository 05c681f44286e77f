import Photon.Resource
/-!
# TreeHeap — the chairman's `Host` and `Scheduler` objects

`Host.java` and `Scheduler.java` over an explicit heap: a `HostRef` or a `SchedulerRef` is the identity of an object,
and the heap gives every reference its fields.  References from the counts on are not allocated yet and read blank
objects, which hold no link.  A method that mutates returns the heap it leaves.

The three walks up the tree (`dirtyUpToRoot`, `propagateConstraintsAdd`, `propagateConstraintsRemove`) are one function,
`upToRoot`, which follows parent links until there is none; its fuel is one more than the number of scheduler objects,
which no chain of distinct schedulers exceeds.
-/
namespace Photon.Chairman

open Keyed (KeyedList LinkedMap)

structure HostRef where
  addr : Nat
  deriving DecidableEq

structure SchedulerRef where
  addr : Nat
  deriving DecidableEq

def rootSchedulerId : String := "ROOT"

def rootSchedulerHostId : String := "ROOT_SCHEDULER_HOST"

def rootSchedulerAvailabilityZone : AvailabilityZone := ⟨"ROOT_SCHEDULER_AVAILABILITY_ZONE"⟩

/-! ## Hosts -/

structure Host where
  id : String
  availabilityZone : AvailabilityZone
  datastores : DatastoreSet
  networks : NetworkSet
  schedulers : List SchedulerRef
  address : Option String
  port : Int
  parentScheduler : Option SchedulerRef
  dirty : Bool
  configured : Bool
  missing : Bool
  managementOnly : Bool

namespace Host

/-- The constructor: a new host is dirty, not configured, not missing and outside the tree. -/
def new (id : String) (availabilityZone : AvailabilityZone) (datastores : DatastoreSet) (networks : NetworkSet)
    (managementOnly : Bool) (address : Option String) (port : Int) : Host where
  id := id
  availabilityZone := availabilityZone
  datastores := datastores
  networks := networks
  schedulers := []
  address := address
  port := port
  parentScheduler := none
  dirty := true
  configured := false
  missing := false
  managementOnly := managementOnly

def blank : Host := new "" ⟨""⟩ KeyedList.empty KeyedList.empty false none (-1)

/-- `Host.equals`: the flags and the links are not compared, and datastores and networks by id only. -/
def equals (h dest : Host) : Bool :=
  decide (h.id = dest.id) && decide (h.availabilityZone = dest.availabilityZone) &&
    h.datastores.setEquals dest.datastores && h.networks.setEquals dest.networks &&
    decide (h.address = dest.address) && decide (h.managementOnly = dest.managementOnly) && decide (h.port = dest.port)

def setDatastores (h : Host) (newDatastores : DatastoreSet) : Host := { h with datastores := newDatastores }

def setAddress (h : Host) (address : Option String) : Host := { h with address := address }

def setPort (h : Host) (port : Int) : Host := { h with port := port }

def addScheduler (h : Host) (l : SchedulerRef) : Host :=
  { h with schedulers := if l ∈ h.schedulers then h.schedulers else h.schedulers ++ [l] }

def removeScheduler (h : Host) (l : SchedulerRef) : Host :=
    { h with schedulers := h.schedulers.filter (fun m => m ≠ l) }

def setParentScheduler (h : Host) (l : Option SchedulerRef) : Host := { h with parentScheduler := l }

/-- Dirtying a host also drops its configured flag. -/
def setDirty (h : Host) (dirty : Bool) : Host := { h with dirty := dirty, configured := h.configured && !dirty }

/-- A dirty host cannot be set to configured: the source throws, here there is no result. -/
def setConfigured (h : Host) (configure : Bool) : Option Host :=
  if configure && h.dirty then none else some { h with configured := configure }

def setMissing (h : Host) (missing : Bool) : Host := { h with missing := missing }

end Host

/-! ## Constraints of a host -/

/-- The constraint `MANAGEMENT_ONLY`, whose one value is the empty string. -/
def mgmtConst : ResourceConstraint := ResourceConstraint.of .managementOnly [""]

/-- What one datastore adds to a host's constraints: itself and its tags. -/
def datastoreConstraints (ds : Datastore) : Multiset ResourceConstraint :=
  ResourceConstraint.of .datastore [ds.id] ::ₘ ds.tags.val.map (fun tag => ResourceConstraint.of .datastoreTag [tag])

/-- `fillHostConstraints` into a multiset, which is `getHostConstraints`. -/
def getHostConstraints (h : Host) : Multiset ResourceConstraint :=
  {ResourceConstraint.of .host [h.id]} + {ResourceConstraint.of .availabilityZone [h.availabilityZone.id]} +
    h.datastores.sum datastoreConstraints +
    h.networks.sum (fun net => {ResourceConstraint.of .network [net.id]}) +
    (if h.managementOnly then {mgmtConst} else 0)

def getHostConstraintsSet (h : Host) : Finset ResourceConstraint := (getHostConstraints h).toFinset

/-! ## Schedulers and the heap -/

structure Scheduler where
  id : String
  children : LinkedMap String SchedulerRef
  hosts : LinkedMap String HostRef
  constraints : Multiset ResourceConstraint
  constraintsSet : Option (Finset ResourceConstraint)
  parent : Option SchedulerRef
  owner : Option HostRef

def Scheduler.new (id : String) : Scheduler where
  id := id
  children := LinkedMap.empty
  hosts := LinkedMap.empty
  constraints := 0
  constraintsSet := none
  parent := none
  owner := none

namespace Scheduler

def isRootScheduler (s : Scheduler) : Bool := decide (s.id = rootSchedulerId)

/-- Adding constraints drops the set kept by `getConstraintSet`, and so does removing them. -/
def unionConstraints (s : Scheduler) (subset : Multiset ResourceConstraint) : Scheduler :=
  { s with constraintsSet := none, constraints := s.constraints + subset }

def removeConstraints (s : Scheduler) (subset : Multiset ResourceConstraint) : Scheduler :=
  { s with constraintsSet := none, constraints := s.constraints - subset }

end Scheduler

structure Heap where
  host : HostRef → Host
  scheduler : SchedulerRef → Scheduler
  hostCount : Nat
  schedulerCount : Nat

namespace Heap

def empty : Heap := ⟨fun _ => Host.blank, fun _ => Scheduler.new "", 0, 0⟩

def modifyHost (H : Heap) (r : HostRef) (f : Host → Host) : Heap :=
  { H with host := fun x => if x = r then f (H.host x) else H.host x }

def modifyScheduler (H : Heap) (l : SchedulerRef) (f : Scheduler → Scheduler) : Heap :=
  { H with scheduler := fun x => if x = l then f (H.scheduler x) else H.scheduler x }

def nextHost (H : Heap) : HostRef := ⟨H.hostCount⟩

def allocHost (H : Heap) (h : Host) : Heap :=
  { (H.modifyHost H.nextHost (fun _ => h)) with hostCount := H.hostCount + 1 }

def nextScheduler (H : Heap) : SchedulerRef := ⟨H.schedulerCount⟩

def allocScheduler (H : Heap) (s : Scheduler) : Heap :=
  { (H.modifyScheduler H.nextScheduler (fun _ => s)) with schedulerCount := H.schedulerCount + 1 }

/-! ### `Scheduler`'s methods -/

def dirtyOwner (H : Heap) (l : SchedulerRef) : Heap :=
  match (H.scheduler l).owner with
  | none => H
  | some o => H.modifyHost o (·.setDirty true)

/-- Changes a scheduler, dirties its owner and goes on to its parent, until there is none. -/
def upToRoot (f : Scheduler → Scheduler) : Nat → SchedulerRef → Heap → Heap
  | 0, _, H => H
  | n + 1, l, H =>
    let H := (H.modifyScheduler l f).dirtyOwner l
    match (H.scheduler l).parent with
    | none => H
    | some p => upToRoot f n p H

def dirtyUpToRoot (H : Heap) (l : SchedulerRef) : Heap := upToRoot id (H.schedulerCount + 1) l H

def setOwner (H : Heap) (l : SchedulerRef) (newOwner : Option HostRef) : Heap :=
  let H₁ := match (H.scheduler l).owner with
    | none => H
    | some oldOwner => H.modifyHost oldOwner (fun h => (h.removeScheduler l).setDirty true)
  let H₂ := H₁.modifyScheduler l (fun s => { s with owner := newOwner })
  match newOwner with
  | none => H₂
  | some o => (H₂.modifyHost o (·.addScheduler l)).dirtyUpToRoot l

def clearOwner (H : Heap) (l : SchedulerRef) : Heap := H.setOwner l none

def constraintSet (H : Heap) (l : SchedulerRef) : Finset ResourceConstraint :=
  (H.scheduler l).constraintsSet.getD (H.scheduler l).constraints.toFinset

/-- `getConstraintSet` also keeps the set it answers with. -/
def getConstraintSet (H : Heap) (l : SchedulerRef) : Finset ResourceConstraint × Heap :=
  (H.constraintSet l, H.modifyScheduler l (fun s => { s with constraintsSet := some (H.constraintSet l) }))

def propagateConstraintsAdd (H : Heap) (l : SchedulerRef) (subset : Multiset ResourceConstraint) : Heap :=
  upToRoot (·.unionConstraints subset) (H.schedulerCount + 1) l H

def propagateConstraintsRemove (H : Heap) (l : SchedulerRef) (subset : Multiset ResourceConstraint) : Heap :=
  upToRoot (·.removeConstraints subset) (H.schedulerCount + 1) l H

def addChild (H : Heap) (l child : SchedulerRef) : Heap :=
  let H := H.modifyScheduler l (fun s => { s with children := s.children.put (H.scheduler child).id child })
  let H := H.propagateConstraintsAdd l (H.scheduler child).constraints
  let H := H.modifyScheduler child (fun s => { s with parent := some l })
  H.dirtyOwner l

def removeChild (H : Heap) (l child : SchedulerRef) : Heap :=
  match (H.scheduler l).children.get (H.scheduler child).id with
  | none => H
  | some _ =>
    let H := H.modifyScheduler l (fun s => { s with children := s.children.remove (H.scheduler child).id })
    let H := H.propagateConstraintsRemove l (H.scheduler child).constraints
    let H := H.modifyScheduler child (fun s => { s with parent := none })
    H.dirtyOwner l

/-- The children are listed before the first is removed. -/
def removeAllChildren (H : Heap) (l : SchedulerRef) : Heap :=
  (H.scheduler l).children.values.foldl (fun H child => H.removeChild l child) H

def addHost (H : Heap) (l : SchedulerRef) (r : HostRef) : Heap :=
  let H := H.modifyHost r (·.setParentScheduler (some l))
  let hostConst := getHostConstraints (H.host r)
  let H := H.modifyScheduler l (fun s => { s with hosts := s.hosts.put (H.host r).id r })
  let H := H.dirtyOwner l
  H.propagateConstraintsAdd l hostConst

def removeHost (H : Heap) (l : SchedulerRef) (r : HostRef) : Heap :=
  match (H.scheduler l).hosts.get (H.host r).id with
  | none => H
  | some _ =>
    let H := H.modifyScheduler l (fun s => { s with hosts := s.hosts.remove (H.host r).id })
    let hostConst := getHostConstraints (H.host r)
    let H := H.propagateConstraintsRemove l hostConst
    let H := H.modifyHost r (·.setParentScheduler none)
    H.dirtyOwner l

/-- `Host.removeFromHierarchy`: out of the parent, and no longer the owner of anything. -/
def removeFromHierarchy (H : Heap) (r : HostRef) : Heap :=
  let H := match (H.host r).parentScheduler with
    | none => H
    | some l => H.removeHost l r
  (H.host r).schedulers.foldl (fun H l => H.clearOwner l) H

end Heap
end Photon.Chairman
