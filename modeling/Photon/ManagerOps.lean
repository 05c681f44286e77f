import Photon.TreeRequest
/-!
# ManagerOps — `HierarchyManager` and what it reads and writes in ZooKeeper

The manager keeps one hierarchy.  Host configurations come to it through notifications (`addToHierarchy`) or, when it
starts, from `/hosts` (`readHostsFromZk`); the roles of the leaf owners go to `/roles` (`persistDirtyHosts`) and come
back from there when it starts (`readSchedulersFromZk`).  A dictionary is a map from keys to values; an entry that
cannot be read or decoded is skipped by the source with a log line, so the dictionaries that are read hold those that
can.

What the outside decides is an argument: whether ZooKeeper answers (`Zk`), and which hosts take their configuration.  A
method has no result where an exception leaves it.  The versions that guard the writes of several managers are not part
of this model.
-/
namespace Photon.Chairman

open Keyed (KeyedList LinkedMap)

/-! ## Host configurations -/

/-- The thrift `Datastore`; name and type are read by no modelled function. -/
structure DatastoreConfig where
  id : String
  tags : Option (Finset String)
  deriving DecidableEq

structure NetworkConfig where
  id : String
  types : Option (List NetworkType)
  deriving DecidableEq

/-- The thrift `HostConfig`, with the fields the chairman reads. -/
structure HostConfig where
  availabilityZone : String
  datastores : List DatastoreConfig
  host : String
  port : Int
  networks : Option (List NetworkConfig)
  managementOnly : Option Bool
  deriving DecidableEq

def HostConfig.plain (availabilityZone host : String) : HostConfig :=
  ⟨availabilityZone, [], host, 8835, none, none⟩

def getNetworks (config : HostConfig) : NetworkSet :=
  (config.networks.getD []).foldl (fun result n => result.add ⟨n.id, n.types⟩) KeyedList.empty

def getDatastores (config : HostConfig) : DatastoreSet :=
  config.datastores.foldl (fun result d => result.add ⟨d.id, d.tags.getD ∅⟩) KeyedList.empty

def isVmNetwork (network : Network) : Bool :=
  match network.type with
  | none => false
  | some types => types.contains .vm

def getVmNetwork (networks : NetworkSet) : NetworkSet := networks.filter isVmNetwork

def readHost (key : String) (config : HostConfig) : Host :=
  Host.new key ⟨config.availabilityZone⟩ (getDatastores config) (getNetworks config) (config.managementOnly.getD false)
    (some config.host) config.port

namespace Heap

def readHostsFromZk (H : Heap) (zkHosts : LinkedMap String HostConfig) : LinkedMap String HostRef × Heap :=
  zkHosts.entries.foldl (fun acc e => (acc.1.put e.1 acc.2.nextHost, acc.2.allocHost (readHost e.1 e.2)))
    (LinkedMap.empty, H)

/-! ## Roles -/

/-- The children that are known; the others are ignored. -/
def addHosts (hosts : LinkedMap String HostRef) (l : SchedulerRef) (children : List String) (H : Heap) : Heap :=
  children.foldl (fun H child => match hosts.get child with
    | none => H
    | some r => H.addHost l r) H

/-- The scheduler of one role: its owner is the host the role was stored under, if that is known.  A role without a
list of hosts is not handled by the source. -/
def readScheduler (hosts : LinkedMap String HostRef) (hostId : String) (acc : LinkedMap String SchedulerRef × Heap)
    (role : SchedulerRole) : Option (LinkedMap String SchedulerRef × Heap) := do
  let children ← role.hosts
  let l := acc.2.nextScheduler
  let H := (acc.2.allocScheduler (Scheduler.new role.id)).setOwner l (hosts.get hostId)
  some (acc.1.put role.id l, H.addHosts hosts l children)

def readSchedulersFromZk (H : Heap) (hosts : LinkedMap String HostRef) (zkRoles : LinkedMap String Roles) :
    Option (LinkedMap String SchedulerRef × Heap) :=
  zkRoles.entries.foldlM (fun acc e => do
    let schedulers ← e.2.schedulers
    schedulers.foldlM (readScheduler hosts e.1) acc) (LinkedMap.empty, H)

end Heap

/-! ## Persisting -/

/-- What ZooKeeper does during a scan: it answers; it does not answer when the keys are listed, which the source logs
and takes for an empty list; or the write throws. -/
inductive Zk where
  | ok | unlisted | failed
  deriving DecidableEq

namespace Hierarchy

/-- What is stored for a leaf: the roles of its owner, without constraints, under the owner's id. -/
def leafRoles (s : Hierarchy) (l : SchedulerRef) : Option (String × Roles) := do
  let schedulerHost ← (s.scheduler l).owner
  let req ← s.heap.getConfigureRequest schedulerHost false
  some ((s.host schedulerHost).id, req.roles)

/-- The change set: every key there is goes, unless it gets a new value. -/
def changeSet (schedulerHosts : List String) (roles : List (String × Roles)) : LinkedMap String (Option Roles) :=
  roles.foldl (fun changes e => changes.put e.1 (some e.2))
    (schedulerHosts.foldl (fun changes key => changes.put key none) LinkedMap.empty)

/-- `DataDictionary.write`, once it commits: null deletes, any other value is set or created. -/
def applyChanges (dict : LinkedMap String Roles) (changes : LinkedMap String (Option Roles)) : LinkedMap String Roles :=
  changes.entries.foldl (fun dict e => match e.2 with
    | none => dict.remove e.1
    | some value => dict.put e.1 value) dict

def isHierarchyDirty (s : Hierarchy) (schedulerHosts : List String) : Bool :=
  (decide (s.leafSchedulers.size = 0) && decide (schedulerHosts.length ≠ 0)) || decide (s.getDirtyHosts.length > 0)

def persistDirtyHosts (s : Hierarchy) (zk : Zk) (dict : LinkedMap String Roles) : Option (LinkedMap String Roles) :=
  let schedulerHosts := if zk = .unlisted then [] else dict.keys
  if s.isHierarchyDirty schedulerHosts then do
    let roles ← s.leafSchedulers.values.mapM s.leafRoles
    if zk = .failed then none else some (applyChanges dict (changeSet schedulerHosts roles))
  else some dict

/-! ## Configuring -/

/-- The flow of one host: the mark is there in the end when the host took its configuration. -/
def configureHost (s : Hierarchy) (r : HostRef) (answer : Bool) : Hierarchy :=
  { s with heap := (s.heap.afterRequest r).modifyHost r (fun k => if answer then (k.setConfigured true).getD k else k) }

def configureHosts (answers : HostRef → Bool) : List HostRef → Hierarchy → Option Hierarchy
  | [], s => some s
  | r :: rs, s =>
    if (s.host r).configured then configureHosts answers rs s
    else do
      let _ ← s.heap.getConfigureRequest r true
      configureHosts answers rs (s.configureHost r (answers r))

def addToHierarchy (s : Hierarchy) (id : String) (config : HostConfig) : Hierarchy :=
  (s.addHost id ⟨config.availabilityZone⟩ (getDatastores config) (getVmNetwork (getNetworks config))
    (config.managementOnly.getD false) config.host config.port).2

end Hierarchy

/-! ## The manager -/

structure Manager where
  tree : Hierarchy
  roles : LinkedMap String Roles

namespace Manager

/-- `init`: the hierarchy is built from `/hosts` and `/roles`, and the hosts that are in a leaf are configured. -/
def init (tree : Hierarchy) (zkHosts : LinkedMap String HostConfig) (zkRoles : LinkedMap String Roles)
    (answers : HostRef → Bool) : Option Manager := do
  let s := tree.clear
  let (hosts, H) := s.heap.readHostsFromZk zkHosts
  let (leaves, H) ← H.readSchedulersFromZk hosts zkRoles
  let s := ({ s with heap := H }.addHosts hosts).addLeaves leaves
  let s := (s.setAllHostsNotConfigured).setAllHostsDirty false
  let hierarchyHosts := s.leafSchedulers.values.flatMap (fun l => (s.scheduler l).hosts.values)
  let s ← s.configureHosts answers hierarchyHosts
  some ⟨s, zkRoles⟩

/-- `scan`: an exception while persisting is caught and ends it early; one while configuring leaves it. -/
def scan (u : Uuid) (c : Chance) (zk : Zk) (answers : HostRef → Bool) (m : Manager) : Option Manager :=
  let s := m.tree.scan u c
  match s.persistDirtyHosts zk m.roles with
  | none => some { m with tree := s }
  | some roles => do
    let s := s.setAllHostsDirty false
    let s ← s.configureHosts answers s.getNonConfiguredHosts
    some ⟨s, roles⟩

inductive Event where
  | onHostAdded (id : String) (config : HostConfig)
  | onHostRemoved (id : String)
  | onHostMissing (id : String)
  | onHostResurrected (id : String)
  | onServerAdded (address : String) (port : Int)
  | onServerRemoved
  | scan (c : Chance) (zk : Zk) (answers : HostRef → Bool)

/-- `onHostUpdated` is `onHostAdded`. -/
def handle (u : Uuid) (m : Manager) : Event → Option Manager
  | .onHostAdded id config => some { m with tree := m.tree.addToHierarchy id config }
  | .onHostRemoved id => some { m with tree := m.tree.removeHost id }
  | .onHostMissing id => some { m with tree := m.tree.markMissing id }
  | .onHostResurrected id => some { m with tree := m.tree.markResurrected id }
  | .onServerAdded address port => some { m with tree := m.tree.addRootHost address port }
  | .onServerRemoved => some { m with tree := m.tree.removeRootHost }
  | .scan c zk answers => m.scan u c zk answers

/-- A run of events, as long as none of them takes the process down. -/
def run (u : Uuid) (m : Manager) (events : List Event) : Option Manager := events.foldlM (handle u) m

end Manager
end Photon.Chairman
