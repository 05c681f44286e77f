import Photon.TicketBackend
/-!
# Deferred — images, flavors and networks that are deleted when their last VM is gone

`ImageDcpBackend`, `FlavorDcpBackend` and `NetworkDcpBackend` delete a document only if no VM refers to it; otherwise it
stays as `PENDING_DELETE`, and `VmDcpBackend.tombstone` tries again once a VM is gone.

Every request is a sequence of store calls, and the calls of different requests come in any order.  A request is known
by the call that it makes next (`Stage`).  What does not matter to these documents is left out: the project, the quota
that is returned, the disks and the tasks.  Whether the quota is granted, a VM is in a state in which it may be deleted,
and the disks of a VM are found, is given with the call.
-/
namespace Photon.ApiFrontend

inductive Machines.EntityState
  | creating | ready | pendingDelete | deleted | error
  deriving DecidableEq

namespace Deferred

open Keyed (LinkedMap)
open Machines (EntityState)

/-! ## Documents -/

inductive Kind
  | image | flavor | network
  deriving DecidableEq

structure Ref where
  kind : Kind
  id : String
  deriving DecidableEq

structure Vm where
  flavorId : String
  imageId : String
  networks : List String
  deriving DecidableEq

namespace Vm

def image (vm : Vm) : Ref := ⟨.image, vm.imageId⟩

def flavor (vm : Vm) : Ref := ⟨.flavor, vm.flavorId⟩

def networkRefs (vm : Vm) : List Ref := vm.networks.map fun id => ⟨.network, id⟩

def refs (vm : Vm) : List Ref := vm.image :: vm.flavor :: vm.networkRefs

/-- What `tombstone` reads; an image or flavor with a blank id is not read. -/
def lookedUp (vm : Vm) : List Ref := ([vm.image, vm.flavor].filter fun e => !isBlank (some e.id)) ++ vm.networkRefs

end Vm

/-- The states from which a document of the kind may be deleted; a flavor may be deleted again. -/
def Kind.mayDelete (kind : Kind) (state : EntityState) : Bool :=
  match kind with
  | .image => state != .pendingDelete
  | .flavor => state != .deleted
  | .network => state != .pendingDelete

/-! ## Requests -/

/-- The calls of `tombstone`.  The VMs that the query returns are converted one by one, which reads the flavor and the
disks of each. -/
inductive Phase
  | query
  | convert (vm : Vm) (vms : List Vm)
  | disks (vms : List Vm)
  | update
  | create
  | delete
  deriving DecidableEq

inductive Stage
  /-- `VmDcpBackend.create`. -/
  | findFlavor (vm : Vm)
  | findImage (vm : Vm)
  | consumeQuota (vm : Vm)
  | post (vm : Vm)
  /-- `VmDcpBackend.prepareVmDelete`, and `tombstone` up to the deletion of the VM document. -/
  | findVm (id : Nat)
  | findReferred (id : Nat) (vm : Vm) (e : Ref) (todo pending : List Ref)
  | deleteVm (id : Nat) (vm : Vm) (pending : List Ref)
  /-- `prepareImageDelete` and the lock of its task, `prepareFlavorDelete` and `prepareNetworkDelete`. -/
  | find (e : Ref)
  | lock (e : Ref)
  | mark (e : Ref)
  /-- `tombstone` of one document, before those of others. -/
  | tombstone (lock : Option Ref) (phase : Phase) (e : Ref) (rest : List Ref)
  deriving DecidableEq

def nextReferred (id : Nat) (vm : Vm) (pending : List Ref) : List Ref → Stage
  | [] => .deleteVm id vm pending
  | e :: todo => .findReferred id vm e todo pending

def nextTombstone (lock : Option Ref) : List Ref → Option Stage
  | [] => none
  | e :: rest => some (.tombstone lock .query e rest)

structure System where
  docs : Ref → Option EntityState
  vms : LinkedMap Nat Vm
  nextVm : Nat
  tombstones : List Ref
  locks : List Ref
  requests : LinkedMap Nat Stage
  /-- The documents whose deletion was requested, and those that were deleted. -/
  requested : List Ref
  deleted : List Ref

namespace System

/-- `filterByImage`, `filterByFlavor` and `filterByNetwork`. -/
def filterBy (s : System) (e : Ref) : List Vm := s.vms.values.filter fun vm => decide (e ∈ vm.refs)

def goOn (s : System) (i : Nat) (stage : Stage) : System := { s with requests := s.requests.put i stage }

/-- The request is done, or throws; its lock is given back. -/
def finish (s : System) (i : Nat) (lock : Option Ref) : System :=
  { s with requests := s.requests.remove i, locks := s.locks.filter fun e => decide (some e ≠ lock) }

def goOnOr (s : System) (i : Nat) (lock : Option Ref) : Option Stage → System
  | some stage => s.goOn i stage
  | none => s.finish i lock

def addVm (s : System) (vm : Vm) : System := { s with vms := s.vms.put s.nextVm vm, nextVm := s.nextVm + 1 }

def removeVm (s : System) (id : Nat) : System := { s with vms := s.vms.remove id }

def addRequested (s : System) (e : Ref) : System := { s with requested := e :: s.requested }

def addLock (s : System) (e : Ref) : System := { s with locks := e :: s.locks }

def addTombstone (s : System) (e : Ref) : System := { s with tombstones := e :: s.tombstones }

def updateState (s : System) (e : Ref) (state : EntityState) : System :=
    { s with docs := Function.update s.docs e (some state) }

/-- The delete of a document that is gone succeeds and changes nothing, like that of a VM. -/
def deleteDocument (s : System) (e : Ref) : System :=
  if s.docs e = none then s else { s with docs := Function.update s.docs e none, deleted := e :: s.deleted }

def performTombstone (s : System) (i : Nat) (goes : Bool) (lock : Option Ref) (e : Ref) (rest : List Ref) :
    Phase → System
  | .query =>
    match s.filterBy e with
    | [] => s.goOn i (.tombstone lock (if e.kind = .image then .create else .delete) e rest)
    | vm :: vms => s.goOn i (.tombstone lock (.convert vm vms) e rest)
  | .convert vm vms =>
    if s.docs vm.flavor = none then s.finish i lock else s.goOn i (.tombstone lock (.disks vms) e rest)
  | .disks vms =>
    if goes then
      match vms with
      | vm :: vms => s.goOn i (.tombstone lock (.convert vm vms) e rest)
      | [] =>
        if e.kind = .image then s.goOn i (.tombstone lock .update e rest) else s.goOnOr i lock (nextTombstone lock rest)
    else s.finish i lock
  | .update =>
    if s.docs e = none then s.finish i lock
    else (s.updateState e .pendingDelete).goOnOr i lock (nextTombstone lock rest)
  | .create =>
    if e.kind = .image then (s.addTombstone e).goOn i (.tombstone lock .delete e rest)
    else (s.addTombstone e).goOnOr i lock (nextTombstone lock rest)
  | .delete =>
    if e.kind = .image then (s.deleteDocument e).goOnOr i lock (nextTombstone lock rest)
    else (s.deleteDocument e).goOn i (.tombstone lock .create e rest)

def perform (s : System) (i : Nat) (goes : Bool) : Stage → System
  | .findFlavor vm => if s.docs vm.flavor = some .ready then s.goOn i (.findImage vm) else s.finish i none
  | .findImage vm => if s.docs vm.image = some .ready then s.goOn i (.consumeQuota vm) else s.finish i none
  | .consumeQuota vm => if goes then s.goOn i (.post vm) else s.finish i none
  | .post vm => (s.addVm vm).finish i none
  | .findVm id =>
    match s.vms.get id with
    | none => s.finish i none
    | some vm => if goes then s.goOn i (nextReferred id vm [] vm.lookedUp) else s.finish i none
  | .findReferred id vm e todo pending =>
    match s.docs e with
    | none => s.finish i none
    | some state => s.goOn i (nextReferred id vm (if state = .pendingDelete then pending ++ [e] else pending) todo)
  | .deleteVm id _ pending => (s.removeVm id).goOnOr i none (nextTombstone none pending)
  | .find e =>
    match s.docs e with
    | none => s.finish i none
    | some state =>
      if e.kind.mayDelete state then
        (s.addRequested e).goOn i (if e.kind = .image then .lock e else .mark e)
      else s.finish i none
  | .lock e =>
    if e ∈ s.locks then s.finish i none
    else (s.addLock e).goOn i (.tombstone (some e) .query e [])
  | .mark e =>
    if s.docs e = none then s.finish i none else (s.updateState e .pendingDelete).goOn i (.tombstone none .query e [])
  | .tombstone lock phase e rest => s.performTombstone i goes lock e rest phase

end System

/-! ## Runs -/

inductive Request
  | createVm (vm : Vm)
  | deleteVm (id : Nat)
  | delete (e : Ref)

def Request.first : Request → Stage
  | .createVm vm => .findFlavor vm
  | .deleteVm id => .findVm id
  | .delete e => .find e

inductive Event
  | request (i : Nat) (request : Request)
  | call (i : Nat) (goes : Bool)

namespace System

def step (s : System) : Event → System
  | .request i request => if s.requests.get i = none then s.goOn i request.first else s
  | .call i goes =>
    match s.requests.get i with
    | none => s
    | some stage => s.perform i goes stage

def start (docs : Ref → Option EntityState) : System := ⟨docs, .empty, 0, [], [], .empty, [], []⟩

/-- No VM refers to a document that is deleted. -/
def Safe (s : System) : Prop := ∀ vm ∈ s.vms.values, ∀ e ∈ vm.refs, e ∉ s.deleted

/-- When no request is in progress, a document whose deletion was requested and to which no VM refers is gone. -/
def Complete (s : System) : Prop :=
  s.requests.entries = [] → ∀ e ∈ s.requested, (∀ vm ∈ s.vms.values, e ∉ vm.refs) → s.docs e = none

end System

end Deferred
end Photon.ApiFrontend
