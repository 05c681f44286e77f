import Mathlib.Algebra.Ring.Rat
import Mathlib.Data.List.Sort
import Photon.Resource
/-!
# DiskPlacement — how the agent of a host places disks on its datastores

A request for disks is placed by three engines.  `ConstraintDiskPlaceEngine` places the disks that have constraints,
each on the datastore its constraints name; `OptimalPlaceEngine` puts all the others on the datastore with the most free
space, if they fit; and if not, `BestEffortPlaceEngine` places them one by one, the largest first.  A
`DatastoreSelector` keeps account of the free space.  The first and the last engine work on a copy of what they are
given, the second on the object itself, so an engine returns its result with what its caller then finds in the object
(`Engine.place`).
-/
namespace Photon.Agent.DiskPlacement

open Keyed (LinkedMap)

/-! ## Disks and datastores -/

inductive CloneType where
  | fullCopy | copyOnWrite
  deriving DecidableEq

structure DiskImage where
  id : String
  cloneType : CloneType
  deriving DecidableEq

structure Disk where
  id : String
  capacityGb : ℚ
  image : Option DiskImage
  constraints : Option (List ResourceConstraint)
  deriving DecidableEq

structure Datastore where
  id : String
  name : String
  tags : List String
  deriving DecidableEq

/-- `DatastoreInfo`: what is used is part of the total. -/
structure DatastoreInfo where
  total : ℚ
  used : ℚ
  used_le : used ≤ total

/-- The datastore manager of the host, and the image datastores of its options, each with whether it is used for VMs. -/
structure DatastoreManager where
  datastores : List Datastore
  imageDatastores : List String
  info : String → DatastoreInfo
  imageOptions : List (String × Bool)

/-- What is left to chance: `random.choice`, and which of the datastores with the most free space `max` finds first.
The calls are numbered. -/
structure Chance where
  choice : Nat → List String → Option String
  choice_mem : ∀ n l id, choice n l = some id → id ∈ l
  choice_isSome : ∀ n l, l ≠ [] → (choice n l).isSome = true
  largest : Nat → LinkedMap String ℚ → Option String
  largest_max : ∀ n m id, largest n m = some id → ∃ f, m.get id = some f ∧ ∀ j g, m.get j = some g → g ≤ f
  largest_isSome : ∀ n m id, (m.get id).isSome = true → (largest n m).isSome = true

/-- `normalize`: the id of the datastore with this id or name. -/
def DatastoreManager.normalize (manager : DatastoreManager) (idOrName : String) : Option String :=
  (manager.datastores.find? (fun ds => decide (ds.id = idOrName ∨ ds.name = idOrName))).map (fun ds => ds.id)

def DatastoreManager.vmDatastores (manager : DatastoreManager) : List String :=
  (manager.datastores.map (fun ds => ds.id)).filter (fun id => decide (id ∉ manager.imageDatastores))

def DatastoreManager.placeableDatastores (manager : DatastoreManager) : List String :=
  manager.vmDatastores ++
    (manager.imageOptions.filter (fun option => option.2)).filterMap (fun option => manager.normalize option.1)

def DatastoreManager.findDatastoresWithTags (manager : DatastoreManager) (tags : List String) : List String :=
  ((manager.datastores.filter (fun ds => decide (ds.id ∈ manager.placeableDatastores) &&
    tags.all (fun tag => decide (tag ∈ ds.tags)))).map (fun ds => ds.id)).dedup

/-- `DiskUtil.disk_capacity`: a linked clone of an image counts nothing. -/
def Disk.capacity (disk : Disk) : ℚ :=
  match disk.image with
  | none => disk.capacityGb
  | some image => if image.cloneType = .copyOnWrite then 0 else disk.capacityGb

def disksCapacityGb (disks : List Disk) : ℚ := (disks.map Disk.capacity).sum

/-! ## The selector -/

structure DatastoreSelector where
  datastoreFree : LinkedMap String ℚ

inductive SelectorError where
  | assertion
  | notEnoughSpace

def DatastoreSelector.init (manager : DatastoreManager) (datastores : List String) : DatastoreSelector :=
  ⟨LinkedMap.empty.putAll (datastores.map (fun id => (id, (manager.info id).total - (manager.info id).used)))⟩

def DatastoreSelector.consumeDatastoreSpace (selector : DatastoreSelector) (datastoreId : String) (consumedSpace : ℚ) :
    Except SelectorError DatastoreSelector :=
  match selector.datastoreFree.get datastoreId with
  | none => .error .assertion
  | some free =>
    if free < consumedSpace then .error .notEnoughSpace
    else .ok ⟨selector.datastoreFree.put datastoreId (free - consumedSpace)⟩

/-! ## Placements -/

structure AgentResourcePlacement where
  resourceId : String
  containerId : String
  deriving DecidableEq

structure DisksPlacement where
  disks : List Disk
  selector : DatastoreSelector
  placementList : List AgentResourcePlacement

inductive PlaceResult where
  | ok (placement : DisksPlacement)
  | noSuchResource
  | notEnoughDatastoreCapacity (placement : Option DisksPlacement)
  | raised

def PlaceResult.isOk : PlaceResult → Bool
  | .ok _ => true
  | _ => false

inductive ConstraintError where
  | datastoreNotFound
  | conflicted
  | raised

section

variable (manager : DatastoreManager) (chance : Chance)

def firstValue (c : ResourceConstraint) : Except ConstraintError String :=
  match c.values with
  | [] => .error .raised
  | value :: _ => .ok value

def namedDatastore (c : ResourceConstraint) : Except ConstraintError String :=
  match firstValue c with
  | .error error => .error error
  | .ok value =>
    match manager.normalize value with
    | none => .error .datastoreNotFound
    | some id => .ok id

/-- The last part of `get_datastore_constraint`: the datastore, once those named and the tags are collected. -/
def chooseDatastore (n : Nat) (datastores datastoreTags : List String) : Except ConstraintError String :=
  match datastores.dedup with
  | _ :: _ :: _ => .error .conflicted
  | [datastore] =>
    if datastoreTags = [] then .ok datastore
    else if datastore ∈ manager.findDatastoresWithTags datastoreTags then .ok datastore else .error .conflicted
  | [] =>
    if datastoreTags = [] then .error .raised
    else
      match chance.choice n (manager.findDatastoresWithTags datastoreTags) with
      | none => .error .raised
      | some datastore => .ok datastore

def getDatastoreConstraint (n : Nat) (constraints : List ResourceConstraint) : Except ConstraintError String := do
  let datastores ← (constraints.filter (fun c => decide (c.type = .datastore))).mapM (namedDatastore manager)
  let datastoreTags ← (constraints.filter (fun c => decide (c.type = .datastoreTag))).mapM firstValue
  chooseDatastore manager chance n datastores datastoreTags

/-! ## The engines -/

def placeOn (datastoreId : String) (disk : Disk) : AgentResourcePlacement := ⟨disk.id, datastoreId⟩

def constraintLoop : List Disk → List Disk → DatastoreSelector → List AgentResourcePlacement → PlaceResult
  | [], unplacedDisks, selector, placementList => .ok ⟨unplacedDisks, selector, placementList⟩
  | disk :: disks, unplacedDisks, selector, placementList =>
    match disk.constraints.getD [] with
    | [] => constraintLoop disks (unplacedDisks ++ [disk]) selector placementList
    | c :: constraints =>
      match getDatastoreConstraint manager chance disks.length (c :: constraints) with
      | .error .datastoreNotFound => .noSuchResource
      | .error .conflicted => .noSuchResource
      | .error .raised => .raised
      | .ok datastoreId =>
        if datastoreId ∈ manager.placeableDatastores then
          match selector.consumeDatastoreSpace datastoreId disk.capacity with
          | .error .notEnoughSpace => .notEnoughDatastoreCapacity none
          | .error .assertion => .raised
          | .ok selector => constraintLoop disks unplacedDisks selector (placementList ++ [placeOn datastoreId disk])
        else .noSuchResource

def optimalPlace (placement : DisksPlacement) : PlaceResult :=
  match chance.largest (placement.disks.length + 1) placement.selector.datastoreFree with
  | none => .raised
  | some optimalDatastore =>
    match placement.selector.consumeDatastoreSpace optimalDatastore (disksCapacityGb placement.disks) with
    | .error .notEnoughSpace => .notEnoughDatastoreCapacity (some placement)
    | .error .assertion => .raised
    | .ok selector =>
      .ok ⟨placement.disks, selector, placement.placementList ++ placement.disks.map (placeOn optimalDatastore)⟩

def roomFor (n : Nat) (selector : DatastoreSelector) (optimalDatastore : String) (diskCapacity : ℚ) : Option String :=
  match selector.datastoreFree.get optimalDatastore with
  | none => none
  | some free => if free < diskCapacity then chance.largest n selector.datastoreFree else some optimalDatastore

def bestEffortLoop (allDisks : List Disk) :
    List Disk → String → DatastoreSelector → List AgentResourcePlacement → PlaceResult
  | [], _, selector, placementList => .ok ⟨allDisks, selector, placementList⟩
  | disk :: disks, optimalDatastore, selector, placementList =>
    match roomFor chance disks.length selector optimalDatastore disk.capacity with
    | none => .raised
    | some optimalDatastore =>
      match selector.consumeDatastoreSpace optimalDatastore disk.capacity with
      | .error .notEnoughSpace => .notEnoughDatastoreCapacity (some ⟨allDisks, selector, placementList⟩)
      | .error .assertion => .raised
      | .ok selector =>
        bestEffortLoop allDisks disks optimalDatastore selector (placementList ++ [placeOn optimalDatastore disk])

def bestEffortPlace (placement : DisksPlacement) : PlaceResult :=
  match chance.largest placement.disks.length placement.selector.datastoreFree with
  | none => .raised
  | some optimalDatastore =>
    bestEffortLoop chance placement.disks
      (placement.disks.insertionSort (fun a b => a.capacity ≥ b.capacity)) optimalDatastore placement.selector
      placement.placementList

inductive Engine where
  | constraint | optimal | bestEffort
  deriving DecidableEq

def Engine.place (placement : DisksPlacement) : Engine → PlaceResult × DisksPlacement
  | .constraint =>
    (constraintLoop manager chance placement.disks [] placement.selector placement.placementList, placement)
  | .optimal =>
    match optimalPlace chance placement with
    | .ok placed => (.ok placed, placed)
    | result => (result, placement)
  | .bestEffort => (bestEffortPlace chance placement, placement)

inductive StorageError where
  | noDatastores
  | noSuchResource
  | notEnoughDatastoreCapacity
  | raised

/-- What `_compute_storage_score` does with the result of an engine that it does not go on from. -/
def PlaceResult.toExcept : PlaceResult → Except StorageError DisksPlacement
  | .ok placement => .ok placement
  | .noSuchResource => .error .noSuchResource
  | .notEnoughDatastoreCapacity _ => .error .notEnoughDatastoreCapacity
  | .raised => .error .raised

/-- The optimal placement, or else the best effort from what the optimal engine hands back. -/
def placeUnconstrained (placement : DisksPlacement) : PlaceResult :=
  match (Engine.place manager chance placement .optimal).1 with
  | .notEnoughDatastoreCapacity (some placement) => (Engine.place manager chance placement .bestEffort).1
  | result => result

/-- The placement of `_compute_storage_score`; without disks no selector is made. -/
def computeStorageScore (disks : List Disk) : Except StorageError (Option DisksPlacement) :=
  if disks = [] then .ok none
  else if manager.placeableDatastores = [] then .error .noDatastores
  else
    let selector := DatastoreSelector.init manager manager.placeableDatastores
    match (Engine.place manager chance ⟨disks, selector, []⟩ .constraint).1.toExcept with
    | .error error => .error error
    | .ok placement =>
      match (placeUnconstrained manager chance placement).toExcept with
      | .error error => .error error
      | .ok placement => .ok (some placement)

end
end Photon.Agent.DiskPlacement
