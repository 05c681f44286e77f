import Photon.DiskPlacement
import Photon.Fallible
/-!
# VmCreation — reserving and creating a virtual machine on the agent

`HostHandler.create_vm` works through a chain of calls of the hypervisor's managers, every one of which may raise;
`Calls` has their outcomes, and those of the decorators around it.  What matters is how it ends: whether the reservation
is gone, and whether a machine that was created and not handed over was deleted again.
-/
namespace Photon.Agent.VmCreation

open Keyed (LinkedMap)
open DiskPlacement (Disk disksCapacityGb)

inductive Mode
  | normal | enteringMaintenance | maintenance | deprovisioned
  deriving DecidableEq

inductive FaultKind
  | diskAlreadyExist | imageNotFound | vmAlreadyExist | datastoreNotFound | invalidImageState | valueError
  | concurrentVmOperation
  /-- Another subclass of `Exception`. -/
  | other
  /-- Not an `Exception`, as an interrupt of the interpreter. -/
  | interrupt
  deriving DecidableEq

structure Fault where
  kind : FaultKind
  message : String
  name : String
  deriving DecidableEq

def Fault.isException (fault : Fault) : Bool := fault.kind ≠ .interrupt

inductive ResultCode
  | ok | operationNotAllowed | invalidReservation | placementNotFound | networkNotFound | imageNotFound
  | imageTombstoned | vmAlreadyExist | systemError | staleGeneration
  deriving DecidableEq

structure Response where
  result : ResultCode
  error : Option String
  deriving DecidableEq

/-- A machine to create; its memory and cpu are the costs of its flavor. -/
structure Vm where
  id : String
  memoryMb : Int
  cpuCount : Int
  disks : List Disk
  /-- The container of the placement descriptor. -/
  placement : Option String
  networks : List String

/-! ## Reservations -/

structure PlacementManager where
  reservedVms : LinkedMap String Vm
  reservedDisks : LinkedMap String (List Disk)

def PlacementManager.reserve (pm : PlacementManager) (rid : String) (vm : Option Vm) (disks : List Disk) :
    PlacementManager where
  reservedVms := match vm with
    | some vm => pm.reservedVms.put rid vm
    | none => pm.reservedVms
  reservedDisks := if disks = [] then pm.reservedDisks else pm.reservedDisks.put rid disks

def PlacementManager.removeVmReservation (pm : PlacementManager) (rid : String) : PlacementManager :=
  { pm with reservedVms := pm.reservedVms.remove rid }

def PlacementManager.memoryReserved (pm : PlacementManager) : Int := pm.reservedVms.sum Vm.memoryMb

def PlacementManager.cpuReserved (pm : PlacementManager) : Int := pm.reservedVms.sum Vm.cpuCount

def PlacementManager.storageReserved (pm : PlacementManager) : ℚ :=
  pm.reservedDisks.sum disksCapacityGb + pm.reservedVms.sum fun vm => disksCapacityGb vm.disks

def PlacementManager.Counts (pm : PlacementManager) (rid : String) : Prop :=
  pm.reservedVms.get rid ≠ none ∨ pm.reservedDisks.get rid ≠ none

structure Handler where
  mode : Mode
  generation : Int
  pm : PlacementManager

structure ReserveRequest where
  generation : Int
  /-- What `_parse_resource_request` makes of the resource; `none` is an unknown flavor. -/
  parsed : Option (List Disk × Option Vm)

def Mode.isMaintenance (mode : Mode) : Bool := mode = .enteringMaintenance ∨ mode = .maintenance

def Mode.name : Mode → String
  | .normal => "NORMAL"
  | .enteringMaintenance => "ENTERING_MAINTENANCE"
  | .maintenance => "MAINTENANCE"
  | .deprovisioned => "DEPROVISIONED"

def generationGap : Int := 10

/-- The body of `HostHandler.reserve`: the response, the reservation, and the handler. -/
def Handler.reserve (h : Handler) (request : ReserveRequest) (rid : String) : Response × Option String × Handler :=
  if h.mode.isMaintenance then
    (⟨.operationNotAllowed, some ("reserve not allowed in " ++ h.mode.name ++ " mode")⟩, none, h)
  else if h.generation - request.generation > generationGap then (⟨.staleGeneration, some "stale generation"⟩, none, h)
  else
    match request.parsed with
    | none => (⟨.systemError, some "unknown flavor"⟩, none, h)
    | some (disks, vm) =>
      (⟨.ok, none⟩, some rid, { h with pm := h.pm.reserve rid vm disks, generation := h.generation + 1 })

/-! ## The calls -/

/-- What every call of `create_vm` and of its decorators comes to: its result or what it raises. -/
structure Calls where
  /-- What `log_request` does before the call. -/
  logRequest : Except Fault Unit
  rebootRequired : Except Fault Bool
  validateRequest : Except Fault Unit
  getImageIdFromDisks : Except Fault (Option String)
  checkAndValidateImage : Except Fault Bool
  findDatastoreByImage : Except Fault (Option String)
  copyImage : Except Fault Unit
  getCreateVmMetadata : Except Fault Unit
  createVmSpec : Except Fault Unit
  customizeVm : Except Fault Unit
  setVminfo : Except Fault Unit
  getVmNetworks : Except Fault (List String)
  addNic : Nat → String → Except Fault Unit
  createDisks : Except Fault Unit
  createVm : Except Fault Unit
  updateVmSpec : Except Fault Unit
  getVmConfig : Except Fault Unit
  setGuestinfoIp : Except Fault Bool
  updateVm : Except Fault Unit
  /-- `uuid.UUID` of the machine's id. -/
  uuid : Except Fault Unit
  normalize : Except Fault String
  touchImageTimestamp : Except Fault Unit
  datastoreName : Except Fault String
  toThrift : Except Fault Unit
  validateResponse : Except Fault Unit
  /-- The warning of `error_handler`. -/
  logError : Except Fault Unit
  /-- What `log_request` does after the call. -/
  logResponse : Except Fault Unit

/-- The names of the networks of the connection spec, if the request has one. -/
structure CreateVmRequest where
  reservation : String
  networkConnectionSpec : Option (List String)

/-- A step is left by a `return` or by what is raised. -/
inductive Exit
  | returned (response : Response)
  | raised (fault : Fault)
  deriving DecidableEq

def call {α : Type} (x : Except Fault α) : Except Exit α := x.mapError .raised

/-- `try` with handlers that return a response. -/
def tryCall {α : Type} (x : Except Fault α) (handler : Fault → Option Response) : Except Exit α :=
  x.mapError fun fault => ((handler fault).map Exit.returned).getD (.raised fault)

section

variable (calls : Calls)

def lazyCopyImage (imageId : Option String) : Except Exit Unit :=
  if imageId.getD "" = "" then .ok ()
  else do
    if ← call calls.checkAndValidateImage then return ()
    match (do let _ ← calls.findDatastoreByImage; calls.copyImage : Except Fault Unit) with
    | .ok () => return ()
    | .error fault => if fault.kind = .diskAlreadyExist then return () else throw (.raised fault)

/-- Step 2: the nics of the connection spec, of the placement, or the default one. -/
def addNics (request : CreateVmRequest) (vm : Vm) (networks : List String) : Except Exit Unit :=
  match request.networkConnectionSpec with
  | some nics => nics.zipIdx.forM fun nic => call (calls.addNic nic.2 nic.1)
  | none =>
    if vm.networks ≠ [] ∧ networks ≠ [] then
      let missing := vm.networks.dedup.filter (· ∉ networks)
      if missing ≠ [] then
        throw (.returned ⟨.networkNotFound, some ("Unknown non provisioned networks: " ++ toString missing)⟩)
      else vm.networks.dedup.zipIdx.forM fun nic => call (calls.addNic nic.2 nic.1)
    else
      match networks with
      | network :: _ => call (calls.addNic 0 network)
      | [] => .ok ()

def createSteps (request : CreateVmRequest) (vm : Vm) : Except Exit (String × Option String) := do
  let datastoreId ← match vm.placement with
    | none => throw (.returned ⟨.placementNotFound, some "MissingPlacementDescriptorException"⟩)
    | some datastoreId => pure datastoreId
  let imageId ← call calls.getImageIdFromDisks
  lazyCopyImage calls imageId
  call calls.getCreateVmMetadata
  call calls.createVmSpec
  call calls.customizeVm
  call calls.setVminfo
  let networks ← call calls.getVmNetworks
  addNics calls request vm networks
  tryCall calls.createDisks fun fault =>
    if fault.kind = .imageNotFound then some ⟨.imageNotFound, some ("Invalid image id " ++ fault.message)⟩
    else if fault.isException then some ⟨.systemError, some "Failed to create disk spec"⟩ else none
  tryCall calls.createVm fun fault =>
    if fault.kind = .vmAlreadyExist then some ⟨.vmAlreadyExist, some "Failed to create VM"⟩
    else if fault.isException then some ⟨.systemError, some "Failed to create VM"⟩ else none
  return (datastoreId, imageId)

def setGuestinfo (request : CreateVmRequest) : Except Fault Unit :=
  if request.networkConnectionSpec.isSome then do
    calls.updateVmSpec
    calls.getVmConfig
    if ← calls.setGuestinfoIp then calls.updateVm
  else .ok ()

def touchImageTimestamp (imageId : String) : Except Fault Response :=
  match calls.normalize with
  | .error fault =>
    if fault.kind = .datastoreNotFound then .ok ⟨.systemError, some fault.message⟩ else .error fault
  | .ok _ =>
    match calls.touchImageTimestamp with
    | .ok () => .ok ⟨.ok, none⟩
    | .error fault =>
      if fault.kind = .invalidImageState then .ok ⟨.imageTombstoned, some (imageId ++ " has been tombstoned")⟩
      else if fault.isException then .ok ⟨.imageNotFound, some fault.message⟩ else .error fault

def touchImage : Option String → Except Fault Response
  | none => .ok ⟨.ok, none⟩
  | some imageId => do
    calls.uuid
    touchImageTimestamp calls imageId

/-- How the request ends: the response or what is raised, whether the machine was created, and the machines that
`try_delete_vm` was called for, which itself raises nothing. -/
structure Ended where
  result : Except Fault Response
  created : Bool
  deleted : List String

def Ended.isOk (ended : Ended) : Bool :=
  match ended.result with
  | .ok response => response.result = .ok
  | .error _ => false

def finishSteps (request : CreateVmRequest) (vm : Vm) (imageId : Option String) : Except Fault Response × List String :=
  match setGuestinfo calls request with
  | .error fault =>
    if fault.isException then
      (.ok ⟨.systemError, some ("Failed to set the ip/mac address of the VM " ++ fault.message)⟩, [vm.id])
    else (.error fault, [])
  | .ok () =>
    match touchImage calls imageId with
    | .error fault =>
      if fault.kind = .valueError then (.ok ⟨.systemError, some fault.message⟩, []) else (.error fault, [])
    | .ok response =>
      if response.result ≠ .ok then (.ok response, [vm.id])
      else ((do let _ ← calls.datastoreName; calls.toThrift; return ⟨.ok, none⟩), [])

def doCreateVm (request : CreateVmRequest) (vm : Vm) : Ended :=
  match createSteps calls request vm with
  | .error (.returned response) => ⟨.ok response, false, []⟩
  | .error (.raised fault) => ⟨.error fault, false, []⟩
  | .ok (_, imageId) => ⟨(finishSteps calls request vm imageId).1, true, (finishSteps calls request vm imageId).2⟩

/-- The body of `HostHandler.create_vm`; the reservation is removed in the `finally`. -/
def Handler.createVmBody (h : Handler) (request : CreateVmRequest) : Ended × Handler :=
  if h.mode.isMaintenance then
    (⟨.ok ⟨.operationNotAllowed, some ("create_vm not allowed in " ++ h.mode.name ++ " mode")⟩, false, []⟩, h)
  else
    match h.pm.reservedVms.get request.reservation with
    | none => (⟨.ok ⟨.invalidReservation, some "Invalid VM reservation"⟩, false, []⟩, h)
    | some vm => (doCreateVm calls request vm, { h with pm := h.pm.removeVmReservation request.reservation })

/-- The handler of a `ConcurrentVmOperation` asks for the `vm_id` of the request, and a `CreateVmRequest` has none. -/
def noVmId : Fault := ⟨.other, "'CreateVmRequest' object has no attribute 'vm_id'", "AttributeError"⟩

def errorResponse (fault : Fault) : Except Fault Response :=
  if fault.kind = .concurrentVmOperation then .error noVmId
  else do
    calls.logError
    return ⟨.systemError, some (if fault.message = "" then fault.name else fault.message)⟩

/-- The second `try` of `error_handler` after its function: the response is validated, and what was raised, an interrupt
too, becomes a response. -/
def Ended.handled (ended : Ended) : Ended :=
  match (do let response ← ended.result; calls.validateResponse; return response : Except Fault Response) with
  | .ok response => { ended with result := .ok response }
  | .error fault => { ended with result := errorResponse calls fault }

def errorHandler (func : Handler → Ended × Handler) (h : Handler) : Ended × Handler :=
  match calls.rebootRequired with
  | .ok true => (⟨.ok ⟨.systemError, some "Agent rebooting"⟩, false, []⟩, h)
  -- what the look at the agent's config raises is ignored
  | _ =>
    match calls.validateRequest with
    | .error fault => (⟨errorResponse calls fault, false, []⟩, h)
    | .ok () => ((func h).1.handled calls, (func h).2)

def Ended.logged (ended : Ended) : Ended :=
  { ended with result := do let response ← ended.result; calls.logResponse; return response }

def logRequest (func : Handler → Ended × Handler) (h : Handler) : Ended × Handler :=
  match calls.logRequest with
  | .error fault => (⟨.error fault, false, []⟩, h)
  | .ok () => ((func h).1.logged calls, (func h).2)

def Handler.createVm (h : Handler) (request : CreateVmRequest) : Ended × Handler :=
  logRequest calls (errorHandler calls fun h => h.createVmBody calls request) h

/-! ## How it ends -/

/-- Touching the image raises: the id is no `UUID`, the datastore cannot be looked up for another reason than that it is
not found, or there is an interrupt. -/
def TouchRaises (imageId : Option String) : Prop :=
  imageId ≠ none ∧ ((∃ fault, calls.uuid = .error fault) ∨ calls.uuid = .ok () ∧
    ((∃ fault, calls.normalize = .error fault ∧ fault.kind ≠ .datastoreNotFound) ∨
      (∃ id, calls.normalize = .ok id) ∧ ∃ fault, calls.touchImageTimestamp = .error fault ∧ fault.kind = .interrupt))

def Touched (imageId : Option String) : Prop :=
  imageId = none ∨ calls.uuid = .ok () ∧ (∃ id, calls.normalize = .ok id) ∧ calls.touchImageTimestamp = .ok ()

/-- The decorators go on to the function. -/
structure Admits : Prop where
  logged : calls.logRequest = .ok ()
  running : calls.rebootRequired ≠ .ok true
  valid : calls.validateRequest = .ok ()

/-- What leaves the created machine behind: an interrupt, touching the image when it raises, or a failure in making the
response, in validating it or in logging it. -/
def Abandons (request : CreateVmRequest) (imageId : Option String) : Prop :=
  (∃ fault, setGuestinfo calls request = .error fault ∧ fault.kind = .interrupt) ∨
    setGuestinfo calls request = .ok () ∧ (TouchRaises calls imageId ∨
      Touched calls imageId ∧ ((∃ fault, calls.datastoreName = .error fault) ∨
        (∃ fault, calls.toThrift = .error fault) ∨
        (∃ fault, calls.validateResponse = .error fault) ∨ ∃ fault, calls.logResponse = .error fault))

end

variable {calls : Calls} {request : CreateVmRequest} {vm : Vm} {imageId : Option String}

theorem touchImage_cases (calls : Calls) (imageId : Option String) :
    (∃ fault, touchImage calls imageId = .error fault) ∧ TouchRaises calls imageId ∨
    (∃ response, touchImage calls imageId = .ok response ∧ response.result ≠ .ok) ∧ ¬ TouchRaises calls imageId ∧
      ¬ Touched calls imageId ∨
    touchImage calls imageId = .ok ⟨.ok, none⟩ ∧ ¬ TouchRaises calls imageId ∧ Touched calls imageId := by
  cases imageId with
  | none => exact .inr (.inr ⟨rfl, fun h => h.1 rfl, .inl rfl⟩)
  | some image =>
    unfold touchImage TouchRaises Touched touchImageTimestamp
    cases huuid : calls.uuid with
    | error fault => exact .inl ⟨⟨fault, rfl⟩, by simp⟩
    | ok =>
      dsimp only
      rw [Fallible.ok_bind]
      cases hnormalize : calls.normalize with
      | error fault =>
        by_cases hkind : fault.kind = .datastoreNotFound <;> simp [hkind]
      | ok id =>
        cases htouch : calls.touchImageTimestamp with
        | ok => simp
        | error fault =>
          by_cases hstate : fault.kind = .invalidImageState
          · simp [hstate]
          · by_cases hkind : fault.kind = .interrupt <;> simp [Fault.isException, hkind, hstate]

theorem isOk_errorResponse (fault : Fault) (created : Bool) (deleted : List String) :
    Ended.isOk ⟨errorResponse calls fault, created, deleted⟩ = false := by
  unfold errorResponse
  split
  · rfl
  · cases calls.logError <;> rfl

theorem exists_error_iff {x : Except Fault Unit} : (∃ fault, x = .error fault) ↔ x ≠ .ok () := by
  cases x <;> simp

theorem Ended.isOk_handled (ended : Ended) :
    (ended.handled calls).isOk = true ↔ ended.isOk = true ∧ calls.validateResponse = .ok () := by
  unfold Ended.handled
  cases hresult : ended.result with
  | error fault =>
    have hraised : ended.isOk = false := by rw [Ended.isOk, hresult]
    simp [bind, Except.bind, isOk_errorResponse, hraised]
  | ok response =>
    cases hvalid : calls.validateResponse with
    | error fault => simp [bind, Except.bind, isOk_errorResponse]
    | ok => simp [bind, Except.bind, pure, Except.pure, Ended.isOk, hresult]

theorem Ended.isOk_logged (ended : Ended) :
    (ended.logged calls).isOk = true ↔ ended.isOk = true ∧ calls.logResponse = .ok () := by
  unfold Ended.logged Ended.isOk
  cases hresult : ended.result with
  | error fault => simp [bind, Except.bind]
  | ok response => cases hlog : calls.logResponse <;> simp [bind, Except.bind, pure, Except.pure]

@[simp] theorem Ended.created_logged_handled (ended : Ended) :
    ((ended.handled calls).logged calls).created = ended.created := by
  unfold Ended.logged Ended.handled
  split <;> rfl

@[simp] theorem Ended.deleted_logged_handled (ended : Ended) :
    ((ended.handled calls).logged calls).deleted = ended.deleted := by
  unfold Ended.logged Ended.handled
  split <;> rfl

/-- The machine is handed over or deleted in every case but those. -/
theorem finishSteps_settled_iff (created : Bool) :
    ((Ended.isOk ⟨(finishSteps calls request vm imageId).1, created, (finishSteps calls request vm imageId).2⟩ = true ∧
        calls.validateResponse = .ok () ∧ calls.logResponse = .ok ()) ∨
      vm.id ∈ (finishSteps calls request vm imageId).2) ↔ ¬ Abandons calls request imageId := by
  simp only [Abandons, exists_error_iff (x := calls.toThrift), exists_error_iff (x := calls.validateResponse),
    exists_error_iff (x := calls.logResponse)]
  unfold finishSteps
  cases hset : setGuestinfo calls request with
  | error fault =>
    by_cases hkind : fault.kind = .interrupt <;> simp [Ended.isOk, Fault.isException, hkind]
  | ok =>
    rcases touchImage_cases calls imageId with
      ⟨⟨fault, htouch⟩, hraises⟩ | ⟨⟨response, htouch, hresult⟩, hraises, htouched⟩ | ⟨htouch, hraises, htouched⟩
    · by_cases hkind : fault.kind = .valueError <;> simp [htouch, hraises, hkind, Ended.isOk]
    · simp [htouch, hraises, htouched, hresult]
    · cases hname : calls.datastoreName with
      | error fault => simp [htouch, hraises, htouched, Ended.isOk, bind, Except.bind]
      | ok name =>
        cases hthrift : calls.toThrift with
        | error fault => simp [htouch, hraises, htouched, Ended.isOk, bind, Except.bind]
        | ok => simp [htouch, hraises, htouched, Ended.isOk, bind, Except.bind, pure, Except.pure]

/-- Nothing of the reservation is counted any more, the sums are what they were before it, and a machine that was
created is handed over or deleted; `h` is the handler before the reservation. -/
structure CleanedUp (h : Handler) (rid : String) (vm : Vm) (ended : Ended × Handler) : Prop where
  uncounted : ¬ ended.2.pm.Counts rid
  memory : ended.2.pm.memoryReserved = h.pm.memoryReserved
  cpu : ended.2.pm.cpuReserved = h.pm.cpuReserved
  storage : ended.2.pm.storageReserved = h.pm.storageReserved
  settled : ended.1.created = true → ended.1.isOk = true ∨ vm.id ∈ ended.1.deleted

theorem doCreateVm_settled_iff : ((doCreateVm calls request vm).created = true →
      ((doCreateVm calls request vm).isOk = true ∧ calls.validateResponse = .ok () ∧ calls.logResponse = .ok ()) ∨
        vm.id ∈ (doCreateVm calls request vm).deleted) ↔
    ∀ datastoreId imageId, createSteps calls request vm = .ok (datastoreId, imageId) →
      ¬ Abandons calls request imageId := by
  unfold doCreateVm
  split
  · rename_i hsteps
    simp [hsteps]
  · rename_i hsteps
    simp [hsteps]
  · rename_i datastoreId imageId hsteps
    rw [hsteps]
    constructor
    · intro hsettled _ _ heq
      obtain ⟨rfl, rfl⟩ := Prod.mk.inj (Except.ok.inj heq)
      exact (finishSteps_settled_iff true).1 (hsettled rfl)
    · intro habandons _
      exact (finishSteps_settled_iff true).2 (habandons _ _ rfl)

/-- Without the decorators' leave the handler is as it was; with it the body decides. -/
theorem createVm_cases (calls : Calls) (h : Handler) (request : CreateVmRequest) :
    ¬ Admits calls ∧ (Handler.createVm calls h request).2 = h ∨
    Admits calls ∧ Handler.createVm calls h request =
      (((h.createVmBody calls request).1.handled calls).logged calls, (h.createVmBody calls request).2) := by
  unfold Handler.createVm logRequest errorHandler
  cases hlog : calls.logRequest with
  | error fault => exact .inl ⟨fun hadmits => (nomatch hlog.symm.trans hadmits.logged), rfl⟩
  | ok =>
    by_cases hreboot : calls.rebootRequired = .ok true
    · rw [hreboot]
      exact .inl ⟨fun hadmits => hadmits.running hreboot, rfl⟩
    · cases hvalid : calls.validateRequest with
      | error fault =>
        refine .inl ⟨fun hadmits => (nomatch hvalid.symm.trans hadmits.valid), ?_⟩
        dsimp only
        split <;> rfl
      | ok =>
        refine .inr ⟨⟨hlog, hreboot, hvalid⟩, ?_⟩
        dsimp only
        split
        · rename_i hrequired
          exact absurd hrequired hreboot
        · rfl

theorem get_remove_put {υ : Type} {m : LinkedMap String υ} {rid : String} (hfresh : m.get rid = none) (v : υ)
    (k : String) : ((m.put rid v).remove rid).get k = m.get k := by
  rw [LinkedMap.get_remove, LinkedMap.get_put]
  split
  · rename_i hk
    rw [hk, hfresh]
  · rfl

def idleHost : Handler := ⟨.normal, 0, ⟨.empty, .empty⟩⟩

def plainVm : Vm := ⟨"vm-1", 512, 1, [], some "datastore-1", []⟩

def smoothCalls : Calls where
  logRequest := .ok ()
  rebootRequired := .ok false
  validateRequest := .ok ()
  getImageIdFromDisks := .ok none
  checkAndValidateImage := .ok true
  findDatastoreByImage := .ok none
  copyImage := .ok ()
  getCreateVmMetadata := .ok ()
  createVmSpec := .ok ()
  customizeVm := .ok ()
  setVminfo := .ok ()
  getVmNetworks := .ok ["VM Network"]
  addNic := fun _ _ => .ok ()
  createDisks := .ok ()
  createVm := .ok ()
  updateVmSpec := .ok ()
  getVmConfig := .ok ()
  setGuestinfoIp := .ok true
  updateVm := .ok ()
  uuid := .ok ()
  normalize := .ok "datastore-1"
  touchImageTimestamp := .ok ()
  datastoreName := .ok "datastore1"
  toThrift := .ok ()
  validateResponse := .ok ()
  logError := .ok ()
  logResponse := .ok ()

def reserveAndCreate (calls : Calls) (disks : List Disk) : Ended × Handler :=
  Handler.createVm calls { (idleHost.reserve ⟨0, some (disks, some plainVm)⟩ "r-1").2.2 with mode := .normal }
    ⟨"r-1", none⟩

/-- **Creation cleans up.**  After a reservation for a machine and for disks, in a mode that allows it, `create_vm`
leaves nothing of the reservation and no machine behind if and only if the reservation had no disks, the decorators go
on to the function, and the machine, once created, is not abandoned. -/
theorem createVm_cleans_up_iff (calls : Calls) (h : Handler) (reserve : ReserveRequest) (rid : String)
    (disks : List Disk) (vm : Vm)
    (hparsed : reserve.parsed = some (disks, some vm)) (hreserved : (h.reserve reserve rid).2.1 = some rid)
    (hfresh : ¬ h.pm.Counts rid) (mode : Mode) (hmode : mode.isMaintenance = false) (request : CreateVmRequest)
    (hrequest : request.reservation = rid) :
    CleanedUp h rid vm (Handler.createVm calls { (h.reserve reserve rid).2.2 with mode := mode } request) ↔
      disks = [] ∧ Admits calls ∧ ∀ datastoreId imageId, createSteps calls request vm = .ok (datastoreId, imageId) →
        ¬ Abandons calls request imageId := by
  subst hrequest
  obtain ⟨hvms, hdisks⟩ := not_or.1 hfresh
  rw [not_not] at hvms hdisks
  have hpm : (h.reserve reserve request.reservation).2.2.pm = h.pm.reserve request.reservation (some vm) disks := by
    unfold Handler.reserve at hreserved ⊢
    split
    · rename_i hmaintenance
      rw [if_pos hmaintenance] at hreserved
      cases hreserved
    · rename_i hmaintenance
      rw [if_neg hmaintenance] at hreserved
      split
      · rename_i hstale
        rw [if_pos hstale] at hreserved
        cases hreserved
      · rw [hparsed]
  rcases createVm_cases calls { (h.reserve reserve request.reservation).2.2 with mode := mode } request with
    ⟨hadmits, hkept⟩ | ⟨hadmits, hcreate⟩
  · -- the decorators answered: the reservation is still there
    refine iff_of_false (fun hclean => hclean.uncounted (.inl ?_)) fun hall => hadmits hall.2.1
    rw [hkept]
    simp [hpm, PlacementManager.reserve]
  have hbody : Handler.createVmBody calls { (h.reserve reserve request.reservation).2.2 with mode := mode } request =
      (doCreateVm calls request vm, { (h.reserve reserve request.reservation).2.2 with
        mode := mode
        pm := (h.pm.reserve request.reservation (some vm) disks).removeVmReservation request.reservation }) := by
    unfold Handler.createVmBody
    rw [if_neg (by simp [hmode])]
    simp [hpm, PlacementManager.reserve]
  rw [hcreate, hbody, ← doCreateVm_settled_iff]
  have hget := get_remove_put hvms vm
  constructor
  · intro hclean
    refine ⟨?_, hadmits, ?_⟩
    · by_contra hne
      refine hclean.uncounted (.inr ?_)
      simp [PlacementManager.removeVmReservation, PlacementManager.reserve, hne]
    · simpa [Ended.isOk_logged, Ended.isOk_handled, and_assoc] using hclean.settled
  · rintro ⟨rfl, -, hsettled⟩
    refine ⟨?_, LinkedMap.sum_eq_of_get_eq _ _ _ hget, LinkedMap.sum_eq_of_get_eq _ _ _ hget, ?_, ?_⟩
    · rintro (hcounts | hcounts)
      · exact hcounts ((hget _).trans hvms)
      · exact hcounts hdisks
    · exact congrArg (h.pm.reservedDisks.sum disksCapacityGb + ·) (LinkedMap.sum_eq_of_get_eq _ _ _ hget)
    · simpa [Ended.isOk_logged, Ended.isOk_handled, and_assoc] using hsettled

theorem createVm_cleans_up_plain : CleanedUp idleHost "r-1" plainVm (reserveAndCreate smoothCalls []) := by
  refine (createVm_cleans_up_iff smoothCalls idleHost ⟨0, some ([], some plainVm)⟩ "r-1" [] plainVm rfl rfl
    ?_ .normal rfl ⟨"r-1", none⟩ rfl).2 ⟨rfl, ⟨rfl, nofun, rfl⟩, fun _ imageId _ => ?_⟩
  · simp [PlacementManager.Counts, idleHost]
  · simp [Abandons, TouchRaises, setGuestinfo, smoothCalls]

def unknownDatastore : Fault :=
  ⟨.datastoreNotFound, "datastore-1", "DatastoreNotFoundException"⟩

def withDisk : Ended × Handler := reserveAndCreate smoothCalls [⟨"disk-1", 10, none, none⟩]

def withoutDatastore : Ended × Handler :=
  reserveAndCreate { smoothCalls with datastoreName := .error unknownDatastore } []

def whileRebooting : Ended × Handler := reserveAndCreate { smoothCalls with rebootRequired := .ok true } []

/-- The entry of the disks stays; a machine whose datastore has no name any more stays, though the request fails; and so
does the reservation when the agent is about to reboot. -/
theorem createVm_leaves_behind :
    (withDisk.1.isOk = true ∧ ¬ CleanedUp idleHost "r-1" plainVm withDisk) ∧
    (withoutDatastore.1 = ⟨.ok ⟨.systemError, some "datastore-1"⟩, true, []⟩ ∧
      ¬ CleanedUp idleHost "r-1" plainVm withoutDatastore) ∧
    whileRebooting.1 = ⟨.ok ⟨.systemError, some "Agent rebooting"⟩, false, []⟩ ∧
      ¬ CleanedUp idleHost "r-1" plainVm whileRebooting := by
  refine ⟨⟨rfl, fun hclean => ?_⟩, ⟨rfl, fun hclean => ?_⟩, rfl, fun hclean => ?_⟩
  · exact hclean.uncounted (.inr nofun)
  · rcases hclean.settled rfl with hok | hdeleted
    · cases hok
    · cases hdeleted
  · exact hclean.uncounted (.inl nofun)

end Photon.Agent.VmCreation
