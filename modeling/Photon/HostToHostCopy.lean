import Photon.Outstanding
import Photon.XenonTask
/-!
# HostToHostCopy — the copy of an image to an image datastore

`ImageHostToHostCopyService` looks for the document that maps the image to the destination datastore, finds a host for
each of the two datastores, has an agent copy the image, and stores the mapping document.  Every stage is entered
through a patch of the task to itself, and leaves a call that is on its way; the answer to the call decides what is sent
next.  The document is posted and the counts are adjusted while the task already moves to `FINISHED`.
-/
namespace Photon.Housekeeper.HostToHostCopy

open Outstanding (answered)
open Xenon (TaskStage)

inductive SubStage where
  | checkImageToImageDatastoreMappingDoc
  | retrieveHosts
  | transferImage
  | updateImageReplicationDocument
  deriving DecidableEq

def SubStage.ordinal : SubStage → Nat
  | .checkImageToImageDatastoreMappingDoc => 0
  | .retrieveHosts => 1
  | .transferImage => 2
  | .updateImageReplicationDocument => 3

structure ServerAddress where
  host : String
  port : Nat
  deriving DecidableEq

structure Request where
  sourceDatastore : String
  destinationDatastore : String
  isSelfProgressionDisabled : Bool
  deriving DecidableEq

structure State where
  stage : TaskStage
  subStage : Option SubStage
  host : Option String
  destinationHost : Option ServerAddress
  imageExistsFlag : Option Bool
  deriving DecidableEq

inductive CountKind where
  | adjustReplicationCount
  | adjustSeedingCount
  | adjustSeedingAndReplicationCount
  deriving DecidableEq

inductive Call where
  | copyImage (host : String)
  | transferImage (host : String) (destinationHost : Option ServerAddress)
  deriving DecidableEq

/-- What comes of a call to an agent: the result codes, a code that is not known, and a call that fails. -/
inductive AgentAnswer where
  | ok
  | destinationAlreadyExist
  | imageNotFound
  | transferInProgress
  | systemError
  | unknown
  | failed
  deriving DecidableEq

inductive PostOutcome where
  | created
  | conflict
  | failed
  deriving DecidableEq

inductive Op where
  | getMapping
  | queryHosts
  | agentCall (call : Call)
  | getImage (imageExistsFlag : Bool)
  | postMapping (imageExistsFlag : Bool)
  | createReplicator
  | adjustCount (kind : CountKind)
  | patch (state : State)
  deriving DecidableEq

structure Task where
  request : Request
  doc : State
  pending : List Op
  calls : List Call
  answers : List AgentAnswer
  deriving DecidableEq

def buildPatch (stage : TaskStage) (subStage : Option SubStage) : State := ⟨stage, subStage, none, none, none⟩

def failTask : Op := .patch (buildPatch .failed none)

def sendStageProgressPatch (request : Request) (stage : TaskStage) (subStage : Option SubStage) : List Op :=
  if request.isSelfProgressionDisabled then [] else [.patch (buildPatch stage subStage)]

def movesBack : Option SubStage → Option SubStage → Bool
  | some current, some patch => patch.ordinal < current.ordinal
  | _, _ => false

def validateStatePatch (current patch : State) (fromScheduler : Bool) : Bool :=
  !(current.stage != .created && fromScheduler) && current.stage.mayMove patch.stage &&
    !movesBack current.subStage patch.subStage

def validateState (current : State) : Bool :=
  match current.stage with
  | .started =>
    match current.subStage with
    | none => false
    | some .transferImage => current.host.isSome
    | some _ => true
  | _ => current.subStage.isNone

def applyPatch (current patch : State) : State where
  stage := patch.stage
  subStage := patch.subStage
  host := patch.host.or current.host
  destinationHost := patch.destinationHost.or current.destinationHost
  imageExistsFlag := patch.imageExistsFlag.or current.imageExistsFlag

/-- `String.equals` of an address, which is never a string. -/
def equalsAddress (_ : String) (_ : Option ServerAddress) : Bool := false

def copyImageHostToHost (request : Request) (current : State) : List Op :=
  if request.sourceDatastore = request.destinationDatastore then sendStageProgressPatch request .finished none
  else
    match current.host with
    | none => []
    | some host =>
      if equalsAddress host current.destinationHost then [.agentCall (.copyImage host)]
      else [.agentCall (.transferImage host current.destinationHost)]

def handleStartedStage (request : Request) (current : State) : List Op :=
  match current.subStage with
  | none => []
  | some .checkImageToImageDatastoreMappingDoc => [.getMapping]
  | some .retrieveHosts => [.queryHosts]
  | some .transferImage => copyImageHostToHost request current
  | some .updateImageReplicationDocument => [.getImage (current.imageExistsFlag.getD false)]

def handlePatch (request : Request) (current patch : State) (fromScheduler : Bool) : State × List Op :=
  if validateStatePatch current patch fromScheduler then
    let next := applyPatch current patch
    if validateState next then (next, if next.stage = .started then handleStartedStage request next else [])
      else (current, [])
  else (current, [])

/-- The completion of `checkImageToImageDatastoreMappingDocument`. -/
def mappingAnswered (request : Request) (statusCode : Nat) : List Op :=
  if statusCode ≠ 404 then sendStageProgressPatch request .finished none
  else sendStageProgressPatch request .started (some .retrieveHosts)

def selectRandomItem {α : Type} (items : List α) (i : Nat) : Option α := items[i % items.length]?

/-- The completion of `getHostsFromDataStores`: the hosts of the two datastores, or a query that has failed. -/
def hostsAnswered (request : Request) (source : Option (List String)) (destination : Option (List ServerAddress))
    (i j : Nat) : List Op :=
  match source, destination with
  | some hosts, some addresses =>
    match selectRandomItem hosts i with
    | none => [failTask]
    | some host =>
      match selectRandomItem addresses j with
      | none => [failTask]
      | some destinationHost =>
        if request.isSelfProgressionDisabled then []
        else [.patch ⟨.started, some .transferImage, some host, some destinationHost, none⟩]
  | _, _ => [failTask]

/-- The callback of both calls.  A code that is not known throws an `Error`, which is not caught. -/
def agentAnswered (request : Request) : AgentAnswer → List Op
  | .ok => sendStageProgressPatch request .started (some .updateImageReplicationDocument)
  | .destinationAlreadyExist => [.patch ⟨.started, some .updateImageReplicationDocument, none, none, some true⟩]
  | .imageNotFound | .transferInProgress | .systemError | .failed => [failTask]
  | .unknown => []

/-- The completion of the read of the image.  A failure does not return: the body is read all the same, if there is
one. -/
def imageAnswered (request : Request) (imageExistsFlag : Bool) (failed : Bool) (isEagerCopy : Option Bool) : List Op :=
  (if failed then [failTask] else []) ++
    match isEagerCopy with
    | none => []
    | some eager => .postMapping imageExistsFlag ::
        if eager then [.createReplicator] else sendStageProgressPatch request .finished none

def mappingPosted (imageExistsFlag : Bool) : PostOutcome → List Op
  | .created => [.adjustCount (if imageExistsFlag then .adjustSeedingCount else .adjustSeedingAndReplicationCount)]
  | .conflict => []
  | .failed => [failTask]

def replicatorCreated (request : Request) (ok : Bool) : List Op :=
  if ok then sendStageProgressPatch request .finished none else [failTask]

inductive Event where
  | schedulerPatch
  | mapping (k : Nat) (statusCode : Nat)
  | hosts (k : Nat) (source : Option (List String)) (destination : Option (List ServerAddress)) (i j : Nat)
  | agent (k : Nat) (answer : AgentAnswer)
  | image (k : Nat) (failed : Bool) (isEagerCopy : Option Bool)
  | posted (k : Nat) (outcome : PostOutcome)
  | replicator (k : Nat) (ok : Bool)
  | adjusted (k : Nat)
  | deliver (k : Nat)
  deriving DecidableEq

def Op.call? : Op → Option Call
  | .agentCall call => some call
  | _ => none

/-- What follows an answer is sent; calls to agents are kept. -/
def Task.answer (task : Task) (k : Nat) (new : List Op) : Task :=
  { task with pending := answered task.pending k new, calls := task.calls ++ new.filterMap Op.call? }

def Task.step (task : Task) : Event → Task
  | .schedulerPatch =>
    let handled := handlePatch task.request task.doc
      (buildPatch .started (some .checkImageToImageDatastoreMappingDoc)) true
    { task with
      doc := handled.1
      pending := task.pending ++ handled.2
      calls := task.calls ++ handled.2.filterMap Op.call? }
  | .mapping k statusCode =>
    match task.pending[k]? with
    | some .getMapping => task.answer k (mappingAnswered task.request statusCode)
    | _ => task
  | .hosts k source destination i j =>
    match task.pending[k]? with
    | some .queryHosts => task.answer k (hostsAnswered task.request source destination i j)
    | _ => task
  | .agent k answer =>
    match task.pending[k]? with
    | some (.agentCall _) =>
      { task.answer k (agentAnswered task.request answer) with answers := answer :: task.answers }
    | _ => task
  | .image k failed isEagerCopy =>
    match task.pending[k]? with
    | some (.getImage imageExistsFlag) => task.answer k (imageAnswered task.request imageExistsFlag failed isEagerCopy)
    | _ => task
  | .posted k outcome =>
    match task.pending[k]? with
    | some (.postMapping imageExistsFlag) => task.answer k (mappingPosted imageExistsFlag outcome)
    | _ => task
  | .replicator k ok =>
    match task.pending[k]? with
    | some .createReplicator => task.answer k (replicatorCreated task.request ok)
    | _ => task
  | .adjusted k =>
    match task.pending[k]? with
    | some (.adjustCount _) => task.answer k []
    | _ => task
  | .deliver k =>
    match task.pending[k]? with
    | some (.patch patch) =>
      let handled := handlePatch task.request task.doc patch false
      { task.answer k handled.2 with doc := handled.1 }
    | _ => task

/-- A new task.  The patch with which `handleStart` repeats `CREATED` changes nothing. -/
def Task.start (request : Request) : Task := ⟨request, ⟨.created, none, none, none, some false⟩, [], [], []⟩

end Photon.Housekeeper.HostToHostCopy
