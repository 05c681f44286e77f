import Photon.HostToHostCopy
/-!
# ImageCopyTask — the document of a copy of an image to a datastore

`ImageCopyService` copies an image to a datastore through a host that has both datastores.  This is what a patch makes
of the document of such a task, and what the service does then; the scheduler of the copies lives on these patches.
-/
namespace Photon.Housekeeper
namespace ImageCopy

open HostToHostCopy (Request)
open Xenon (TaskStage)

inductive SubStage where
  | retrieveHost
  | copyImage
  deriving DecidableEq

def SubStage.ordinal : SubStage → Nat
  | .retrieveHost => 0
  | .copyImage => 1

structure State where
  stage : TaskStage
  subStage : Option SubStage
  host : Option String
  deriving DecidableEq

inductive Op where
  | queryHost
  | agentCall (host : Option String)
  | patch (state : State)
  deriving DecidableEq

def buildPatch (stage : TaskStage) (subStage : Option SubStage) : State := ⟨stage, subStage, none⟩

def sendStageProgressPatch (request : Request) (stage : TaskStage) (subStage : Option SubStage) : List Op :=
  if request.isSelfProgressionDisabled then [] else [.patch (buildPatch stage subStage)]

def movesBack : Option SubStage → Option SubStage → Bool
  | some current, some patch => patch.ordinal < current.ordinal
  | _, _ => false

/-- A patch of the scheduler is taken in stage `CREATED` only. -/
def validateStatePatch (current patch : State) (fromScheduler : Bool) : Bool :=
  !(current.stage != .created && fromScheduler) && current.stage.mayMove patch.stage &&
    !movesBack current.subStage patch.subStage

def validateState (current : State) : Bool :=
  match current.stage with
  | .started =>
    match current.subStage with
    | none => false
    | some .copyImage => current.host.isSome
    | some .retrieveHost => true
  | _ => current.subStage.isNone

def applyPatch (current patch : State) : State := ⟨patch.stage, patch.subStage, patch.host.or current.host⟩

def retrieveHost (request : Request) : List Op :=
  if request.sourceDatastore = request.destinationDatastore then sendStageProgressPatch request .finished none
    else [.queryHost]

def copyImage (request : Request) (current : State) : List Op :=
  if request.sourceDatastore = request.destinationDatastore then sendStageProgressPatch request .finished none
  else [.agentCall current.host]

def handleStartedStage (request : Request) (current : State) : List Op :=
  match current.subStage with
  | none => []
  | some .retrieveHost => retrieveHost request
  | some .copyImage => copyImage request current

def handlePatch (request : Request) (current patch : State) (fromScheduler : Bool) : State × List Op :=
  if validateStatePatch current patch fromScheduler then
    let next := applyPatch current patch
    if validateState next then (next, if next.stage = .started then handleStartedStage request next else [])
      else (current, [])
  else (current, [])

end ImageCopy
end Photon.Housekeeper
