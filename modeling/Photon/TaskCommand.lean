import Photon.LockBackend
import Photon.Programs
/-!
# TaskCommand — the run of a task and of its steps

`BaseCommand.run` is the frame of every command: it marks the command as started, executes it and marks it as done; an
exception on the way has it marked as failed, and at the end it cleans up.  `TaskCommand` and `StepCommand` fill the
frame, and the execution of a task is the run of its steps, one after the other.

Every call a command makes ends as the `World` says, normally or with any exception.  A call to the lock service may get
lost, may be executed and not be answered, or is answered; other tasks make their calls in between.  The calls of a run
are listed with how they ended, and the steps that were run with the state they were left in.
-/
namespace Photon.ApiFrontend.Tasks

open CloudStore.EntityLock (Characters Response State)
open EntityLock (TaskIds TaskLockError post taskLockResult)
open Keyed (LinkedMap)
open Programs (Prog seq skip raise update cond forEach tryCatch tryFinally)

inductive StepState
  | queued
  | started
  | error
  | completed
  deriving DecidableEq

abbrev StepId := Nat

structure StepEntity where
  state : StepState
  disabled : Bool
  deriving DecidableEq

inductive Throwable
  | taskNotFound
  | taskNotCompleted (step : StepId)
  | concurrentTask
  | xenonRuntime
  | other (name : String)
  deriving DecidableEq

inductive Call
  | markTaskAsStarted
  | setTaskLock (entityId : String)
  | createCommand (step : StepId)
  | markStepAsStarted (step : StepId)
  | executeStep (step : StepId)
  | markStepAsDone (step : StepId)
  | markStepAsFailed (step : StepId)
  /-- What some step commands do in `markAsFailed` after that of `StepCommand`. -/
  | afterStepFailed (step : StepId)
  | cleanupStep (step : StepId)
  | clearTaskLocks
  | markTaskAsDone
  | markTaskAsFailed
  | closeHostClient
  deriving DecidableEq

/-- The call is made by the `cleanup` of a command, which lets no exception through; `clearTaskLocks` has none to let
through. -/
def Call.isCleanup : Call → Bool
  | .cleanupStep _ => true
  | .closeHostClient => true
  | _ => false

inductive Delivery
  | lost
  | unanswered
  | answered
  deriving DecidableEq

variable {ι : Type} {chars : Characters}

/-- How calls end, by their numbers, and what other tasks post to the lock service before each of the calls to it. -/
structure World (ids : TaskIds chars ι) (task : ι) where
  outcome : Nat → Call → Option Throwable
  delivery : Nat → Delivery
  others : Nat → List (ι × String × Bool)
  others_ne : ∀ k, ∀ other ∈ others k, other.1 ≠ task

/-- The task that is run: `getSteps` and `getToBeLockedEntityIds`. -/
structure TaskEntity where
  steps : List StepId
  toBeLockedEntityIds : List String

structure Run where
  entities : StepId → StepEntity
  lockedEntityIds : List String
  locks : LinkedMap String State
  ticks : Nat
  calls : List (Call × Option Throwable)
  ran : List (StepId × StepState)

def Run.start (entities : StepId → StepEntity) (lockedEntityIds : List String) (locks : LinkedMap String State) : Run :=
  ⟨entities, lockedEntityIds, locks, 0, [], []⟩

namespace Run

def logged (call : Call) (outcome : Option Throwable) (s : Run) : Run :=
  { s with ticks := s.ticks + 1, calls := s.calls ++ [(call, outcome)] }

def setState (step : StepId) (state : StepState) (s : Run) : Run :=
  { s with entities := Function.update s.entities step { s.entities step with state := state } }

def record (step : StepId) (s : Run) : Run := { s with ran := s.ran ++ [(step, (s.entities step).state)] }

end Run

abbrev Cmd := Prog Run Throwable

/-! ## The frame -/

structure Command where
  markAsStarted : Cmd
  execute : Cmd
  markAsDone : Cmd
  markAsFailed : Throwable → Cmd
  cleanup : Cmd

def Command.attempt (command : Command) : Cmd := seq command.markAsStarted (seq command.execute command.markAsDone)

def Command.run (command : Command) : Cmd :=
  tryFinally
    (tryCatch command.attempt fun t =>
      tryCatch (command.markAsFailed t) fun
        | .taskNotFound => skip
        | e => raise e)
    (tryCatch command.cleanup fun _ => skip)

section

variable {ids : TaskIds chars ι} {task : ι} (world : World ids task)

def call (c : Call) (s : Run) : Option Throwable × Run :=
    (world.outcome s.ticks c, s.logged c (world.outcome s.ticks c))

/-! ## The locks -/

def othersPost (s : Run) : LinkedMap String State :=
  (world.others s.ticks).foldl (fun locks other => (post ids locks other.1 other.2.1 other.2.2).1) s.locks

/-- A POST to the lock service; there may be no response to it. -/
def postLock (entityId : String) (isAvailable : Bool) (s : Run) : Option Response × Run :=
  let posted := post ids (othersPost world s) task entityId isAvailable
  match world.delivery s.ticks with
  | .lost => (none, { s with ticks := s.ticks + 1, locks := othersPost world s })
  | .unanswered => (none, { s with ticks := s.ticks + 1, locks := posted.1 })
  | .answered => (some posted.2, { s with ticks := s.ticks + 1, locks := posted.1 })

/-- What `setTaskLock` throws, if anything. -/
def lockThrowable : Option Response → Option Throwable
  | none => some .xenonRuntime
  | some response =>
    match taskLockResult response with
    | .ok () => none
    | .error .concurrentTask => some .concurrentTask
    | .error (.storeError _) => some .xenonRuntime

def setTaskLock (entityId : String) (s : Run) : Option Throwable × Run :=
  let posted := postLock world entityId false s
  match lockThrowable posted.1 with
  | some t => (some t, posted.2.logged (.setTaskLock entityId) (some t))
  | none =>
    (none, { posted.2.logged (.setTaskLock entityId) none with
      lockedEntityIds := posted.2.lockedEntityIds ++ [entityId] })

def releaseLocks : List String → Run → List String × Run
  | [], s => ([], s)
  | lockedEntityId :: rest, s =>
    let released := postLock world lockedEntityId true s
    let result := releaseLocks rest released.2
    if released.1.any Response.accepted then result else (lockedEntityId :: result.1, result.2)

def clearTaskLocks (s : Run) : Option Throwable × Run :=
  let released := releaseLocks world s.lockedEntityIds s
  (none, { released.2.logged .clearTaskLocks none with lockedEntityIds := released.1 })

/-! ## The steps -/

/-- `StepCommand`, with the marks of `TaskDcpBackend`: the entity changes first, then the document is patched. -/
def stepCommand (step : StepId) : Command where
  markAsStarted := seq (update (Run.setState step .started)) (call world (.markStepAsStarted step))
  execute := call world (.executeStep step)
  markAsDone := seq (update (Run.setState step .completed)) (call world (.markStepAsDone step))
  markAsFailed := fun _ =>
    seq (update (Run.setState step .error))
      (seq (call world (.markStepAsFailed step)) (call world (.afterStepFailed step)))
  cleanup := call world (.cleanupStep step)

def runStep (step : StepId) : Cmd :=
  cond (fun s => decide ((s.entities step).state ≠ .queued) || (s.entities step).disabled) skip
    (seq (call world (.createCommand step))
      (seq (tryFinally (stepCommand world step).run (update (Run.record step)))
        (cond (fun s => decide ((s.entities step).state ≠ .completed)) (raise (.taskNotCompleted step)) skip)))

/-! ## The task -/

def taskCommand (entity : TaskEntity) : Command where
  markAsStarted := seq (call world .markTaskAsStarted) (forEach (setTaskLock world) entity.toBeLockedEntityIds)
  execute := forEach (runStep world) entity.steps
  markAsDone :=
    seq (clearTaskLocks world)
      (cond (fun s => entity.steps.all fun step => decide ((s.entities step).state = .completed))
        (call world .markTaskAsDone) skip)
  markAsFailed := fun _ => seq (clearTaskLocks world) (call world .markTaskAsFailed)
  cleanup := seq (clearTaskLocks world) (call world .closeHostClient)

end
end Photon.ApiFrontend.Tasks
