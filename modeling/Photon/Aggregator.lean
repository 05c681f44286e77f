import Mathlib.Data.List.Dedup
import Photon.Outstanding
import Photon.Runs
import Photon.XenonTask
/-!
# Aggregator — services that wait for their children

`ImageReplicatorService`, `ImageCleanerService` and `ImageSeederService` start a child task for each datastore and then
poll: a delayed query counts the children that have finished, another those that have failed or been cancelled, and the
counts come back to the service in patches it sends itself.  The replicator and the cleaner ask for one count at a time
and the answer to one brings on the query for the other; the seeder asks for both at once.  All that is on its way —
timers, queries and patches — is in memory only, and a restart starts from the document.
-/
namespace Photon.Housekeeper.Aggregator

open Outstanding (answered)
open Xenon (TaskStage)

inductive Service where
  | imageReplicator
  | imageCleaner
  | imageSeeder
  deriving DecidableEq

/-- The sub-stages.  `prepare` is `GET_REFERENCE_DATASTORE_INFO` of the cleaner and `UPDATE_DATASTORE_COUNTS` of the
seeder, and the replicator has no such; `trigger` is `TRIGGER_COPIES` or `TRIGGER_DELETES`. -/
inductive SubStage where
  | prepare
  | trigger
  | awaitCompletion
  deriving DecidableEq

def SubStage.ordinal : SubStage → Nat
  | .prepare => 0
  | .trigger => 1
  | .awaitCompletion => 2

inductive Failure where
  | counts (finished failedOrCancelled : Nat)
  | countQuery
  | childPost
  | preparation
  | datastoreQuery
  | noImageDatastore
  deriving DecidableEq

inductive Child where
  | posted
  | rejected
  | created
  | started
  | finished
  | failed
  | cancelled
  deriving DecidableEq

def Child.terminal : Child → Bool
  | .finished | .failed | .cancelled => true
  | _ => false

def Child.mayBecome : Child → Child → Bool
  | .posted, .created | .posted, .rejected => true
  | .created, .started => true
  | .created, next | .started, next => next.terminal
  | _, _ => false

inductive Count where
  | finished
  | failedOrCancelled
  deriving DecidableEq

def Count.counts : Count → Child → Bool
  | .finished, child => child == .finished
  | .failedOrCancelled, child => child == .failed || child == .cancelled

def Count.of (count : Count) (children : List Child) : Nat := children.countP count.counts

/-- The document, and a patch to it.  `total` is the number of children asked for: `dataStoreCount` or
`triggeredCopies`. -/
structure State where
  stage : TaskStage
  subStage : Option SubStage
  failure : Option Failure
  total : Option Nat
  finished : Option Nat
  failedOrCancelled : Option Nat
  deriving DecidableEq

def State.get (state : State) : Count → Option Nat
  | .finished => state.finished
  | .failedOrCancelled => state.failedOrCancelled

def State.set (state : State) (n : Nat) : Count → State
  | .finished => { state with finished := some n }
  | .failedOrCancelled => { state with failedOrCancelled := some n }

inductive Op where
  /-- what is read and written before the children are started -/
  | prepare
  | datastores
  | timer (ask : List Count)
  /-- the queries for the counts that have not been answered, with the patch their answers go to -/
  | query (ask : List Count) (patch : State) (failed : Bool)
  | patch (state : State)
  deriving DecidableEq

structure Config where
  service : Service
  isSelfProgressionDisabled : Bool
  sourceImageDatastore : String

structure System where
  doc : State
  pending : List Op
  children : List Child
  deriving DecidableEq

def buildPatch (stage : TaskStage) (subStage : Option SubStage) (failure : Option Failure) : State :=
  ⟨stage, subStage, failure, none, none, none⟩

def failTask (failure : Failure) : Op := .patch (buildPatch .failed none (some failure))

def firstSubStage : Service → SubStage
  | .imageReplicator => .trigger
  | .imageCleaner | .imageSeeder => .prepare

def validateState (service : Service) (current : State) : Bool :=
  match current.stage with
  | .created => false
  | .started =>
    match current.subStage with
    | none => false
    | some .awaitCompletion => service == .imageSeeder || current.total.isSome
    | some _ => true
  | _ => current.subStage.isNone

def movesBack : Option SubStage → Option SubStage → Bool
  | some current, some patch => patch.ordinal < current.ordinal
  | _, _ => false

def validatePatch (current patch : State) : Bool :=
  current.stage.mayMove patch.stage && !movesBack current.subStage patch.subStage

def applyPatch (current patch : State) : State where
  stage := patch.stage
  subStage := patch.subStage
  failure := patch.failure
  total := patch.total.or current.total
  finished := patch.finished.or current.finished
  failedOrCancelled := patch.failedOrCancelled.or current.failedOrCancelled

/-- The next poll, if the counts known do not decide the outcome.  The replicator and the cleaner go by which count the
patch brings. -/
def nextPoll (service : Service) (current patch : State) : List Op :=
  match service with
  | .imageSeeder => [.timer [.finished, .failedOrCancelled]]
  | _ =>
    let isFirstCheck := current.finished.isNone && current.failedOrCancelled.isNone
    (if isFirstCheck || patch.finished.isSome then [.timer [.failedOrCancelled]] else []) ++
      if patch.failedOrCancelled.isSome then [.timer [.finished]] else []

def processAwaitCompletion (service : Service) (current patch : State) : List Op :=
  match current.finished with
  | none => nextPoll service current patch
  | some finished =>
    match current.total with
    | none => []
    | some total =>
      if total = finished then [.patch (buildPatch .finished none none)]
      else
        match current.failedOrCancelled with
        | none => nextPoll service current patch
        | some failedOrCancelled =>
          if total = finished + failedOrCancelled then [failTask (.counts finished failedOrCancelled)]
          else nextPoll service current patch

def handleStartedStage (service : Service) (current patch : State) : List Op :=
  match current.subStage with
  | none => []
  | some .prepare => [.prepare]
  | some .trigger => [.datastores]
  | some .awaitCompletion => processAwaitCompletion service current patch

def handlePatch (service : Service) (current patch : State) : State × List Op :=
  if validatePatch current patch then
    let next := applyPatch current patch
    if validateState service next then
      (next, if next.stage = .started then handleStartedStage service next patch else [])
    else (current, [])
  else (current, [])

def clearCounts (state : State) : State := { state with finished := none, failedOrCancelled := none }

/-- The document a start goes on with.  Only the cleaner clears the counts where it was waiting, to avoid getting
stuck. -/
def restarted (config : Config) (state : State) : State :=
  if config.service = .imageCleaner ∧ state.stage = .started ∧
    state.subStage = some .awaitCompletion then clearCounts state
  else state

def handleStart (config : Config) (state : State) : State × List Op :=
  let state := restarted config (if state.stage = .created then
    { state with stage := .started, subStage := some (firstSubStage config.service) } else state)
  if validateState config.service state then
    (state, if config.isSelfProgressionDisabled then [] else [.patch (buildPatch state.stage state.subStage none)])
  else (state, [])

def awaitPatch (total : Nat) : State := { buildPatch .started (some .awaitCompletion) none with total := some total }

/-- The children that are asked for and what the service goes on with, once it has the datastores.  The replicator and
the seeder collect their ids in a set, the cleaner the documents. -/
def triggerChildren (config : Config) : Option (List String) → Nat × List Op
  | none => (0, [failTask .datastoreQuery])
  | some ids =>
    match config.service with
    | .imageReplicator =>
      (ids.dedup.length, if config.isSelfProgressionDisabled then [] else [.patch (awaitPatch ids.dedup.length)])
    | .imageCleaner => (ids.length, if config.isSelfProgressionDisabled then [] else [.patch (awaitPatch ids.length)])
    | .imageSeeder =>
      if ids.dedup.length = 0 then (0, [failTask .noImageDatastore])
      else if ids.dedup.length = 1 ∧ config.sourceImageDatastore ∉ ids then (0, [failTask .noImageDatastore])
      else (ids.dedup.length, [.patch (awaitPatch ids.dedup.length)])

/-- What becomes of the preparation: the next sub-stage, a failure, or nothing if its completion throws. -/
inductive Prepared where
  | done
  | failed
  | thrown
  deriving DecidableEq

def afterPreparation (config : Config) : Prepared → List Op
  | .done => if config.isSelfProgressionDisabled then [] else [.patch (buildPatch .started (some .trigger) none)]
  | .failed => [failTask .preparation]
  | .thrown => []

def answerCount (children : List Child) (ask : List Count) (patch : State) (failed : Bool) (count : Count) (ok : Bool) :
    List Op :=
  let patch := if ok then patch.set (count.of children) count else patch
  let failed := failed || !ok
  if (ask.erase count).isEmpty then [if failed then failTask .countQuery else .patch patch]
  else [.query (ask.erase count) patch failed]

inductive Event where
  | child (i : Nat) (next : Child)
  | prepared (k : Nat) (outcome : Prepared)
  | datastores (k : Nat) (ids : Option (List String))
  | fire (k : Nat)
  | answer (k : Nat) (count : Count) (ok : Bool)
  | deliver (k : Nat)
  | restart
  deriving DecidableEq

def System.replace (s : System) (k : Nat) (new : List Op) : System := { s with pending := answered s.pending k new }

def System.step (config : Config) (s : System) : Event → System
  | .child i next =>
    match s.children[i]? with
    | none => s
    | some child =>
      if child.mayBecome next then
        { s with
          children := s.children.set i next
          pending := s.pending ++ if next = .rejected then [failTask .childPost] else [] }
      else s
  | .prepared k outcome =>
    match s.pending[k]? with
    | some .prepare => s.replace k (afterPreparation config outcome)
    | _ => s
  | .datastores k ids =>
    match s.pending[k]? with
    | some .datastores =>
      let triggered := triggerChildren config ids
      { s.replace k triggered.2 with children := s.children ++ List.replicate triggered.1 .posted }
    | _ => s
  | .fire k =>
    match s.pending[k]? with
    | some (.timer ask) => s.replace k [.query ask (buildPatch .started (some .awaitCompletion) none) false]
    | _ => s
  | .answer k count ok =>
    match s.pending[k]? with
    | some (.query ask patch failed) =>
      if count ∈ ask then s.replace k (answerCount s.children ask patch failed count ok) else s
    | _ => s
  | .deliver k =>
    match s.pending[k]? with
    | some (.patch patch) =>
      let handled := handlePatch config.service s.doc patch
      { s.replace k handled.2 with doc := handled.1 }
    | _ => s
  | .restart =>
    let started := handleStart config s.doc
    { s with doc := started.1, pending := started.2 }

def System.start (config : Config) : System :=
  let started := handleStart config (buildPatch .created none none)
  ⟨started.1, started.2, []⟩

end Photon.Housekeeper.Aggregator
