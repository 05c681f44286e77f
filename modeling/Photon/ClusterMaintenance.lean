import Photon.Outstanding
import Photon.Runs
import Photon.XenonTask
/-!
# ClusterMaintenance — the maintenance task of a cluster

`ClusterMaintenanceTaskService`: a patch to `STARTED` starts a run unless one is under way; a run goes through its child
tasks and ends with a patch of its own.  A patch to `FAILED` is rewritten to `STARTED` as long as there are retries, and
a new run is scheduled.

The runs are kept as a list, each known by the answer that it waits for: that there is never more than one is proved,
not built in.
-/
namespace Photon.ClusterManager

open Xenon (TaskStage)
open Outstanding (answered)

/-! ## The document -/

inductive ClusterState
  | creating | resizing | ready | pendingDelete | error
  deriving DecidableEq

namespace Maintenance

/-- `ClusterMaintenanceTaskService.State`; `failure` is the message of the failure. -/
structure Document where
  stage : TaskStage
  failure : Option String
  errors : Option (List String)
  batchExpansionSize : Nat
  maxRetryCount : Nat
  retryCount : Nat
  retryIntervalSecond : Nat
  deriving DecidableEq

structure Patch where
  stage : TaskStage
  failure : Option String
  errors : Option (List String) := none
  retryCount : Option Nat := none
  deriving DecidableEq

/-- `PatchUtils.patchState`: what is not null is copied. -/
def Document.patchState (current : Document) (patch : Patch) : Document :=
  { current with
    stage := patch.stage
    failure := patch.failure
    errors := patch.errors <|> current.errors
    retryCount := patch.retryCount.getD current.retryCount }

inductive Operation
  | run
  | skip
  | retry (delaySeconds : Nat)
  deriving DecidableEq

/-- `validatePatchState`: a patch to `STARTED` is always taken. -/
def validatePatchState (current : Document) (patch : Patch) : Bool :=
  patch.stage == .started || (patch.stage != .created && current.stage.mayMove patch.stage)

/-- `processPatchState`: the new document, what to do, and the state that the cluster is patched to. -/
def processPatchState (current : Document) (patch : Patch) : Document × Operation × Option ClusterState :=
  if current.stage = .started then
    match patch.stage with
    | .finished => (current.patchState { patch with retryCount := some 0, errors := some [] }, .skip, none)
    | .failed =>
      let errors := current.errors.getD [] ++ [patch.failure.getD "Missing failure message"]
      if current.retryCount < current.maxRetryCount then
        (current.patchState
            { patch with errors := some errors, retryCount := some (current.retryCount + 1), stage := .started },
          .retry (current.retryIntervalSecond * (current.retryCount + 1)), none)
      else (current.patchState { patch with errors := some errors }, .skip, some .error)
    | .cancelled => (current.patchState patch, .skip, some .error)
    | .created => (current.patchState patch, .skip, none)
    | .started => (current.patchState patch, .skip, none)
  else if patch.stage = .started then (current.patchState patch, .run, none)
  else (current.patchState patch, .skip, none)

/-! ## Runs -/

inductive Child
  | inspection | collection | expand | delete
  deriving DecidableEq

def Child.service : Child → String
  | .inspection => "GarbageInspectionTaskService"
  | .collection => "GarbageCollectionTaskService"
  | .expand => "ClusterExpandTaskService"
  | .delete => "ClusterDeleteTaskService"

inductive Run
  | scheduled
  | gettingCluster
  | waiting (child : Child)
  | updatingCluster
  /-- The run is over; its patch, or the deletion of the service, is on its way. -/
  | selfPatch (patch : Patch)
  | deletingService
  deriving DecidableEq

def Run.isActive : Run → Bool
  | .selfPatch _ => false
  | .deletingService => false
  | _ => true

inductive Answer
  | timer
  | cluster (state : ClusterState)
  /-- The status is "not found" or a timeout. -/
  | clusterNotFound
  | clusterFailed (message : String)
  | childFinished
  | childCancelled (link : String)
  | childFailed (message link : String)
  | childUnreachable (message : String)
  | done
  deriving DecidableEq

def buildPatch (stage : TaskStage) (failure : Option String) : Patch := { stage := stage, failure := failure }

def failTask (message : String) : Run := .selfPatch (buildPatch .failed (some message))

/-- `startMaintenance`, once it has the cluster. -/
def onCluster : ClusterState → Run
  | .creating => .waiting .inspection
  | .resizing => .waiting .inspection
  | .ready => .waiting .inspection
  | .pendingDelete => .waiting .delete
  | .error => .selfPatch (buildPatch .finished none)

def onFinished : Child → Run
  | .inspection => .waiting .collection
  | .collection => .waiting .expand
  | .expand => .updatingCluster
  | .delete => .selfPatch (buildPatch .finished none)

def Run.next : Run → Answer → Option Run
  | .scheduled, .timer => some .gettingCluster
  | .gettingCluster, .cluster state => some (onCluster state)
  | .gettingCluster, .clusterNotFound => some .deletingService
  | .gettingCluster, .clusterFailed message => some (failTask message)
  | .waiting child, .childFinished => some (onFinished child)
  | .waiting child, .childCancelled link =>
    some (.selfPatch (buildPatch .cancelled (some (child.service ++ " was canceled. " ++ link))))
  | .waiting child, .childFailed message link =>
    some (failTask (child.service ++ " failed with error " ++ message ++ ". " ++ link))
  | .waiting _, .childUnreachable message => some (failTask message)
  | .updatingCluster, .done => some (.selfPatch (buildPatch .finished none))
  | _, _ => none

/-! ## The service -/

structure Service where
  document : Option Document
  runs : List Run
  executed : Nat
  deriving DecidableEq

namespace Service

def start (batchExpansionSize maxRetryCount retryIntervalSecond : Nat) : Service :=
  ⟨some ⟨.created, none, none, batchExpansionSize, maxRetryCount, 0, retryIntervalSecond⟩, [], 0⟩

def proceed (s : Service) (document : Document) : Operation → Service
  | .run => ⟨some document, s.runs ++ [.gettingCluster], 1⟩
  | .retry _ => ⟨some document, s.runs ++ [.scheduled], s.executed⟩
  | .skip => ⟨some document, s.runs, s.executed⟩

/-- `handlePatch`; the patch of a service that is deleted fails. -/
def handlePatch (s : Service) (patch : Patch) : Service :=
  match s.document with
  | none => s
  | some current =>
    if validatePatchState current patch then
      s.proceed (processPatchState current patch).1 (processPatchState current patch).2.1
    else s

def replace (s : Service) (k : Nat) (new : List Run) : Service := { s with runs := answered s.runs k new }

def answer (s : Service) (k : Nat) (a : Answer) : Run → Service
  | .selfPatch patch => if a = .done then (s.replace k []).handlePatch patch else s
  | .deletingService => if a = .done then { s.replace k [] with document := none } else s
  | run =>
    match run.next a with
    | none => s
    | some next => { s.replace k [next] with executed := if run = .scheduled then s.executed + 1 else s.executed }

end Service

inductive Event
  /-- A patch to `STARTED`, from the periodic maintenance or from a resize task. -/
  | trigger
  | answer (k : Nat) (a : Answer)
  deriving DecidableEq

def Service.step (s : Service) : Event → Service
  | .trigger => s.handlePatch (buildPatch .started none)
  | .answer k a =>
    match s.runs[k]? with
    | none => s
    | some run => s.answer k a run

variable {run : Run}

theorem Service.answer_of_isActive (s : Service) (k : Nat) (a : Answer) (h : run.isActive = true) :
    s.answer k a run = match run.next a with
      | none => s
      | some next =>
        { s.replace k [next] with executed := if run = .scheduled then s.executed + 1 else s.executed } := by
  cases run with
  | selfPatch patch | deletingService => cases h
  | scheduled | gettingCluster | waiting child | updatingCluster => rfl

structure Sound (maxRetryCount : Nat) (s : Service) : Prop where
  one : s.runs.countP Run.isActive ≤ 1
  started : ∀ document, s.document = some document → (document.stage = .started ↔ s.runs ≠ [])
  retries : ∀ document, s.document = some document → document.retryCount ≤ maxRetryCount
  executed : s.executed ≤ maxRetryCount + 1
  finished : ∀ document, s.document = some document → document.stage = .finished →
    document.retryCount = 0 ∧ document.errors = some []

/-! ## The invariant -/

/-- A run ends with a patch to a final stage. -/
def Run.EndsFinal (run : Run) : Prop :=
  ∀ patch, run = .selfPatch patch → ∃ stage failure, patch = buildPatch stage failure ∧ stage.isFinal = true

theorem endsFinal_selfPatch {stage : TaskStage} {failure : Option String} (h : stage.isFinal = true) :
    (Run.selfPatch (buildPatch stage failure)).EndsFinal := by
  intro patch heq
  cases heq
  exact ⟨stage, failure, rfl, h⟩

theorem endsFinal_of_ne (h : ∀ patch, run ≠ .selfPatch patch) : run.EndsFinal := fun patch heq => absurd heq (h patch)

theorem endsFinal_onCluster (state : ClusterState) : (onCluster state).EndsFinal := by
  cases state with
  | error => exact endsFinal_selfPatch rfl
  | creating | resizing | ready | pendingDelete => exact endsFinal_of_ne fun _ h => by cases h

theorem endsFinal_onFinished (child : Child) : (onFinished child).EndsFinal := by
  cases child with
  | delete => exact endsFinal_selfPatch rfl
  | inspection | collection | expand => exact endsFinal_of_ne fun _ h => by cases h

theorem endsFinal_of_next {next : Run} {a : Answer} (h : run.next a = some next) : next.EndsFinal := by
  unfold Run.next at h
  split at h
  · cases h
    exact endsFinal_of_ne fun _ h' => by cases h'
  · cases h
    exact endsFinal_onCluster _
  · cases h
    exact endsFinal_of_ne fun _ h' => by cases h'
  · cases h
    exact endsFinal_selfPatch rfl
  · cases h
    exact endsFinal_onFinished _
  · cases h
    exact endsFinal_selfPatch rfl
  · cases h
    exact endsFinal_selfPatch rfl
  · cases h
    exact endsFinal_selfPatch rfl
  · cases h
    exact endsFinal_selfPatch rfl
  · cases h

theorem ne_scheduled_of_next {next : Run} {a : Answer} (h : run.next a = some next) : next ≠ .scheduled := by
  intro heq
  rw [heq] at h
  unfold Run.next at h
  split at h
  · cases h
  · rename_i state
    cases state <;> cases h
  · cases h
  · cases h
  · rename_i child
    cases child <;> cases h
  · cases h
  · cases h
  · cases h
  · cases h
  · cases h

structure Document.Kept (maxRetryCount : Nat) (document : Document) : Prop where
  limit : document.maxRetryCount = maxRetryCount
  retries : document.retryCount ≤ maxRetryCount
  finished : document.stage = .finished → document.retryCount = 0 ∧ document.errors = some []

structure Inv (maxRetryCount : Nat) (s : Service) : Prop where
  gone : s.document = none → s.runs = []
  kept : ∀ document, s.document = some document → document.Kept maxRetryCount
  executed : s.executed ≤ maxRetryCount + 1
  idle : ∀ document, s.document = some document → document.stage ≠ .started → s.runs = []
  busy : ∀ document, s.document = some document → document.stage = .started →
    ∃ run, s.runs = [run] ∧ run.EndsFinal ∧ s.executed + (if run = .scheduled then 1 else 0) ≤ document.retryCount + 1

namespace Inv

variable {maxRetryCount : Nat} {s : Service}

theorem start (batchExpansionSize maxRetryCount retryIntervalSecond : Nat) :
    Inv maxRetryCount (.start batchExpansionSize maxRetryCount retryIntervalSecond) where
  gone h := by cases h
  kept document h := by
    cases h
    exact ⟨rfl, Nat.zero_le _, fun h' => by cases h'⟩
  executed := Nat.zero_le _
  idle document h _ := rfl
  busy document h hstarted := by
    cases h
    cases hstarted

variable {executed : Nat}

theorem of_idle {document : Document} (hkept : document.Kept maxRetryCount) (hexecuted : executed ≤ maxRetryCount + 1)
    (hstage : document.stage ≠ .started) : Inv maxRetryCount ⟨some document, [], executed⟩ where
  gone h := by cases h
  kept d h := by
    cases h
    exact hkept
  executed := hexecuted
  idle d h _ := rfl
  busy d h hstarted := by
    cases h
    exact absurd hstarted hstage

theorem of_busy {document : Document} {run : Run} (hkept : document.Kept maxRetryCount)
    (hstage : document.stage = .started)
    (hfinal : run.EndsFinal) (hexecuted : executed + (if run = .scheduled then 1 else 0) ≤ document.retryCount + 1) :
    Inv maxRetryCount ⟨some document, [run], executed⟩ where
  gone h := by cases h
  kept d h := by
    cases h
    exact hkept
  executed := by
    have := hkept.retries
    show executed ≤ maxRetryCount + 1
    omega
  idle d h hnot := by
    cases h
    exact absurd hstage hnot
  busy d h _ := by
    cases h
    exact ⟨run, rfl, hfinal, hexecuted⟩

theorem trigger (h : Inv maxRetryCount s) : Inv maxRetryCount (s.handlePatch (buildPatch .started none)) := by
  obtain ⟨document, runs, executed⟩ := s
  cases document with
  | none => exact h
  | some current =>
    have hkept := h.kept current rfl
    show Inv maxRetryCount (Service.proceed _ (processPatchState current _).1 (processPatchState current _).2.1)
    by_cases hstarted : current.stage = .started
    · obtain ⟨run, hruns, hfinal, hexecuted⟩ := h.busy current rfl hstarted
      have hprocess : processPatchState current (buildPatch .started none) =
          (current.patchState (buildPatch .started none), .skip, none) := by
        rw [processPatchState, if_pos hstarted]
        rfl
      rw [hprocess]
      cases hruns
      exact of_busy ⟨hkept.limit, hkept.retries, fun h' => by cases h'⟩ rfl hfinal hexecuted
    · have hprocess : processPatchState current (buildPatch .started none) =
          (current.patchState (buildPatch .started none), .run, none) := by
        rw [processPatchState, if_neg hstarted]
        rfl
      rw [hprocess]
      cases h.idle current rfl hstarted
      exact of_busy ⟨hkept.limit, hkept.retries, fun h' => by cases h'⟩ rfl nofun (Nat.le_add_left 1 _)

/-- **The patch of a run**: it ends in a final stage, or is the start of the next run. -/
theorem selfPatch {current : Document} {stage : TaskStage} {failure : Option String}
    (hkept : current.Kept maxRetryCount)
    (hstarted : current.stage = .started) (hfinal : stage.isFinal = true) (hexecuted : executed ≤
      current.retryCount + 1) :
    Inv maxRetryCount (Service.handlePatch ⟨some current, [], executed⟩ (buildPatch stage failure)) := by
  have hlimit : executed ≤ maxRetryCount + 1 := Nat.le_trans hexecuted (Nat.succ_le_succ hkept.retries)
  have hvalid : validatePatchState current (buildPatch stage failure) = true := by
    unfold validatePatchState
    rw [hstarted]
    cases stage <;> first | rfl | cases hfinal
  show Inv maxRetryCount (if validatePatchState current _ = true then _ else _)
  rw [if_pos hvalid, processPatchState, if_pos hstarted]
  cases stage with
  | created | started => cases hfinal
  | finished => exact of_idle ⟨hkept.limit, Nat.zero_le _, fun _ => ⟨rfl, rfl⟩⟩ hlimit fun h' => by cases h'
  | cancelled => exact of_idle ⟨hkept.limit, hkept.retries, fun h' => by cases h'⟩ hlimit fun h' => by cases h'
  | failed =>
    by_cases hretry : current.retryCount < current.maxRetryCount
    · simp only [buildPatch, if_pos hretry]
      refine of_busy ⟨hkept.limit, ?_, fun h' => by cases h'⟩ rfl (endsFinal_of_ne fun _ h' => by cases h') ?_
      · rw [hkept.limit] at hretry
        exact hretry
      · exact Nat.succ_le_succ hexecuted
    · simp only [buildPatch, if_neg hretry]
      exact of_idle ⟨hkept.limit, hkept.retries, fun h' => by cases h'⟩ hlimit fun h' => by cases h'

variable (h : Inv maxRetryCount s)
include h

theorem answer {k : Nat} {run : Run} (hk : s.runs[k]? = some run) (a : Answer) :
    Inv maxRetryCount (s.answer k a run) := by
  obtain ⟨document, runs, executed⟩ := s
  have hne : runs ≠ [] := by
    intro hnil
    rw [hnil] at hk
    cases hk
  cases document with
  | none => exact absurd (h.gone rfl) hne
  | some current =>
    have hkept := h.kept current rfl
    by_cases hstarted : current.stage = .started
    · obtain ⟨run', hruns, hfinal, hexecuted⟩ := h.busy current rfl hstarted
      cases hruns
      obtain ⟨hk0, hrun⟩ := Outstanding.getElem?_singleton hk
      cases hk0
      cases hrun
      -- A run that is neither over nor gone is replaced by the next one.
      have hgoOn : ∀ next, run.next a = some next →
          Inv maxRetryCount ⟨some current, [next], if run = .scheduled then executed + 1 else executed⟩ := by
        intro next hnext
        refine of_busy hkept hstarted (endsFinal_of_next hnext) ?_
        rw [if_neg (ne_scheduled_of_next hnext)]
        by_cases hscheduled : run = .scheduled
        · rw [if_pos hscheduled] at hexecuted ⊢
          exact hexecuted
        · rw [if_neg hscheduled] at hexecuted ⊢
          exact hexecuted
      have hstep : run.isActive = true →
          Inv maxRetryCount (Service.answer ⟨some current, [run], executed⟩ 0 a run) := by
        intro hactive
        rw [Service.answer_of_isActive _ _ _ hactive]
        cases hnext : run.next a with
        | none => exact h
        | some next => exact hgoOn next hnext
      cases run with
      | selfPatch patch =>
        obtain ⟨stage, failure, hpatch, hstage⟩ := hfinal patch rfl
        rw [Service.answer]
        split
        · rw [hpatch]
          exact selfPatch hkept hstarted hstage hexecuted
        · exact h
      | deletingService =>
        rw [Service.answer]
        split
        · exact ⟨fun _ => rfl, fun _ h' => (by cases h'),
            h.executed, fun _ h' => (by cases h'), fun _ h' => (by cases h')⟩
        · exact h
      | scheduled | gettingCluster | waiting child | updatingCluster => exact hstep rfl
    · exact absurd (h.idle current rfl hstarted) hne

theorem step (event : Event) : Inv maxRetryCount (s.step event) := by
  cases event with
  | trigger => exact h.trigger
  | answer k a =>
    rw [Service.step]
    split
    · exact h
    · rename_i run hk
      exact h.answer hk a

theorem sound : Sound maxRetryCount s where
  one := by
    cases hdocument : s.document with
    | none =>
      rw [h.gone hdocument]
      exact Nat.zero_le 1
    | some document =>
      by_cases hstarted : document.stage = .started
      · obtain ⟨run, hruns, -⟩ := h.busy document hdocument hstarted
        rw [hruns]
        exact List.countP_le_length
      · rw [h.idle document hdocument hstarted]
        exact Nat.zero_le 1
  started document hdocument := by
    constructor
    · intro hstarted hnil
      obtain ⟨run, hruns, -⟩ := h.busy document hdocument hstarted
      rw [hnil] at hruns
      cases hruns
    · intro hne
      by_contra hstarted
      exact hne (h.idle document hdocument hstarted)
  retries document hdocument := (h.kept document hdocument).retries
  executed := h.executed
  finished document hdocument := (h.kept document hdocument).finished

end Inv

/-- **Maintenance runs one at a time, with bounded retries**, however the triggers and the answers come in. -/
theorem maintenance_one_at_a_time (batchExpansionSize maxRetryCount retryIntervalSecond : Nat) (events : List Event) :
    Runs.Always Service.step (Sound maxRetryCount) (.start batchExpansionSize maxRetryCount retryIntervalSecond)
    events :=
  (Runs.always_of_inv (P := Inv maxRetryCount) (fun _ event h => h.step event) events
    (Inv.start batchExpansionSize maxRetryCount retryIntervalSecond)).mono fun _ h => h.sound

end Maintenance
end Photon.ClusterManager
