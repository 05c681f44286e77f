import Mathlib.Algebra.Ring.Nat
import Photon.ImageCopyTask
import Photon.Runs
/-!
# TaskScheduler — tasks are started up to a limit

In every round of its maintenance `TaskSchedulerService` counts the started tasks, and, if they are below `tasksLimits`,
lists the created ones and sends a start patch to as many as are missing.  The count, the list and the patches are one
step after the other, and nothing keeps a round from beginning while the patches of an earlier one are on their way.
What a round may start is its budget; together with the started tasks and the patches on their way the budgets stay
within the limit as long as a round counts when there are neither.
-/
namespace Photon.Xenon.TaskScheduler

open Housekeeper (ImageCopy.State ImageCopy.buildPatch ImageCopy.handlePatch)
open Housekeeper.HostToHostCopy (Request)
open Outstanding (answered countP_replaced perm_eraseIdx sum_answered)
open Runs (run Always Meets)

structure ScheduledTask where
  request : Request
  doc : ImageCopy.State
  deriving DecidableEq

inductive Query where
  | started
  | created (servicesToStartCount : Nat)
  deriving DecidableEq

/-- The tasks, the queries on their way and the tasks to which a start patch is on its way. -/
structure System where
  tasks : List ScheduledTask
  queries : List Query
  patches : List Nat
  deriving DecidableEq

inductive Event where
  | maintenance
  | startedAnswered (k : Nat)
  | createdAnswered (k : Nat) (documentLinks : List Nat)
  | queryFailed (k : Nat)
  | patched (k : Nat)
  | patchLost (k : Nat)
  | create (request : Request)
  | complete (i : Nat) (stage : TaskStage)
  deriving DecidableEq

def startPatch : ImageCopy.State := ImageCopy.buildPatch .started (some .retrieveHost)

def ScheduledTask.patch (task : ScheduledTask) (patch : ImageCopy.State) (fromScheduler : Bool) : ScheduledTask :=
  { task with doc := (ImageCopy.handlePatch task.request task.doc patch fromScheduler).1 }

def ScheduledTask.isStarted (task : ScheduledTask) : Bool := task.doc.stage = .started

def startedCount (tasks : List ScheduledTask) : Nat := tasks.countP ScheduledTask.isStarted

def processPatch (tasksLimits serviceCount : Nat) : List Query :=
  if serviceCount ≥ tasksLimits then [] else [.created (tasksLimits - serviceCount)]

def startServices (servicesToStartCount : Nat) (documentLinks : List Nat) : List Nat :=
  documentLinks.take (min servicesToStartCount documentLinks.length)

def patchAt (tasks : List ScheduledTask) (i : Nat) (patch : ImageCopy.State) (fromScheduler : Bool) :
    List ScheduledTask :=
  match tasks[i]? with
  | some task => tasks.set i (task.patch patch fromScheduler)
  | none => tasks

def System.step (tasksLimits : Nat) (s : System) : Event → System
  | .maintenance => { s with queries := s.queries ++ [.started] }
  | .startedAnswered k =>
    match s.queries[k]? with
    | some .started => { s with queries := answered s.queries k (processPatch tasksLimits (startedCount s.tasks)) }
    | _ => s
  | .createdAnswered k documentLinks =>
    match s.queries[k]? with
    | some (.created count) =>
      { s with queries := answered s.queries k [], patches := s.patches ++ startServices count documentLinks }
    | _ => s
  | .queryFailed k => { s with queries := answered s.queries k [] }
  | .patched k =>
    match s.patches[k]? with
    | some i => { s with tasks := patchAt s.tasks i startPatch true, patches := answered s.patches k [] }
    | none => s
  | .patchLost k => { s with patches := answered s.patches k [] }
  | .create request => { s with tasks := s.tasks ++ [⟨request, ⟨.created, none, none⟩⟩] }
  | .complete i stage =>
    if stage.isFinal then { s with tasks := patchAt s.tasks i (ImageCopy.buildPatch stage none) false } else s

def System.start (tasks : List ScheduledTask) : System := ⟨tasks, [], []⟩

def WithinLimit (tasksLimits : Nat) (s : System) : Prop := startedCount s.tasks ≤ tasksLimits

def Query.budget : Query → Nat
  | .started => 0
  | .created count => count

/-- The started tasks are counted when no start patch is on its way and no other round is about to send some. -/
def CountsAlone (s : System) : Event → Prop
  | .startedAnswered _ => s.patches = [] ∧ ∀ query ∈ s.queries, query.budget = 0
  | _ => True

/-- The tasks that are listed are the created ones, in any order. -/
def ListsCreated (s : System) : Event → Prop
  | .createdAnswered _ documentLinks =>
    documentLinks.Perm ((List.range s.tasks.length).filter
      fun i => s.tasks[i]?.any fun task => task.doc.stage = .created)
  | _ => True

instance (s : System) : (event : Event) → Decidable (ListsCreated s event)
  | .createdAnswered _ documentLinks => inferInstanceAs (Decidable (documentLinks.Perm
      ((List.range s.tasks.length).filter fun i => s.tasks[i]?.any fun task => task.doc.stage = .created)))
  | .maintenance | .startedAnswered _ | .queryFailed _ | .patched _ | .patchLost _ | .create _ | .complete _ _ =>
    .isTrue trivial

instance (s : System) : (event : Event) → Decidable (CountsAlone s event)
  | .startedAnswered _ => inferInstanceAs (Decidable (s.patches = [] ∧ ∀ query ∈ s.queries, query.budget = 0))
  | .maintenance | .createdAnswered _ _ | .queryFailed _ | .patched _ | .patchLost _ | .create _ | .complete _ _ =>
    .isTrue trivial

/-! ## One patch -/

theorem isStarted_complete (task : ScheduledTask) {stage : TaskStage} (hfinal : stage.isFinal = true)
    (h : (task.patch (ImageCopy.buildPatch stage none) false).isStarted = true) : task.isStarted = true := by
  have hne : stage ≠ .started := by
    intro heq
    rw [heq] at hfinal
    cases hfinal
  simp only [ScheduledTask.patch, ImageCopy.handlePatch, ScheduledTask.isStarted] at h ⊢
  split at h
  · split at h
    · exact absurd (of_decide_eq_true h) hne
    · exact h
  · exact h

theorem startedCount_patchAt (tasks : List ScheduledTask) (i : Nat) (patch : ImageCopy.State) (fromScheduler : Bool) :
    startedCount (patchAt tasks i patch fromScheduler) ≤ startedCount tasks + 1 := by
  rw [patchAt]
  split
  · rename_i task hi
    have hcount := countP_replaced ScheduledTask.isStarted hi (task.patch patch fromScheduler)
    rw [startedCount, startedCount]
    split at hcount <;> split at hcount <;> omega
  · exact Nat.le_succ _

theorem startedCount_complete (tasks : List ScheduledTask) (i : Nat) {stage : TaskStage}
    (hfinal : stage.isFinal = true) :
    startedCount (patchAt tasks i (ImageCopy.buildPatch stage none) false) ≤ startedCount tasks := by
  rw [patchAt]
  split
  · rename_i task hi
    have hcount := countP_replaced ScheduledTask.isStarted hi (task.patch (ImageCopy.buildPatch stage none) false)
    rw [startedCount, startedCount]
    by_cases hstarted : (task.patch (ImageCopy.buildPatch stage none) false).isStarted = true
    · rw [if_pos hstarted, if_pos (isStarted_complete task hfinal hstarted)] at hcount
      omega
    · rw [if_neg hstarted] at hcount
      omega
  · exact Nat.le_refl _

/-! ## The budget -/

def budget (queries : List Query) : Nat := (queries.map Query.budget).sum

/-- What is started, what is about to be and what may be, together. -/
def committed (s : System) : Nat := startedCount s.tasks + s.patches.length + budget s.queries

theorem budget_answered {queries : List Query} {k : Nat} {query : Query} (hk : queries[k]? = some query)
    (new : List Query) :
    budget (answered queries k new) + query.budget = budget queries + budget new := sum_answered hk Query.budget new

theorem length_answered {α : Type} {pending : List α} {k : Nat} {a : α} (hk : pending[k]? = some a) :
    (answered pending k []).length + 1 = pending.length := by
  rw [answered, List.append_nil, (perm_eraseIdx hk).length_eq, List.length_cons]

theorem answered_of_none {α : Type} {pending : List α} {k : Nat} (hk : pending[k]? = none) :
    answered pending k [] = pending := by
  rw [answered, List.append_nil, List.eraseIdx_of_length_le (List.getElem?_eq_none_iff.1 hk)]

theorem budget_processPatch {limit count : Nat} (h : count ≤ limit) :
    count + budget (processPatch limit count) = limit := by
  rw [processPatch]
  split
  · have hnil : budget [] = 0 := rfl
    omega
  · have hone : budget [.created (limit - count)] = limit - count := Nat.add_zero _
    omega

theorem budget_eq_zero {queries : List Query} (h : ∀ query ∈ queries, query.budget = 0) : budget queries = 0 := by
  refine List.sum_eq_zero fun n hn => ?_
  obtain ⟨query, hquery, rfl⟩ := List.mem_map.1 hn
  exact h query hquery

open TaskScheduler.System (step)

/-- **A step keeps what is committed within the limit**, if it counts alone. -/
theorem committed_step {limit : Nat} (s : System) (event : Event) (h : committed s ≤ limit)
    (halone : CountsAlone s event) : committed (s.step limit event) ≤ limit := by
  simp only [committed] at h
  cases event with
  | maintenance =>
    have hbudget : budget (s.queries ++ [.started]) = budget s.queries := by
      rw [budget, List.map_append, List.sum_append]
      rfl
    simp only [step, committed, hbudget]
    exact h
  | startedAnswered k =>
    simp only [step]
    split
    · rename_i hk
      obtain ⟨hpatches, hzero⟩ := halone
      have hbudget := budget_answered hk (processPatch limit (startedCount s.tasks))
      have hstarted : Query.started.budget = 0 := rfl
      have hqueries := budget_eq_zero hzero
      have hlimit := budget_processPatch (show startedCount s.tasks ≤ limit by omega)
      simp only [committed, hpatches, List.length_nil]
      omega
    · exact h
  | createdAnswered k links =>
    simp only [step]
    split
    · rename_i count hk
      have hbudget := budget_answered hk []
      have hcreated : (Query.created count).budget = count := rfl
      have hnil : budget [] = 0 := rfl
      simp only [committed, List.length_append, startServices, List.length_take]
      omega
    · exact h
  | queryFailed k =>
    simp only [step, committed]
    cases hk : s.queries[k]? with
    | none =>
      rw [answered_of_none hk]
      exact h
    | some query =>
      have hbudget := budget_answered hk []
      have hnil : budget [] = 0 := rfl
      omega
  | patched k =>
    simp only [step]
    split
    · rename_i i hk
      have hlength := length_answered hk
      have hstarted := startedCount_patchAt s.tasks i startPatch true
      simp only [committed]
      omega
    · exact h
  | patchLost k =>
    simp only [step, committed]
    cases hk : s.patches[k]? with
    | none =>
      rw [answered_of_none hk]
      exact h
    | some i =>
      have hlength := length_answered hk
      omega
  | create request =>
    have hstarted : startedCount (s.tasks ++ [⟨request, ⟨.created, none, none⟩⟩]) = startedCount s.tasks := by
      rw [startedCount, List.countP_append]
      rfl
    simp only [step, committed, hstarted]
    exact h
  | complete i stage =>
    simp only [step]
    split
    · rename_i hfinal
      have hstarted := startedCount_complete s.tasks i hfinal
      simp only [committed]
      omega
    · exact h

/-- **The scheduler respects its limit**, over every population of tasks and every interleaving of rounds, patches,
creations and completions, if every count of the started tasks is alone. -/
theorem taskScheduler_withinLimit (tasksLimits : Nat) (tasks : List ScheduledTask)
    (hstart : startedCount tasks ≤ tasksLimits)
    (events : List Event) (h : Meets (System.step tasksLimits) CountsAlone (.start tasks) events) :
    Always (System.step tasksLimits) (WithinLimit tasksLimits) (.start tasks) events := by
  have hcommitted : Always (step tasksLimits) (fun s => committed s ≤ tasksLimits) (.start tasks) events :=
    Runs.always_of_meets committed_step hstart h
  refine hcommitted.mono fun s hs => ?_
  simp only [committed] at hs
  rw [WithinLimit]
  omega

def createdTask (destination : String) : ScheduledTask := ⟨⟨"A", destination, false⟩, ⟨.created, none, none⟩⟩

theorem taskScheduler_withinLimit_twoRounds :
    startedCount (run (System.step 1) (.start [createdTask "B", createdTask "C"]) [.maintenance, .startedAnswered 0,
      .createdAnswered 0 [0, 1], .patched 0, .maintenance, .startedAnswered 0, .complete 0 .finished]).tasks = 0 ∧
    Always (System.step 1) (WithinLimit 1) (.start [createdTask "B", createdTask "C"]) [.maintenance,
      .startedAnswered 0, .createdAnswered 0 [0, 1], .patched 0, .maintenance, .startedAnswered 0,
      .complete 0 .finished] :=
  ⟨by decide, taskScheduler_withinLimit 1 _ (by decide) _ (by decide)⟩

/-- The second round counts before the patch of the first one is applied, and lists the created tasks after it. -/
theorem taskScheduler_exceedsLimit :
    Meets (System.step 1) ListsCreated (.start [createdTask "B", createdTask "C"]) [.maintenance, .startedAnswered 0,
      .createdAnswered 0 [0, 1], .maintenance, .startedAnswered 0, .patched 0, .createdAnswered 0 [1], .patched 0] ∧
    startedCount (run (System.step 1) (.start [createdTask "B", createdTask "C"]) [.maintenance, .startedAnswered 0,
      .createdAnswered 0 [0, 1], .maintenance, .startedAnswered 0, .patched 0, .createdAnswered 0 [1],
        .patched 0]).tasks = 2 := by
  decide

end Photon.Xenon.TaskScheduler
