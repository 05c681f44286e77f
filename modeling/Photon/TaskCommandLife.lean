import Photon.TaskCommand
/-!
# TaskCommandLife — how a task and its locks end

The steps are run in order, up to the first that does not end completed.  As long as no call has raised an exception,
all steps that were run are completed (`Going`), and only then is the task marked as done; whatever else happens leads
through `markAsFailed`.  The locks are followed apart (`HeldIn`): every lock the task holds is in its list, and the list
is worked off at the end.
-/
namespace Photon.ApiFrontend.Tasks

open List
open Runs (mem_concat)
open CloudStore.EntityLock (Characters HeldBy Request Response State equalsIgnoreCase equalsIgnoreCase_iff handle
  handlePut serve serve_cases serve_of_accepted serve_release validateState validateState_ok_iff)
open EntityLock (TaskIds get_post post post_rejected post_response rejected_of_error accepted_of_ok taskLockResult)
open Keyed (LinkedMap)
open Programs (Keeps Prog seq skip raise update cond forEach tryCatch tryFinally wp wp_seq wp_cond wp_forEach
  wp_tryCatch wp_tryFinally wp_update)

variable {ι : Type} {chars : Characters} {ids : TaskIds chars ι} {task : ι} {world : World ids task} {s s' : Run}

variable {Q : Run → Prop} {E : Throwable → Run → Prop} {c : Call}

theorem wp_call (hnormal : Q (s.logged c none)) (hraised : ∀ t, E t (s.logged c (some t))) :
    wp (call world c) Q E s := by
  unfold wp call
  cases world.outcome s.ticks c with
  | none => exact hnormal
  | some t => exact hraised t

/-- **The frame of a command.**  `N` is to hold at a normal end, `X` after the command has been marked as failed, and
the clean-up keeps both. -/
theorem Command.wp_run {command : Command} {N X : Run → Prop} {F : Throwable → Run → Prop}
    (hattempt : wp command.attempt N F s)
    (hfailed : ∀ t s, F t s → wp (command.markAsFailed t) X (fun _ => X) s) (hX : ∀ s, X s → N s)
    (hN : Keeps N command.cleanup) (hkeeps : Keeps X command.cleanup) : wp command.run N (fun _ => X) s := by
  have hcleanup : ∀ {P : Run → Prop} {E : Throwable → Run → Prop} {s : Run}, Keeps P command.cleanup → P s →
      wp (tryCatch command.cleanup fun _ => skip) P E s :=
    fun hP hs => wp_tryCatch ((hP _ hs).mono (fun _ h => h) (fun _ _ h => h))
  refine wp_tryFinally (wp_tryCatch (hattempt.mono (fun _ h => hcleanup hN h) ?_))
  intro t s hF
  refine wp_tryCatch ((hfailed t s hF).mono (fun _ h => hcleanup hN (hX _ h)) ?_)
  intro e s hs
  cases e with
  | taskNotFound => exact hcleanup hN (hX _ hs)
  | _ => exact hcleanup hkeeps hs

/-! ## The calls of a run -/

/-- No call outside the clean-up has raised an exception. -/
def Smooth (s : Run) : Prop := ∀ c ∈ s.calls, c.1.isCleanup = false → c.2 = none

def Unmarked (s : Run) : Prop := ∀ outcome, (Call.markTaskAsDone, outcome) ∉ s.calls

variable {outcome : Option Throwable}

theorem Smooth.logged (h : Smooth s) (hc : c.isCleanup = true ∨ outcome = none) : Smooth (s.logged c outcome) := by
  intro d hd hclean
  rcases mem_concat.1 hd with hd | rfl
  · exact h d hd hclean
  · rcases hc with hc | hc
    · exact absurd (hc.symm.trans hclean) (by decide)
    · exact hc

theorem Smooth.setState (h : Smooth s) (step : StepId) (state : StepState) : Smooth (s.setState step state) := h

theorem Unmarked.logged (h : Unmarked s) (hc : c ≠ .markTaskAsDone) (outcome : Option Throwable) :
    Unmarked (s.logged c outcome) := by
  intro o ho
  rcases mem_append.1 ho with ho | ho
  · exact h o ho
  · exact hc (congrArg Prod.fst (mem_singleton.1 ho)).symm

/-! ## The run of a step -/

structure StepFrame (step : StepId) (s s' : Run) : Prop where
  entities : ∀ other, other ≠ step → s'.entities other = s.entities other
  ran : s'.ran = s.ran
  unmarked : Unmarked s → Unmarked s'

theorem StepFrame.refl (step : StepId) (s : Run) : StepFrame step s s := ⟨fun _ _ => rfl, rfl, fun h => h⟩

theorem StepFrame.logged {step : StepId} (h : StepFrame step s s') (hc : c ≠ .markTaskAsDone)
    (outcome : Option Throwable) : StepFrame step s (s'.logged c outcome) :=
  ⟨h.entities, h.ran, fun hs => (h.unmarked hs).logged hc outcome⟩

theorem StepFrame.setState {step : StepId} (h : StepFrame step s s') (state : StepState) :
    StepFrame step s (s'.setState step state) :=
  ⟨fun other hne => (Function.update_of_ne hne _ _).trans (h.entities other hne), h.ran, h.unmarked⟩

theorem state_setState (step : StepId) (state : StepState) (s : Run) :
    ((s.setState step state).entities step).state = state := by
  show (Function.update s.entities step _ step).state = state
  rw [Function.update_self]

/-- **The run of a step.**  It ends with the step completed, and then nothing has been raised outside the clean-up, or
with an error; with an exception it ends only after an error. -/
theorem wp_runStepCommand (step : StepId) (s : Run) : wp (stepCommand world step).run (fun s' => StepFrame step s s' ∧
        ((s'.entities step).state = .completed ∧ (Smooth s → Smooth s') ∨ (s'.entities step).state = .error))
      (fun _ s' => StepFrame step s s' ∧ (s'.entities step).state = .error) s := by
  refine Command.wp_run (F := fun _ s' => StepFrame step s s') ?_ ?_ (fun _ h => ⟨h.1, .inr h.2⟩) ?_ ?_
  · have hstarted := ((StepFrame.refl step s).setState .started).logged (c := .markStepAsStarted step) nofun
    have hexecuted := (hstarted none).logged (c := .executeStep step) nofun
    have hdone := ((hexecuted none).setState .completed).logged (c := .markStepAsDone step) nofun
    refine wp_seq ?_
    refine wp_seq (wp_update (wp_call ?_ fun t => hstarted (some t)))
    refine wp_seq (wp_call ?_ fun t => hexecuted (some t))
    refine wp_seq (wp_update
      (wp_call ⟨hdone none, .inl ⟨state_setState step .completed _, ?_⟩⟩ fun t => hdone (some t)))
    intro hsmooth
    have hstarted := (hsmooth.setState step .started).logged (c := .markStepAsStarted step) (.inr rfl)
    have hexecuted := hstarted.logged (c := .executeStep step) (.inr rfl)
    exact (hexecuted.setState step .completed).logged (.inr rfl)
  · intro t s' hframe
    have hmarked := (hframe.setState .error).logged (c := .markStepAsFailed step) nofun
    have hafter := (hmarked none).logged (c := .afterStepFailed step) nofun
    have hstate : ((s'.setState step .error).entities step).state = .error := state_setState step .error s'
    simp only [stepCommand]
    refine wp_seq (wp_update ?_)
    refine wp_seq (wp_call ?_ fun t => ⟨hmarked (some t), hstate⟩)
    exact wp_call ⟨hafter none, hstate⟩ fun t => ⟨hafter (some t), hstate⟩
  · intro s' hs'
    have hend : ∀ outcome, StepFrame step s (s'.logged (.cleanupStep step) outcome) ∧
        ((s'.entities step).state = .completed ∧ (Smooth s → Smooth (s'.logged (.cleanupStep step) outcome)) ∨
          (s'.entities step).state = .error) :=
      fun outcome => ⟨hs'.1.logged (c :=
        .cleanupStep step) nofun outcome, hs'.2.imp (fun h => ⟨h.1, fun hs => (h.2 hs).logged (.inl rfl)⟩) id⟩
    exact wp_call (hend none) fun t => hend (some t)
  · intro s' hs'
    have hend := fun outcome => hs'.1.logged (c := .cleanupStep step) nofun outcome
    exact wp_call ⟨hend none, hs'.2⟩ fun t => ⟨hend (some t), hs'.2⟩

/-! ## The steps of a task -/

structure Ordered (before : List StepId) (s : Run) : Prop where
  sublist : (s.ran.map Prod.fst).Sublist before
  nodup : (s.ran.map Prod.fst).Nodup
  unmarked : Unmarked s

structure Going (before : List StepId) (s : Run) : Prop extends Ordered before s where
  smooth : Smooth s
  completed : ∀ p ∈ s.ran, p.2 = .completed ∧ (s.entities p.1).state = .completed

structure Halted (before : List StepId) (s : Run) : Prop extends Ordered before s where
  completed : ∀ p ∈ s.ran.dropLast, p.2 = .completed

variable {before : List StepId}

theorem Going.halted {after : List StepId} (h : Going before s) (hc : c ≠ .markTaskAsDone)
    (outcome : Option Throwable) : Halted (before ++ after) (s.logged c outcome) where
  sublist := h.sublist.trans (sublist_append_left _ _)
  nodup := h.nodup
  unmarked := h.unmarked.logged hc outcome
  completed := fun p hp => (h.completed p (dropLast_subset _ hp)).1

variable {before : List StepId}

theorem Going.logged (h : Going before s) (hc : c ≠ .markTaskAsDone) : Going before (s.logged c none) :=
  ⟨⟨h.sublist, h.nodup, h.unmarked.logged hc none⟩, h.smooth.logged (.inr rfl), h.completed⟩

theorem Ordered.record {step : StepId} (h : Ordered before s) (hnew : step ∉ s.ran.map Prod.fst)
    (hframe : StepFrame step s s') : Ordered (before ++ [step]) (s'.record step) := by
  have hran : (s'.record step).ran.map Prod.fst = s.ran.map Prod.fst ++ [step] := by
    unfold Run.record
    rw [map_append, hframe.ran]
    rfl
  refine ⟨?_, ?_, hframe.unmarked h.unmarked⟩
  · rw [hran]
    exact h.sublist.append (List.Sublist.refl _)
  · rw [hran]
    exact nodup_append.2 ⟨h.nodup, nodup_singleton _, fun a ha b hb => by
      obtain rfl := mem_singleton.1 hb
      exact fun heq => hnew (heq ▸ ha)⟩

variable {step : StepId}

theorem Going.dropLast_record (h : Going before s) (hframe : StepFrame step s s') :
    ∀ p ∈ (s'.record step).ran.dropLast, p.2 = .completed := by
  unfold Run.record
  dsimp only
  rw [dropLast_concat, hframe.ran]
  exact fun p hp => (h.completed p hp).1

theorem Going.completed_record (h : Going before s) (hframe : StepFrame step s s')
    (hstate : (s'.entities step).state = .completed) :
    ∀ p ∈ (s'.record step).ran, p.2 = .completed ∧ ((s'.record step).entities p.1).state = .completed := by
  unfold Run.record
  dsimp only
  rw [hframe.ran]
  intro p hp
  rcases mem_concat.1 hp with hp | rfl
  · refine ⟨(h.completed p hp).1, ?_⟩
    by_cases hstep : p.1 = step
    · rw [hstep]
      exact hstate
    · rw [hframe.entities p.1 hstep]
      exact (h.completed p hp).2
  · exact ⟨hstate, hstate⟩

/-- **One step of the loop.** -/
theorem wp_runStep (h : Going before s) :
    wp (runStep world step) (Going (before ++ [step])) (fun _ => Halted (before ++ [step])) s := by
  refine wp_cond ?_ ?_
  · intro _
    exact ⟨⟨h.sublist.trans (sublist_append_left _ _), h.nodup, h.unmarked⟩, h.smooth, h.completed⟩
  · intro hqueued
    simp only [Bool.or_eq_false_iff, decide_eq_false_iff_not, not_not] at hqueued
    -- a step that has been run is completed, so it is not queued
    have hnew : step ∉ s.ran.map Prod.fst := by
      intro hmem
      obtain ⟨p, hp, rfl⟩ := mem_map.1 hmem
      exact absurd (hqueued.1.symm.trans (h.completed p hp).2) (by decide)
    refine wp_seq (wp_call ?_ fun t => h.halted (c := .createCommand step) nofun (some t))
    have hcreated := h.logged (c := .createCommand step) nofun
    refine wp_seq (wp_tryFinally ((wp_runStepCommand step _).mono ?_ ?_))
    · intro s' hs'
      obtain ⟨hframe, hend⟩ := hs'
      have hordered := hcreated.toOrdered.record hnew hframe
      refine wp_update (wp_cond ?_ ?_)
      · intro _
        exact ⟨hordered, hcreated.dropLast_record hframe⟩
      · intro hcompleted
        have hstate : (s'.entities step).state = .completed := not_not.1 (of_decide_eq_false hcompleted)
        rcases hend with ⟨-, hsmooth⟩ | herror
        · exact ⟨hordered, hsmooth hcreated.smooth, hcreated.completed_record hframe hstate⟩
        · exact absurd (hstate.symm.trans herror) (by decide)
    · intro t s' hs'
      exact wp_update ⟨hcreated.toOrdered.record hnew hs'.1, hcreated.dropLast_record hs'.1⟩

/-! ## The task -/

def Run.withLocks (lockedEntityIds : List String) (locks : LinkedMap String State) (ticks : Nat) (s : Run) : Run :=
  { s with lockedEntityIds := lockedEntityIds, locks := locks, ticks := ticks }

theorem postLock_eq (world : World ids task) (entityId : String) (isAvailable : Bool) (s : Run) :
    ∃ locks, (postLock world entityId isAvailable s).2 = s.withLocks s.lockedEntityIds locks (s.ticks + 1) := by
  unfold postLock
  dsimp only
  cases world.delivery s.ticks <;> exact ⟨_, rfl⟩

theorem releaseLocks_eq (world : World ids task) : ∀ (entityIds : List String) (s : Run),
    ∃ locks ticks, (releaseLocks world entityIds s).2 = s.withLocks s.lockedEntityIds locks ticks
  | [], s => ⟨s.locks, s.ticks, rfl⟩
  | entityId :: rest, s => by
    obtain ⟨locks, hpost⟩ := postLock_eq world entityId true s
    obtain ⟨locks', ticks', hrest⟩ := releaseLocks_eq world rest (postLock world entityId true s).2
    refine ⟨locks', ticks', ?_⟩
    unfold releaseLocks
    dsimp only
    rw [hpost] at hrest ⊢
    split <;> exact hrest

variable {entityId : String}

theorem wp_setTaskLock (hnormal : ∀ ids locks ticks,
    Q ((s.logged (.setTaskLock entityId) none).withLocks ids locks ticks))
    (hraised : ∀ t ids locks ticks, E t ((s.logged (.setTaskLock entityId) (some t)).withLocks ids locks ticks)) :
    wp (setTaskLock world entityId) Q E s := by
  obtain ⟨locks, hpost⟩ := postLock_eq world entityId false s
  unfold wp setTaskLock
  dsimp only
  cases lockThrowable (postLock world entityId false s).1 with
  | some t =>
    rw [hpost]
    exact hraised t _ _ _
  | none =>
    rw [hpost]
    exact hnormal _ _ _

theorem wp_clearTaskLocks
    (h : ∀ ids locks ticks, Q ((s.logged .clearTaskLocks none).withLocks ids locks ticks)) :
    wp (clearTaskLocks world) Q E s := by
  obtain ⟨locks, ticks, hrelease⟩ := releaseLocks_eq world s.lockedEntityIds s
  unfold wp clearTaskLocks
  dsimp only
  rw [hrelease]
  exact h _ _ _

theorem Going.withLocks (h : Going before s) (ids : List String) (locks : LinkedMap String State) (ticks : Nat) :
    Going before (s.withLocks ids locks ticks) :=
  ⟨{ h with }, h.smooth, h.completed⟩

/-- **The steps of a task are run in order, and marking it follows from how they ended.**  The steps that were run are
some of the list, in its order, each once, and all but the last ended completed.  Marking the task as done is tried only
if all ended completed and no call outside the clean-up has raised an exception; if it does not raise one itself, no
call has. Marking the task as failed is tried if a step that was run did not end completed, or an exception came up
before the clean-up. -/
structure LifeCycle (world : World ids task) (entity : TaskEntity) (start s : Run) : Prop where
  order : (s.ran.map Prod.fst).Sublist entity.steps
  once : (s.ran.map Prod.fst).Nodup
  stops : ∀ p ∈ s.ran.dropLast, p.2 = .completed
  done : ∀ outcome, (Call.markTaskAsDone, outcome) ∈ s.calls → (∀ p ∈ s.ran, p.2 = .completed) ∧
    ∀ c ∈ s.calls, c.1.isCleanup = false → c.1 ≠ .markTaskAsDone → c.1 ≠ .markTaskAsFailed → c.2 = none
  marked : (Call.markTaskAsDone, none) ∈ s.calls → ∀ c ∈ s.calls, c.1.isCleanup = false → c.2 = none
  failed : (∃ p ∈ s.ran, p.2 ≠ .completed) ∨ ((taskCommand world entity).attempt start).1 ≠ none →
    ∃ outcome, (Call.markTaskAsFailed, outcome) ∈ s.calls

structure Stopped (entity : TaskEntity) (s : Run) : Prop where
  order : (s.ran.map Prod.fst).Sublist entity.steps
  once : (s.ran.map Prod.fst).Nodup
  stops : ∀ p ∈ s.ran.dropLast, p.2 = .completed
  done : ∀ outcome, (Call.markTaskAsDone, outcome) ∈ s.calls → (∀ p ∈ s.ran, p.2 = .completed) ∧
    ∀ c ∈ s.calls, c.1.isCleanup = false → c.1 ≠ .markTaskAsDone → c.1 ≠ .markTaskAsFailed → c.2 = none
  unmarked : (Call.markTaskAsDone, none) ∉ s.calls

variable {entity : TaskEntity} {start : Run}

theorem Halted.stopped (h : Halted entity.steps s) : Stopped entity s :=
  ⟨h.sublist, h.nodup, h.completed, fun outcome hmem => absurd hmem (h.unmarked outcome), h.unmarked none⟩

theorem Going.stopped (h : Going entity.steps s) (t : Throwable) :
    Stopped entity (s.logged .markTaskAsDone (some t)) := by
  refine ⟨h.sublist, h.nodup, fun p hp => (h.completed p (dropLast_subset _ hp)).1, ?_, ?_⟩
  · intro outcome _
    refine ⟨fun p hp => (h.completed p hp).1, ?_⟩
    intro c hc hclean hdone _
    rcases mem_append.1 hc with hc | hc
    · exact h.smooth c hc hclean
    · exact absurd (congrArg Prod.fst (mem_singleton.1 hc)) hdone
  · intro hmem
    rcases mem_append.1 hmem with hmem | hmem
    · exact h.unmarked none hmem
    · cases mem_singleton.1 hmem

theorem Stopped.logged (h : Stopped entity s) (hc : c ≠ .markTaskAsDone)
    (hend : c.isCleanup = true ∨ c = .markTaskAsFailed ∨ outcome = none) : Stopped entity (s.logged c outcome) := by
  refine ⟨h.order, h.once, h.stops, ?_, ?_⟩
  · intro o ho
    rcases mem_append.1 ho with ho | ho
    · refine ⟨(h.done o ho).1, ?_⟩
      intro d hd hclean hdone hfailed
      rcases mem_concat.1 hd with hd | rfl
      · exact (h.done o ho).2 d hd hclean hdone hfailed
      · rcases hend with hend | hend | hend
        · exact absurd (hend.symm.trans hclean) (by decide)
        · exact absurd hend hfailed
        · exact hend
    · exact absurd (congrArg Prod.fst (mem_singleton.1 ho)).symm hc
  · intro hmem
    rcases mem_append.1 hmem with hmem | hmem
    · exact h.unmarked hmem
    · exact hc (congrArg Prod.fst (mem_singleton.1 hmem)).symm

theorem Stopped.withLocks (h : Stopped entity s) (ids : List String) (locks : LinkedMap String State) (ticks : Nat) :
    Stopped entity (s.withLocks ids locks ticks) :=
  { h with }

def Failed (entity : TaskEntity) (s : Run) : Prop :=
    Stopped entity s ∧ ∃ outcome, (Call.markTaskAsFailed, outcome) ∈ s.calls

theorem Failed.lifeCycle (h : Failed entity s) : LifeCycle world entity start s :=
  { h.1 with marked := fun hmarked => absurd hmarked h.1.unmarked, failed := fun _ => h.2 }

structure Ended (entity : TaskEntity) (s : Run) : Prop where
  order : (s.ran.map Prod.fst).Sublist entity.steps
  once : (s.ran.map Prod.fst).Nodup
  completed : ∀ p ∈ s.ran, p.2 = .completed
  smooth : Smooth s

theorem Going.ended (h : Going entity.steps s) : Ended entity s :=
  ⟨h.sublist, h.nodup, fun p hp => (h.completed p hp).1, h.smooth⟩

theorem Ended.logged (h : Ended entity s) (hend : c.isCleanup = true ∨ outcome = none) :
    Ended entity (s.logged c outcome) :=
  { h with smooth := h.smooth.logged hend }

theorem Ended.withLocks (h : Ended entity s) (ids : List String) (locks : LinkedMap String State) (ticks : Nat) :
    Ended entity (s.withLocks ids locks ticks) :=
  { h with }

theorem Ended.lifeCycle (h : Ended entity s) (hattempt : ((taskCommand world entity).attempt start).1 = none) :
    LifeCycle world entity start s where
  order := h.order
  once := h.once
  stops := fun p hp => h.completed p (dropLast_subset _ hp)
  done := fun _ _ => ⟨h.completed, fun c hc hclean _ _ => h.smooth c hc hclean⟩
  marked := fun _ => h.smooth
  failed := by
    intro hnot
    rcases hnot with ⟨p, hp, hnot⟩ | hraised
    · exact absurd (h.completed p hp) hnot
    · exact absurd hattempt hraised

theorem wp_attempt (world : World ids task) (entity : TaskEntity) (h : Going [] s) :
    wp (taskCommand world entity).attempt (Ended entity) (fun _ => Stopped entity) s := by
  refine wp_seq ?_
  refine wp_seq (wp_call ?_ fun t => (h.halted (c := .markTaskAsStarted) nofun (some t)).stopped)
  -- the locks
  have hlock : ∀ entityId s, Going [] s → wp (setTaskLock world entityId) (Going []) (fun _ => Stopped entity) s :=
    fun entityId s hs => wp_setTaskLock (fun _ _ _ => (hs.logged (c := .setTaskLock entityId) nofun).withLocks _ _ _)
      (fun t _ _ _ => (hs.halted (c := .setTaskLock entityId) nofun (some t)).stopped.withLocks _ _ _)
  have hlocks := @wp_forEach _ _ _ _ (fun _ => Going []) (setTaskLock world) entity.toBeLockedEntityIds [] _
    (fun _ entityId _ _ s hs => hlock entityId s hs) (h.logged (c := .markTaskAsStarted) nofun)
  refine hlocks.mono ?_ (fun _ _ hs => hs)
  intro s hs
  -- the steps
  refine wp_seq ((wp_forEach (I := Going) ?_ hs).mono ?_ (fun _ _ hs => hs))
  · intro pre step post hsteps s hs
    refine (wp_runStep hs).mono (fun _ h => h) (fun _ s' h =>
      Halted.stopped ⟨⟨h.sublist.trans ?_, h.nodup, h.unmarked⟩, h.completed⟩)
    have hsteps : entity.steps = (pre ++ [step]) ++ post := by
      rw [append_assoc]
      exact hsteps
    rw [hsteps]
    exact sublist_append_left _ _
  · intro s hs
    simp only [taskCommand]
    refine wp_seq (wp_clearTaskLocks ?_)
    intro ids locks ticks
    have hcleared := (hs.logged (c := .clearTaskLocks) nofun).withLocks ids locks ticks
    exact wp_cond (fun _ => wp_call (hcleared.ended.logged (.inr rfl)) (fun t => hcleared.stopped t))
      (fun _ => hcleared.ended)

theorem wp_markTaskAsFailed (world : World ids task) (entity : TaskEntity) (t : Throwable) (h : Stopped entity s) :
    wp ((taskCommand world entity).markAsFailed t) (Failed entity) (fun _ => Failed entity) s := by
  simp only [taskCommand]
  refine wp_seq (wp_clearTaskLocks ?_)
  intro ids locks ticks
  have hcleared := (h.logged (c := .clearTaskLocks) nofun (.inr (.inr rfl))).withLocks ids locks ticks
  have hfailed : ∀ outcome, Failed entity (Run.logged .markTaskAsFailed outcome _) := fun outcome =>
    ⟨hcleared.logged (c := .markTaskAsFailed) nofun (.inr (.inl rfl)), outcome, mem_append_right _ mem_cons_self⟩
  exact wp_call (hfailed none) fun t => hfailed (some t)

theorem ended_cleanup (world : World ids task) (entity : TaskEntity) :
    Keeps (Ended entity) (taskCommand world entity).cleanup := by
  intro s h
  simp only [taskCommand]
  refine wp_seq (wp_clearTaskLocks ?_)
  intro ids locks ticks
  have hcleared := (h.logged (c := .clearTaskLocks) (.inr rfl)).withLocks ids locks ticks
  exact wp_call (hcleared.logged (.inl rfl)) fun t => hcleared.logged (.inl rfl)

theorem failed_cleanup (world : World ids task) (entity : TaskEntity) :
    Keeps (Failed entity) (taskCommand world entity).cleanup := by
  intro s h
  obtain ⟨hstopped, outcome, hfailed⟩ := h
  simp only [taskCommand]
  refine wp_seq (wp_clearTaskLocks ?_)
  intro ids locks ticks
  have hcleared := (hstopped.logged (c := .clearTaskLocks) nofun (.inr (.inr rfl))).withLocks ids locks ticks
  have hclosed : ∀ o, Failed entity (Run.logged .closeHostClient o _) := fun o =>
    ⟨hcleared.logged (c := .closeHostClient) nofun (.inl rfl), outcome, mem_append_left _ (mem_append_left _ hfailed)⟩
  exact wp_call (hclosed none) fun t => hclosed (some t)

/-- **The run of a task.** -/
theorem wp_runTaskCommand (world : World ids task) (entity : TaskEntity) (h : Going [] s) :
    wp (taskCommand world entity).run (LifeCycle world entity s) (fun _ => LifeCycle world entity s) s := by
  have hattempt := (wp_attempt world entity h).normally
  have hrun := Command.wp_run (N := fun s' => ((taskCommand world entity).attempt s).1 = none ∧ Ended entity s' ∨
    Failed entity s')
    (hattempt.mono (fun _ hs => .inl hs) (fun _ _ hs => hs)) (fun t _ hs => wp_markTaskAsFailed world entity t hs)
    (fun _ hs => .inr hs) ?_ (failed_cleanup world entity)
  · refine hrun.mono ?_ (fun _ _ hs => hs.lifeCycle)
    intro s' hs'
    rcases hs' with hs' | hs'
    · exact hs'.2.lifeCycle hs'.1
    · exact hs'.lifeCycle
  · intro s' hs'
    rcases hs' with hs' | hs'
    · exact (ended_cleanup world entity s' hs'.2).mono (fun _ he => .inl ⟨hs'.1, he⟩) (fun _ _ he => .inl ⟨hs'.1, he⟩)
    · exact (failed_cleanup world entity s' hs').mono (fun _ hf => .inr hf) (fun _ _ hf => .inr hf)

/-! ## The locks -/

/-- Every lock the task holds is in the list, and its document is what the task has posted for it. -/
def HeldIn (ids : TaskIds chars ι) (task : ι) (entityIds : List String) (locks : LinkedMap String State) : Prop :=
  ∀ e, HeldBy chars (ids.id task) (locks.get e) → e ∈ entityIds ∧ locks.get e = some ⟨e, ids.id task, false⟩ ∧
    validateState chars (State.toBody ⟨e, ids.id task, false⟩) = .ok ⟨e, ids.id task, false⟩

variable {locks : LinkedMap String State} {entityIds : List String}

variable {e : String}

theorem held_of_held_post {poster : ι} {isAvailable : Bool}
    (h : HeldBy chars (ids.id task) ((post ids locks poster entityId isAvailable).1.get e)) :
    (post ids locks poster entityId isAvailable).1.get e = locks.get e ∨ e = entityId ∧ poster = task ∧
      isAvailable = false := by
  rw [get_post] at h ⊢
  split at h
  · rename_i he
    subst he
    rw [if_pos rfl]
    rcases serve_cases chars (locks.get e)
      (.post (some (State.toBody ⟨e, ids.id poster, isAvailable⟩))) with hsame | ⟨state, hbody, hnew⟩
    · exact .inl hsame
    · have hstate := CloudStore.EntityLock.State.toBody_injective (Option.some.inj hbody)
      rw [hnew, ← hstate] at h
      obtain ⟨held, heq, havailable, howner⟩ := h
      cases heq
      exact .inr ⟨rfl, ids.distinct _ _ howner, havailable⟩
  · rename_i he
    rw [if_neg he]
    exact .inl rfl

theorem HeldIn.othersPost (h : HeldIn ids task entityIds s.locks) : HeldIn ids task entityIds (othersPost world s) := by
  have hfold : ∀ (posts : List (ι × String × Bool)) (locks : LinkedMap String State),
      (∀ other ∈ posts, other.1 ≠ task) → HeldIn ids task entityIds locks →
      HeldIn ids task entityIds
        (posts.foldl (fun locks other => (post ids locks other.1 other.2.1 other.2.2).1) locks) := by
    intro posts
    induction posts with
    | nil => exact fun _ _ hlocks => hlocks
    | cons other posts ih =>
      intro locks hne hlocks
      refine ih _ (fun o ho => hne o (mem_cons_of_mem _ ho)) ?_
      intro e he
      rcases held_of_held_post he with hsame | ⟨-, hself, -⟩
      · rw [hsame] at he ⊢
        exact hlocks e he
      · exact absurd hself (hne other mem_cons_self)
  exact hfold _ _ (world.others_ne s.ticks) h

theorem HeldIn.setPost (h : HeldIn ids task entityIds locks)
    (haccepted : (post ids locks task entityId false).2.accepted = true) :
    HeldIn ids task (entityIds ++ [entityId]) (post ids locks task entityId false).1 := by
  rw [post_response] at haccepted
  obtain ⟨hserve, hvalid⟩ := @serve_of_accepted _ ⟨entityId, ids.id task, false⟩ _ _ rfl haccepted
  intro e he
  rcases held_of_held_post he with hsame | ⟨rfl, -, -⟩
  · rw [hsame] at he ⊢
    exact ⟨mem_append_left _ (h e he).1, (h e he).2⟩
  · refine ⟨mem_append_right _ mem_cons_self, ?_, ?_⟩
    · rw [get_post, if_pos rfl]
      exact hserve
    · rcases hvalid with hdoc | hvalid
      · exact (h e ⟨_, hdoc, rfl, (equalsIgnoreCase_iff _ _).2 rfl⟩).2.2
      · exact hvalid

theorem HeldIn.releasePost (h : HeldIn ids task (entityId :: entityIds) locks) :
    HeldIn ids task entityIds (post ids locks task entityId true).1 := by
  intro e he
  rcases held_of_held_post he with hsame | ⟨-, -, hfalse⟩
  · rw [hsame] at he ⊢
    obtain ⟨hmem, hdoc, hvalid⟩ := h e he
    rcases mem_cons.1 hmem with rfl | hmem
    · have hrelease : validateState chars (State.toBody ⟨e, ids.id task, true⟩) = .ok ⟨e, ids.id task, true⟩ :=
        validateState_ok_iff.2 ⟨rfl, (validateState_ok_iff.1 hvalid).2⟩
      have hserve : serve chars (some ⟨e, ids.id task, false⟩) (.post (some (State.toBody ⟨e, ids.id task, true⟩))) =
          some ⟨e, ids.id task, true⟩ := serve_release hrelease ((equalsIgnoreCase_iff _ _).2 rfl)
      rw [get_post, if_pos rfl, hdoc, hserve] at hsame
      cases hsame
    · exact ⟨hmem, hdoc, hvalid⟩
  · cases hfalse

theorem HeldIn.mono {entityIds' : List String} (h : HeldIn ids task entityIds locks)
    (hsub : ∀ e ∈ entityIds, e ∈ entityIds') : HeldIn ids task entityIds' locks :=
  fun e he => ⟨hsub e (h e he).1, (h e he).2⟩

def Recorded (ids : TaskIds chars ι) (task : ι) (s : Run) : Prop := HeldIn ids task s.lockedEntityIds s.locks

theorem recorded_call (c : Call) : Keeps (Recorded ids task) (call world c) := fun _ h => wp_call h fun _ => h

theorem recorded_setState (step : StepId) (state : StepState) :
    Keeps (Recorded ids task) (update (Run.setState step state) : Cmd) :=
  fun _ h => h

theorem recorded_tryCatch {command : Command} (hattempt : Keeps (Recorded ids task) command.attempt)
    (hfailed : ∀ t, Keeps (Recorded ids task) (command.markAsFailed t)) :
    Keeps (Recorded ids task) (tryCatch command.attempt fun t => tryCatch (command.markAsFailed t) fun
      | .taskNotFound => skip
      | e => raise e) := by
  refine hattempt.tryCatch fun t => (hfailed t).tryCatch fun e => ?_
  cases e with
  | taskNotFound => exact Programs.keeps_skip
  | _ => exact Programs.keeps_raise _

theorem recorded_runStepCommand (step : StepId) : Keeps (Recorded ids task) (stepCommand world step).run := by
  have hmark : ∀ state c, Keeps (Recorded ids task) (seq (update (Run.setState step state)) (call world c)) :=
    fun state c => (recorded_setState step state).seq (recorded_call c)
  refine (recorded_tryCatch ((hmark _ _).seq ((recorded_call _).seq (hmark _ _))) ?_).tryFinally
    ((recorded_call (.cleanupStep step)).tryCatch fun _ => Programs.keeps_skip)
  exact fun _ => (recorded_setState step .error).seq ((recorded_call _).seq (recorded_call _))

theorem recorded_runStep (step : StepId) : Keeps (Recorded ids task) (runStep world step) := by
  refine Programs.keeps_skip.cond _
    ((recorded_call _).seq (Keeps.seq ?_ ((Programs.keeps_raise _).cond _ Programs.keeps_skip)))
  exact (recorded_runStepCommand step).tryFinally fun _ h => h

section Answered

variable (hanswered : ∀ k, world.delivery k = .answered)
include hanswered

theorem postLock_answered (entityId : String) (isAvailable : Bool) (s : Run) :
    postLock world entityId isAvailable s = (some (post ids (othersPost world s) task entityId isAvailable).2,
      s.withLocks s.lockedEntityIds (post ids (othersPost world s) task entityId isAvailable).1 (s.ticks + 1)) := by
  unfold postLock
  rw [hanswered]
  rfl

/-- **The locks are worked off.** -/
theorem heldIn_releaseLocks : ∀ (entityIds : List String) {s : Run}, HeldIn ids task entityIds s.locks →
    HeldIn ids task [] (releaseLocks world entityIds s).2.locks
  | [], _, h => h
  | entityId :: rest, s, h => by
    have hreleased : HeldIn ids task rest (postLock world entityId true s).2.locks := by
      rw [postLock_answered hanswered]
      exact h.othersPost.releasePost
    have hrest := heldIn_releaseLocks rest hreleased
    unfold releaseLocks
    dsimp only
    split <;> exact hrest

theorem wp_clearTaskLocks_heldIn {E : Throwable → Run → Prop} (h : HeldIn ids task s.lockedEntityIds s.locks) :
    wp (clearTaskLocks world) (fun s => HeldIn ids task [] s.locks) E s :=
  heldIn_releaseLocks hanswered s.lockedEntityIds h

theorem recorded_setTaskLock (entityId : String) : Keeps (Recorded ids task) (setTaskLock world entityId) := by
  intro s h
  have hothers : HeldIn ids task s.lockedEntityIds (othersPost world s) := h.othersPost
  unfold wp setTaskLock
  rw [postLock_answered hanswered]
  dsimp only [lockThrowable]
  cases hresult : taskLockResult (post ids (othersPost world s) task entityId false).2 with
  | ok _ => exact hothers.setPost (accepted_of_ok hresult)
  | error error =>
    have hrejected : HeldIn ids task s.lockedEntityIds (post ids (othersPost world s) task entityId false).1 := by
      intro e he
      rw [post_rejected (rejected_of_error hresult)] at he ⊢
      exact hothers e he
    cases error <;> exact hrejected

theorem recorded_clearTaskLocks : Keeps (Recorded ids task) (clearTaskLocks world) :=
  fun _ h => (wp_clearTaskLocks_heldIn hanswered h).mono (fun _ hs => hs.mono nofun) (fun _ _ h => h)

/-- **No lock is left.** -/
theorem wp_runTaskCommand_heldIn (entity : TaskEntity) (h : Recorded ids task s) :
    wp (taskCommand world entity).run (fun s => HeldIn ids task [] s.locks)
    (fun _ s => HeldIn ids task [] s.locks) s := by
  have hstarted : Keeps (Recorded ids task) (taskCommand world entity).markAsStarted :=
    (recorded_call _).seq (Keeps.forEach (recorded_setTaskLock hanswered) _)
  have hexecuted : Keeps (Recorded ids task) (taskCommand world entity).execute := Keeps.forEach recorded_runStep _
  have hdone : Keeps (Recorded ids task) (taskCommand world entity).markAsDone := by
    simp only [taskCommand]
    exact (recorded_clearTaskLocks hanswered).seq ((recorded_call _).cond _ Programs.keeps_skip)
  have hfailed : ∀ t, Keeps (Recorded ids task) ((taskCommand world entity).markAsFailed t) :=
    fun _ => (recorded_clearTaskLocks hanswered).seq (recorded_call _)
  have hcleanup : ∀ s, Recorded ids task s → wp (taskCommand world entity).cleanup (fun s => HeldIn ids task [] s.locks)
      (fun _ s => HeldIn ids task [] s.locks) s := by
    intro s hs
    simp only [taskCommand]
    exact wp_seq ((wp_clearTaskLocks_heldIn hanswered hs).mono (fun _ hs => wp_call hs fun _ => hs) (fun _ _ hs => hs))
  have hbefore := recorded_tryCatch (hstarted.seq (hexecuted.seq hdone)) hfailed s h
  have hlast : ∀ {E : Throwable → Run → Prop} s, Recorded ids task s →
    wp (tryCatch (taskCommand world entity).cleanup fun _ => skip)
      (fun s => HeldIn ids task [] s.locks) E s :=
    fun s hs => wp_tryCatch ((hcleanup s hs).mono (fun _ hs => hs) (fun _ _ hs => hs))
  exact wp_tryFinally (hbefore.mono hlast (fun _ => hlast))

end Answered

/-! ## The life cycle -/

/-- **The life cycle of a task.**  However its calls end, the run of a task has its steps run in order and marks the
task by how they ended; and if all calls to the lock service are answered, and the task held no lock at the start but
those in its list, it holds none at the end. -/
theorem task_lifeCycle (world : World ids task) (entity : TaskEntity) (entities : StepId → StepEntity)
    (lockedEntityIds : List String) (locks : LinkedMap String State) :
    LifeCycle world entity (.start entities lockedEntityIds locks)
        ((taskCommand world entity).run (.start entities lockedEntityIds locks)).2 ∧
      ((∀ k, world.delivery k = .answered) → HeldIn ids task lockedEntityIds locks →
        ∀ e, ¬HeldBy chars (ids.id task)
          (((taskCommand world entity).run (.start entities lockedEntityIds locks)).2.locks.get e)) := by
  constructor
  · have hstart : Going [] (Run.start entities lockedEntityIds locks) :=
      ⟨⟨List.Sublist.refl _, nodup_nil, fun _ => not_mem_nil⟩, nofun, nofun⟩
    exact (wp_runTaskCommand world entity hstart).final
  · intro hanswered hheld e he
    have hnone := (wp_runTaskCommand_heldIn (s := .start entities lockedEntityIds locks) hanswered entity hheld).final
    cases (hnone e he).1

/-- All calls end normally, and the other task asks for the same lock. -/
def plainWorld : World EntityLock.twoTasks false where
  outcome := fun _ _ => none
  delivery := fun _ => .answered
  others := fun _ => [(true, "vm", false)]
  others_ne := by
    intro k other hother
    obtain rfl := List.mem_singleton.1 hother
    decide

/-- A task with two steps, which has a lock in its list from before and takes another one. -/
theorem task_lifeCycle_twoSteps : ∀ e, ¬HeldBy EntityLock.ascii "task-a"
    (((taskCommand plainWorld ⟨[0, 1], ["disk"]⟩).run
    (.start (fun _ => ⟨.queued, false⟩) ["vm"] .empty)).2.locks.get e) :=
  (task_lifeCycle plainWorld ⟨[0, 1], ["disk"]⟩ (fun _ => ⟨.queued, false⟩) ["vm"] .empty).2 (fun _ => rfl) (by
    intro e he
    obtain ⟨state, hget, -⟩ := he
    cases hget)

end Photon.ApiFrontend.Tasks
