import Photon.TaskCommand
/-!
# TaskSteps — the steps of a task document

`TaskDcpBackend` keeps the steps of a task in its document and, for who works on the task, in entities.  A step gets its
sequence number from its place in the list (`createTaskWithSteps`) or from a counter of the task entity (`createStep`),
and every entity has a counter of its own, which starts at 0.  A step is marked by a patch with the whole step, and
`TaskService` looks for the stored step to replace by its operation.

A stored step and its entity have the same fields, and the conversions between them copy each.  `key` numbers the steps
of a task in the order in which they were created; the code has no such field, and the statements are about it.
-/
namespace Photon.ApiFrontend.TaskSteps

open List
open Runs (Always Meets mem_concat)
open Tasks (StepState)

structure StepError where
  code : String
  message : String
  deriving DecidableEq

structure Step (Op : Type) where
  key : Nat
  sequence : Int
  state : StepState
  operation : Op
  options : Option String
  queuedTime : Option Nat
  startedTime : Option Nat
  endTime : Option Nat
  errors : List StepError
  deriving DecidableEq

structure System (Op : Type) where
  steps : List (Step Op)
  counters : List Int
  entities : List (Step Op)
  created : Nat

inductive Marking
  | started
  | completed
  | failed (error : StepError)
  deriving DecidableEq

def Marking.state : Marking → StepState
  | .started => .started
  | .completed => .completed
  | .failed _ => .error

inductive Event (Op : Type)
  | createStep (task : Nat) (state : StepState) (operation : Op) (options : Option String) (now : Nat)
  | mark (step : Nat) (marking : Marking) (now : Nat)
  | findById
  deriving DecidableEq

variable {Op : Type}

def Marking.apply (now : Nat) (step : Step Op) : Marking → Step Op
  | .started => { step with state := .started, startedTime := some now }
  | .completed => { step with state := .completed, endTime := some now }
  | .failed error => { step with state := .error, endTime := some now, errors := step.errors ++ [error] }

def newStep (key : Nat) (sequence : Int) (state : StepState) (operation : Op) (options : Option String) (now : Nat) :
    Step Op where
  key := key
  sequence := sequence
  state := state
  operation := operation
  options := options
  queuedTime := some now
  startedTime := if state = .completed then some now else none
  endTime := if state = .completed then some now else none
  errors := []

def createQueuedTask : System Op := ⟨[], [0], [], 0⟩

def createTaskWithSteps (isCompleted : Bool) (steps : List (Op × Option String)) (now : Nat) : System Op :=
  let stored := steps.zipIdx.map fun p => newStep p.2 p.2 (if isCompleted then .completed else .queued) p.1.1 p.1.2 now
  ⟨stored, [0], stored, steps.length⟩

variable [DecidableEq Op]

/-- The loop that looks for a step: of several with the operation it ends with the last.  With it the steps without the
one found. -/
def removeStep (operation : Op) : List (Step Op) → Option (Step Op × List (Step Op))
  | [] => none
  | currentStep :: rest =>
    match removeStep operation rest with
    | some (step, others) => some (step, currentStep :: others)
    | none => if currentStep.operation = operation then some (currentStep, rest) else none

def handleStepUpdatePatch (update : Step Op) (steps : List (Step Op)) : Except String (List (Step Op)) :=
  match removeStep update.operation steps with
  | none => .error "Cannot update a step that does not exist"
  | some (_, others) => .ok (others ++ [update])

namespace System

variable (s : System Op)

omit [DecidableEq Op] in
def createStep (task : Nat) (state : StepState) (operation : Op) (options : Option String) (now : Nat) : System Op :=
  match s.counters[task]? with
  | none => s
  | some next =>
    let step := newStep s.created next state operation options now
    { steps := s.steps ++ [step]
      counters := s.counters.set task ((next + 1).bmod (2 ^ 32))
      entities := s.entities ++ [step]
      created := s.created + 1 }

def mark (step : Nat) (marking : Marking) (now : Nat) : System Op :=
  match s.entities[step]? with
  | none => s
  | some entity =>
    let marked := marking.apply now entity
    { s with
      steps := (handleStepUpdatePatch marked s.steps).toOption.getD s.steps
      entities := s.entities.set step marked }

omit [DecidableEq Op] in
def findById : System Op := { s with counters := s.counters ++ [0], entities := s.entities ++ s.steps }

def step : Event Op → System Op
  | .createStep task state operation options now => s.createStep task state operation options now
  | .mark step marking now => s.mark step marking now
  | .findById => s.findById

omit [DecidableEq Op] in
def stored (key : Nat) : List (Step Op) := s.steps.filter fun step => decide (step.key = key)

end System

/-! ## What is asked of a task -/

omit [DecidableEq Op] in
/-- The stored steps have distinct sequence numbers, in the order of their creation. -/
structure InOrder (s : System Op) : Prop where
  distinct : (s.steps.map Step.sequence).Nodup
  order : ∀ a ∈ s.steps, ∀ b ∈ s.steps, a.key < b.key → a.sequence < b.sequence

/-- A marking changes what is stored of its step, and of no other. -/
def MarksItsStep (s : System Op) : Event Op → Prop
  | .mark step marking now => ∀ entity, s.entities[step]? = some entity →
    ((s.mark step marking now).stored entity.key).map Step.state = [marking.state] ∧
      ∀ key, key ≠ entity.key → (s.mark step marking now).stored key = s.stored key
  | _ => True

/-- What the code needs of an event: the counter of the task entity is past the stored steps, and the marked step is the
last of the stored steps with its operation. -/
def Apart (s : System Op) : Event Op → Prop
  | .createStep task _ _ _ _ => ∀ next, s.counters[task]? = some next → ∀ stored ∈ s.steps, stored.sequence < next
  | .mark step _ _ => ∀ entity, s.entities[step]? = some entity →
    ∀ last, (s.steps.filter fun stored => decide (stored.operation = entity.operation)).getLast? = some last →
      last.key = entity.key
  | .findById => True

/-! ## The step that is replaced -/

theorem removeStep_eq_none {operation : Op} : ∀ {steps : List (Step Op)}, removeStep operation steps = none →
    ∀ step ∈ steps, step.operation ≠ operation
  | [], _, _, hmem => by cases hmem
  | currentStep :: rest, h, step, hmem => by
    unfold removeStep at h
    cases hrest : removeStep operation rest with
    | some found =>
      rw [hrest] at h
      cases h
    | none =>
      rw [hrest] at h
      dsimp only at h
      split at h
      · cases h
      · rename_i hop
        rcases mem_cons.1 hmem with rfl | hmem
        · exact hop
        · exact removeStep_eq_none hrest step hmem

/-- **The step that is found is the last one with the operation.** -/
theorem removeStep_eq_some {operation : Op} : ∀ {steps others : List (Step Op)} {step : Step Op},
    removeStep operation steps = some (step, others) →
      ∃ before after, steps = before ++ step :: after ∧ others = before ++ after ∧ step.operation = operation ∧
        ∀ later ∈ after, later.operation ≠ operation
  | [], _, _, h => by cases h
  | currentStep :: rest, others, step, h => by
    unfold removeStep at h
    cases hrest : removeStep operation rest with
    | some found =>
      obtain ⟨found, others'⟩ := found
      rw [hrest] at h
      cases h
      obtain ⟨before, after, rfl, rfl, hop, hlater⟩ := removeStep_eq_some hrest
      exact ⟨currentStep :: before, after, rfl, rfl, hop, hlater⟩
    | none =>
      rw [hrest] at h
      dsimp only at h
      split at h
      · rename_i hop
        cases h
        exact ⟨[], rest, rfl, rfl, hop, removeStep_eq_none hrest⟩
      · cases h

variable (marking : Marking) (now : Nat) (step : Step Op)

omit [DecidableEq Op] in
@[simp] theorem Marking.apply_key : (marking.apply now step).key = step.key := by
  cases marking <;> rfl

omit [DecidableEq Op] in
@[simp] theorem Marking.apply_sequence : (marking.apply now step).sequence = step.sequence := by
  cases marking <;> rfl

omit [DecidableEq Op] in
@[simp] theorem Marking.apply_operation : (marking.apply now step).operation = step.operation := by
  cases marking <;> rfl

omit [DecidableEq Op] in
@[simp] theorem Marking.apply_state : (marking.apply now step).state = marking.state := by
  cases marking <;> rfl

/-! ## The runs -/

omit [DecidableEq Op] in
/-- Every step is stored once, and every entity is that of a stored step. -/
structure Kept (s : System Op) : Prop extends InOrder s where
  keys : (s.steps.map Step.key).Nodup
  created : ∀ stored ∈ s.steps, stored.key < s.created
  entities : ∀ entity ∈ s.entities, ∃ stored ∈ s.steps, stored.key = entity.key ∧ stored.operation = entity.operation ∧
    stored.sequence = entity.sequence

variable {s : System Op}

/-- **What a marking stores**: the last step with the operation is replaced. -/
theorem Kept.mark_steps (h : Kept s) {step : Nat} {entity : Step Op} (hentity : s.entities[step]? = some entity)
    (marking : Marking) (now : Nat) : ∃ before last after, s.steps = before ++ last :: after ∧
      (s.mark step marking now).steps = before ++ after ++ [marking.apply now entity] ∧
      (s.steps.filter fun stored => decide (stored.operation = entity.operation)).getLast? = some last := by
  obtain ⟨stored, hstored, -, hop, -⟩ := h.entities entity (mem_of_getElem? hentity)
  cases hremove : removeStep entity.operation s.steps with
  | none => exact absurd hop (removeStep_eq_none hremove stored hstored)
  | some found =>
    obtain ⟨last, others⟩ := found
    obtain ⟨before, after, hsteps, hothers, hlast, hlater⟩ := removeStep_eq_some hremove
    refine ⟨before, last, after, hsteps, ?_, ?_⟩
    · unfold System.mark handleStepUpdatePatch
      rw [hentity]
      dsimp only
      rw [Marking.apply_operation, hremove, hothers]
      rfl
    · have hnone : after.filter (fun stored => decide (stored.operation = entity.operation)) = [] :=
        filter_eq_nil_iff.2 (fun later hmem => by simpa using hlater later hmem)
      rw [hsteps, filter_append, filter_cons_of_pos (by simpa using hlast), hnone]
      exact getLast?_concat

omit [DecidableEq Op] in
def Step.ident (step : Step Op) : Nat × Int × Op := (step.key, step.sequence, step.operation)

omit [DecidableEq Op] in
theorem exists_ident {steps steps' : List (Step Op)} (h : (steps'.map Step.ident).Perm (steps.map Step.ident))
    {step : Step Op} (hmem : step ∈ steps') : ∃ other ∈ steps, other.key = step.key ∧ other.operation = step.operation ∧
      other.sequence = step.sequence := by
  obtain ⟨other, hother, heq⟩ := mem_map.1 (h.mem_iff.1 (mem_map_of_mem hmem))
  simp only [Step.ident, Prod.mk.injEq] at heq
  exact ⟨other, hother, heq.1, heq.2.2, heq.2.1⟩

omit [DecidableEq Op] in
theorem Kept.of_ident {s' : System Op} (h : Kept s) (hperm : (s'.steps.map Step.ident).Perm (s.steps.map Step.ident))
    (hcreated : s'.created = s.created) (hentities : ∀ entity ∈ s'.entities, entity ∈ s.entities ∨ ∃ other ∈ s.entities,
      other.key = entity.key ∧ other.operation = entity.operation ∧ other.sequence = entity.sequence) : Kept s' := by
  have hsequences : (s'.steps.map Step.sequence).Perm (s.steps.map Step.sequence) := by
    have := hperm.map (fun ident => ident.2.1)
    rwa [map_map, map_map] at this
  have hkeys : (s'.steps.map Step.key).Perm (s.steps.map Step.key) := by
    have := hperm.map (fun ident => ident.1)
    rwa [map_map, map_map] at this
  refine ⟨⟨hsequences.nodup_iff.2 h.distinct, ?_⟩, hkeys.nodup_iff.2 h.keys, ?_, ?_⟩
  · intro a ha b hb hlt
    obtain ⟨a', ha', hakey, -, haseq⟩ := exists_ident hperm ha
    obtain ⟨b', hb', hbkey, -, hbseq⟩ := exists_ident hperm hb
    rw [← haseq, ← hbseq]
    exact h.order a' ha' b' hb' (by rw [hakey, hbkey]; exact hlt)
  · intro stored hstored
    obtain ⟨other, hother, hkey, -⟩ := exists_ident hperm hstored
    rw [hcreated, ← hkey]
    exact h.created other hother
  · intro entity hentity
    have hknown : ∃ stored ∈ s.steps, stored.key = entity.key ∧ stored.operation = entity.operation ∧
        stored.sequence = entity.sequence := by
      rcases hentities entity hentity with hsame | ⟨other, hother, hkey, hop, hseq⟩
      · exact h.entities entity hsame
      · obtain ⟨stored, hstored, hskey, hsop, hsseq⟩ := h.entities other hother
        exact ⟨stored, hstored, hskey.trans hkey, hsop.trans hop, hsseq.trans hseq⟩
    obtain ⟨stored, hstored, hkey, hop, hseq⟩ := hknown
    obtain ⟨stored', hstored', hkey', hop', hseq'⟩ := exists_ident hperm.symm hstored
    exact ⟨stored', hstored', hkey'.trans hkey, hop'.trans hop, hseq'.trans hseq⟩

omit [DecidableEq Op] in
theorem Kept.ident_eq (h : Kept s) {entity last : Step Op} (hentity : entity ∈ s.entities) (hlast : last ∈ s.steps)
    (hkey : last.key = entity.key) : entity.ident = last.ident := by
  obtain ⟨stored, hstored, hskey, hsop, hsseq⟩ := h.entities entity hentity
  obtain rfl := inj_on_of_nodup_map h.keys hstored hlast (hskey.trans hkey.symm)
  simp only [Step.ident, hskey, hsop, hsseq]

theorem Kept.mark (h : Kept s) {step : Nat} {marking : Marking} {now : Nat}
    (hapart : Apart s (.mark step marking now)) : Kept (s.mark step marking now) := by
  cases hentity : s.entities[step]? with
  | none =>
    unfold System.mark
    rw [hentity]
    exact h
  | some entity =>
    obtain ⟨before, last, after, hsteps, hmarked, hlast⟩ := h.mark_steps hentity marking now
    have hmem : last ∈ s.steps := by
      rw [hsteps]
      exact mem_append_right _ mem_cons_self
    have hident : (marking.apply now entity).ident = last.ident := by
      rw [← h.ident_eq (mem_of_getElem? hentity) hmem (hapart entity hentity last hlast)]
      simp only [Step.ident, Marking.apply_key, Marking.apply_sequence, Marking.apply_operation]
    refine h.of_ident ?_ ?_ ?_
    · rw [hmarked, hsteps]
      simp only [map_append, map_cons, map_nil, hident]
      rw [append_assoc]
      exact (perm_append_singleton _ _).append_left _
    · unfold System.mark
      rw [hentity]
    · unfold System.mark
      rw [hentity]
      intro e he
      rcases mem_or_eq_of_mem_set he with he | rfl
      · exact .inl he
      · exact .inr ⟨entity, mem_of_getElem? hentity, (Marking.apply_key _ _ _).symm,
          (Marking.apply_operation _ _ _).symm, (Marking.apply_sequence _ _ _).symm⟩

omit [DecidableEq Op] in
theorem Kept.createStep (h : Kept s) {task : Nat} {next : Int} (hnext : s.counters[task]? = some next)
    (hpast : ∀ stored ∈ s.steps, stored.sequence < next) (state : StepState) (operation : Op) (options : Option String)
      (now : Nat) : Kept (s.createStep task state operation options now) := by
  unfold System.createStep
  rw [hnext]
  refine ⟨⟨?_, ?_⟩, ?_, ?_, ?_⟩
  · dsimp only
    rw [map_append, nodup_append]
    refine ⟨h.distinct, nodup_singleton _, ?_⟩
    intro a ha b hb heq
    obtain ⟨stored, hstored, rfl⟩ := mem_map.1 ha
    obtain rfl := mem_singleton.1 hb
    have hlt := hpast stored hstored
    rw [heq] at hlt
    exact Int.lt_irrefl _ hlt
  · intro a ha b hb hlt
    rcases mem_concat.1 ha with ha | rfl
    · rcases mem_concat.1 hb with hb | rfl
      · exact h.order a ha b hb hlt
      · exact hpast a ha
    · rcases mem_concat.1 hb with hb | rfl
      · exact absurd (h.created b hb) (Nat.lt_asymm hlt)
      · exact absurd hlt (Nat.lt_irrefl _)
  · dsimp only
    rw [map_append, nodup_append]
    refine ⟨h.keys, nodup_singleton _, ?_⟩
    intro a ha b hb heq
    obtain ⟨stored, hstored, rfl⟩ := mem_map.1 ha
    obtain rfl := mem_singleton.1 hb
    exact absurd (h.created stored hstored) (by rw [heq]; exact Nat.lt_irrefl _)
  · intro stored hstored
    rcases mem_concat.1 hstored with hstored | rfl
    · exact Nat.lt_succ_of_lt (h.created stored hstored)
    · exact Nat.lt_succ_self _
  · intro entity hentity
    rcases mem_append.1 hentity with hentity | hentity
    · obtain ⟨stored, hstored, hsame⟩ := h.entities entity hentity
      exact ⟨stored, mem_append_left _ hstored, hsame⟩
    · exact ⟨entity, mem_append_right _ hentity, rfl, rfl, rfl⟩

theorem kept_step (s : System Op) (e : Event Op) (h : Kept s) (hapart : Apart s e) : Kept (s.step e) := by
  cases e with
  | createStep task state operation options now =>
    cases hnext : s.counters[task]? with
    | none =>
      show Kept (s.createStep task state operation options now)
      unfold System.createStep
      rw [hnext]
      exact h
    | some next => exact h.createStep hnext (hapart next hnext) state operation options now
  | mark step marking now => exact h.mark hapart
  | findById =>
    refine ⟨⟨h.distinct, h.order⟩, h.keys, h.created, ?_⟩
    intro entity hentity
    rcases mem_append.1 hentity with hentity | hentity
    · exact h.entities entity hentity
    · exact ⟨entity, hentity, rfl, rfl, rfl⟩

theorem Kept.marksItsStep (h : Kept s) (e : Event Op) (hapart : Apart s e) : MarksItsStep s e := by
  cases e with
  | createStep task state operation options now | findById => trivial
  | mark step marking now =>
    intro entity hentity
    obtain ⟨before, last, after, hsteps, hmarked, hlast⟩ := h.mark_steps hentity marking now
    have hkey := hapart entity hentity last hlast
    have hkeys := (h.mark hapart).keys
    unfold System.stored
    rw [hmarked] at hkeys ⊢
    constructor
    · have hnone : (before ++ after).filter (fun step => decide (step.key = entity.key)) = [] := by
        refine filter_eq_nil_iff.2 ?_
        intro other hother
        rw [map_append, nodup_append] at hkeys
        have hne := hkeys.2.2 other.key (mem_map_of_mem hother) entity.key
          (by rw [map_cons, Marking.apply_key]; exact mem_cons_self)
        simpa using hne
      rw [filter_append, hnone, nil_append, filter_cons_of_pos (by simp), map_cons, Marking.apply_state]
      rfl
    · intro key hne
      rw [hsteps, filter_append, filter_append, filter_append,
        filter_cons_of_neg (by rw [Marking.apply_key]; simpa using hne.symm),
        filter_cons_of_neg (by rw [hkey]; simpa using hne.symm), filter_nil, append_nil]

/-- **What the code needs it needs at every step.** -/
theorem Kept.apart (h : Kept s) (e : Event Op) (hinOrder : InOrder (s.step e)) (hmarks : MarksItsStep s e) :
    Apart s e := by
  cases e with
  | createStep task state operation options now =>
    intro next hnext stored hstored
    have heq : (s.step (.createStep task state operation options now)).steps =
        s.steps ++ [newStep s.created next state operation options now] := by
      show (s.createStep task state operation options now).steps = _
      unfold System.createStep
      rw [hnext]
    refine hinOrder.order stored ?_ (newStep s.created next state operation options now) ?_ (h.created stored hstored)
    · rw [heq]
      exact mem_append_left _ hstored
    · rw [heq]
      exact mem_append_right _ mem_cons_self
  | findById => trivial
  | mark step marking now =>
    intro entity hentity last hlast
    obtain ⟨before, last', after, hsteps, hmarked, hlast'⟩ := h.mark_steps hentity marking now
    obtain rfl : last' = last := Option.some.inj (hlast'.symm.trans hlast)
    by_contra hne
    -- what was stored of the replaced step is gone
    have hgone := (hmarks entity hentity).2 last'.key hne
    unfold System.stored at hgone
    rw [hmarked, hsteps, filter_append, filter_append, filter_append,
      filter_cons_of_neg (by rw [Marking.apply_key]; simpa using fun heq => hne heq.symm), filter_nil, append_nil,
      filter_cons_of_pos (by simp)] at hgone
    have hlength := congrArg length hgone
    rw [length_append, length_append, length_cons] at hlength
    omega

inductive Creation (Op : Type)
  | queuedTask
  | taskWithSteps (isCompleted : Bool) (steps : List (Op × Option String)) (now : Nat)

omit [DecidableEq Op] in
def Creation.start : Creation Op → System Op
  | .queuedTask => createQueuedTask
  | .taskWithSteps isCompleted steps now => createTaskWithSteps isCompleted steps now

omit [DecidableEq Op] in
theorem kept_start (creation : Creation Op) : Kept creation.start := by
  cases creation with
  | queuedTask => exact ⟨⟨nodup_nil, nofun⟩, nodup_nil, nofun, nofun⟩
  | taskWithSteps isCompleted steps now =>
    have hstored : ∀ stored ∈ (createTaskWithSteps isCompleted steps now).steps, stored.sequence = stored.key ∧
        stored.key < steps.length := by
      intro stored hstored
      obtain ⟨p, hp, rfl⟩ := mem_map.1 hstored
      exact ⟨rfl, (mem_zipIdx' hp).1⟩
    have hkeys : (createTaskWithSteps isCompleted steps now).steps.map Step.key = range steps.length := by
      unfold createTaskWithSteps
      dsimp only
      rw [map_map, range_eq_range', ← zipIdx_map_snd]
      rfl
    have hsequences : (createTaskWithSteps isCompleted steps now).steps.map Step.sequence =
        (range steps.length).map Int.ofNat := by
      rw [← hkeys, map_map]
      exact map_congr_left (fun stored hmem => (hstored stored hmem).1)
    refine ⟨⟨?_, ?_⟩, ?_, ?_, ?_⟩
    · show ((createTaskWithSteps isCompleted steps now).steps.map Step.sequence).Nodup
      rw [hsequences]
      exact nodup_range.map (fun _ _ heq => Int.ofNat.inj heq)
    · intro a ha b hb hlt
      rw [(hstored a ha).1, (hstored b hb).1]
      exact Int.ofNat_lt.2 hlt
    · show ((createTaskWithSteps isCompleted steps now).steps.map Step.key).Nodup
      rw [hkeys]
      exact nodup_range
    · exact fun stored hmem => (hstored stored hmem).2
    · exact fun entity hmem => ⟨entity, hmem, rfl, rfl, rfl⟩

/-- **When steps keep their identity.**  In a run of a task the stored steps have distinct sequence numbers in the order
of their creation, and every marking changes its own step and no other, exactly if steps are only created by task
entities whose counter is past the stored steps, and a step is only marked while it is the last of the stored steps with
its operation. -/
theorem taskSteps_identity_iff (creation : Creation Op) (events : List (Event Op)) :
    Always System.step InOrder creation.start events ∧ Meets System.step MarksItsStep creation.start events ↔
      Meets System.step Apart creation.start events :=
  Runs.always_and_meets_iff_of_inv kept_step (fun _ h => h.toInOrder) (fun _ e h => h.marksItsStep e)
    (fun _ e h => h.apart e) (kept_start creation)

/-- **Two steps in one place.**  A task that is read anew starts to count at 0 again; and of two steps with one
operation the marking of the first replaces the second. -/
theorem taskSteps_mixed_up :
    ¬InOrder (Runs.run System.step (Creation.start .queuedTask)
      [.createStep 0 .queued "A" none 0, .findById, .createStep 1 .queued "B" none 1]) ∧
    ¬MarksItsStep (Creation.start (.taskWithSteps false [("A", none), ("A", none)] 0)) (.mark 0 .started 1) := by
  constructor
  · intro h
    exact absurd h.distinct (by decide)
  · intro h
    exact absurd ((h _ rfl).2 1 (by decide)) (by decide)

end Photon.ApiFrontend.TaskSteps
