import Photon.Runs
import Photon.XenonTask
/-!
# CopyStateTrigger — the copy tasks of an incremental migration

A `CopyStateTriggerTaskService` document starts a copy task whenever it is patched and no task of its is running.  It
asks twice for the tasks, by the two factory links, and starts the new one from the latest update time that a finished
task has read.  Between its queries and the creation of the task anything may happen, and the links do not tell triggers
with different servers apart.

A copy task is what the query and the copies of `CopyStateTaskService` come to: it reads at one moment the documents
that were updated after its start value, and has copied all of them when it is finished.
-/
namespace Photon.Deployer.CopyStateTrigger

open List
open Runs (run Always Meets mem_concat)
open Xenon (TaskStage)

/-- What a trigger hands on to its tasks; `S` are the source servers with their protocol, `D` the destination server
with its. -/
structure Trigger (S D : Type) where
  sourceServers : S
  sourceFactoryLink : String
  destination : D
  factoryLink : String
  deriving DecidableEq

structure Document where
  documentSelfLink : String
  documentUpdateTimeMicros : Nat
  deriving DecidableEq

/-- A copy task, with what its query has answered, whether its document has expired, and the trigger that created it. -/
structure Task (S D : Type) where
  config : Trigger S D
  queryDocumentsChangedSinceEpoc : Nat
  stage : TaskStage
  lastDocumentUpdateTimeEpoc : Option Nat
  read : Option (List Document)
  expired : Bool
  trigger : Nat

/-- What a pulse of a trigger waits for: its first query, its second, the creation of the task, or nothing any more. -/
inductive Phase
  | checking
  | starting
  | posting (latestUpdateTime : Nat)
  | over
  deriving DecidableEq

structure Pulse where
  trigger : Nat
  phase : Phase
  deriving DecidableEq

/-- The triggers' execution states, the pulses and tasks, and the documents of each source factory and of each
destination factory; `clock` is the latest update time of a source. -/
structure System (S D : Type) where
  isRunning : Nat → Bool
  pulses : List Pulse
  tasks : List (Task S D)
  documents : S × String → List Document
  clock : S × String → Nat
  copied : D × String → List Document

variable {S D : Type}

def Trigger.source (t : Trigger S D) : S × String := (t.sourceServers, t.sourceFactoryLink)

def Trigger.target (t : Trigger S D) : D × String := (t.destination, t.factoryLink)

def Task.isRunning (task : Task S D) : Bool := !task.expired && !task.stage.isFinal

def Pulse.isActive (pulse : Pulse) : Bool := pulse.phase ≠ .over

/-! ## The trigger -/

def System.queryCopyStateTasks (s : System S D) (t : Trigger S D) : List (Task S D) :=
  s.tasks.filter fun task => !task.expired && (task.config.factoryLink = t.factoryLink) &&
    (task.config.sourceFactoryLink = t.sourceFactoryLink)

def latestUpdateTime (copyStates : List (Task S D)) : Nat :=
  ((copyStates.filter fun task => task.stage = .finished).map
    fun task => task.lastDocumentUpdateTimeEpoc.getD 0).max?.getD 0

/-- The completions of the queries in `processPatch` and in `startNewTask`. -/
def Phase.answered (phase : Phase) (copyStates : Option (List (Task S D))) : Phase :=
  match phase, copyStates with
  | .checking, some copyStates =>
    if copyStates.any fun task => task.stage = .created ∨ task.stage = .started then .over else .starting
  | .starting, some copyStates =>
    if copyStates.any fun task => !task.stage.isFinal then .over else .posting (latestUpdateTime copyStates)
  | .checking, none | .starting, none => .over
  | phase, _ => phase

def buildCopyStateStartState (i : Nat) (t : Trigger S D) (latestUpdateTime : Nat) : Task S D :=
  ⟨t, latestUpdateTime, .created, none, none, false, i⟩

/-! ## The task -/

inductive Progress
  | start
  | query
  | finish
  /-- The task ends otherwise, after some of its documents are copied. -/
  | fail (stage : TaskStage) (copies : Nat)
  | expire
  deriving DecidableEq

def lastUpdateTime (since : Nat) (documents : List Document) : Nat :=
  (documents.map Document.documentUpdateTimeMicros).foldr max since

def Task.advance (task : Task S D) (documents : List Document) : Progress → Task S D × List Document
  | .start => if task.stage = .created then ({ task with stage := .started }, []) else (task, [])
  | .query =>
    if task.stage = .started ∧ task.read = none then
      ({ task with read := some (documents.filter fun document =>
        task.queryDocumentsChangedSinceEpoc < document.documentUpdateTimeMicros) }, [])
    else (task, [])
  | .finish =>
    match task.read with
    | some read =>
      if task.stage = .started then
        ({ task with stage := .finished
                     lastDocumentUpdateTimeEpoc :=
                     some (lastUpdateTime task.queryDocumentsChangedSinceEpoc read) }, read)
      else (task, [])
    | none => (task, [])
  | .fail stage copies =>
    if task.stage.isFinal = false ∧ (stage = .failed ∨ stage = .cancelled) then
      ({ task with stage := stage }, (task.read.getD []).take copies)
    else (task, [])
  | .expire => ({ task with expired := true }, [])

/-! ## The system -/

inductive Event (S : Type)
  /-- The patch of a pulse, or one that sets the execution state. -/
  | patch (i : Nat) (isRunning : Option Bool)
  | answered (p : Nat) (ok : Bool)
  | posted (p : Nat) (ok : Bool)
  | progress (k : Nat) (progress : Progress)
  | update (source : S × String) (documentSelfLink : String) (time : Nat)

def System.setPhase (s : System S D) (p : Nat) (i : Nat) (phase : Phase) : System S D :=
  { s with pulses := s.pulses.set p ⟨i, phase⟩ }

/-- Update times grow strictly, so an update with an earlier time does not happen. -/
def System.step [DecidableEq S] [DecidableEq D] (triggers : List (Trigger S D)) (s : System S D) : Event S → System S D
  | .patch i isRunning =>
    if i < triggers.length then
      let isRunning := isRunning.getD (s.isRunning i)
      { s with isRunning := fun j => if j = i then isRunning else s.isRunning j
               pulses := if isRunning then s.pulses ++ [⟨i, .checking⟩] else s.pulses }
    else s
  | .answered p ok =>
    match s.pulses[p]? with
    | none => s
    | some ⟨i, phase⟩ =>
      match triggers[i]? with
      | none => s
      | some t => s.setPhase p i (phase.answered (if ok then some (s.queryCopyStateTasks t) else none))
  | .posted p ok =>
    match s.pulses[p]? with
    | some ⟨i, .posting latestUpdateTime⟩ =>
      match triggers[i]? with
      | none => s
      | some t =>
        { s.setPhase p i .over with
          tasks := if ok then s.tasks ++ [buildCopyStateStartState i t latestUpdateTime] else s.tasks }
    | _ => s
  | .progress k progress =>
    match s.tasks[k]? with
    | none => s
    | some task =>
      let advanced := task.advance (s.documents task.config.source) progress
      { s with tasks := s.tasks.set k advanced.1
               copied := fun d => if d = task.config.target then s.copied d ++ advanced.2 else s.copied d }
  | .update source link time =>
    if s.clock source < time then
      { s with documents := fun c => if c = source then
                 (s.documents c).filter (fun document => document.documentSelfLink ≠ link) ++ [⟨link, time⟩]
                 else s.documents c
               clock := fun c => if c = source then time else s.clock c }
    else s

def System.initial (isRunning : Nat → Bool) : System S D := ⟨isRunning, [], [], fun _ => [], fun _ => 0, fun _ => []⟩

inductive Moved [DecidableEq S] [DecidableEq D] (triggers : List (Trigger S D)) (s : System S D) :
    Event S → System S D → Prop
  | stays (event : Event S) : Moved triggers s event s
  | patched (i : Nat) (r : Option Bool) (isRunning : Nat → Bool) :
    Moved triggers s (.patch i r) { s with isRunning := isRunning }
  | pulsed (i : Nat) (r : Option Bool) (isRunning : Nat → Bool) :
    Moved triggers s (.patch i r) { s with isRunning := isRunning, pulses := s.pulses ++ [⟨i, .checking⟩] }
  | answered {p i : Nat} {phase : Phase} {t : Trigger S D} (ok : Bool) :
    s.pulses[p]? = some ⟨i, phase⟩ → triggers[i]? = some t →
    Moved triggers s (.answered p ok)
      (s.setPhase p i (phase.answered (if ok then some (s.queryCopyStateTasks t) else none)))
  | refused {p i latest : Nat} :
    s.pulses[p]? = some ⟨i, .posting latest⟩ → Moved triggers s (.posted p false) (s.setPhase p i .over)
  | posted {p i latest : Nat} {t : Trigger S D} :
    s.pulses[p]? = some ⟨i, .posting latest⟩ → triggers[i]? = some t →
    Moved triggers s (.posted p true)
      { s.setPhase p i .over with tasks := s.tasks ++ [buildCopyStateStartState i t latest] }
  | advanced {k : Nat} {task : Task S D} (progress : Progress) :
    s.tasks[k]? = some task →
    Moved triggers s (.progress k progress)
      { s with tasks := s.tasks.set k (task.advance (s.documents task.config.source) progress).1
               copied := fun d => if d = task.config.target then
                 s.copied d ++ (task.advance (s.documents task.config.source) progress).2 else s.copied d }
  | updated {source : S × String} (link : String) {time : Nat} :
    s.clock source < time →
    Moved triggers s (.update source link time)
      { s with documents := fun c => if c = source then
                 (s.documents c).filter (fun document => document.documentSelfLink ≠ link) ++ [⟨link, time⟩]
                 else s.documents c
               clock := fun c => if c = source then time else s.clock c }

theorem moved_step [DecidableEq S] [DecidableEq D] (triggers : List (Trigger S D)) (s : System S D) (event : Event S) :
    Moved triggers s event (s.step triggers event) := by
  cases event with
  | patch i isRunning =>
    rw [System.step]
    split
    · dsimp only
      split
      · exact .pulsed i isRunning _
      · exact .patched i isRunning _
    · exact .stays _
  | answered p ok =>
    rw [System.step]
    split
    · exact .stays _
    · rename_i i phase hp
      split
      · exact .stays _
      · rename_i t ht
        exact .answered ok hp ht
  | posted p ok =>
    rw [System.step]
    split
    · rename_i i latest hp
      split
      · exact .stays _
      · rename_i t ht
        cases ok with
        | false => exact .refused hp
        | true => exact .posted hp ht
    · exact .stays _
  | progress k progress =>
    rw [System.step]
    split
    · exact .stays _
    · rename_i task hk
      exact .advanced progress hk
  | update source link time =>
    rw [System.step]
    split
    · rename_i htime
      exact .updated link htime
    · exact .stays _

/-! ## One at a time -/

def OnePer {α : Type} (active : α → Bool) (owner : α → Nat) (l : List α) : Prop :=
  ∀ (i j : Nat) (a b : α), l[i]? = some a → l[j]? = some b → active a = true → active b = true →
    owner a = owner b → i = j

section

variable {α : Type} {active : α → Bool} {owner : α → Nat} {l : List α}

theorem OnePer.set (h : OnePer active owner l) {k : Nat} {a a' : α} (hk : l[k]? = some a) (howner : owner a' = owner a)
    (hactive : active a' = true → active a = true) : OnePer active owner (l.set k a') := by
  have hold : ∀ (i : Nat) (x : α), (l.set k a')[i]? = some x → active x = true →
      ∃ y, l[i]? = some y ∧ active y = true ∧ owner y = owner x := by
    intro i x hi hx
    rw [getElem?_set] at hi
    split at hi
    · rename_i hik
      split at hi
      · cases hi
        exact ⟨a, hik ▸ hk, hactive hx, howner.symm⟩
      · cases hi
    · exact ⟨x, hi, hx, rfl⟩
  intro i j x y hi hj hx hy hxy
  obtain ⟨x', hi', hx', hox⟩ := hold i x hi hx
  obtain ⟨y', hj', hy', hoy⟩ := hold j y hj hy
  exact h i j x' y' hi' hj' hx' hy' (hox.trans (hxy.trans hoy.symm))

theorem OnePer.append (h : OnePer active owner l) {a : α}
    (hnew : active a = true → ∀ b ∈ l, active b = true → owner b ≠ owner a) : OnePer active owner (l ++ [a]) := by
  have hold : ∀ (i : Nat) (x : α), (l ++ [a])[i]? = some x → l[i]? = some x ∨ i = l.length ∧ x = a := by
    intro i x hi
    rw [getElem?_append] at hi
    split at hi
    · exact .inl hi
    · have hlen := (List.getElem?_eq_some_iff.1 hi).1
      rw [length_singleton] at hlen
      rw [show i - l.length = 0 by omega] at hi
      exact .inr ⟨by omega, (Option.some.inj hi).symm⟩
  intro i j x y hi hj hx hy hxy
  rcases hold i x hi with hil | ⟨hil, rfl⟩
  · rcases hold j y hj with hjl | ⟨-, rfl⟩
    · exact h i j x y hil hjl hx hy hxy
    · exact absurd hxy (hnew hy x (mem_of_getElem? hil) hx)
  · rcases hold j y hj with hjl | ⟨hjl, -⟩
    · exact absurd hxy.symm (hnew hx y (mem_of_getElem? hjl) hy)
    · exact hil.trans hjl.symm

end

def System.Exclusive (s : System S D) : Prop := OnePer Task.isRunning Task.trigger s.tasks

/-- A trigger is not patched while an earlier pulse of it is at its queries or at the creation of its task. -/
def Alone (s : System S D) : Event S → Prop
  | .patch i _ => ∀ p ∈ s.pulses, p.isActive = true → p.trigger ≠ i
  | _ => True

theorem advance_trigger (task : Task S D) (documents : List Document) (progress : Progress) :
    (task.advance documents progress).1.trigger = task.trigger ∧ (task.advance documents progress).1.config =
    task.config := by
  unfold Task.advance
  repeat' split
  all_goals exact ⟨rfl, rfl⟩

variable {task : Task S D}

theorem isRunning_of_advance {documents : List Document} {progress : Progress}
    (h : (task.advance documents progress).1.isRunning = true) : task.isRunning = true := by
  unfold Task.isRunning at h ⊢
  unfold Task.advance at h
  split at h
  · split at h
    · rename_i hstage
      rw [hstage]
      exact h
    · exact h
  · split at h <;> exact h
  · split at h
    · split at h
      · exact nomatch (Bool.and_eq_true_iff.1 h).2
      · exact h
    · exact h
  · split at h
    · rename_i hstage
      rcases hstage.2 with rfl | rfl <;> exact nomatch (Bool.and_eq_true_iff.1 h).2
    · exact h
  · exact nomatch (Bool.and_eq_true_iff.1 h).1

theorem answered_posting {phase : Phase} {copyStates : Option (List (Task S D))} {latest : Nat}
    (h : phase.answered copyStates = .posting latest) :
    phase = .posting latest ∨ ∃ found, copyStates = some found ∧ (∀ task ∈ found, task.stage.isFinal = true) ∧
      latest = latestUpdateTime found := by
  unfold Phase.answered at h
  split at h
  · split at h <;> cases h
  · split at h
    · cases h
    · rename_i found hfound
      refine .inr ⟨found, rfl, fun task htask => ?_, (Phase.posting.inj h).symm⟩
      rw [Bool.not_eq_true, any_eq_false] at hfound
      have hfinal := hfound task htask
      cases hs : task.stage.isFinal
      · rw [hs] at hfinal
        exact absurd rfl hfinal
      · rfl
  · cases h
  · cases h
  · exact .inl h

variable {s : System S D} {t : Trigger S D}

theorem mem_queryCopyStateTasks :
    task ∈ s.queryCopyStateTasks t ↔ task ∈ s.tasks ∧ task.expired = false ∧ task.config.factoryLink = t.factoryLink ∧
      task.config.sourceFactoryLink = t.sourceFactoryLink := by
  unfold System.queryCopyStateTasks
  simp only [mem_filter, Bool.and_eq_true, Bool.not_eq_true', decide_eq_true_eq, and_assoc]

def System.Configured (triggers : List (Trigger S D)) (s : System S D) : Prop :=
  ∀ task ∈ s.tasks, triggers[task.trigger]? = some task.config

section

variable {triggers : List (Trigger S D)} {s : System S D}

theorem configured_step [DecidableEq S] [DecidableEq D] (h : s.Configured triggers) {event : Event S} {s' : System S D}
    (hmoved : Moved triggers s event s') : s'.Configured triggers := by
  cases hmoved with
  | stays | patched | pulsed | answered | refused | updated => exact h
  | @posted p i latest t hp ht =>
    intro task htask
    rcases mem_concat.1 htask with htask | rfl
    · exact h task htask
    · exact ht
  | @advanced k old progress hk =>
    intro task htask
    rcases mem_or_eq_of_mem_set htask with htask | rfl
    · exact h task htask
    · obtain ⟨htrigger, hconfig⟩ := advance_trigger old (s.documents old.config.source) progress
      rw [htrigger, hconfig]
      exact h old (mem_of_getElem? hk)

/-- What keeps the tasks of a trigger apart: one of its pulses is at work, and one that posts has no other task beside
it. -/
structure System.OneAtATime (triggers : List (Trigger S D)) (s : System S D) : Prop where
  configured : s.Configured triggers
  pulses : OnePer Pulse.isActive Pulse.trigger s.pulses
  tasks : s.Exclusive
  clear : ∀ pulse ∈ s.pulses, ∀ latest, pulse.phase = .posting latest →
    ∀ task ∈ s.tasks, task.isRunning = true → task.trigger ≠ pulse.trigger

theorem oneAtATime_answered (h : s.OneAtATime triggers) {p i : Nat} {phase : Phase}
    (hp : s.pulses[p]? = some ⟨i, phase⟩) (ht : triggers[i]? = some t) (ok : Bool) :
    (s.setPhase p i (phase.answered (if ok then some (s.queryCopyStateTasks t) else none))).OneAtATime triggers := by
  refine ⟨h.configured, h.pulses.set hp rfl fun hactive => ?_, h.tasks,
    fun pulse hpulse latest hlatest task htask hrunning => ?_⟩
  · refine decide_eq_true fun hover => of_decide_eq_true hactive ?_
    change phase = .over at hover
    rw [hover]
    cases ok <;> rfl
  · rcases mem_or_eq_of_mem_set hpulse with hpulse | rfl
    · exact h.clear pulse hpulse latest hlatest task htask hrunning
    rcases answered_posting hlatest with hposting | ⟨found, hfound, hfinal, -⟩
    · exact h.clear ⟨i, phase⟩ (mem_of_getElem? hp) latest hposting task htask hrunning
    · intro htrigger
      change task.trigger = i at htrigger
      have hconfig := h.configured task htask
      rw [htrigger, ht] at hconfig
      obtain ⟨hexpired, hstage⟩ := Bool.and_eq_true_iff.1 hrunning
      cases ok with
      | false => cases hfound
      | true =>
        cases hfound
        have hmem : task ∈ s.queryCopyStateTasks t := mem_queryCopyStateTasks.2
          ⟨htask, Bool.not_eq_true' _ ▸ hexpired, congrArg Trigger.factoryLink (Option.some.inj hconfig).symm,
            congrArg Trigger.sourceFactoryLink (Option.some.inj hconfig).symm⟩
        rw [hfinal task hmem] at hstage
        cases hstage

theorem oneAtATime_posted [DecidableEq S] [DecidableEq D] (h : s.OneAtATime triggers) {p i latest : Nat}
    (hp : s.pulses[p]? = some ⟨i, .posting latest⟩) (ht : triggers[i]? = some t) :
    ({ s.setPhase p i .over with tasks := s.tasks ++ [buildCopyStateStartState i t latest] } : System S D).OneAtATime
      triggers := by
  have hset : OnePer Pulse.isActive Pulse.trigger (s.pulses.set p ⟨i, .over⟩) :=
    h.pulses.set hp rfl fun hactive => by cases hactive
  refine ⟨configured_step h.configured (.posted hp ht), hset,
    ?_, fun pulse hpulse latest' hlatest task htask hrunning => ?_⟩
  · exact OnePer.append h.tasks fun _ task htask hrunning =>
      h.clear ⟨i, .posting latest⟩ (mem_of_getElem? hp) latest rfl task htask hrunning
  · obtain ⟨j, hj⟩ := mem_iff_getElem?.1 hpulse
    change (s.pulses.set p ⟨i, .over⟩)[j]? = some pulse at hj
    rw [getElem?_set] at hj
    split at hj
    · split at hj
      · cases hj
        cases hlatest
      · cases hj
    · rename_i hpj
      rcases mem_concat.1 htask with htask | rfl
      · exact h.clear pulse (mem_of_getElem? hj) latest' hlatest task htask hrunning
      · refine fun htrigger => hpj (h.pulses p j _ pulse hp hj rfl ?_ htrigger)
        exact decide_eq_true fun hover => by rw [hlatest] at hover; cases hover

theorem oneAtATime_step [DecidableEq S] [DecidableEq D] (h : s.OneAtATime triggers) {event : Event S}
    (halone : Alone s event) {s' : System S D} (hmoved : Moved triggers s event s') : s'.OneAtATime triggers := by
  have hconfigured := configured_step h.configured hmoved
  cases hmoved with
  | stays => exact h
  | patched | updated => exact { h with }
  | pulsed i r isRunning =>
    refine ⟨h.configured, h.pulses.append fun _ => halone, h.tasks, fun pulse hpulse latest hlatest => ?_⟩
    rcases mem_concat.1 hpulse with hpulse | rfl
    · exact h.clear pulse hpulse latest hlatest
    · cases hlatest
  | answered ok hp ht => exact oneAtATime_answered h hp ht ok
  | refused hp =>
    refine ⟨h.configured, h.pulses.set hp rfl fun hactive => (by cases hactive),
      h.tasks, fun pulse hpulse latest hlatest => ?_⟩
    rcases mem_or_eq_of_mem_set hpulse with hpulse | rfl
    · exact h.clear pulse hpulse latest hlatest
    · cases hlatest
  | posted hp ht => exact oneAtATime_posted h hp ht
  | @advanced k old progress hk =>
    have htrigger := (advance_trigger old (s.documents old.config.source) progress).1
    refine ⟨hconfigured, h.pulses, h.tasks.set hk htrigger isRunning_of_advance, ?_⟩
    intro pulse hpulse latest hlatest task htask hrunning
    rcases mem_or_eq_of_mem_set htask with htask | rfl
    · exact h.clear pulse hpulse latest hlatest task htask hrunning
    · rw [htrigger]
      exact h.clear pulse hpulse latest hlatest old (mem_of_getElem? hk) (isRunning_of_advance hrunning)

end

/-! ## Nothing lost -/

def System.NothingLost (triggers : List (Trigger S D)) (s : System S D) : Prop :=
  ∀ task ∈ s.tasks, ∀ t, triggers[task.trigger]? = some t → ∀ document ∈ s.documents t.source,
    document.documentUpdateTimeMicros ≤ task.queryDocumentsChangedSinceEpoc → document ∈ s.copied t.target

/-- Triggers with the same factory links have the same servers. -/
def ToldApart (triggers : List (Trigger S D)) : Prop :=
  ∀ t ∈ triggers, ∀ u ∈ triggers, t.factoryLink = u.factoryLink → t.sourceFactoryLink = u.sourceFactoryLink → t = u

/-- The documents of the trigger's source up to a time that has passed are at its destination, but for some. -/
def System.Covered (s : System S D) (t : Trigger S D) (bound : Nat) (missing : List Document) : Prop :=
  bound ≤ s.clock t.source ∧ ∀ document ∈ s.documents t.source, document.documentUpdateTimeMicros ≤ bound →
    document ∈ s.copied t.target ∨ document ∈ missing

/-- Time goes on, the documents change to later ones, and what is copied stays. -/
structure Grows (s s' : System S D) : Prop where
  clock : ∀ c, s.clock c ≤ s'.clock c
  documents : ∀ c, ∀ document ∈ s'.documents c, document ∈ s.documents c ∨ s.clock c < document.documentUpdateTimeMicros
  copied : ∀ d, ∀ document ∈ s.copied d, document ∈ s'.copied d

variable {s' : System S D}

theorem System.Covered.mono {bound : Nat} {missing : List Document}
    (h : s.Covered t bound missing) (hgrows : Grows s s') : s'.Covered t bound missing := by
  refine ⟨Nat.le_trans h.1 (hgrows.clock _), fun document hdocument htime => ?_⟩
  rcases hgrows.documents _ document hdocument with hold | hlate
  · exact (h.2 document hold htime).imp_left (hgrows.copied _ document)
  · have hclock := h.1
    omega

theorem Grows.of_eq (hclock : s'.clock = s.clock) (hdocuments : s'.documents = s.documents)
    (hcopied : s'.copied = s.copied) : Grows s s' :=
  ⟨fun c => Nat.le_of_eq (congrFun hclock c).symm, fun c _ h => .inl (congrFun hdocuments c ▸ h),
    fun d _ h => congrFun hcopied d ▸ h⟩

/-- What is known of a task: what its start value, what its query and what its end cover. -/
structure System.Sound (s : System S D) (task : Task S D) : Prop where
  start : s.Covered task.config task.queryDocumentsChangedSinceEpoc []
  read : ∀ read, task.read = some read →
    s.Covered task.config (lastUpdateTime task.queryDocumentsChangedSinceEpoc read) read
  finished : task.stage = .finished → s.Covered task.config (task.lastDocumentUpdateTimeEpoc.getD 0) []

theorem System.Sound.mono {s : System S D} {task : Task S D} (h : s.Sound task) (hgrows : Grows s s') : s'.Sound task :=
  ⟨h.start.mono hgrows, fun read hread => (h.read read hread).mono
    hgrows, fun hstage => (h.finished hstage).mono hgrows⟩

theorem lastUpdateTime_le {since bound : Nat} (hsince : since ≤ bound) :
    ∀ {documents : List Document}, (∀ document ∈ documents, document.documentUpdateTimeMicros ≤ bound) →
      lastUpdateTime since documents ≤ bound
  | [], _ => hsince
  | document :: _, h =>
    Nat.max_le.2 ⟨h document mem_cons_self, lastUpdateTime_le hsince fun d hd => h d (mem_cons_of_mem _ hd)⟩

theorem latestUpdateTime_cases (copyStates : List (Task S D)) :
    latestUpdateTime copyStates = 0 ∨ ∃ task ∈ copyStates, task.stage = .finished ∧
      latestUpdateTime copyStates = task.lastDocumentUpdateTimeEpoc.getD 0 := by
  unfold latestUpdateTime
  cases hmax : ((copyStates.filter fun task => task.stage = .finished).map
      fun task => task.lastDocumentUpdateTimeEpoc.getD 0).max? with
  | none => exact .inl rfl
  | some latest =>
    obtain ⟨task, htask, hlatest⟩ := mem_map.1 (max?_mem hmax)
    obtain ⟨hmem, hstage⟩ := mem_filter.1 htask
    exact .inr ⟨task, hmem, of_decide_eq_true hstage, hlatest.symm⟩

theorem sound_advance (h : s.Sound task) {documents : List Document}
    (htimes : ∀ document ∈ documents, document.documentUpdateTimeMicros ≤ s.clock task.config.source)
    (hdocuments : ∀ document ∈ s.documents task.config.source, document ∈ documents) (progress : Progress)
    (hcopied : ∀ document ∈ (task.advance documents progress).2, document ∈ s.copied task.config.target) :
    s.Sound (task.advance documents progress).1 := by
  cases progress with
  | start =>
    rw [Task.advance]
    split
    · exact ⟨h.start, h.read, nofun⟩
    · exact h
  | query =>
    rw [Task.advance]
    split
    · refine ⟨h.start, fun read hread => ?_, h.finished⟩
      cases hread
      refine ⟨lastUpdateTime_le h.start.1 fun d hd => htimes d (mem_of_mem_filter hd), fun document hdocument _ => ?_⟩
      by_cases hsince : task.queryDocumentsChangedSinceEpoc < document.documentUpdateTimeMicros
      · exact .inr (mem_filter.2 ⟨hdocuments document hdocument, decide_eq_true hsince⟩)
      · exact .inl ((h.start.2 document hdocument (Nat.not_lt.1 hsince)).resolve_right not_mem_nil)
    · exact h
  | finish =>
    rw [Task.advance] at hcopied ⊢
    split
    · rename_i read hread
      rw [hread] at hcopied
      split
      · rename_i hstage
        dsimp only at hcopied
        rw [if_pos hstage] at hcopied
        refine ⟨h.start, h.read, fun _ => ⟨(h.read read hread).1, fun document hdocument htime => .inl ?_⟩⟩
        exact ((h.read read hread).2 document hdocument htime).elim id (hcopied document)
      · exact h
    · exact h
  | fail stage copies =>
    rw [Task.advance]
    split
    · rename_i hstage
      refine ⟨h.start, h.read, fun hfinished => ?_⟩
      rcases hstage.2 with rfl | rfl <;> cases hfinished
    · exact h
  | expire => exact { h with }

/-- What every run keeps when the triggers are told apart by their links. -/
structure System.Complete (triggers : List (Trigger S D)) (s : System S D) : Prop where
  configured : s.Configured triggers
  times : ∀ c, ∀ document ∈ s.documents c,
    0 < document.documentUpdateTimeMicros ∧ document.documentUpdateTimeMicros ≤ s.clock c
  tasks : ∀ task ∈ s.tasks, s.Sound task
  pulses : ∀ pulse ∈ s.pulses, ∀ latest, pulse.phase = .posting latest →
    ∀ t, triggers[pulse.trigger]? = some t → s.Covered t latest []

section

variable {triggers : List (Trigger S D)} {s : System S D}

/-- The start value that the second query gives is covered, for the finished tasks it selects are the trigger's own. -/
theorem covered_latestUpdateTime (h : s.Complete triggers) (hapart : ToldApart triggers) {i : Nat}
    (ht : triggers[i]? = some t) : s.Covered t (latestUpdateTime (s.queryCopyStateTasks t)) [] := by
  rcases latestUpdateTime_cases (s.queryCopyStateTasks t) with hzero | ⟨task, htask, hstage, hlatest⟩
  · rw [hzero]
    refine ⟨Nat.zero_le _, fun document hdocument htime => ?_⟩
    have hpos := (h.times _ document hdocument).1
    omega
  · obtain ⟨hmem, -, hfactory, hsource⟩ := mem_queryCopyStateTasks.1 htask
    have hconfig : task.config = t := hapart task.config (mem_of_getElem? (h.configured task hmem)) t
      (mem_of_getElem? ht) hfactory hsource
    rw [hlatest, ← hconfig]
    exact (h.tasks task hmem).finished hstage

theorem complete_of_grows (h : s.Complete triggers) (hgrows : Grows s s') (htasks : s'.tasks = s.tasks)
    (hpulses : s'.pulses = s.pulses) (htimes : ∀ c, ∀ document ∈ s'.documents c,
      0 < document.documentUpdateTimeMicros ∧ document.documentUpdateTimeMicros ≤ s'.clock c) : s'.Complete
      triggers := by
  refine ⟨fun task htask => h.configured task (htasks ▸ htask), htimes,
    fun task htask => (h.tasks task (htasks ▸ htask)).mono hgrows, fun pulse hpulse latest hlatest t ht => ?_⟩
  exact (h.pulses pulse (hpulses ▸ hpulse) latest hlatest t ht).mono hgrows

theorem complete_setPhase (h : s.Complete triggers) {p i : Nat} {phase : Phase}
    (hphase : ∀ latest, phase = .posting latest → ∀ t, triggers[i]? = some t → s.Covered t latest []) :
    (s.setPhase p i phase).Complete triggers := by
  refine ⟨h.configured, h.times, fun task htask => (h.tasks task htask).mono (.of_eq rfl rfl rfl),
    fun pulse hpulse latest hlatest t ht => ?_⟩
  rcases mem_or_eq_of_mem_set hpulse with hpulse | rfl
  · exact h.pulses pulse hpulse latest hlatest t ht
  · exact hphase latest hlatest t ht

theorem grows_updated [DecidableEq S] {source : S × String} {time : Nat} (htime : s.clock source < time)
    (link : String) : Grows s { s with
      documents := fun c => if c = source then
        (s.documents c).filter (fun document => document.documentSelfLink ≠ link) ++ [⟨link, time⟩] else s.documents c
      clock := fun c => if c = source then time else s.clock c } := by
  refine ⟨fun c => ?_, fun c document hdocument => ?_, fun _ _ hdocument => hdocument⟩
  · dsimp only
    split
    · rename_i hc
      exact hc ▸ Nat.le_of_lt htime
    · exact Nat.le_refl _
  · dsimp only at hdocument
    split at hdocument
    · rename_i hc
      rcases mem_concat.1 hdocument with hdocument | rfl
      · exact .inl (mem_of_mem_filter hdocument)
      · exact .inr (hc ▸ htime)
    · exact .inl hdocument

theorem grows_copied [DecidableEq D] (target : D × String) (documents : List Document) (tasks : List (Task S D)) :
    Grows s { s with tasks := tasks
                     copied := fun d => if d = target then s.copied d ++ documents else s.copied d } := by
  refine ⟨fun _ => Nat.le_refl _, fun _ _ => .inl, fun d document hdocument => ?_⟩
  dsimp only
  split
  · exact mem_append_left _ hdocument
  · exact hdocument

theorem complete_step [DecidableEq S] [DecidableEq D] (hapart : ToldApart triggers) (h : s.Complete triggers)
    {event : Event S} (hmoved : Moved triggers s event s') : s'.Complete triggers := by
  have hconfigured := configured_step h.configured hmoved
  cases hmoved with
  | stays => exact h
  | patched =>
    exact complete_of_grows h (.of_eq rfl rfl rfl) rfl rfl h.times
  | pulsed i r isRunning =>
    refine ⟨h.configured, h.times, fun task htask => ?_, fun pulse hpulse latest hlatest => ?_⟩
    · exact (h.tasks task htask).mono (.of_eq rfl rfl rfl)
    · rcases mem_concat.1 hpulse with hpulse | rfl
      · exact h.pulses pulse hpulse latest hlatest
      · cases hlatest
  | @answered p i phase t ok hp ht =>
    refine complete_setPhase h fun latest hlatest u hu => ?_
    rcases answered_posting hlatest with hposting | ⟨found, hfound, -, rfl⟩
    · exact h.pulses ⟨i, phase⟩ (mem_of_getElem? hp) latest hposting u hu
    · cases ok with
      | false => cases hfound
      | true =>
        cases hfound
        cases ht.symm.trans hu
        exact covered_latestUpdateTime h hapart ht
  | refused hp => exact complete_setPhase h nofun
  | @posted p i latest t hp ht =>
    have hset : (s.setPhase p i .over).Complete triggers := complete_setPhase h nofun
    refine ⟨hconfigured, hset.times, fun task htask => ?_, hset.pulses⟩
    rcases mem_concat.1 htask with htask | rfl
    · exact (h.tasks task htask).mono (.of_eq rfl rfl rfl)
    · exact ⟨h.pulses ⟨i, .posting latest⟩ (mem_of_getElem? hp) latest rfl t ht, nofun, nofun⟩
  | @advanced k old progress hk =>
    have hgrows := grows_copied (s := s) old.config.target (old.advance (s.documents old.config.source) progress).2
      (s.tasks.set k (old.advance (s.documents old.config.source) progress).1)
    refine ⟨hconfigured, h.times, fun task htask => ?_, fun pulse hpulse latest hlatest t ht => ?_⟩
    · rcases mem_or_eq_of_mem_set htask with htask | rfl
      · exact (h.tasks task htask).mono hgrows
      · refine sound_advance ((h.tasks old (mem_of_getElem? hk)).mono hgrows) (fun d hd => (h.times _ d hd).2)
          (fun _ hd => hd) progress fun d hd => ?_
        dsimp only
        rw [if_pos rfl]
        exact mem_append_right _ hd
    · exact (h.pulses pulse hpulse latest hlatest t ht).mono hgrows
  | updated link htime =>
    refine complete_of_grows h (grows_updated htime link) rfl rfl fun c document hdocument => ?_
    dsimp only at hdocument ⊢
    split at hdocument
    · rename_i hc
      rw [if_pos hc]
      rcases mem_concat.1 hdocument with hdocument | rfl
      · have hold := h.times c document (mem_of_mem_filter hdocument)
        rw [hc] at hold
        omega
      · exact ⟨by dsimp only; omega, Nat.le_refl _⟩
    · rename_i hc
      rw [if_neg hc]
      exact h.times c document hdocument

end

theorem System.OneAtATime.initial (triggers : List (Trigger S D)) (isRunning : Nat → Bool) :
    (System.initial isRunning : System S D).OneAtATime triggers := by
  refine ⟨nofun, fun _ _ _ _ hi => ?_, fun _ _ _ _ hi => ?_, nofun⟩ <;> cases hi

theorem System.Complete.initial (triggers : List (Trigger S D)) (isRunning : Nat → Bool) :
    (System.initial isRunning : System S D).Complete triggers := by
  exact ⟨nofun, nofun, nofun, nofun⟩

theorem nothingLost_of_complete {triggers : List (Trigger S D)} (h : s.Complete triggers) : s.NothingLost triggers := by
  intro task htask t ht document hdocument htime
  cases (h.configured task htask).symm.trans ht
  exact ((h.tasks task htask).start.2 document hdocument htime).resolve_right not_mem_nil

/-! ## Runs -/

def toFirst : Trigger Nat Nat := ⟨0, "/esxcloud/vms", 1, "/photon/vms"⟩

def toSecond : Trigger Nat Nat := ⟨0, "/esxcloud/vms", 2, "/photon/vms"⟩

def wholePulse (i p : Nat) : List (Event Nat) := [.patch i none, .answered p true, .answered p true, .posted p true]

def wholeCopy (k : Nat) : List (Event Nat) := [.progress k .start, .progress k .query, .progress k .finish]

/-- A machine is updated, copied by the first trigger, and a pulse of the second follows. -/
def copiedBetween : List (Event Nat) := .update toFirst.source "vm" 5 :: wholePulse 0 0 ++ wholeCopy 0 ++ wholePulse 1 1

/-- **Exclusive and lossless.**  A trigger has never two unfinished tasks if it is never patched while an earlier pulse
of it is at work, and every task starts from what its own destination has if triggers with the same factory links have
the same servers. -/
theorem triggers_exclusive_and_lossless [DecidableEq S] [DecidableEq D] (triggers : List (Trigger S D))
    (isRunning : Nat → Bool) (events : List (Event S)) :
    (Meets (System.step triggers) Alone (.initial isRunning) events →
      Always (System.step triggers) System.Exclusive (.initial isRunning) events) ∧
    (ToldApart triggers →
      Always (System.step triggers) (System.NothingLost triggers) (.initial isRunning) events) := by
  constructor
  · intro hmeets
    have hstep : ∀ (s : System S D) (event : Event S), s.OneAtATime triggers → Alone s event →
        (s.step triggers event).OneAtATime triggers :=
      fun s event h halone => oneAtATime_step h halone (moved_step triggers s event)
    exact (Runs.always_of_meets hstep (System.OneAtATime.initial triggers isRunning) hmeets).mono fun _ h => h.tasks
  · intro hapart
    have hstep : ∀ (s : System S D) (event : Event S), s.Complete triggers →
      (s.step triggers event).Complete triggers :=
      fun s event h => complete_step hapart h (moved_step triggers s event)
    exact (Runs.always_of_inv hstep events
      (System.Complete.initial triggers isRunning)).mono fun _ => nothingLost_of_complete

instance : ∀ (s : System Nat Nat) (event : Event Nat), Decidable (Alone s event)
  | s, .patch i _ => inferInstanceAs (Decidable (∀ p ∈ s.pulses, p.isActive = true → p.trigger ≠ i))
  | _, .answered .. | _, .posted .. | _, .progress .. | _, .update .. => .isTrue trivial

theorem triggers_exclusive_and_lossless_copied :
    Always (System.step [toFirst, toSecond]) System.Exclusive (.initial fun _ => true) copiedBetween ∧
    Always (System.step [toFirst]) (System.NothingLost [toFirst]) (.initial fun _ => true) copiedBetween := by
  refine ⟨(triggers_exclusive_and_lossless _ _ _).1 (by decide +kernel), (triggers_exclusive_and_lossless _ _ _).2 ?_⟩
  intro t ht u hu _ _
  rw [mem_singleton.1 ht, mem_singleton.1 hu]

/-- Two pulses of one trigger that overlap create two tasks; and a task to server 2 starts from what was copied to
server 1. -/
theorem triggers_overlap_and_lose :
    ¬ Always (System.step [toFirst]) System.Exclusive (.initial fun _ => true)
      [.patch 0 none, .patch 0 none, .answered 0 true, .answered 1 true, .answered 0 true, .answered 1 true,
        .posted 0 true, .posted 1 true] ∧
    ¬ Always (System.step [toFirst, toSecond]) (System.NothingLost [toFirst, toSecond]) (.initial fun _ => true)
      copiedBetween := by
  constructor
  · intro h
    exact absurd (h.run 0 1 _ _ rfl rfl rfl rfl rfl) (by decide)
  · intro h
    have hlost := h.run ⟨toSecond, 5, .created, none, none, false, 1⟩ (mem_of_getElem? (i := 1) rfl) toSecond rfl
      ⟨"vm", 5⟩ (mem_of_getElem? (i := 0) rfl) (Nat.le_refl 5)
    cases hlost

end Photon.Deployer.CopyStateTrigger
