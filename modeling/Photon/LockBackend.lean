import Mathlib.Data.List.Infix
import Photon.Keyed
import Photon.LockService
/-!
# LockBackend — the locks of tasks

`EntityLockDcpBackend` takes and releases locks for tasks.  A task runs one call at a time, and the calls of several
tasks interleave between store calls: `setTaskLock` posts and then adds the id to the list of the task, and
`clearTaskLocks` posts a release for each id of the list and replaces the list when it has been through it.  So while a
task is clearing, its list still has the ids it has released.

The invariant says what a task owns, which is its list but for the ids released: each of these locks is held by the
task.
-/
namespace Photon.ApiFrontend.EntityLock

open Keyed (LinkedMap)
open CloudStore.EntityLock
open Runs (run Always Meets)

inductive Doing where
  | idle
  /-- `setTaskLock`: the store has accepted, the id is to be added. -/
  | adding (entityId : String)
  /-- `clearTaskLocks`, with the ids it has still to release and `failedToDeleteLockedEntityIds`. -/
  | clearing (left failed : List String)

structure Task where
  lockedEntityIds : List String
  doing : Doing

/-- The ids of the tasks, distinct even ignoring case. -/
structure TaskIds (chars : Characters) (ι : Type) where
  id : ι → String
  distinct : ∀ i j, equalsIgnoreCase chars (id i) (id j) = true → i = j

structure System (ι : Type) where
  locks : LinkedMap String State
  tasks : ι → Task

/-- The steps of the calls.  A store call is served, or fails without effect. -/
inductive Event (ι : Type) where
  | setTaskLock (task : ι) (entityId : String) (served : Bool)
  | addLockedEntityId (task : ι)
  | clearTaskLocks (task : ι)
  | release (task : ι) (served : Bool)
  | setLockedEntityIds (task : ι)

inductive TaskLockError where
  | concurrentTask
  | storeError (error : LockError)

/-- How `setTaskLock` ends; an error with the message of a taken lock is a `ConcurrentTaskException`. -/
def taskLockResult : Response → Except TaskLockError Unit
  | .rejected error =>
    if lockTakenMessage.toList <:+: error.message.toList then .error .concurrentTask else .error (.storeError error)
  | _ => .ok ()

variable {ι : Type} [DecidableEq ι] {chars : Characters}

section

variable (ids : TaskIds chars ι)

def post (locks : LinkedMap String State) (task : ι) (entityId : String) (isAvailable : Bool) :
    LinkedMap String State × Response :=
  match handle chars (locks.get entityId) (.post (some (State.toBody ⟨entityId, ids.id task, isAvailable⟩))) with
  | (some state, response) => (locks.put entityId state, response)
  | (none, response) => (locks, response)

namespace System

variable (s : System ι)

def setTask (task : ι) (t : Task) : System ι := { s with tasks := Function.update s.tasks task t }

def setTaskLock (task : ι) (entityId : String) (served : Bool) : System ι :=
  if served then
    let (locks, response) := post ids s.locks task entityId false
    match taskLockResult response with
    | .ok () => { s with locks := locks }.setTask task { s.tasks task with doing := .adding entityId }
    | .error _ => { s with locks := locks }
  else s

def release (task : ι) (entityId : String) (left failed : List String) (served : Bool) : System ι :=
  if served then
    let (locks, response) := post ids s.locks task entityId true
    let failed := if response.accepted then failed else failed ++ [entityId]
    { s with locks := locks }.setTask task { s.tasks task with doing := .clearing left failed }
  else s.setTask task { s.tasks task with doing := .clearing left (failed ++ [entityId]) }

def step : Event ι → System ι
  | .setTaskLock task entityId served =>
    match (s.tasks task).doing with
    | .idle => s.setTaskLock ids task entityId served
    | _ => s
  | .addLockedEntityId task =>
    match (s.tasks task).doing with
    | .adding entityId => s.setTask task ⟨(s.tasks task).lockedEntityIds ++ [entityId], .idle⟩
    | _ => s
  | .clearTaskLocks task =>
    match (s.tasks task).doing with
    | .idle => s.setTask task { s.tasks task with doing := .clearing (s.tasks task).lockedEntityIds [] }
    | _ => s
  | .release task served =>
    match (s.tasks task).doing with
    | .clearing (entityId :: left) failed => s.release ids task entityId left failed served
    | _ => s
  | .setLockedEntityIds task =>
    match (s.tasks task).doing with
    | .clearing [] failed => s.setTask task ⟨failed, .idle⟩
    | _ => s

end System

end

def System.start (locks : LinkedMap String State) : System ι := ⟨locks, fun _ => ⟨[], .idle⟩⟩

def Fresh (s : System ι) : Event ι → Prop
  | .setTaskLock task entityId _ => entityId ∉ (s.tasks task).lockedEntityIds
  | _ => True

/-- The task is clearing its locks, and has had the release of this one accepted. -/
def Task.Released (task : Task) (entityId : String) : Prop :=
  ∃ left failed, task.doing = .clearing left failed ∧ entityId ∉ left ∧ entityId ∉ failed

/-- An id is in the lists of two tasks only if one of them has released it and is still clearing its locks. -/
def Exclusive (s : System ι) : Prop :=
  ∀ a b entityId, a ≠ b → entityId ∈ (s.tasks a).lockedEntityIds → entityId ∈ (s.tasks b).lockedEntityIds →
    (s.tasks a).Released entityId ∨ (s.tasks b).Released entityId

/-! ## What a task owns -/

def Task.owned (task : Task) : List String :=
  match task.doing with
  | .idle => task.lockedEntityIds
  | .adding entityId => entityId :: task.lockedEntityIds
  | .clearing left failed => failed ++ left

structure Inv (ids : TaskIds chars ι) (s : System ι) : Prop where
  nodup : ∀ task, (s.tasks task).owned.Nodup
  held : ∀ task, ∀ entityId ∈ (s.tasks task).owned, HeldBy chars (ids.id task) (s.locks.get entityId)

theorem accepted_of_ok {response : Response} (h : taskLockResult response = .ok ()) : response.accepted = true := by
  cases response with
  | rejected error =>
    rw [taskLockResult] at h
    split at h <;> cases h
  | _ => rfl

theorem rejected_of_error {response : Response} {error : TaskLockError} (h : taskLockResult response = .error error) :
    response.accepted = false := by
  cases response with
  | rejected error => rfl
  | _ => cases h

variable {ids : TaskIds chars ι} {s : System ι} {task : ι}

omit [DecidableEq ι] in
theorem get_post (locks : LinkedMap String State) (task : ι) (entityId : String) (isAvailable : Bool) (e : String) :
    (post ids locks task entityId isAvailable).1.get e = if e = entityId then
      serve chars (locks.get entityId) (.post (some (State.toBody ⟨entityId, ids.id task, isAvailable⟩)))
        else locks.get e := by
  simp only [post, serve]
  split
  · rename_i state response heq
    rw [LinkedMap.get_put, heq]
  · rename_i response heq
    rw [heq]
    split
    · rename_i he
      subst he
      cases hget : locks.get e with
      | none => rfl
      | some state =>
        rw [hget, handle_some] at heq
        cases heq
    · rfl

omit [DecidableEq ι] in
theorem post_response (locks : LinkedMap String State) (task : ι) (entityId : String) (isAvailable : Bool) :
    (post ids locks task entityId isAvailable).2 =
      (handle chars (locks.get entityId) (.post (some (State.toBody ⟨entityId, ids.id task, isAvailable⟩)))).2 := by
  simp only [post]
  split <;> rename_i heq <;> rw [heq]

variable {locks : LinkedMap String State} {entityId : String}

omit [DecidableEq ι] in
theorem held_post {u : ι} {e : String} (h : HeldBy chars (ids.id u) (locks.get e))
    (hne : u ≠ task ∨ e ≠ entityId) (isAvailable : Bool) :
    HeldBy chars (ids.id u) ((post ids locks task entityId isAvailable).1.get e) := by
  rw [get_post]
  split
  · rename_i he
    subst he
    refine h.serve_other rfl ?_
    cases hsame : equalsIgnoreCase chars (ids.id task) (ids.id u) with
    | false => rfl
    | true =>
      rcases hne with hne | hne
      · exact absurd (ids.distinct task u hsame).symm hne
      · exact absurd rfl hne
  · exact h

omit [DecidableEq ι] in
theorem post_rejected {isAvailable : Bool} (h : (post ids locks task entityId isAvailable).2.accepted = false)
    (e : String) : (post ids locks task entityId isAvailable).1.get e = locks.get e := by
  rw [post_response] at h
  rw [get_post]
  split
  · rename_i he
    rw [he]
    exact handle_rejected h
  · rfl

omit [DecidableEq ι] in
theorem held_of_accepted (h : (post ids locks task entityId false).2.accepted = true) :
    HeldBy chars (ids.id task) ((post ids locks task entityId false).1.get entityId) := by
  rw [post_response] at h
  rw [get_post, if_pos rfl]
  exact ⟨_, (serve_of_accepted rfl h).1, rfl, (equalsIgnoreCase_iff _ _).2 rfl⟩

namespace Inv

variable (h : Inv ids s)
include h

theorem setTask {locks : LinkedMap String State} {t : Task} (hnodup : t.owned.Nodup)
    (hheld : ∀ e ∈ t.owned, HeldBy chars (ids.id task) (locks.get e))
    (hothers : ∀ u e, u ≠ task → HeldBy chars (ids.id u) (s.locks.get e) → HeldBy chars (ids.id u) (locks.get e)) :
    Inv ids (System.setTask { s with locks := locks } task t) where
  nodup u := by
    simp only [System.setTask, Function.update_apply]
    split
    · exact hnodup
    · exact h.nodup u
  held u e := by
    simp only [System.setTask, Function.update_apply]
    split
    · rename_i hu
      subst hu
      exact hheld e
    · rename_i hu
      exact fun he => hothers u e hu (h.held u e he)

theorem goOn {t : Task} (hperm : t.owned.Perm (s.tasks task).owned) : Inv ids (s.setTask task t) :=
  h.setTask (hperm.nodup_iff.2 (h.nodup task)) (fun e he => h.held task e (hperm.subset he)) (fun _ _ _ hu => hu)

theorem setTaskLock {entityId : String} (hidle : (s.tasks task).doing = .idle)
    (hfresh : entityId ∉ (s.tasks task).lockedEntityIds) (served : Bool) :
    Inv ids (s.setTaskLock ids task entityId served) := by
  have howned : (s.tasks task).owned = (s.tasks task).lockedEntityIds := by simp only [Task.owned, hidle]
  unfold System.setTaskLock
  split
  · dsimp only
    split
    · rename_i hok
      refine h.setTask ?_ ?_ (fun u e hu hheld => held_post hheld (.inl hu) false)
      · exact List.nodup_cons.2 ⟨hfresh, howned ▸ h.nodup task⟩
      · intro e he
        rcases List.mem_cons.1 he with rfl | he
        · exact held_of_accepted (accepted_of_ok hok)
        · refine held_post (h.held task e (howned.symm ▸ he)) (.inr ?_) false
          rintro rfl
          exact hfresh he
    · rename_i herror
      refine ⟨h.nodup, fun u e he => ?_⟩
      rw [post_rejected (rejected_of_error herror)]
      exact h.held u e he
  · exact h

theorem release {entityId : String} {left failed : List String}
    (hclearing : (s.tasks task).doing = .clearing (entityId :: left) failed) (served : Bool) :
    Inv ids (s.release ids task entityId left failed served) := by
  have howned : (s.tasks task).owned = failed ++ entityId :: left := by simp only [Task.owned, hclearing]
  have hnodup : (failed ++ entityId :: left).Nodup := howned ▸ h.nodup task
  have hheld : ∀ e ∈ failed ++ entityId :: left, HeldBy chars (ids.id task) (s.locks.get e) :=
    fun e he => h.held task e (howned.symm ▸ he)
  -- an id that could not be released moves from one list to the other
  have hkept : failed ++ [entityId] ++ left = failed ++ entityId :: left := by simp
  unfold System.release
  split
  · dsimp only
    refine h.setTask ?_ ?_ (fun u e hu hu' => held_post hu' (.inl hu) true)
    · simp only [Task.owned]
      split
      · exact hnodup.sublist (List.Sublist.append_left (List.sublist_cons_self _ _) _)
      · exact hkept.symm ▸ hnodup
    · simp only [Task.owned]
      split
      · intro e he
        refine held_post (hheld e ((List.Sublist.append_left (List.sublist_cons_self _ _) _).subset he)) (.inr ?_) true
        rintro rfl
        exact (List.nodup_middle.1 hnodup).notMem he
      · rename_i hrejected
        intro e he
        rw [post_rejected (by simpa using hrejected)]
        exact hheld e (hkept ▸ he)
  · refine h.goOn ?_
    rw [howned, ← hkept]
    exact List.Perm.refl _

theorem step {e : Event ι} (hfresh : Fresh s e) : Inv ids (s.step ids e) := by
  cases e with
  | setTaskLock task entityId served =>
    simp only [System.step]
    split
    · rename_i hidle
      exact h.setTaskLock hidle hfresh served
    · exact h
  | addLockedEntityId task =>
    simp only [System.step]
    split
    · rename_i entityId hadding
      refine h.goOn ?_
      simp only [Task.owned, hadding]
      exact List.perm_append_singleton _ _
    · exact h
  | clearTaskLocks task =>
    simp only [System.step]
    split
    · rename_i hidle
      refine h.goOn ?_
      simp only [Task.owned, hidle, List.nil_append]
      exact List.Perm.refl _
    · exact h
  | release task served =>
    simp only [System.step]
    split
    · rename_i entityId left failed hclearing
      exact h.release hclearing served
    · exact h
  | setLockedEntityIds task =>
    simp only [System.step]
    split
    · rename_i failed hclearing
      refine h.goOn ?_
      simp only [Task.owned, hclearing, List.append_nil]
      exact List.Perm.refl _
    · exact h

end Inv

omit [DecidableEq ι] in
theorem inv_start (locks : LinkedMap String State) : Inv ids (System.start locks) where
  nodup _ := List.nodup_nil
  held _ _ he := nomatch he

theorem Task.mem_owned_or_released {task : Task} {e : String} (h : e ∈ task.lockedEntityIds) :
    e ∈ task.owned ∨ task.Released e := by
  cases hdoing : task.doing with
  | idle => exact .inl (by simpa only [Task.owned, hdoing] using h)
  | adding entityId => exact .inl (by simpa only [Task.owned, hdoing] using List.mem_cons_of_mem _ h)
  | clearing left failed =>
    by_cases hmem : e ∈ failed ++ left
    · exact .inl (by simpa only [Task.owned, hdoing] using hmem)
    · rw [List.mem_append, not_or] at hmem
      exact .inr ⟨left, failed, hdoing, hmem.2, hmem.1⟩

omit [DecidableEq ι] in
theorem Inv.exclusive (h : Inv ids s) : Exclusive s := by
  intro a b e hne ha hb
  rcases Task.mem_owned_or_released ha with hownA | hreleased
  · rcases Task.mem_owned_or_released hb with hownB | hreleased
    · exact absurd (ids.distinct a b ((h.held a e hownA).owner_unique (h.held b e hownB))) hne
    · exact .inr hreleased
  · exact .inl hreleased

/-- **Entity locks are mutually exclusive.**  A lock passes from one owner to another only through an accepted release
by the first, a rejected request changes nothing, and in every interleaving of `setTaskLock` and `clearTaskLocks` in
which no task asks for a lock it has, an id is in the lists of two tasks only while one of them, having released it, is
still clearing. -/
theorem entityLocks_exclusive (chars : Characters) (ids : TaskIds chars ι) :
    (∀ a b doc requests, HeldBy chars a doc → HeldBy chars b (run (serve chars) doc requests) →
      equalsIgnoreCase chars a b = false → ∃ before request after, requests = before ++ request :: after ∧
        request.ReleaseBy chars a ∧ (handle chars (run (serve chars) doc before) request).2 = .completed) ∧
    (∀ doc request, (handle chars doc request).2.accepted = false → (handle chars doc request).1 = doc) ∧
    ∀ locks events, Meets (System.step ids) Fresh (System.start locks) events →
      Always (System.step ids) Exclusive (System.start locks) events := by
  refine ⟨fun a b doc requests ha hb hne => released_between ha hb hne, fun doc request h => handle_rejected h, ?_⟩
  intro locks events hfresh
  have hstep : ∀ s e, Inv ids s → Fresh s e → Inv ids (System.step ids s e) := fun s e h hf => h.step hf
  exact (Runs.always_of_meets hstep (inv_start locks) hfresh).mono (fun s h => h.exclusive)

def ascii : Characters := ⟨fun c => c.toUpper.toLower, Char.isWhitespace⟩

def twoTasks : TaskIds ascii Bool where
  id second := if second then "task-b" else "task-a"
  distinct := by decide +kernel

/-- The second task gets the lock only once the first has cleared its locks. -/
def oneAfterTheOther : List (Event Bool) :=
  [.setTaskLock false "vm" true, .addLockedEntityId false, .setTaskLock true "vm" true, .clearTaskLocks false,
    .release false true, .setLockedEntityIds false, .setTaskLock true "vm" true, .addLockedEntityId true]

theorem twoTasks_exclusive : Always (System.step twoTasks) Exclusive (System.start .empty) oneAfterTheOther := by
  have hfresh : Meets (System.step twoTasks) Fresh (System.start .empty) oneAfterTheOther := by
    refine ⟨?_, trivial, ?_, trivial, trivial, trivial, ?_, trivial, trivial⟩ <;> (simp only [Fresh]; decide +kernel)
  exact (entityLocks_exclusive ascii twoTasks).2.2 .empty oneAfterTheOther hfresh

/-- The second task gets the lock as soon as it is released. -/
def rightAfterTheRelease : List (Event Bool) :=
  [.setTaskLock false "vm" true, .addLockedEntityId false, .clearTaskLocks false, .release false true,
    .setTaskLock true "vm" true, .addLockedEntityId true]

/-- The lock of the second task is still in the list of the first. -/
theorem released_id_shared : Meets (System.step twoTasks) Fresh (System.start .empty) rightAfterTheRelease ∧
    ∀ task, "vm" ∈
      ((run (System.step twoTasks) (System.start .empty) rightAfterTheRelease).tasks task).lockedEntityIds := by
  refine ⟨⟨?_, trivial, trivial, trivial, ?_, trivial, trivial⟩, by decide +kernel⟩ <;>
    (simp only [Fresh]; decide +kernel)

end Photon.ApiFrontend.EntityLock
