import Photon.Keyed
import Photon.LockService
/-!
# LockCleaner — releasing the locks of tasks that have ended

`EntityLockCleanerService` reads a page of old lock documents, reads the task that owns each of them, and releases the
locks of the tasks that have ended.  The reads are joined, and so are the releases.  What is released is the lock of the
entity the *task document* names: the lock that led to the task is not looked at again.  So a lock of the page is
released where it is the lock of its task's own entity, and not otherwise; and one owner that is gone ends the run
before anything is released.
-/
namespace Photon.CloudStore.EntityLockCleaner

open List
open Keyed (LinkedMap)
open EntityLock (Characters State Body Response equalsIgnoreCase validateNotBlank handle serve)

inductive TaskState where
  | queued
  | started
  | error
  | completed
  deriving DecidableEq

/-- What is read of the document of a task.  Its id is the last part of its link, and so the id it is read by. -/
structure TaskDocument where
  state : TaskState
  entityId : Option String
  deriving DecidableEq

def TaskDocument.ended (task : TaskDocument) : Bool := task.state != .queued && task.state != .started

def notBlank (chars : Characters) (id : String) : Bool := !id.toList.all chars.isWhitespace

/-- The documents of the tasks.  Ids are not blank, and differ in more than the case of their letters. -/
structure TaskStore (chars : Characters) where
  get : String → Option TaskDocument
  notBlank_of_get : ∀ id task, get id = some task → notBlank chars id = true
  eq_of_get : ∀ a b s t, get a = some s → get b = some t → equalsIgnoreCase chars a b = true → a = b

structure LockStore (chars : Characters) where
  locks : LinkedMap String State
  entityId_of_get : ∀ e state, locks.get e = some state → state.entityId = e
  notBlank_of_get : ∀ e state, locks.get e = some state → notBlank chars e = true

/-- The answers a run gets: which of the reads are answered, and which of the releases arrive and are answered. -/
structure Answers where
  read : Nat → Bool
  arrives : Nat → Bool
  answered : Nat → Bool

def Answers.Complete (answers : Answers) : Prop :=
  ∀ k, answers.read k = true ∧ answers.arrives k = true ∧ answers.answered k = true

structure Release where
  ownerId : String
  entityId : Option String
  deriving DecidableEq

/-- The name in the link of the lock; Java writes a missing entity as `null`. -/
def Release.link (release : Release) : String := release.entityId.getD "null"

def Release.body (release : Release) : Body := ⟨release.entityId, some release.ownerId, some true⟩

inductive Stage where
  | finished
  | failed
  deriving DecidableEq

structure Outcome where
  locks : LinkedMap String State
  stage : Stage
  danglingEntityLocks : Option Nat
  releasedEntityLocks : Option Nat

section

variable (chars : Characters)

def getTask (answers : Answers) (tasks : TaskStore chars) (ownerId : String) (k : Nat) : Option TaskDocument :=
  if answers.read k then tasks.get ownerId else none

/-- The joined reads of the owners; none if one of them fails, as the read of a task that is gone does. -/
def getTasksAssociatedWithEntityLocks (answers : Answers) (tasks : TaskStore chars) :
    List State → Nat → Option (List (String × TaskDocument))
  | [], _ => some []
  | lock :: page, k => do
    let task ← getTask chars answers tasks lock.ownerId k
    let rest ← getTasksAssociatedWithEntityLocks answers tasks page (k + 1)
    some ((lock.ownerId, task) :: rest)

def getReleaseLockOperationsForEntityLocks (read : List (String × TaskDocument)) : List Release :=
  read.filterMap fun op => if op.2.ended then some ⟨op.1, op.2.entityId⟩ else none

def saved (locks : LinkedMap String State) (link : String) : Option State → LinkedMap String State
  | some state => locks.put link state
  | none => locks

def postRelease (locks : LinkedMap String State) (release : Release) : LinkedMap String State × Response :=
  let handled := handle chars (locks.get release.link) (.post (some release.body))
  (saved locks release.link handled.1, handled.2)

def sendReleases (answers : Answers) : List Release → Nat → LinkedMap String State → LinkedMap String State × Bool
  | [], _, locks => (locks, true)
  | release :: releases, k, locks =>
    if answers.arrives k then
      let posted := postRelease chars locks release
      let rest := sendReleases answers releases (k + 1) posted.1
      (rest.1, answers.answered k && posted.2.accepted && rest.2)
    else ((sendReleases answers releases (k + 1) locks).1, false)

def releaseUnreleasedEntityLocks (answers : Answers) (tasks : TaskStore chars) (page : List State)
    (locks : LinkedMap String State) : Outcome :=
  if page.isEmpty then ⟨locks, .finished, none, none⟩
  else
    match getTasksAssociatedWithEntityLocks chars answers tasks page 0 with
    | none => ⟨locks, .failed, none, none⟩
    | some read =>
      let releases := getReleaseLockOperationsForEntityLocks read
      if releases.isEmpty then ⟨locks, .finished, some 0, some 0⟩
      else
        let sent := sendReleases chars answers releases 0 locks
        if sent.2 then ⟨sent.1, .finished, some releases.length, some releases.length⟩
        else ⟨sent.1, .failed, none, none⟩

end

/-! ## What a run is to do -/

section

variable {chars : Characters}

def Ended (tasks : TaskStore chars) (ownerId : String) : Prop :=
    ∃ task, tasks.get ownerId = some task ∧ task.ended = true

def OwnedBy (chars : Characters) (ownerId : String) (doc : Option State) : Prop :=
  ∃ state, doc = some state ∧ equalsIgnoreCase chars state.ownerId ownerId = true

/-- **What a run may change.**  A lock of the page whose owner was read as ended and still owns it. -/
def Safe (tasks : TaskStore chars) (page : List State) (locks locks' : LinkedMap String State) : Prop :=
  ∀ e, locks'.get e ≠ locks.get e →
    ∃ lock ∈ page, lock.entityId = e ∧ Ended tasks lock.ownerId ∧ OwnedBy chars lock.ownerId (locks.get e)

/-- The lock of the page is held by a task that has ended, and has not been taken by another since it was read. -/
def Dangling (tasks : TaskStore chars) (page : List State) (locks : LinkedMap String State) (lock : State) : Prop :=
  lock ∈ page ∧ lock.isAvailable = false ∧ Ended tasks lock.ownerId ∧ locks.get lock.entityId = some lock

/-- **What a run is to change.**  Every dangling lock of the page is released. -/
def Cleaned (tasks : TaskStore chars) (page : List State) (locks locks' : LinkedMap String State) : Prop :=
  ∀ lock, Dangling tasks page locks lock → locks'.get lock.entityId = some { lock with isAvailable := true }

/-- Whatever the answers, the run is safe, and with all of them it cleans the page. -/
def CleansPage (tasks : TaskStore chars) (page : List State) (store : LockStore chars) : Prop :=
  ∀ answers : Answers,
    Safe tasks page store.locks (releaseUnreleasedEntityLocks chars answers tasks page store.locks).locks ∧
    (answers.Complete → Cleaned tasks page store.locks
      (releaseUnreleasedEntityLocks chars answers tasks page store.locks).locks)

def OwnersExist (tasks : TaskStore chars) (page : List State) : Prop :=
  ∀ lock ∈ page, ∃ task, tasks.get lock.ownerId = some task

/-- A dangling lock of the page is the lock of its owner's own entity, and then no owner is gone.  And the lock of the
entity of an owner that has ended is in the page, if the owner still has it to release. -/
structure OwnEntities (tasks : TaskStore chars) (page : List State) (locks : LinkedMap String State) : Prop where
  ownersExist : ∀ lock, Dangling tasks page locks lock → OwnersExist tasks page
  own : ∀ lock task, Dangling tasks page locks lock → tasks.get lock.ownerId = some task →
    task.entityId = some lock.entityId
  inPage : OwnersExist tasks page → ∀ lock ∈ page, ∀ task e, tasks.get lock.ownerId = some task → task.ended = true →
    task.entityId = some e → OwnedBy chars lock.ownerId (locks.get e) → locks.get e ≠ some ⟨e, lock.ownerId, true⟩ →
    ∃ lock' ∈ page, lock'.entityId = e ∧ lock'.ownerId = lock.ownerId

end

/-! ## The reads -/

section

variable {chars : Characters} {answers : Answers} {tasks : TaskStore chars}

theorem getTask_eq_some {ownerId : String} {k : Nat} {task : TaskDocument}
    (h : getTask chars answers tasks ownerId k = some task) : tasks.get ownerId = some task := by
  rw [getTask] at h
  split at h
  · exact h
  · cases h

theorem getTasks_isSome (hanswers : ∀ k, answers.read k = true) :
    ∀ (page : List State) (k : Nat), OwnersExist tasks page →
    ∃ read, getTasksAssociatedWithEntityLocks chars answers tasks page k = some read
  | [], _, _ => ⟨[], rfl⟩
  | lock :: page, k, h => by
    obtain ⟨task, htask⟩ := h lock mem_cons_self
    obtain ⟨rest, hrest⟩ := getTasks_isSome hanswers page (k + 1) (fun l hl => h l (mem_cons_of_mem _ hl))
    refine ⟨(lock.ownerId, task) :: rest, ?_⟩
    rw [getTasksAssociatedWithEntityLocks, getTask, if_pos (hanswers k), htask, hrest]
    rfl

theorem getTasks_spec : ∀ (page : List State) (k : Nat) {read : List (String × TaskDocument)},
    getTasksAssociatedWithEntityLocks chars answers tasks page k = some read → OwnersExist tasks page ∧
      ∀ owner task, (owner, task) ∈ read ↔ ∃ lock ∈ page, lock.ownerId = owner ∧ tasks.get owner = some task
  | [], _, _, h => by
    cases h
    exact ⟨nofun, by simp⟩
  | lock :: page, k, read, h => by
    simp only [getTasksAssociatedWithEntityLocks, Option.bind_eq_bind, Option.bind_eq_some_iff] at h
    obtain ⟨first, hfirst, rest, hrest, hread⟩ := h
    cases hread
    have hget := getTask_eq_some hfirst
    obtain ⟨howners, hmem⟩ := getTasks_spec page (k + 1) hrest
    refine ⟨forall_mem_cons.2 ⟨⟨first, hget⟩, howners⟩, fun owner task => ?_⟩
    rw [mem_cons, hmem, exists_mem_cons_iff]
    refine or_congr_left ⟨fun heq => ?_, fun htask => ?_⟩
    · cases heq
      exact ⟨rfl, hget⟩
    · obtain ⟨rfl, htask⟩ := htask
      rw [hget] at htask
      cases htask
      rfl

theorem mem_releases {page : List State} {read : List (String × TaskDocument)} {release : Release}
    (h : getTasksAssociatedWithEntityLocks chars answers tasks page 0 = some read) :
    release ∈ getReleaseLockOperationsForEntityLocks read ↔
      ∃ lock ∈ page, ∃ task, tasks.get lock.ownerId = some task ∧ task.ended = true ∧
        release = ⟨lock.ownerId, task.entityId⟩ := by
  simp only [getReleaseLockOperationsForEntityLocks, mem_filterMap]
  constructor
  · intro hmem
    obtain ⟨⟨owner, task⟩, hop, hrelease⟩ := hmem
    obtain ⟨lock, hlock, rfl, htask⟩ := ((getTasks_spec page 0 h).2 owner task).1 hop
    split at hrelease
    · rename_i hended
      exact ⟨lock, hlock, task, htask, hended, (Option.some.inj hrelease).symm⟩
    · cases hrelease
  · intro hmem
    obtain ⟨lock, hlock, task, htask, hended, rfl⟩ := hmem
    exact ⟨(lock.ownerId, task), ((getTasks_spec page 0 h).2 _ task).2 ⟨lock, hlock, rfl, htask⟩, by rw [if_pos hended]⟩

end

/-! ## The releases -/

section

variable {chars : Characters} {answers : Answers}

theorem get_saved (locks : LinkedMap String State) (link e : String) (doc : Option State)
    (h : doc = none → locks.get link = none) :
    (saved locks link doc).get e = if e = link then doc else locks.get e := by
  cases doc with
  | some state => exact LinkedMap.get_put locks link e state
  | none =>
    rw [saved]
    split
    · rename_i heq
      rw [heq, h rfl]
    · rfl

variable {doc : Option State}

theorem get_postRelease (locks : LinkedMap String State) (release : Release) (e : String) :
    (postRelease chars locks release).1.get e =
      if e = release.link then serve chars (locks.get release.link) (.post (some release.body)) else locks.get e := by
  rw [postRelease, get_saved _ _ _ _ fun h => by cases hdoc : locks.get release.link <;>
    first | rfl | (rw [hdoc] at h; cases h)]
  rfl

def Releases (chars : Characters) (release : Release) (e : String) (doc : Option State) : Prop :=
  release.entityId = some e ∧ OwnedBy chars release.ownerId doc

variable {e : String}

variable {release : Release}

theorem serve_release (hrelease : Releases chars release e doc)
    (hentity : ∀ state, doc = some state → state.entityId = e) (he : notBlank chars e = true)
    (howner : notBlank chars release.ownerId = true) :
    serve chars doc (.post (some release.body)) = some ⟨e, release.ownerId, true⟩ := by
  obtain ⟨hid, state, rfl, hown⟩ := hrelease
  obtain rfl := hentity state rfl
  rw [show release.body = State.toBody ⟨state.entityId, release.ownerId, true⟩ by rw [Release.body, hid, State.toBody]]
  simp only [notBlank, Bool.not_eq_true'] at he howner
  exact EntityLock.serve_release (EntityLock.validateState_ok_iff.2 ⟨rfl, he, howner⟩) hown

theorem serve_release_other (hlink : release.link = e)
    (hrelease : ¬ Releases chars release e doc) : serve chars doc (.post (some release.body)) = doc := by
  cases doc with
  | none =>
    -- a lock cannot be created available
    simp only [serve, handle]
    cases hstart : EntityLock.handleStart chars (some release.body) with
    | error error => rfl
    | ok state =>
      obtain ⟨hbody, havailable⟩ := EntityLock.handleStart_ok hstart
      have htrue : some true = some state.isAvailable := congrArg Body.isAvailable (Option.some.inj hbody)
      rw [havailable] at htrue
      cases htrue
  | some state =>
    rw [serve, EntityLock.handle_some]
    rcases EntityLock.handlePut_cases chars state (some release.body) with ⟨error, heq⟩ | ⟨-, heq⟩ | ⟨newState,
      hnew, heq, hown⟩
    · exact congrArg some (congrArg Prod.fst heq)
    · exact congrArg some (congrArg Prod.fst heq)
    · exfalso
      have hbody : release.body = newState.toBody := Option.some.inj hnew
      have hentity : release.entityId = some newState.entityId := congrArg Body.entityId hbody
      have howner : some release.ownerId = some newState.ownerId := congrArg Body.ownerId hbody
      have havailable : some true = some newState.isAvailable := congrArg Body.isAvailable hbody
      rcases hown with hown | ⟨htaken, -⟩
      · refine hrelease ⟨?_, state, rfl, ?_⟩
        · rw [← hlink, Release.link, hentity, Option.getD_some]
        · rw [Option.some.inj howner]
          exact hown
      · rw [htaken] at havailable
        cases havailable

variable {locks : LinkedMap String State}

/-- A release does nothing to a lock that is not of its entity, not its owner's, or has already been released. -/
theorem get_postRelease_of_not
    (h : ¬ Releases chars release e (locks.get e)) : (postRelease chars locks release).1.get e = locks.get e := by
  rw [get_postRelease]
  split
  · rename_i heq
    rw [← heq]
    exact serve_release_other heq.symm h
  · rfl

theorem get_postRelease_of_releases
    (h : Releases chars release e (locks.get e)) (hentity : ∀ state, locks.get e = some state → state.entityId = e)
    (he : notBlank chars e = true) (howner : notBlank chars release.ownerId = true) :
    (postRelease chars locks release).1.get e = some ⟨e, release.ownerId, true⟩ := by
  have hlink : release.link = e := by rw [Release.link, h.1, Option.getD_some]
  rw [get_postRelease, hlink, if_pos rfl]
  exact serve_release h hentity he howner

theorem sendReleases_arrives {releases : List Release} {k : Nat}
    (h : answers.arrives k = true) : (sendReleases chars answers (release :: releases) k locks).1 =
      (sendReleases chars answers releases (k + 1) (postRelease chars locks release).1).1 := by
  simp only [sendReleases, if_pos h]

/-- **What the releases leave.**  A lock is as it was, if the only releases of it are by an owner that has released
it. -/
theorem get_sendReleases_of_not {e : String} : ∀ (releases : List Release) (k : Nat) (locks : LinkedMap String State),
    (∀ release ∈ releases, notBlank chars release.ownerId = true) →
    (∀ state, locks.get e = some state → state.entityId = e ∧ notBlank chars e = true) →
    (∀ release ∈ releases, Releases chars release e (locks.get e) → locks.get e = some ⟨e, release.ownerId, true⟩) →
    (sendReleases chars answers releases k locks).1.get e = locks.get e
  | [], _, _, _, _, _ => rfl
  | release :: releases, k, locks, howners, hvalid, h => by
    have howners' := fun r hr => howners r (mem_cons_of_mem _ hr)
    by_cases harrives : answers.arrives k = true
    · rw [sendReleases_arrives harrives]
      have hget : (postRelease chars locks release).1.get e = locks.get e := by
        by_cases hrelease : Releases chars release e (locks.get e)
        · obtain ⟨state, hstate, -⟩ := hrelease.2
          rw [get_postRelease_of_releases hrelease (fun s hs => (hvalid s hs).1) (hvalid state hstate).2
            (howners release mem_cons_self)]
          exact (h release mem_cons_self hrelease).symm
        · exact get_postRelease_of_not hrelease
      rw [get_sendReleases_of_not releases (k + 1) _ howners' (by rw [hget]; exact hvalid)
        (by rw [hget]; exact fun r hr => h r (mem_cons_of_mem _ hr)), hget]
    · simp only [sendReleases, if_neg harrives]
      exact get_sendReleases_of_not releases (k + 1) locks howners' hvalid (fun r hr => h r (mem_cons_of_mem _ hr))

/-- **What the releases release.**  If all arrive, a lock is released by the release of its owner. -/
theorem get_sendReleases_of_mem {e : String} (harrives : ∀ k, answers.arrives k = true) {release : Release} :
    ∀ (releases : List Release) (k : Nat) (locks : LinkedMap String State),
    (∀ r ∈ releases, notBlank chars r.ownerId = true) →
    (∀ r ∈ releases, equalsIgnoreCase chars r.ownerId release.ownerId = true → r.ownerId = release.ownerId) →
    (∀ state, locks.get e = some state → state.entityId = e ∧ notBlank chars e = true) →
    release ∈ releases → Releases chars release e (locks.get e) →
    (sendReleases chars answers releases k locks).1.get e = some ⟨e, release.ownerId, true⟩
  | [], _, _, _, _, _, hmem, _ => nomatch hmem
  | first :: releases, k, locks, howners, hdistinct, hvalid, hmem, hrelease => by
    have howners' := fun r hr => howners r (mem_cons_of_mem _ hr)
    have hdistinct' := fun r hr => hdistinct r (mem_cons_of_mem _ hr)
    obtain ⟨hid, state, hstate, hown⟩ := hrelease
    have he := (hvalid state hstate).2
    rw [sendReleases_arrives (harrives k)]
    by_cases hfirst : Releases chars first e (locks.get e)
    · -- the first release is of the same owner, and the rest leave what it has done
      have hsame : first.ownerId = release.ownerId := by
        obtain ⟨-, state', hstate', hown'⟩ := hfirst
        rw [hstate] at hstate'
        cases hstate'
        refine hdistinct first mem_cons_self ?_
        rw [EntityLock.equalsIgnoreCase_iff] at hown hown' ⊢
        exact hown'.symm.trans hown
      have hget := get_postRelease_of_releases hfirst (fun s hs => (hvalid s hs).1) he (howners first mem_cons_self)
      rw [hsame] at hget
      rw [get_sendReleases_of_not releases (k + 1) _ howners', hget]
      · intro s hs
        rw [hget] at hs
        cases hs
        exact ⟨rfl, he⟩
      · intro r hr hrel
        rw [hget] at hrel ⊢
        obtain ⟨-, s, hs, hsown⟩ := hrel
        cases hs
        rw [hdistinct' r hr]
        rw [EntityLock.equalsIgnoreCase_iff] at hsown ⊢
        exact hsown.symm
    · have hget := get_postRelease_of_not hfirst
      rcases mem_cons.1 hmem with rfl | hmem
      · exact absurd ⟨hid, state, hstate, hown⟩ hfirst
      · refine get_sendReleases_of_mem harrives releases (k + 1) _ howners' hdistinct' ?_ hmem ?_
        · rw [hget]
          exact hvalid
        · rw [hget]
          exact ⟨hid, state, hstate, hown⟩

end

/-! ## The run -/

section

variable {chars : Characters} {answers : Answers} {tasks : TaskStore chars} {page : List State}
    {store : LockStore chars}

theorem run_of_read {locks : LinkedMap String State} {read : List (String × TaskDocument)}
    (h : getTasksAssociatedWithEntityLocks chars answers tasks page 0 = some read) :
    (releaseUnreleasedEntityLocks chars answers tasks page locks).locks =
      (sendReleases chars answers (getReleaseLockOperationsForEntityLocks read) 0 locks).1 := by
  rw [releaseUnreleasedEntityLocks]
  split
  · rename_i hempty
    rw [isEmpty_iff.1 hempty] at h
    cases h
    rfl
  · rw [h]
    dsimp only
    split
    · rename_i hempty
      rw [isEmpty_iff.1 hempty]
      rfl
    · split <;> rfl

theorem notBlank_release {read : List (String × TaskDocument)} {release : Release}
    (h : getTasksAssociatedWithEntityLocks chars answers tasks page 0 = some read)
    (hmem : release ∈ getReleaseLockOperationsForEntityLocks read) : notBlank chars release.ownerId = true := by
  obtain ⟨lock, -, task, htask, -, rfl⟩ := (mem_releases h).1 hmem
  exact tasks.notBlank_of_get _ _ htask

variable {e : String}

theorem LockStore.valid (store : LockStore chars) (state : State) (h : store.locks.get e = some state) :
    state.entityId = e ∧ notBlank chars e = true :=
  ⟨store.entityId_of_get e state h, store.notBlank_of_get e state h⟩

theorem run_changed (h : (releaseUnreleasedEntityLocks chars answers tasks page store.locks).locks.get e ≠
    store.locks.get e) :
    OwnersExist tasks page ∧ ∃ lock ∈ page, ∃ task, tasks.get lock.ownerId = some task ∧ task.ended = true ∧
      task.entityId = some e ∧ OwnedBy chars lock.ownerId (store.locks.get e) ∧
      store.locks.get e ≠ some ⟨e, lock.ownerId, true⟩ := by
  cases hread : getTasksAssociatedWithEntityLocks chars answers tasks page 0 with
  | none => exact absurd (by simp only [releaseUnreleasedEntityLocks, hread]; split <;> rfl) h
  | some read =>
    refine ⟨(getTasks_spec page 0 hread).1, Classical.byContradiction fun hnone => h ?_⟩
    rw [run_of_read hread]
    refine get_sendReleases_of_not _ 0 _ (fun r hr => notBlank_release hread hr) store.valid ?_
    intro release hmem hrelease
    obtain ⟨lock, hlock, task, htask, hended, rfl⟩ := (mem_releases hread).1 hmem
    exact Classical.byContradiction fun hne => hnone ⟨lock, hlock, task, htask, hended, hrelease.1, hrelease.2, hne⟩

/-- With all the answers, the lock of the entity of an owner that has ended is released, if the owner still owns it. -/
theorem run_released (hanswers : answers.Complete) (howners : OwnersExist tasks page) {lock : State}
    (hlock : lock ∈ page)
    {task : TaskDocument} (htask : tasks.get lock.ownerId = some task) (hended : task.ended = true)
    (hentity : task.entityId = some e) (hown : OwnedBy chars lock.ownerId (store.locks.get e)) :
    (releaseUnreleasedEntityLocks chars answers tasks page store.locks).locks.get e = some ⟨e, lock.ownerId, true⟩ := by
  obtain ⟨read, hread⟩ := getTasks_isSome (fun k => (hanswers k).1) page 0 howners
  have hmem := (mem_releases hread).2 ⟨lock, hlock, task, htask, hended, rfl⟩
  rw [run_of_read hread]
  refine get_sendReleases_of_mem (fun k => (hanswers k).2.1) _ 0 _ (fun r hr => notBlank_release hread hr) ?_
    store.valid hmem ⟨hentity, hown⟩
  intro r hr heq
  obtain ⟨lock', -, task', htask', -, rfl⟩ := (mem_releases hread).1 hr
  exact tasks.eq_of_get _ _ _ _ htask' htask heq

def allAnswers : Answers := ⟨fun _ => true, fun _ => true, fun _ => true⟩

theorem allAnswers_complete : allAnswers.Complete := fun _ => ⟨rfl, rfl, rfl⟩

theorem Dangling.owned {lock : State} (h : Dangling tasks page store.locks lock) :
    OwnedBy chars lock.ownerId (store.locks.get lock.entityId) :=
  ⟨lock, h.2.2.2, (EntityLock.equalsIgnoreCase_iff _ _).2 rfl⟩

theorem cleansPage_of_ownEntities (h : OwnEntities tasks page store.locks) : CleansPage tasks page store := by
  intro answers
  constructor
  · intro e hne
    obtain ⟨howners, lock, hlock, task, htask, hended, hentity, hown, hnot⟩ := run_changed hne
    obtain ⟨lock', hlock', he, hid⟩ := h.inPage howners lock hlock task e htask hended hentity hown hnot
    refine ⟨lock', hlock', he, ?_⟩
    rw [hid]
    exact ⟨⟨task, htask, hended⟩, hown⟩
  · intro hanswers lock hdangling
    obtain ⟨task, htask, hended⟩ := hdangling.2.2.1
    have hreleased := run_released hanswers (h.ownersExist lock hdangling) hdangling.1 htask hended
      (h.own lock task hdangling htask) hdangling.owned
    rw [hreleased]

theorem ownEntities_of_cleansPage (h : CleansPage tasks page store) : OwnEntities tasks page store.locks := by
  obtain ⟨hsafe, hcleaned⟩ := h allAnswers
  have hchanged : ∀ lock, Dangling tasks page store.locks lock →
      (releaseUnreleasedEntityLocks chars allAnswers tasks page store.locks).locks.get lock.entityId ≠
        store.locks.get lock.entityId := by
    intro lock hdangling heq
    have havailable := hcleaned allAnswers_complete lock hdangling
    rw [heq, hdangling.2.2.2] at havailable
    have hheld := hdangling.2.1
    rw [Option.some.inj havailable] at hheld
    cases hheld
  refine ⟨fun lock hdangling => (run_changed (hchanged lock hdangling)).1, ?_, ?_⟩
  · intro lock task hdangling htask
    -- the lock is released by a task that owns it, and that is its owner
    obtain ⟨-, lock', -, task', htask', -, hentity, ⟨state, hstate, hown⟩, -⟩ := run_changed (hchanged lock hdangling)
    rw [hdangling.2.2.2] at hstate
    cases hstate
    have hid := tasks.eq_of_get _ _ _ _ htask htask' hown
    rw [← hid, htask] at htask'
    rw [Option.some.inj htask']
    exact hentity
  · intro howners lock hlock task e htask hended hentity hown hnot
    have hreleased := run_released allAnswers_complete howners hlock htask hended hentity hown
    obtain ⟨lock', hlock', he, ⟨task', htask', -⟩, state', hstate', hown'⟩ :=
      hsafe e (by rw [hreleased]; exact hnot.symm)
    obtain ⟨state, hstate, hown⟩ := hown
    rw [hstate] at hstate'
    cases hstate'
    refine ⟨lock', hlock', he, tasks.eq_of_get _ _ _ _ htask' htask ?_⟩
    rw [EntityLock.equalsIgnoreCase_iff] at hown hown' ⊢
    exact hown'.symm.trans hown

/-- **When a page is cleaned.**  A run changes only locks of its page that a task read as ended still owns, and with all
the answers releases every dangling lock of the page, if and only if a dangling lock of the page is the lock of its
owner's own entity with no owner of the page gone, and the lock of the entity of an ended owner is not outside the
page. -/
theorem lockCleaner_cleans_iff (tasks : TaskStore chars) (page : List State) (store : LockStore chars) :
    CleansPage tasks page store ↔ OwnEntities tasks page store.locks :=
  ⟨ownEntities_of_cleansPage, cleansPage_of_ownEntities⟩

end

/-! ## Pages that are not cleaned

The task that attaches an ISO locks the ISO and the VM, and its document names the VM. -/

def LockStore.empty {chars : Characters} : LockStore chars := ⟨.empty, nofun, nofun⟩

def LockStore.put {chars : Characters} (store : LockStore chars) (state : State)
    (h : notBlank chars state.entityId = true) : LockStore chars where
  locks := store.locks.put state.entityId state
  entityId_of_get e found hget := by
    rcases LinkedMap.get_put_cases hget with ⟨rfl, rfl⟩ | ⟨-, hget⟩
    · rfl
    · exact store.entityId_of_get e found hget
  notBlank_of_get e found hget := by
    rcases LinkedMap.get_put_cases hget with ⟨rfl, -⟩ | ⟨-, hget⟩
    · exact h
    · exact store.notBlank_of_get e found hget

def latin : Characters := ⟨Char.toLower, Char.isWhitespace⟩

def oneTask (id : String) (task : TaskDocument) (h : notBlank latin id = true) : TaskStore latin where
  get ownerId := if ownerId = id then some task else none
  notBlank_of_get ownerId _ hget := by
    split at hget
    · rename_i heq
      rw [heq, h]
    · cases hget
  eq_of_get a b _ _ ha hb _ := by
    split at ha
    · split at hb
      · rename_i heq heq'
        exact heq.trans heq'.symm
      · cases hb
    · cases ha

def attachIso : TaskStore latin := oneTask "attach-iso" ⟨.error, some "vm"⟩ (by decide +kernel)

def isoAndVm : LockStore latin :=
  (LockStore.empty.put ⟨"iso", "attach-iso", false⟩ (by decide +kernel)).put
    ⟨"vm", "attach-iso", false⟩ (by decide +kernel)

/-- The lock of the ISO is in the page and stays held, and the lock of the VM is not and is released.  And where the
page has the lock of the VM and a lock whose owner is gone, neither is. -/
theorem page_not_cleaned :
    ((releaseUnreleasedEntityLocks latin allAnswers attachIso [⟨"iso", "attach-iso", false⟩]
      isoAndVm.locks).locks.entries = [("iso", ⟨"iso", "attach-iso", false⟩), ("vm", ⟨"vm", "attach-iso", true⟩)] ∧
    ¬ CleansPage attachIso [⟨"iso", "attach-iso", false⟩] isoAndVm) ∧
    (releaseUnreleasedEntityLocks latin allAnswers attachIso [⟨"vm", "attach-iso", false⟩, ⟨"disk", "gone", false⟩]
      isoAndVm.locks).locks.get "vm" = some ⟨"vm", "attach-iso", false⟩ ∧
    ¬ CleansPage attachIso [⟨"vm", "attach-iso", false⟩, ⟨"disk", "gone", false⟩] isoAndVm := by
  have hended : Ended attachIso "attach-iso" := ⟨⟨.error, some "vm"⟩, rfl, rfl⟩
  refine ⟨⟨by decide +kernel, ?_⟩, by decide +kernel, ?_⟩
  · intro h
    have hcleaned := (h allAnswers).2 allAnswers_complete ⟨"iso", "attach-iso", false⟩
      ⟨mem_cons_self, rfl, hended, by decide +kernel⟩
    revert hcleaned
    decide +kernel
  · intro h
    have hcleaned := (h allAnswers).2 allAnswers_complete ⟨"vm", "attach-iso", false⟩
      ⟨mem_cons_self, rfl, hended, by decide +kernel⟩
    revert hcleaned
    decide +kernel

end Photon.CloudStore.EntityLockCleaner
