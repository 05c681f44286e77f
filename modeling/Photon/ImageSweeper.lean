import Mathlib.Data.Int.Order.Basic
/-!
# ImageSweeper — the unused images of a datastore

`_delete_unused_images` walks over the image directories and moves those of unused target images away; the task of the
`DatastoreImageSweeper` stores the list that it returns.
-/
namespace Photon.Agent.ImageSweeper

inductive Error
  | taskTerminated
  | taskTimeout
  | invalidStateTransition
  | datastoreNotFound
  deriving DecidableEq

/-- The sweeper with the exception that its task runner keeps from run to run. -/
structure Sweeper where
  deletedImages : Option (List String)
  exception : Option Error
  deriving DecidableEq

/-- One directory of the walk, with what the calls for it give: `active` and `now` when the run is asked whether it is
stopped, the time in the marker file, whether the lock is acquired, the modification times, and whether the renames
succeed. -/
structure Directory where
  hasFiles : Bool
  active : Bool
  now : Int
  imageId : Option String
  isMarked : Bool
  markerTime : Option Int
  locks : Bool
  modTime : Except Unit (Option Int)
  renamesTimestamp : Bool
  renamedModTime : Except Unit (Option Int)
  moves : Bool

/-- A run; without a walk the images directory is not there. `enters` says that the state may become IMAGE_SWEEP. -/
structure Run where
  targetImages : List String
  gracePeriod : Int
  deadline : Int
  enters : Bool
  walk : Option (List Directory)

def isStopped (exception : Option Error) (deadline : Int) (d : Directory) : Option Error :=
  match exception with
  | some e => some e
  | none => if deadline < d.now then some .taskTimeout else if d.active then none else some .taskTerminated

abbrev Deletion := Bool × Except Unit Bool

def Directory.move (d : Directory) : Deletion :=
  if d.moves then (true, .ok true) else (false, .error ())

def Directory.deleteLocked (d : Directory) (markerTime : Int) : Deletion :=
  match d.modTime with
  | .error () => (false, .error ())
  | .ok modTime =>
    if modTime.any (markerTime ≤ ·) then (false, .ok false)
    else if modTime.isSome && !d.renamesTimestamp then (false, .error ())
    else match d.renamedModTime, modTime with
      | .error (), _ => (false, .error ())
      | .ok none, some _ => (false, .ok false)
      | .ok (some renamed), some time => if renamed ≠ time then (false, .ok false) else d.move
      | .ok (some renamed), none => if markerTime ≤ renamed then (false, .ok false) else d.move
      | .ok none, none => d.move

/-- `_delete_single_image`; releasing the lock and removing what was moved raise nothing. -/
def deleteSingleImage (gracePeriod : Int) (d : Directory) : Deletion :=
  match d.markerTime with
  | none => (false, .ok false)
  | some markerTime => if d.locks then d.deleteLocked (markerTime - gracePeriod) else (false, .error ())

def Run.candidate (run : Run) (d : Directory) : Option String :=
  d.imageId.filter fun image => d.isMarked && image ∈ run.targetImages

structure Result where
  returned : Option (List String)
  removed : List String
  exception : Option Error

def deleteUnusedImages (exception : Option Error) (run : Run) : List Directory → List String → List String → Result
  | [], deleted, removed => ⟨some deleted, removed, exception⟩
  | d :: ds, deleted, removed =>
    if d.hasFiles then
      match isStopped exception run.deadline d with
      | some e => ⟨none, removed, some e⟩
      | none =>
        match run.candidate d with
        | none => deleteUnusedImages exception run ds deleted removed
        | some image =>
          let deletion := deleteSingleImage run.gracePeriod d
          deleteUnusedImages exception run ds
            (match deletion.2 with
              | .ok true => deleted ++ [image]
              | _ => deleted)
            (if deletion.1 then removed ++ [image] else removed)
    else deleteUnusedImages exception run ds deleted removed

def executeTask (s : Sweeper) (run : Run) : Sweeper × List String :=
  if run.enters then
    match run.walk with
    | none => ({ s with exception := some .datastoreNotFound }, [])
    | some walk =>
      let result := deleteUnusedImages s.exception run walk [] []
      (⟨result.returned, result.exception⟩, result.removed)
  else ({ s with exception := some .invalidStateTransition }, [])

/-! ### What the sweeper reports -/

def Reports (after : Sweeper × List String) : Prop :=
  ∃ images, after.1.deletedImages = some images ∧ ∀ image, image ∈ images ↔ image ∈ after.2

/-- No directory finds the run stopped; a run that fails follows one that left an empty list. -/
def Completes (s : Sweeper) (run : Run) : Prop :=
  match if run.enters then run.walk else none with
  | none => s.deletedImages = some []
  | some walk => ∀ d ∈ walk, d.hasFiles → isStopped s.exception run.deadline d = none

section
variable {exception : Option Error} {run : Run} {d : Directory} {s : Sweeper}

theorem deleteLocked_ok (markerTime : Int) : (d.deleteLocked markerTime).2 = .ok (d.deleteLocked markerTime).1 ∨
    (d.deleteLocked markerTime) = (false, .error ()) := by
  unfold Directory.deleteLocked Directory.move
  repeat' split
  all_goals first | exact .inl rfl | exact .inr rfl

theorem deleteSingleImage_ok (gracePeriod : Int) (d : Directory) :
    (deleteSingleImage gracePeriod d).2 = .ok (deleteSingleImage gracePeriod d).1 ∨
    deleteSingleImage gracePeriod d = (false, .error ()) := by
  unfold deleteSingleImage
  split
  · exact .inl rfl
  · split
    · exact deleteLocked_ok _
    · exact .inr rfl

/-- The walk returns what it removed, unless a directory finds the run stopped. -/
theorem deleteUnusedImages_returned : ∀ (ds : List Directory) (deleted : List String),
    (deleteUnusedImages exception run ds deleted deleted).returned =
      if ∀ d ∈ ds, d.hasFiles → isStopped exception run.deadline d = none then
        some (deleteUnusedImages exception run ds deleted deleted).removed else none
  | [], deleted => by simp [deleteUnusedImages]
  | d :: ds, deleted => by
    have ih := deleteUnusedImages_returned ds
    simp only [List.forall_mem_cons]
    unfold deleteUnusedImages
    cases hfiles : d.hasFiles with
    | false => simpa using ih deleted
    | true =>
      cases hstopped : isStopped exception run.deadline d with
      | some e => simp
      | none =>
        simp only [forall_const, true_and, if_true]
        cases run.candidate d with
        | none => exact ih deleted
        | some image =>
          -- the list and the directories that are gone stay the same
          have hsame : (match (deleteSingleImage run.gracePeriod d).2 with
              | .ok true => deleted ++ [image]
              | _ => deleted) =
              if (deleteSingleImage run.gracePeriod d).1 then deleted ++ [image] else deleted := by
            obtain hok | herror := deleteSingleImage_ok run.gracePeriod d
            · rw [hok]
              cases (deleteSingleImage run.gracePeriod d).1 <;> rfl
            · rw [herror]
              rfl
          simp only [hsame]
          exact ih _

/-- **The sweeper reports what it deleted exactly when the run completes**: the list of a run that is stopped is lost,
and after a run that fails the list of an earlier one is still there. -/
theorem executeTask_reports_iff (s : Sweeper) (run : Run) : Reports (executeTask s run) ↔ Completes s run := by
  have hfailed : ∀ e, Reports ({ s with exception := some e }, []) ↔ s.deletedImages = some [] := by
    intro e
    constructor
    · rintro ⟨images, himages, hnone⟩
      cases List.eq_nil_iff_forall_not_mem.2 fun image himage => List.not_mem_nil ((hnone image).1 himage)
      exact himages
    · exact fun h => ⟨[], h, fun _ => Iff.rfl⟩
  unfold executeTask Completes
  cases run.enters with
  | false => exact hfailed _
  | true =>
    simp only [if_true]
    cases run.walk with
    | none => exact hfailed _
    | some walk =>
      unfold Reports
      simp only [deleteUnusedImages_returned]
      by_cases hruns : ∀ d ∈ walk, d.hasFiles → isStopped s.exception run.deadline d = none
      · rw [if_pos hruns]
        exact iff_of_true ⟨_, rfl, fun _ => Iff.rfl⟩ hruns
      · rw [if_neg hruns]
        exact iff_of_false (by rintro ⟨_, h, -⟩; cases h) hruns

/-! ### What it removes -/

/-- Every modification time that is read is before the limit, and the rename has not changed it. -/
def Directory.unusedSince (d : Directory) (limit : Int) : Bool :=
  match d.modTime, d.renamedModTime with
  | .ok none, .ok renamed => renamed.all (· < limit)
  | .ok (some time), .ok (some renamed) => d.renamesTimestamp && time < limit && renamed = time
  | _, _ => false

/-- The directory can be moved, under the lock, and its image has not been used since the grace period before the
mark. -/
def Run.sweeps (run : Run) (d : Directory) : Bool :=
  d.hasFiles && d.locks && d.moves && d.markerTime.any (fun markerTime => d.unusedSince (markerTime - run.gracePeriod))

theorem deleteLocked_moved (limit : Int) : (d.deleteLocked limit).1 = (d.moves && d.unusedSince limit) := by
  have hmove : d.move.1 = d.moves := by
    unfold Directory.move
    split <;> simp_all
  unfold Directory.deleteLocked Directory.unusedSince
  rcases d.modTime with _ | _ | time <;> rcases d.renamedModTime with _ | _ | renamed
  all_goals grind

theorem deleteSingleImage_moved : (d.hasFiles && (deleteSingleImage run.gracePeriod d).1) = run.sweeps d := by
  unfold deleteSingleImage Run.sweeps
  cases d.markerTime with
  | none => simp
  | some markerTime => cases d.locks <;> simp [deleteLocked_moved, Bool.and_assoc]

theorem deleteUnusedImages_removed : ∀ (ds : List Directory) (deleted removed : List String),
    (deleteUnusedImages exception run ds deleted removed).removed = removed ++
      ((ds.takeWhile fun d => !d.hasFiles || (isStopped exception run.deadline d).isNone).filter run.sweeps).filterMap
      run.candidate
  | [], deleted, removed => by simp [deleteUnusedImages]
  | d :: ds, deleted, removed => by
    have ih := deleteUnusedImages_removed ds
    have hsweeps := @deleteSingleImage_moved run d
    unfold deleteUnusedImages
    cases hfiles : d.hasFiles with
    | false => simp_all
    | true =>
      cases hstopped : isStopped exception run.deadline d with
      | some e => simp_all
      | none =>
        cases hcandidate : run.candidate d <;> cases hmoved : run.sweeps d <;> simp_all

/-- **The sweeper removes exactly the images of the marked targets that have not been used**, up to the first directory
that finds it stopped. -/
theorem executeTask_removes (s : Sweeper) (run : Run) : (executeTask s run).2 =
    if run.enters then (((run.walk.getD []).takeWhile fun d =>
      !d.hasFiles || (isStopped s.exception run.deadline d).isNone).filter run.sweeps).filterMap run.candidate
        else [] := by
  unfold executeTask
  cases run.enters with
  | false => rfl
  | true =>
    cases run.walk with
    | none => rfl
    | some walk => exact deleteUnusedImages_removed walk [] []

def unusedImage (image : String) (active : Bool) : Directory where
  hasFiles := true
  active := active
  now := 10
  imageId := some image
  isMarked := true
  markerTime := some 5
  locks := true
  modTime := .ok (some 3)
  renamesTimestamp := true
  renamedModTime := .ok (some 3)
  moves := true

def stoppedRun : Run where
  targetImages := ["image1", "image2"]
  gracePeriod := 0
  deadline := 100
  enters := true
  walk := some [unusedImage "image1" true, unusedImage "image2" false]

theorem executeTask_loses_list :
    (executeTask ⟨some [], none⟩ stoppedRun).2 = ["image1"] ∧ ¬ Reports (executeTask ⟨some [], none⟩ stoppedRun) := by
  refine ⟨by decide, ?_⟩
  rintro ⟨images, himages, -⟩
  exact absurd himages (by rw [(by decide : (executeTask ⟨some [], none⟩ stoppedRun).1.deletedImages = none)]; nofun)

end
end Photon.Agent.ImageSweeper
