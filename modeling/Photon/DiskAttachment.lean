import Mathlib.Data.List.TakeWhile
/-!
# DiskAttachment — attaching disks to a VM and detaching them

`VmDiskOpStepCmd`: the agent answers for each disk; the disk states are written while the answers are read, the
attached-disk documents afterwards.
-/
namespace Photon.ApiFrontend.DiskAttachment

inductive Operation
  | attachDisk
  | detachDisk
  deriving DecidableEq

inductive DiskState
  | creating
  | detached
  | attached
  | error
  | deleted
  deriving DecidableEq

def Operation.targetState : Operation → DiskState
  | .attachDisk => .attached
  | .detachDisk => .detached

inductive VmDiskOpResultCode
  | ok
  | systemError
  | vmNotFound
  | diskNotFound
  | diskAttached
  | diskDetached
  | invalidVmPowerState
  | concurrentVmOperation
  deriving DecidableEq

/-- The agent's answer. A disk that it did not find has an error and is not listed. -/
structure VmDisksOpResponse where
  result : VmDiskOpResultCode
  disks : List String
  diskErrors : String → Option VmDiskOpResultCode

/-- `rpc code` is the exception `ResponseValidator` throws for the code. -/
inductive Failure
  | unreachable
  | rpc (code : VmDiskOpResultCode)
  | invalidVmState
  | failed
  | nullPointer
  | illegalArgument
  deriving DecidableEq

structure AttachedDisk where
  vmId : String
  persistentDiskId : String
  deriving DecidableEq

structure Store where
  states : String → DiskState
  attachedDisks : List AttachedDisk

/-! ### The call -/

def checkResult (code : VmDiskOpResultCode) : Except Failure Unit :=
  if code = .ok then .ok () else .error (.rpc code)

/-- `processDiskOp`; without an answer the agent was not reached. -/
def processDiskOp : Option VmDisksOpResponse → Except Failure VmDisksOpResponse
  | none => .error .unreachable
  | some response =>
    match checkResult response.result with
    | .ok () => .ok response
    | .error (.rpc .invalidVmPowerState) => .error .invalidVmState
    | .error e => .error e

def vmDiskOp (calls : Bool → Option VmDisksOpResponse) : Except Failure VmDisksOpResponse :=
  match processDiskOp (calls true) with
  | .error (.rpc .vmNotFound) => processDiskOp (calls false)
  | response => response

def answer (calls : Bool → Option VmDisksOpResponse) : Option VmDisksOpResponse :=
  if (calls true).any fun response => response.result = .vmNotFound then calls false else calls true

/-! ### The disk states -/

def Store.updateState (s : Store) (disk : String) (state : DiskState) : Store :=
  { s with states := fun other => if other = disk then state else s.states other }

def processDisks (operation : Operation) (targets : List String) (errors : String → Option VmDiskOpResultCode) :
    List String → Bool → Store → Store × Except Failure Unit
  | [], failed, s => (s, if failed then .error .failed else .ok ())
  | disk :: disks, failed, s =>
    match errors disk with
    | none => (s, .error .nullPointer)
    | some code =>
      match checkResult code with
      | .ok () =>
        processDisks operation targets errors disks failed
          (if disk ∈ targets then s.updateState disk operation.targetState else s)
      | .error (.rpc .invalidVmPowerState) => (s, .error .invalidVmState)
      | .error _ => processDisks operation targets errors disks true s

def processVmDiskOpErrors (operation : Operation) (targets : List String) (response : VmDisksOpResponse) (s : Store) :
    Store × Except Failure Unit :=
  if response.result ≠ .ok then (s, .error .failed)
  else processDisks operation targets response.diskErrors response.disks false s

/-! ### The documents -/

def attachDisks (vm : String) (disks : List String) (s : Store) : Store :=
  { s with attachedDisks := s.attachedDisks ++ disks.map fun disk => ⟨vm, disk⟩ }

def AtMostOne (s : Store) (disk : String) : Prop :=
  (s.attachedDisks.filter fun document => document.persistentDiskId = disk).length ≤ 1

instance (s : Store) (disk : String) : Decidable (AtMostOne s disk) :=
  inferInstanceAs (Decidable (_ ≤ _))

/-- `deleteAttachedDisks`: each lookup throws when a disk has several documents, and all of them come before the first
deletion; what they found is deleted. -/
def deleteAttachedDisks (disks : List String) (s : Store) : Store × Except Failure Unit :=
  if ∀ disk ∈ disks, AtMostOne s disk then
    ({ s with attachedDisks := s.attachedDisks.filter fun document => document.persistentDiskId ∉ disks }, .ok ())
  else (s, .error .illegalArgument)

def execute (operation : Operation) (vm : String) (targets : List String)
    (calls : Bool → Option VmDisksOpResponse) (s : Store) : Store × Except Failure Unit :=
  match vmDiskOp calls with
  | .error e => (s, .error e)
  | .ok response =>
    match processVmDiskOpErrors operation targets response s with
    | (s, .error e) => (s, .error e)
    | (s, .ok ()) =>
      if targets.isEmpty then (s, .ok ())
      else match operation with
        | .attachDisk => (attachDisks vm targets s, .ok ())
        | .detachDisk => deleteAttachedDisks targets s

/-! ### What the step is for -/

/-- The disk is linked to the VM by a document exactly when its state says so. -/
def Agrees (vm : String) (s : Store) (disk : String) : Prop :=
  ⟨vm, disk⟩ ∈ s.attachedDisks ↔ s.states disk = .attached

def Reported (calls : Bool → Option VmDisksOpResponse) (disk : String) : Prop :=
  ∃ response ∈ answer calls, response.diskErrors disk = some .ok

instance (calls : Bool → Option VmDisksOpResponse) (disk : String) : Decidable (Reported calls disk) := by
  unfold Reported
  infer_instance

/-- The disk's document agrees with its state, and the state changed exactly when the agent reported success. -/
def RightFor (operation : Operation) (vm : String) (targets : List String)
    (calls : Bool → Option VmDisksOpResponse) (s : Store) (disk : String) : Prop :=
  let after := (execute operation vm targets calls s).1
  Agrees vm after disk ∧
    after.states disk = if Reported calls disk then operation.targetState else s.states disk

/-- The answer is refused: as a whole, or for one of the disks it lists. -/
def Rejects (response : VmDisksOpResponse) : Prop :=
  response.result ≠ .ok ∨ ∃ disk ∈ response.disks, response.diskErrors disk ≠ some .ok

def VmDisksOpResponse.read (response : VmDisksOpResponse) : List String :=
  response.disks.takeWhile fun disk =>
    response.diskErrors disk ≠ none ∧ response.diskErrors disk ≠ some .invalidVmPowerState

def Updates (response : VmDisksOpResponse) (disk : String) : Prop :=
  response.result = .ok ∧ disk ∈ response.read ∧ response.diskErrors disk = some .ok

instance (response : VmDisksOpResponse) (disk : String) : Decidable (Updates response disk) :=
  inferInstanceAs (Decidable (_ ∧ _))

def Neutral (operation : Operation) (s : Store) (disk : String) : Prop :=
  s.states disk = .attached ↔ operation.targetState = .attached

/-- After a refusal nothing is to be done for a disk with a success; otherwise for every disk that is not listed. -/
def Served (operation : Operation) (response : VmDisksOpResponse) (s : Store) (disk : String) : Prop :=
  (Rejects response → response.diskErrors disk = some .ok →
    s.states disk = operation.targetState ∨ Neutral operation s disk ∧ Updates response disk) ∧
  (¬ Rejects response → disk ∈ response.disks ∨ Neutral operation s disk ∧
    (response.diskErrors disk = some .ok → s.states disk = operation.targetState))

section
variable {operation : Operation} {vm disk : String} {targets disks : List String} {response : VmDisksOpResponse}
  {calls : Bool → Option VmDisksOpResponse} {errors : String → Option VmDiskOpResultCode} {s : Store}

/-! ### Reading the answers -/

theorem processDiskOp_some (response : VmDisksOpResponse) :
    processDiskOp (some response) = match response.result with
      | .ok => .ok response
      | .invalidVmPowerState => .error .invalidVmState
      | code => .error (.rpc code) := by
  obtain ⟨result, disks, errors⟩ := response
  cases result <;> rfl

/-- The second host is asked exactly when the first one does not know the VM. -/
theorem vmDiskOp_eq (calls : Bool → Option VmDisksOpResponse) : vmDiskOp calls = processDiskOp (answer calls) := by
  unfold vmDiskOp answer
  cases calls true with
  | none => rfl
  | some first =>
    rw [processDiskOp_some]
    obtain ⟨result, disks, errors⟩ := first
    cases result <;> rfl

theorem checkResult_error {code : VmDiskOpResultCode} {e : Failure} (h : checkResult code = .error e) :
    e = .rpc code := by
  cases code <;> cases h <;> rfl

/-- The loop writes the states of the target disks with a success among those it reads, and no document; it ends
without an exception if every disk has a success. -/
theorem processDisks_spec (operation : Operation) (targets : List String)
    (errors : String → Option VmDiskOpResultCode) (disk : String) (disks : List String) (failed : Bool) (s : Store) :
    let after := processDisks operation targets errors disks failed s
    after.1.attachedDisks = s.attachedDisks ∧
    (after.1.states disk =
      if disk ∈ targets ∧ errors disk = some .ok ∧
          disk ∈ disks.takeWhile (fun disk => errors disk ≠ none ∧ errors disk ≠ some .invalidVmPowerState)
        then operation.targetState else s.states disk) ∧
    (after.2 = .ok () ↔ failed = false ∧ ∀ disk ∈ disks, errors disk = some .ok) := by
  fun_induction processDisks operation targets errors disks failed s with
  | case1 failed s => cases failed <;> simp
  | case2 first disks failed s herror => simp [herror]
  | case3 first disks failed s code herror hcheck ih =>
    have hok : errors first = some .ok := herror.trans (by cases code <;> first | rfl | cases hcheck)
    refine ⟨ih.1.trans (by split <;> rfl), ih.2.1.trans ?_, ih.2.2.trans (by simp [hok])⟩
    by_cases hfirst : disk = first
    · subst hfirst
      by_cases htarget : disk ∈ targets <;> simp [htarget, hok, Store.updateState]
    · by_cases htarget : first ∈ targets <;> simp [htarget, hok, hfirst, Store.updateState]
  | case4 first disks failed s code herror hcheck =>
    cases checkResult_error hcheck
    simp [herror]
  | case5 first disks failed s code herror e hne hcheck ih =>
    obtain rfl := checkResult_error hcheck
    have hok : code ≠ .ok := by
      rintro rfl
      cases hcheck
    have hpower : code ≠ .invalidVmPowerState := fun hcode => hne (congrArg _ hcode)
    refine ⟨ih.1, ih.2.1.trans ?_, ih.2.2.trans (by simp [herror, hok])⟩
    by_cases hfirst : disk = first
    · subst hfirst
      simp [herror, hok]
    · simp [herror, hpower, hfirst]

/-! ### The step -/

theorem execute_answered (hanswer : answer calls = some response) (hok : response.result = .ok) :
    execute operation vm targets calls s =
      match processDisks operation targets response.diskErrors response.disks false s with
      | (s, .error e) => (s, .error e)
      | (s, .ok ()) =>
        if targets.isEmpty then (s, .ok ())
        else match operation with
          | .attachDisk => (attachDisks vm targets s, .ok ())
          | .detachDisk => deleteAttachedDisks targets s := by
  simp only [execute, vmDiskOp_eq, hanswer, processDiskOp_some, hok, processVmDiskOpErrors, ne_eq,
    not_true_eq_false, if_false]

theorem execute_rejected (hanswer : answer calls = some response) (hrejects : Rejects response)
    (htarget : disk ∈ targets) : (execute operation vm targets calls s).1.attachedDisks = s.attachedDisks ∧
    (execute operation vm targets calls s).1.states disk =
      if Updates response disk then operation.targetState else s.states disk := by
  by_cases hok : response.result = .ok
  · obtain ⟨hdocuments, hstate, hdone⟩ :=
      processDisks_spec operation targets response.diskErrors disk response.disks false s
    obtain ⟨bad, hbad, herror⟩ := hrejects.resolve_left (not_not.2 hok)
    rw [execute_answered hanswer hok]
    generalize processDisks operation targets response.diskErrors response.disks false s = after at *
    obtain ⟨after, result⟩ := after
    cases result with
    | ok => exact absurd ((hdone.1 rfl).2 bad hbad) herror
    | error e =>
      refine ⟨hdocuments, hstate.trans (if_congr ?_ rfl rfl)⟩
      exact ⟨fun h => ⟨hok, h.2.2, h.2.1⟩, fun h => ⟨htarget, h.2.2, h.2.1⟩⟩
  · have hfails : ∃ e, vmDiskOp calls = .error e := by
      rw [vmDiskOp_eq, hanswer, processDiskOp_some]
      cases hresult : response.result <;> first | exact ⟨_, rfl⟩ | exact absurd hresult hok
    obtain ⟨e, hcall⟩ := hfails
    rw [execute, hcall]
    exact ⟨rfl, (if_neg fun hupdates => hok hupdates.1).symm⟩

theorem execute_accepted (hone : ∀ disk ∈ targets, AtMostOne s disk) (hanswer : answer calls = some response)
    (haccepts : ¬ Rejects response) (htarget : disk ∈ targets) :
    (⟨vm, disk⟩ ∈ (execute operation vm targets calls s).1.attachedDisks ↔ operation.targetState = .attached) ∧
    (execute operation vm targets calls s).1.states disk =
      if disk ∈ response.disks then operation.targetState else s.states disk := by
  obtain ⟨hok, hall⟩ := not_or.1 haccepts
  have hall : ∀ disk ∈ response.disks, response.diskErrors disk = some .ok := fun disk hdisk =>
    not_not.1 fun herror => hall ⟨disk, hdisk, herror⟩
  obtain ⟨hdocuments, hstate, hdone⟩ :=
    processDisks_spec operation targets response.diskErrors disk response.disks false s
  rw [execute_answered hanswer (not_not.1 hok)]
  have hdone := hdone.2 ⟨rfl, hall⟩
  generalize processDisks operation targets response.diskErrors response.disks false s = after at *
  obtain ⟨after, result⟩ := after
  subst hdone
  have hread : response.read = response.disks :=
    List.takeWhile_eq_self_iff.2 fun disk hdisk => by simp [hall disk hdisk]
  have hstate : after.states disk = if disk ∈ response.disks then operation.targetState else s.states disk :=
    hstate.trans (if_congr ⟨fun h => hread ▸ h.2.2, fun h => ⟨htarget, hall disk h, (congrArg (disk ∈ ·) hread).mpr h⟩⟩
      rfl rfl)
  have hone : ∀ disk ∈ targets, AtMostOne after disk := fun disk hdisk => by
    unfold AtMostOne
    rw [hdocuments]
    exact hone disk hdisk
  simp only [List.isEmpty_iff, List.ne_nil_of_mem htarget, if_false]
  cases operation with
  | attachDisk => exact ⟨iff_of_true (by simp [attachDisks, htarget]) rfl, hstate⟩
  | detachDisk =>
    rw [deleteAttachedDisks, if_pos hone]
    exact ⟨iff_of_false (fun hdocument => of_decide_eq_true (List.mem_filter.1 hdocument).2 htarget)
      (by decide), hstate⟩

/-! ### When documents and states agree -/

theorem reported_iff (hanswer : answer calls = some response) :
    Reported calls disk ↔ response.diskErrors disk = some .ok := by
  simp [Reported, hanswer]

/-- One disk: the step serves it rightly exactly when the answer leaves nothing undone for it. -/
theorem rightFor_iff (hone : ∀ disk ∈ targets, AtMostOne s disk) (hagrees : Agrees vm s disk)
    (htarget : disk ∈ targets) : RightFor operation vm targets calls s disk ↔
      ∀ response, answer calls = some response → Served operation response s disk := by
  unfold Agrees at hagrees
  unfold RightFor Agrees
  cases hanswer : answer calls with
  | none =>
    simp only [execute, vmDiskOp_eq, Reported, hanswer]
    exact iff_of_true ⟨hagrees, rfl⟩ (by nofun)
  | some response =>
    simp only [reported_iff hanswer, Option.some.injEq, forall_eq']
    by_cases hrejects : Rejects response
    · obtain ⟨hdocuments, hstate⟩ :=
        @execute_rejected operation vm disk targets response calls s hanswer hrejects htarget
      rw [hdocuments, hstate, hagrees]
      have hok : Updates response disk → response.diskErrors disk = some .ok := fun hupdates => hupdates.2.2
      simp only [Served, Neutral, hrejects, forall_const, not_true_eq_false, false_implies, and_true]
      grind
    · obtain ⟨hdocuments, hstate⟩ :=
        @execute_accepted operation vm disk targets response calls s hone hanswer hrejects htarget
      rw [hdocuments, hstate]
      have hok : disk ∈ response.disks → response.diskErrors disk = some .ok := fun hdisk =>
        not_not.1 fun herror => hrejects (.inr ⟨disk, hdisk, herror⟩)
      simp only [Served, Neutral, hrejects, not_false_eq_true, forall_const, false_implies, true_and]
      grind

/-- **The documents agree with the states exactly when each disk is served**: after an answer that is refused in part,
a disk with a success has its new state and not its document, or neither of them. -/
theorem execute_right_iff (operation : Operation) (vm : String) (targets : List String)
    (calls : Bool → Option VmDisksOpResponse) (s : Store)
    (hbefore : ∀ disk ∈ targets, Agrees vm s disk ∧ AtMostOne s disk) :
    (∀ disk ∈ targets, RightFor operation vm targets calls s disk) ↔
      ∀ response, answer calls = some response → ∀ disk ∈ targets, Served operation response s disk := by
  have hone := fun disk hdisk => (hbefore disk hdisk).2
  constructor
  · intro hright response hanswer disk hdisk
    exact (rightFor_iff hone (hbefore disk hdisk).1 hdisk).1 (hright disk hdisk) response hanswer
  · intro hserved disk hdisk
    exact (rightFor_iff hone (hbefore disk hdisk).1 hdisk).2 fun response hanswer => hserved response hanswer disk hdisk

/-- The agent's answer for two disks of which the second fails: the code of the failure is the result as a whole. -/
def partAnswer : VmDisksOpResponse where
  result := .systemError
  disks := ["disk1", "disk2"]
  diskErrors := fun disk => if disk = "disk1" then some .ok else some .systemError

def wholeAnswer : VmDisksOpResponse where
  result := .ok
  disks := ["disk1", "disk2"]
  diskErrors := fun _ => some .ok

def detachedStore : Store := ⟨fun _ => .detached, []⟩

theorem detachedStore_before (vm disk : String) : Agrees vm detachedStore disk ∧ AtMostOne detachedStore disk :=
  ⟨iff_of_false List.not_mem_nil (nomatch ·), Nat.zero_le 1⟩

end

theorem execute_right_whole :
    RightFor .attachDisk "vm" ["disk1", "disk2"] (fun _ => some wholeAnswer) detachedStore "disk1" ∧
      RightFor .attachDisk "vm" ["disk1", "disk2"] (fun _ => some wholeAnswer) detachedStore "disk2" := by
  have hright := (execute_right_iff .attachDisk "vm" ["disk1", "disk2"] (fun _ => some wholeAnswer) detachedStore
    fun disk _ => detachedStore_before "vm" disk).2 fun response hanswer disk hdisk => by
      cases Option.some.inj hanswer
      exact ⟨fun hrejects => absurd hrejects (by simp [Rejects, wholeAnswer]), fun _ => .inl hdisk⟩
  exact ⟨hright "disk1" (by decide), hright "disk2" (by decide)⟩

/-- The first disk is attached at the host; its state stays DETACHED. -/
theorem execute_drops_success :
    (∀ disk ∈ ["disk1", "disk2"], Agrees "vm" detachedStore disk ∧ AtMostOne detachedStore disk) ∧
    Reported (fun _ => some partAnswer) "disk1" ∧
    ¬ RightFor .attachDisk "vm" ["disk1", "disk2"] (fun _ => some partAnswer) detachedStore "disk1" := by
  refine ⟨fun disk _ => detachedStore_before "vm" disk, ⟨partAnswer, rfl, rfl⟩, fun hright => ?_⟩
  exact absurd hright.2 (by decide)

end Photon.ApiFrontend.DiskAttachment
