import Photon.Keyed
import Photon.Runs
/-!
# VimCache — the agent's caches of machines and tasks

`VimClient._update_cache` applies the property collector's updates to three dictionaries: the machines and the tasks by
reference, and the references of the machines by name.  Beside it stands the hypervisor, as the changes of every object
since it entered.
-/
namespace Photon.Agent.VimCache

open List
open Keyed (LinkedMap)
open Runs (run Always Meets)

inductive PowerState
  | poweredOff | poweredOn | suspended
  deriving DecidableEq

inductive TaskState
  | error | queued | running | success
  deriving DecidableEq

structure FileInfo where
  vmPathName : Option String
  deriving DecidableEq

structure ConfigInfo where
  memoryMB : Nat
  numCPU : Nat
  files : Option FileInfo
  extraConfig : List (String × String)
  deriving DecidableEq

/-- A change to a machine; a null value is `none`, and `other` is another operation than an assignment or another
property. -/
inductive VmChange
  | name (val : Option String)
  | powerState (val : Option PowerState)
  | config (val : Option ConfigInfo)
  | layoutDisk (val : Option (List (List String)))
  | other
  deriving DecidableEq

inductive TaskChange
  | error (val : Option String)
  | state (val : Option TaskState)
  | other
  deriving DecidableEq

structure VmCache where
  name : Option String := none
  path : Option String := none
  powerState : Option PowerState := none
  memoryMb : Option Nat := none
  numCpu : Option Nat := none
  disks : Option (List String) := none
  tenantId : Option String := none
  projectId : Option String := none
  deriving DecidableEq

@[ext] structure TaskCache where
  state : Option TaskState := none
  error : Option String := none
  deriving DecidableEq

def VmCache.validate (vm : VmCache) : Bool :=
  vm.name.isSome && vm.path.isSome && vm.powerState.isSome && vm.memoryMb.isSome && vm.numCpu.isSome && vm.disks.isSome

def VmCache.setExtra (vm : VmCache) (e : String × String) : VmCache :=
  if e.1 = "photon_controller.vminfo.tenant" then { vm with tenantId := some e.2 }
  else if e.1 = "photon_controller.vminfo.project" then { vm with projectId := some e.2 }
  else vm

/-- One change of a change set, in `_add_or_modify_vm_cache`.  Without files the path stays; with files it is their path
name, also where this is null. -/
def VmCache.apply (vm : VmCache) : VmChange → VmCache
  | .name (some val) => { vm with name := some val }
  | .powerState (some val) => { vm with powerState := some val }
  | .config (some val) =>
    val.extraConfig.foldl VmCache.setExtra
      { vm with
        memoryMb := some val.memoryMB
        numCpu := some val.numCPU
        path := (val.files.map FileInfo.vmPathName).getD vm.path }
  | .layoutDisk (some val) => { vm with disks := some val.flatten }
  | _ => vm

def TaskCache.apply (task : TaskCache) : TaskChange → TaskCache
  | .error (some val) => { task with error := some val }
  | .state (some val) => { task with state := some val }
  | _ => task

/-! ## The caches -/

abbrev Ref := Nat

structure Cache where
  vms : LinkedMap Ref VmCache
  nameToRef : LinkedMap String Ref
  tasks : LinkedMap Ref TaskCache

inductive Kind
  | enter | modify | leave
  deriving DecidableEq

inductive Update
  | vm (kind : Kind) (ref : Ref) (changeSet : List VmChange)
  | task (kind : Kind) (ref : Ref) (changeSet : List TaskChange)
  deriving DecidableEq

inductive VimError
  | assertion (ref : Ref)
  | vmNotFound (vmId : String)
  | keyError (ref : Ref)
  deriving DecidableEq

def putName (ref : Ref) (names : LinkedMap String Ref) : VmChange → LinkedMap String Ref
  | .name (some val) => names.put val ref
  | _ => names

def Cache.addOrModifyVm (c : Cache) (ref : Ref) (changeSet : List VmChange) : Cache :=
  { c with vms := c.vms.put ref (changeSet.foldl VmCache.apply ((c.vms.get ref).getD {}))
           nameToRef := changeSet.foldl (putName ref) c.nameToRef }

/-- `_remove_vm_cache`; the name is removed only where it points to this machine. -/
def Cache.removeVm (c : Cache) (ref : Ref) (vm : VmCache) : Cache :=
  { c with vms := c.vms.remove ref
           nameToRef := match vm.name with
             | some name => if c.nameToRef.get name = some ref then c.nameToRef.remove name else c.nameToRef
             | none => c.nameToRef }

/-- `_update_task_cache`, which starts from an empty record. -/
def Cache.updateTask (c : Cache) (ref : Ref) (changeSet : List TaskChange) : Cache :=
  { c with tasks := c.tasks.put ref (changeSet.foldl TaskCache.apply {}) }

def Cache.update (c : Cache) : Update → Except VimError Cache
  | .vm .enter ref changeSet => .ok (c.addOrModifyVm ref changeSet)
  | .vm .modify ref changeSet =>
    if (c.vms.get ref).isSome then .ok (c.addOrModifyVm ref changeSet) else .error (.assertion ref)
  | .vm .leave ref _ =>
    match c.vms.get ref with
    | some vm => .ok (c.removeVm ref vm)
    | none => .error (.assertion ref)
  | .task .leave ref _ =>
    if (c.tasks.get ref).isSome then .ok { c with tasks := c.tasks.remove ref } else .error (.assertion ref)
  | .task _ ref changeSet => .ok (c.updateTask ref changeSet)

def Cache.getVmInCache (c : Cache) (vmId : String) : Except VimError VmCache :=
  match c.nameToRef.get vmId with
  | none => .error (.vmNotFound vmId)
  | some ref =>
    match c.vms.get ref with
    | none => .error (.keyError ref)
    | some vm => if vm.validate then .ok vm else .error (.vmNotFound vmId)

/-! ## The hypervisor -/

structure Hypervisor where
  vms : Ref → Option (List VmChange)
  tasks : Ref → Option (List TaskChange)

def Hypervisor.step (h : Hypervisor) : Update → Hypervisor
  | .vm kind ref changeSet =>
    { h with vms := fun r => if r = ref then
        (if kind = .leave then none else some ((h.vms ref).getD [] ++ changeSet)) else h.vms r }
  | .task kind ref changeSet =>
    { h with tasks := fun r => if r = ref then
        (if kind = .leave then none else some ((h.tasks ref).getD [] ++ changeSet)) else h.tasks r }

def latest {α β : Type} (value : α → Option β) (changes : List α) : Option β := (changes.filterMap value).getLast?

def VmChange.assignsName : VmChange → Option String
  | .name val => val
  | _ => none

def VmChange.assignsPowerState : VmChange → Option PowerState
  | .powerState val => val
  | _ => none

def VmChange.assignsConfig {β : Type} (value : ConfigInfo → Option β) : VmChange → Option β
  | .config val => val.bind value
  | _ => none

/-- The path name that the path is set to. -/
def VmChange.setsPath : VmChange → Option (Option String)
  | .config val => val.bind fun config => config.files.map FileInfo.vmPathName
  | _ => none

def VmChange.assignsPath (change : VmChange) : Option String := change.setsPath.join

def VmChange.assignsDisks : VmChange → Option (List String)
  | .layoutDisk val => val.map List.flatten
  | _ => none

def TaskChange.assignsState : TaskChange → Option TaskState
  | .state val => val
  | _ => none

def TaskChange.assignsError : TaskChange → Option String
  | .error val => val
  | _ => none

def ConfigInfo.extra (key : String) (config : ConfigInfo) : Option String :=
  latest (fun e => if e.1 = key then some e.2 else none) config.extraConfig

/-- The record of a machine: of every tracked property the latest value that is not null. -/
def latestVm (changes : List VmChange) : VmCache where
  name := latest VmChange.assignsName changes
  path := latest VmChange.assignsPath changes
  powerState := latest VmChange.assignsPowerState changes
  memoryMb := latest (VmChange.assignsConfig fun config => some config.memoryMB) changes
  numCpu := latest (VmChange.assignsConfig fun config => some config.numCPU) changes
  disks := latest VmChange.assignsDisks changes
  tenantId := latest (VmChange.assignsConfig (ConfigInfo.extra "photon_controller.vminfo.tenant")) changes
  projectId := latest (VmChange.assignsConfig (ConfigInfo.extra "photon_controller.vminfo.project")) changes

def latestTask (changes : List TaskChange) : TaskCache where
  state := latest TaskChange.assignsState changes
  error := latest TaskChange.assignsError changes

variable {α β : Type}

theorem latest_append (value : α → Option β) (old new : List α) :
    latest value (old ++ new) = (latest value new).or (latest value old) := by
  unfold latest
  rw [filterMap_append, getLast?_append]

theorem latest_cons (value : α → Option β) (a : α) (l : List α) :
    latest value (a :: l) = (latest value l).or (value a) := by
  rw [← singleton_append, latest_append]
  congr 1
  unfold latest
  cases h : value a <;> simp [h]

theorem latest_singleton (value : α → Option β) (a : α) : latest value [a] = value a := by
  unfold latest
  cases h : value a <;> simp [h]

theorem foldl_setExtra (extra : List (String × String)) (vm : VmCache) : extra.foldl VmCache.setExtra vm = { vm with
      tenantId :=
        (latest (fun e => if e.1 = "photon_controller.vminfo.tenant" then some e.2 else none) extra).or vm.tenantId
      projectId :=
        (latest (fun e => if e.1 = "photon_controller.vminfo.project" then some e.2 else none) extra).or
          vm.projectId } := by
  induction extra generalizing vm with
  | nil => rfl
  | cons e extra ih =>
    rw [foldl_cons, ih, ← singleton_append, latest_append, latest_append, latest_singleton, latest_singleton]
    unfold VmCache.setExtra
    by_cases htenant : e.1 = "photon_controller.vminfo.tenant"
    · simp [htenant]
    · by_cases hproject : e.1 = "photon_controller.vminfo.project" <;> simp [htenant, hproject]

/-- **What a change set does to a record.** -/
theorem foldl_apply (changeSet : List VmChange) (vm : VmCache) : changeSet.foldl VmCache.apply vm = {
      name := (latestVm changeSet).name.or vm.name
      path := (latest VmChange.setsPath changeSet).getD vm.path
      powerState := (latestVm changeSet).powerState.or vm.powerState
      memoryMb := (latestVm changeSet).memoryMb.or vm.memoryMb
      numCpu := (latestVm changeSet).numCpu.or vm.numCpu
      disks := (latestVm changeSet).disks.or vm.disks
      tenantId := (latestVm changeSet).tenantId.or vm.tenantId
      projectId := (latestVm changeSet).projectId.or vm.projectId } := by
  induction changeSet generalizing vm with
  | nil => rfl
  | cons change changeSet ih =>
    rw [foldl_cons, ih]
    simp only [latestVm, latest_cons, Option.or_assoc, Option.getD_or]
    cases change with
    | name val | powerState val | layoutDisk val => cases val <;> rfl
    | other => rfl
    | config val =>
      cases val with
      | none => rfl
      | some val =>
        rw [VmCache.apply, foldl_setExtra]
        rfl

theorem latest_assignsPath {changes : List VmChange} (hset : latest VmChange.setsPath changes ≠ some none) :
    latest VmChange.assignsPath changes = (latest VmChange.setsPath changes).join := by
  have hjoin : changes.filterMap VmChange.assignsPath = (changes.filterMap VmChange.setsPath).filterMap id := by
    rw [filterMap_filterMap]
    rfl
  unfold latest at hset ⊢
  rw [hjoin]
  cases hlast : (changes.filterMap VmChange.setsPath).getLast? with
  | none =>
    rw [getLast?_eq_none_iff.1 hlast]
    rfl
  | some last =>
    cases last with
    | none => exact absurd hlast hset
    | some path =>
      obtain ⟨before, hbefore⟩ := getLast?_eq_some_iff.1 hlast
      rw [hbefore, filterMap_append]
      simp

/-- Where the last files in a change set have no path name, the machine has never had one. -/
def KeepsPath (old changeSet : List VmChange) : Prop :=
  latest VmChange.setsPath changeSet = some none → (latestVm (old ++ changeSet)).path = none

theorem foldl_apply_latestVm {old new : List VmChange} (hpath : KeepsPath old new) :
    new.foldl VmCache.apply (latestVm old) = latestVm (old ++ new) := by
  have hkept : (latest VmChange.setsPath new).getD (latestVm old).path = (latestVm (old ++ new)).path := by
    by_cases hnull : latest VmChange.setsPath new = some none
    · rw [hnull, hpath hnull]
      rfl
    · have hnew := latest_assignsPath hnull
      simp only [latestVm, latest_append]
      rw [hnew]
      cases hset : latest VmChange.setsPath new with
      | none => rfl
      | some path =>
        cases path with
        | none => exact absurd hset hnull
        | some path => rfl
  rw [foldl_apply, hkept]
  simp only [latestVm, latest_append]

theorem foldl_apply_latestTask (old new : List TaskChange) :
    new.foldl TaskCache.apply (latestTask old) = latestTask (old ++ new) := by
  induction new generalizing old with
  | nil => rw [append_nil, foldl_nil]
  | cons change new ih =>
    have hsnoc : latestTask (old ++ [change]) = (latestTask old).apply change := by
      unfold latestTask
      simp only [latest_append, latest_singleton]
      cases change with
      | error val | state val => cases val <;> rfl
      | other => rfl
    rw [foldl_cons, ← hsnoc, ih, append_assoc, singleton_append]

theorem validate_append {old : List VmChange} (new : List VmChange) (h : (latestVm old).validate = true) :
    (latestVm (old ++ new)).validate = true := by
  unfold VmCache.validate latestVm at h ⊢
  simp only [Bool.and_eq_true] at h
  obtain ⟨⟨⟨⟨⟨hname, hpath⟩, hpower⟩, hmemory⟩, hcpu⟩, hdisks⟩ := h
  simp [latest_append, Option.isSome_or, hname, hpath, hpower, hmemory, hcpu, hdisks]

/-! ## The caches follow the hypervisor -/

structure System where
  hypervisor : Hypervisor
  cache : Except VimError Cache

def System.initial : System := ⟨⟨fun _ => none, fun _ => none⟩, .ok ⟨.empty, .empty, .empty⟩⟩

def System.step (s : System) (object : Update) : System := ⟨s.hypervisor.step object, s.cache.bind (·.update object)⟩

/-- `_update_cache`: the objects of the filter sets in turn; an assertion that fails ends it. -/
def System.updateCache (s : System) (objects : List Update) : System := run System.step s objects

def Throughout (C : System → Update → Prop) (updates : List (List Update)) : Prop :=
  Meets System.updateCache (Meets System.step C) .initial updates

theorem always_updateCache {P : System → Prop} {C : System → Update → Prop} (hinitial : P .initial)
    (hstep : ∀ s object, P s → C s object → P (s.step object)) {updates : List (List Update)}
    (h : Throughout C updates) :
    Always System.updateCache P .initial updates :=
  Runs.always_of_meets (fun _ _ hs hmeets => (Runs.always_of_meets hstep hs hmeets).run) hinitial h

def Hypervisor.vm (h : Hypervisor) (ref : Ref) : Option VmCache := (h.vms ref).map latestVm

variable {kind : Kind}

open Hypervisor (step vm)

theorem vm_step_change (h : Hypervisor) (hkind : kind ≠ .leave) (ref : Ref) (changeSet : List VmChange)
    (r : Ref) : (h.step (.vm kind ref changeSet)).vm r =
      if r = ref then some (latestVm ((h.vms ref).getD [] ++ changeSet)) else h.vm r := by
  simp only [vm, step, if_neg hkind]
  split <;> rfl

theorem vm_step_leave (h : Hypervisor) (ref : Ref) (changeSet : List VmChange) (r : Ref) :
    (h.step (.vm .leave ref changeSet)).vm r = if r = ref then none else h.vm r := by
  simp only [vm, step, if_true]
  split <;> rfl

/-- An object enters before it is modified or leaves. -/
def Entered (s : System) : Update → Prop
  | .vm kind ref _ => kind ≠ .enter → s.hypervisor.vms ref ≠ none
  | .task kind ref _ => kind ≠ .enter → s.hypervisor.tasks ref ≠ none

/-- The cache has the objects that are there. -/
structure Follows (h : Hypervisor) (c : Cache) : Prop where
  vms : ∀ ref, (c.vms.get ref).isSome = (h.vm ref).isSome
  tasks : ∀ ref, (c.tasks.get ref).isSome = (h.tasks ref).isSome

def Tracks (h : Hypervisor) (c : Cache) : Prop := ∀ ref, c.vms.get ref = h.vm ref

variable {h : Hypervisor}

theorem Tracks.addOrModifyVm {c : Cache} (htracks : Tracks h c) (hkind : kind ≠ .leave) {ref : Ref}
    {changeSet : List VmChange} (hpath : KeepsPath ((h.vms ref).getD []) changeSet) :
    Tracks (h.step (.vm kind ref changeSet)) (c.addOrModifyVm ref changeSet) := by
  intro r
  rw [vm_step_change h hkind, Cache.addOrModifyVm, LinkedMap.get_put, ← foldl_apply_latestVm hpath, htracks, htracks]
  unfold vm
  cases h.vms ref <;> rfl

theorem Tracks.removeVm {c : Cache} (htracks : Tracks h c) (ref : Ref) (vm : VmCache)
    (changeSet : List VmChange) : Tracks (h.step (.vm .leave ref changeSet)) (c.removeVm ref vm) := by
  intro r
  rw [vm_step_leave, Cache.removeVm, LinkedMap.get_remove, htracks]

inductive Updated (c : Cache) : Update → Cache → Prop
  | vmChanged {kind : Kind} (hkind : kind ≠ .leave) (ref : Ref) (changeSet : List VmChange) :
    Updated c (.vm kind ref changeSet) (c.addOrModifyVm ref changeSet)
  | vmLeft {ref : Ref} {vm : VmCache} (hvm : c.vms.get ref = some vm) (changeSet : List VmChange) :
    Updated c (.vm .leave ref changeSet) (c.removeVm ref vm)
  | taskChanged {kind : Kind} (hkind : kind ≠ .leave) (ref : Ref) (changeSet : List TaskChange) :
    Updated c (.task kind ref changeSet) (c.updateTask ref changeSet)
  | taskLeft (ref : Ref) (changeSet : List TaskChange) :
    Updated c (.task .leave ref changeSet) { c with tasks := c.tasks.remove ref }

variable {h : Hypervisor} {c : Cache} {object : Update}

theorem exists_updated (hfollows : Follows h c)
    (hentered : Entered ⟨h, .ok c⟩ object) : ∃ c', c.update object = .ok c' ∧ Updated c object c' := by
  cases object with
  | vm kind ref changeSet =>
    have hpresent : kind ≠ .enter → (c.vms.get ref).isSome = true := by
      intro hkind
      rw [hfollows.vms, Hypervisor.vm, Option.isSome_map]
      exact Option.isSome_iff_ne_none.2 (hentered hkind)
    cases kind with
    | enter => exact ⟨_, rfl, .vmChanged (by decide) ref changeSet⟩
    | modify => exact ⟨_, if_pos (hpresent (by decide)), .vmChanged (by decide) ref changeSet⟩
    | leave =>
      obtain ⟨vm, hvm⟩ := Option.isSome_iff_exists.1 (hpresent (by decide))
      exact ⟨_, by rw [Cache.update, hvm], .vmLeft hvm changeSet⟩
  | task kind ref changeSet =>
    cases kind with
    | enter | modify => exact ⟨_, rfl, .taskChanged (by decide) ref changeSet⟩
    | leave =>
      have hpresent := (hfollows.tasks ref).trans (Option.isSome_iff_ne_none.2 (hentered (by decide)))
      exact ⟨_, if_pos hpresent, .taskLeft ref changeSet⟩

theorem tasks_step_change (h : Hypervisor) (hkind : kind ≠ .leave) (ref : Ref) (changeSet : List TaskChange)
    (r : Ref) : (h.step (.task kind ref changeSet)).tasks r =
      if r = ref then some ((h.tasks ref).getD [] ++ changeSet) else h.tasks r := by
  simp only [step, if_neg hkind]

variable {c' : Cache}

theorem follows_step (hfollows : Follows h c) (hupdated : Updated c object c') : Follows (h.step object) c' := by
  cases hupdated with
  | vmChanged hkind ref changeSet =>
    refine ⟨fun r => ?_, hfollows.tasks⟩
    rw [vm_step_change h hkind, Cache.addOrModifyVm, LinkedMap.get_put]
    split
    · rfl
    · exact hfollows.vms r
  | vmLeft hvm changeSet =>
    refine ⟨fun r => ?_, hfollows.tasks⟩
    rw [vm_step_leave, Cache.removeVm, LinkedMap.get_remove]
    split
    · rfl
    · exact hfollows.vms r
  | taskChanged hkind ref changeSet =>
    refine ⟨hfollows.vms, fun r => ?_⟩
    rw [tasks_step_change h hkind, Cache.updateTask, LinkedMap.get_put]
    split
    · rfl
    · exact hfollows.tasks r
  | taskLeft ref changeSet =>
    refine ⟨hfollows.vms, fun r => ?_⟩
    simp only [step, LinkedMap.get_remove, if_true]
    split
    · rfl
    · exact hfollows.tasks r

/-- A configuration that has files without a path name does not come to a machine that has had a path, unless one with a
path name follows in the change set. -/
def PathsKept (s : System) : Update → Prop
  | .vm .leave _ _ => True
  | .vm _ ref changeSet => KeepsPath ((s.hypervisor.vms ref).getD []) changeSet
  | .task .. => True

theorem tracks_step (htracks : Tracks h c) (hpaths : PathsKept ⟨h, .ok c⟩ object) (hupdated : Updated c object c') :
    Tracks (h.step object) c' := by
  cases hupdated with
  | @vmChanged kind hkind ref changeSet =>
    cases kind with
    | enter | modify => exact htracks.addOrModifyVm hkind hpaths
    | leave => exact absurd rfl hkind
  | vmLeft hvm changeSet => exact htracks.removeVm _ _ changeSet
  | taskChanged | taskLeft => exact htracks

/-! ## The names -/

theorem get_foldl_putName (ref : Ref) (name : String) : ∀ (changeSet : List VmChange) (names : LinkedMap String Ref),
    (changeSet.foldl (putName ref) names).get name = if VmChange.name (some name) ∈ changeSet then some ref
    else names.get name
  | [], names => by simp
  | change :: changeSet, names => by
    rw [foldl_cons, get_foldl_putName ref name changeSet]
    by_cases hmem : VmChange.name (some name) ∈ changeSet
    · simp [hmem]
    · rw [if_neg hmem]
      cases change with
      | name val =>
        cases val with
        | none => simp [putName, hmem]
        | some val => by_cases hval : name = val <;> simp [putName, hmem, hval]
      | powerState | config | layoutDisk | other => simp [putName, hmem]

/-- A name that is assigned is the only one the machine ever has, and if another machine has it, the record is
complete. -/
def NamesOnce (h : Hypervisor) (ref : Ref) (changeSet : List VmChange) : Prop :=
  ∀ name, VmChange.name (some name) ∈ changeSet →
    (∀ name', VmChange.name (some name') ∈ (h.vms ref).getD [] ++ changeSet → name' = name) ∧
    ∀ r other, r ≠ ref → h.vm r = some other → other.name = some name →
      (latestVm ((h.vms ref).getD [] ++ changeSet)).validate = true

/-- A machine has one name as long as it is there; a machine that takes the name of another has a complete record; and
the last machine that took a name does not leave before the others that have it. -/
def Orderly (s : System) : Update → Prop
  | .vm .leave ref _ => ∀ c vm name, s.cache = .ok c → s.hypervisor.vm ref = some vm → vm.name = some name →
      c.nameToRef.get name = some ref → ∀ r other, r ≠ ref → s.hypervisor.vm r = some other → other.name ≠ some name
  | .vm _ ref changeSet => NamesOnce s.hypervisor ref changeSet
  | .task .. => True

/-- A name points to a machine that has it; and every machine is found by its name, or one with a complete record is. -/
structure Named (h : Hypervisor) (c : Cache) : Prop where
  index : ∀ name ref, c.nameToRef.get name = some ref → ∃ vm, h.vm ref = some vm ∧ vm.name = some name
  held : ∀ ref vm name, h.vm ref = some vm → vm.name = some name → c.nameToRef.get name = some ref ∨
    ∃ r other, c.nameToRef.get name = some r ∧ h.vm r = some other ∧ other.validate = true

theorem name_mem_of_latest {changes : List VmChange} {name : String} (h : (latestVm changes).name = some name) :
    VmChange.name (some name) ∈ changes := by
  obtain ⟨change, hmem, hname⟩ := mem_filterMap.1 (mem_of_getLast? h)
  cases change with
  | name val =>
    obtain rfl : val = some name := hname
    exact hmem
  | powerState | config | layoutDisk | other => cases hname

theorem eq_latestVm {ref : Ref} {vm : VmCache} (hvm : h.vm ref = some vm) : vm = latestVm ((h.vms ref).getD []) := by
  obtain ⟨changes, hchanges, rfl⟩ := Option.map_eq_some_iff.1 hvm
  rw [hchanges]
  rfl

theorem NamesOnce.latest_name_iff {ref : Ref} {changeSet : List VmChange} (hnames : NamesOnce h ref changeSet)
    (name : String) : (latestVm ((h.vms ref).getD [] ++ changeSet)).name = some name ↔
      VmChange.name (some name) ∈ changeSet ∨
        (∀ name', VmChange.name (some name') ∉ changeSet) ∧ (latestVm ((h.vms ref).getD [])).name = some name := by
  change latest VmChange.assignsName (_ ++ changeSet) = _ ↔ _
  rw [latest_append]
  cases hlatest : latest VmChange.assignsName changeSet with
  | none =>
    have hnone : ∀ name', VmChange.name (some name') ∉ changeSet := fun name' hmem =>
      nomatch filterMap_eq_nil_iff.1 (getLast?_eq_none_iff.1 hlatest) _ hmem
    exact ⟨fun h => .inr ⟨hnone, h⟩, fun h => (h.resolve_left (hnone name)).2⟩
  | some assigned =>
    have hmem : VmChange.name (some assigned) ∈ changeSet := name_mem_of_latest hlatest
    refine ⟨fun h => .inl (Option.some.inj h ▸ hmem), fun h => congrArg some ?_⟩
    have hassigned := h.resolve_right fun h => h.1 assigned hmem
    exact (hnames name hassigned).1 assigned (mem_append_right _ hmem)

theorem Named.addOrModifyVm {c : Cache} (hnamed : Named h c) (hkind : kind ≠ .leave)
    {ref : Ref} {changeSet : List VmChange} (hnames : NamesOnce h ref changeSet) :
    Named (h.step (.vm kind ref changeSet)) (c.addOrModifyVm ref changeSet) := by
  have hname := hnames.latest_name_iff
  constructor
  · intro name r hget
    rw [Cache.addOrModifyVm, get_foldl_putName] at hget
    simp only [vm_step_change h hkind]
    split at hget
    · rename_i hassigned
      cases hget
      exact ⟨_, if_pos rfl, (hname name).2 (.inl hassigned)⟩
    · rename_i hassigned
      obtain ⟨vm, hvm, hvmname⟩ := hnamed.index name r hget
      by_cases hr : r = ref
      · subst hr
        refine ⟨_, if_pos rfl, (hname name).2 (.inr ⟨fun name' hname' => hassigned ?_, eq_latestVm hvm ▸ hvmname⟩)⟩
        have heq := (hnames name' hname').1 name
          (mem_append_left _ (name_mem_of_latest (eq_latestVm hvm ▸ hvmname)))
        exact heq ▸ hname'
      · exact ⟨vm, (if_neg hr).trans hvm, hvmname⟩
  · intro r vm name hvm hvmname
    simp only [Cache.addOrModifyVm, get_foldl_putName, vm_step_change h hkind] at hvm ⊢
    by_cases hassigned : VmChange.name (some name) ∈ changeSet
    · rw [if_pos hassigned]
      by_cases hr : r = ref
      · exact .inl (congrArg some hr.symm)
      · rw [if_neg hr] at hvm
        exact .inr ⟨ref, _, rfl, if_pos rfl, (hnames name hassigned).2 r vm hr hvm hvmname⟩
    · -- the name is not assigned, so the machine had it before
      have hbefore : ∃ before, h.vm r = some before ∧ before.name = some name := by
        split at hvm
        · rename_i hr
          cases hvm
          have hlatest := ((hname name).1 hvmname).resolve_left hassigned
          cases hchanges : h.vms ref with
          | none =>
            rw [hchanges] at hlatest
            cases hlatest.2
          | some changes =>
            rw [hchanges] at hlatest
            exact ⟨latestVm changes, by rw [hr, vm, hchanges, Option.map_some], hlatest.2⟩
        · exact ⟨vm, hvm, hvmname⟩
      obtain ⟨before, hbefore, hbeforename⟩ := hbefore
      rw [if_neg hassigned]
      rcases hnamed.held r before name hbefore hbeforename with hheld | ⟨r', other, hheld, hother, hvalid⟩
      · exact .inl hheld
      · refine .inr ⟨r', ?_⟩
        by_cases hr' : r' = ref
        · refine ⟨_, hheld, if_pos hr', validate_append changeSet ?_⟩
          rw [← eq_latestVm (hr' ▸ hother)]
          exact hvalid
        · exact ⟨other, hheld, (if_neg hr').trans hother, hvalid⟩

theorem Named.removeVm {c : Cache} (hnamed : Named h c) {ref : Ref} {vm : VmCache} (hvm : h.vm ref = some vm)
    (hleave : ∀ name, vm.name = some name → c.nameToRef.get name = some ref →
      ∀ r other, r ≠ ref → h.vm r = some other → other.name ≠ some name) (changeSet : List VmChange) :
    Named (h.step (.vm .leave ref changeSet)) (c.removeVm ref vm) := by
  have hpoints : ∀ name, c.nameToRef.get name = some ref → vm.name = some name := by
    intro name hget
    obtain ⟨other, hother, hname⟩ := hnamed.index name ref hget
    rw [Option.some.inj (hvm.symm.trans hother)]
    exact hname
  -- the names that point to the machine are gone, and no others
  have hget : ∀ name r, (c.removeVm ref vm).nameToRef.get name = some r ↔ c.nameToRef.get name = some r ∧ r ≠ ref := by
    intro name r
    have hremoved : (c.removeVm ref vm).nameToRef.get name =
        if c.nameToRef.get name = some ref then none else c.nameToRef.get name := by
      unfold Cache.removeVm
      cases hown : vm.name with
      | none => exact (if_neg fun hname => nomatch hown.symm.trans (hpoints name hname)).symm
      | some own =>
        by_cases heq : name = own
        · subst heq
          dsimp only
          split <;> simp
        · rw [if_neg fun hname => heq (Option.some.inj ((hpoints name hname).symm.trans hown))]
          dsimp only
          split <;> simp [LinkedMap.get_remove, heq]
    rw [hremoved]
    split
    · rename_i hname
      simp [hname, eq_comm]
    · rename_i hname
      exact ⟨fun h => ⟨h, fun hr => hname (hr ▸ h)⟩, And.left⟩
  constructor
  · intro name r hr
    obtain ⟨hr, hne⟩ := (hget name r).1 hr
    obtain ⟨other, hother, hname⟩ := hnamed.index name r hr
    exact ⟨other, by rw [vm_step_leave, if_neg hne, hother], hname⟩
  · intro r other name hother hname
    rw [vm_step_leave] at hother
    split at hother
    · cases hother
    · rename_i hne
      rcases hnamed.held r other name hother hname with hheld | ⟨r', other', hheld, hother', hvalid⟩
      · exact .inl ((hget name r).2 ⟨hheld, hne⟩)
      · have hne' : r' ≠ ref := by
          rintro rfl
          exact hleave name (hpoints name hheld) hheld r other hne hother hname
        exact .inr ⟨r', other', (hget name r').2 ⟨hheld, hne'⟩, by rw [vm_step_leave, if_neg hne', hother'], hvalid⟩

/-! ## Whole histories -/

/-- The machines in the cache are those present, each with its latest values. -/
def VmsRight (s : System) : Prop := ∃ c, s.cache = .ok c ∧ ∀ ref, c.vms.get ref = s.hypervisor.vm ref

def Hypervisor.Has (h : Hypervisor) (name : String) (ref : Ref) (vm : VmCache) : Prop :=
  h.vm ref = some vm ∧ vm.validate = true ∧ vm.name = some name

/-- Every name points to a machine that has it, and `get_vm_in_cache` finds the one machine of a name, or none where
there is none. -/
def NamesRight (s : System) : Prop :=
  ∃ c, s.cache = .ok c ∧
    (∀ name ref, c.nameToRef.get name = some ref → ∃ vm, s.hypervisor.vm ref = some vm ∧ vm.name = some name) ∧
    ∀ name,
      (∀ ref vm, s.hypervisor.Has name ref vm → (∀ r other, s.hypervisor.Has name r other → r = ref) →
        c.getVmInCache name = .ok vm) ∧
      ((∀ ref vm, ¬ s.hypervisor.Has name ref vm) → c.getVmInCache name = .error (.vmNotFound name))

def TasksRight (s : System) : Prop :=
  ∃ c, s.cache = .ok c ∧ ∀ ref changes, s.hypervisor.tasks ref = some changes →
    c.tasks.get ref = some (latestTask changes)

/-- An update of a task that stays assigns again what was assigned before. -/
def Whole (s : System) : Update → Prop
  | .vm .. => True
  | .task .leave _ _ => True
  | .task _ ref changeSet =>
    ((latestTask ((s.hypervisor.tasks ref).getD [])).state ≠ none → (latestTask changeSet).state ≠ none) ∧
    ((latestTask ((s.hypervisor.tasks ref).getD [])).error ≠ none → (latestTask changeSet).error ≠ none)

theorem namesRight_of_named (htracks : Tracks h c) (hnamed : Named h c) : NamesRight ⟨h, .ok c⟩ := by
  refine ⟨c, rfl, hnamed.index, fun name => ⟨fun ref vm hhas hone => ?_, fun hnone => ?_⟩⟩
  · have hget : c.nameToRef.get name = some ref := by
      rcases hnamed.held ref vm name hhas.1 hhas.2.2 with hheld | ⟨r, other, hheld, hother, hvalid⟩
      · exact hheld
      · obtain ⟨vm', hvm', hname⟩ := hnamed.index name r hheld
        cases hother.symm.trans hvm'
        rw [hheld, hone r other ⟨hother, hvalid, hname⟩]
    unfold Cache.getVmInCache
    rw [hget]
    dsimp only
    rw [htracks, hhas.1]
    exact if_pos hhas.2.1
  · unfold Cache.getVmInCache
    split
    · rfl
    · rename_i ref hget
      obtain ⟨vm, hvm, hname⟩ := hnamed.index name ref hget
      rw [htracks, hvm]
      exact if_neg fun hvalid => hnone ref vm ⟨hvm, hvalid, hname⟩

theorem named_step (htracks : Tracks h c) (hnamed : Named h c)
    (horderly : Orderly ⟨h, .ok c⟩ object) (hupdated : Updated c object c') : Named (h.step object) c' := by
  cases hupdated with
  | @vmChanged kind hkind ref changeSet =>
    cases kind with
    | enter | modify => exact hnamed.addOrModifyVm hkind horderly
    | leave => exact absurd rfl hkind
  | @vmLeft ref vm hvm changeSet =>
    have hpresent := (htracks ref).symm.trans hvm
    exact hnamed.removeVm hpresent (fun name => horderly c vm name rfl hpresent) changeSet
  | taskChanged | taskLeft => exact ⟨hnamed.index, hnamed.held⟩

theorem latestTask_append {old new : List TaskChange}
    (hstate : (latestTask old).state ≠ none → (latestTask new).state ≠ none)
    (herror : (latestTask old).error ≠ none → (latestTask new).error ≠ none) :
      latestTask (old ++ new) = latestTask new := by
  have hor : ∀ {β : Type} {a b : Option β}, (b ≠ none → a ≠ none) → a.or b = a := by
    intro β a b hab
    cases a with
    | some a => rfl
    | none =>
      cases b with
      | none => rfl
      | some b => exact absurd rfl (hab nofun)
  unfold latestTask
  rw [latest_append, latest_append]
  exact TaskCache.ext (hor hstate) (hor herror)

def TasksFollow (h : Hypervisor) (c : Cache) : Prop :=
  ∀ ref changes, h.tasks ref = some changes → c.tasks.get ref = some (latestTask changes)

theorem tasks_step (htasks : TasksFollow h c) (hwhole : Whole ⟨h, .ok c⟩ object) (hupdated : Updated c object c') :
    TasksFollow (h.step object) c' := by
  cases hupdated with
  | vmChanged | vmLeft => exact htasks
  | @taskChanged kind hkind ref changeSet =>
    have hwhole : ((latestTask ((h.tasks ref).getD [])).state ≠ none → (latestTask changeSet).state ≠ none) ∧
        ((latestTask ((h.tasks ref).getD [])).error ≠ none → (latestTask changeSet).error ≠ none) := by
      cases kind with
      | enter | modify => exact hwhole
      | leave => exact absurd rfl hkind
    intro r changes hr
    rw [tasks_step_change h hkind] at hr
    rw [Cache.updateTask, LinkedMap.get_put]
    split at hr
    · rename_i heq
      cases hr
      rw [if_pos heq, latestTask_append hwhole.1 hwhole.2]
      exact congrArg some (foldl_apply_latestTask [] changeSet)
    · rename_i hne
      rw [if_neg hne]
      exact htasks r changes hr
  | taskLeft ref changeSet =>
    intro r changes hr
    simp only [step, if_true] at hr
    rw [LinkedMap.get_remove]
    split at hr
    · cases hr
    · rename_i hne
      rw [if_neg hne]
      exact htasks r changes hr

/-- **An invariant over whole histories**, of updates that meet a condition. -/
theorem always_of_follows {Q : Hypervisor → Cache → Prop} {C : System → Update → Prop} {P : System → Prop}
    (hentered : ∀ {s object}, C s object → Entered s object)
    (hinitial : Q System.initial.hypervisor ⟨.empty, .empty, .empty⟩)
    (hstep : ∀ {h c object c'}, Follows h c → Q h c → C ⟨h, .ok c⟩ object → Updated c object c' → Q (h.step object) c')
    (hright : ∀ {h c}, Follows h c → Q h c → P ⟨h, .ok c⟩) {updates : List (List Update)}
      (hmeets : Throughout C updates) :
    Always System.updateCache P .initial updates := by
  refine (always_updateCache (P := fun s => ∃ c, s.cache = .ok c ∧ Follows s.hypervisor c ∧ Q s.hypervisor c)
    ⟨_, rfl, ⟨fun _ => rfl, fun _ => rfl⟩, hinitial⟩ ?_ hmeets).mono ?_
  · rintro ⟨h, _⟩ object ⟨c, rfl, hs, hq⟩ hcond
    obtain ⟨c', hupdate, hupdated⟩ := exists_updated hs (hentered hcond)
    exact ⟨c', hupdate, follows_step hs hupdated, hstep hs hq hcond hupdated⟩
  · rintro ⟨h, _⟩ ⟨c, rfl, hs, hq⟩
    exact hright hs hq

def completeChanges : List VmChange :=
  [.name (some "a"), .powerState (some .poweredOff), .config (some ⟨512, 1, some ⟨some "[ds] vm.vmx"⟩, []⟩),
    .layoutDisk (some [])]

def takenOver : List (List Update) :=
  [[.vm .enter 1 completeChanges, .vm .enter 2 completeChanges], [.vm .leave 1 []],
    [.task .enter 1 [.state (some .running)], .task .modify 1 [.state (some .success)]], [.task .leave 1 []]]

def renamed : List (List Update) :=
  [[.vm .enter 1 completeChanges], [.vm .modify 1 [.name (some "b")]], [.vm .leave 1 []]]

def failedTask : List (List Update) :=
  [[.task .enter 1 [.state (some .error)]], [.task .modify 1 [.error (some "fault")]]]

def pathless : List (List Update) :=
  [[.vm .enter 1 completeChanges], [.vm .modify 1 [.config (some ⟨512, 1, some ⟨none⟩, []⟩)]]]

/-- **The caches are the fold of the updates.**  Where objects enter before they are modified or leave, the cache of the
machines is right as long as no null takes the place of a path; the names are, where the updates are orderly in them
too; and the tasks are where an update of a task assigns again what was assigned before. -/
theorem caches_follow_updates (updates : List (List Update)) :
    (Throughout (fun s object => Entered s object ∧ PathsKept s object) updates →
      Always System.updateCache VmsRight .initial updates) ∧
    (Throughout (fun s object => Entered s object ∧ PathsKept s object ∧ Orderly s object) updates →
      Always System.updateCache NamesRight .initial updates) ∧
    (Throughout (fun s object => Entered s object ∧ Whole s object) updates →
      Always System.updateCache TasksRight .initial updates) := by
  refine ⟨fun h => ?_, fun h => ?_, fun h => ?_⟩
  · exact always_of_follows And.left (Q := Tracks) (fun _ => rfl) (fun _ htracks hcond => tracks_step htracks hcond.2)
      (fun _ htracks => ⟨_, rfl, htracks⟩) h
  · refine always_of_follows (Q := fun h c => Tracks h c ∧ Named h c) And.left ?_ ?_ ?_ h
    · exact ⟨fun _ => rfl, fun _ _ hget => (by cases hget), fun _ _ _ hvm => (by cases hvm)⟩
    · rintro h c object c' - ⟨htracks, hnamed⟩ ⟨-, hpaths, horderly⟩ hupdated
      exact ⟨tracks_step htracks hpaths hupdated, named_step htracks hnamed horderly hupdated⟩
    · exact fun _ hq => namesRight_of_named hq.1 hq.2
  · exact always_of_follows And.left (Q := TasksFollow) nofun (fun _ htasks hcond => tasks_step htasks hcond.2)
      (fun _ htasks => ⟨_, rfl, htasks⟩) h

theorem caches_follow_takenOver :
    Always System.updateCache VmsRight .initial takenOver ∧ Always System.updateCache NamesRight .initial takenOver ∧
      Always System.updateCache TasksRight .initial takenOver := by
  have hnames : ∀ name, VmChange.name (some name) ∈ completeChanges → name = "a" := by simp [completeChanges]
  have henters : ∀ name, VmChange.name (some name) ∈ completeChanges →
      ∀ name', VmChange.name (some name') ∈ [] ++ completeChanges → name' = name :=
    fun name hname name' hname' => (hnames name' hname').trans (hnames name hname).symm
  have hpath : ∀ old, KeepsPath old completeChanges := fun old hnull => absurd hnull (by decide)
  refine ⟨(caches_follow_updates _).1 ?_, (caches_follow_updates _).2.1 ?_, (caches_follow_updates _).2.2 ?_⟩
  · exact ⟨⟨⟨nofun, hpath _⟩, ⟨nofun, hpath _⟩, trivial⟩, ⟨⟨fun _ => nofun, trivial⟩, trivial⟩,
      ⟨⟨nofun, trivial⟩, ⟨fun _ => nofun, trivial⟩, trivial⟩, ⟨⟨fun _ => nofun, trivial⟩, trivial⟩, trivial⟩
  · refine ⟨⟨⟨nofun, hpath _, fun name hname => ⟨henters name hname, fun _ _ _ _ _ => rfl⟩⟩,
      ⟨nofun, hpath _, fun name hname => ⟨henters name hname, fun _ _ _ _ _ => rfl⟩⟩, trivial⟩,
      ⟨⟨fun _ => nofun, trivial, ?_⟩, trivial⟩,
        ⟨⟨nofun, trivial, trivial⟩, ⟨fun _ => nofun, trivial, trivial⟩, trivial⟩,
      ⟨⟨fun _ => nofun, trivial, trivial⟩, trivial⟩, trivial⟩
    rintro c vm name ⟨⟩ ⟨⟩ ⟨⟩ hget
    exact absurd hget (by decide +kernel)
  · exact ⟨⟨⟨nofun, trivial⟩, ⟨nofun, trivial⟩, trivial⟩, ⟨⟨fun _ => nofun, trivial⟩, trivial⟩,
      ⟨⟨nofun, nofun, nofun⟩, ⟨fun _ => nofun, fun _ => nofun, nofun⟩, trivial⟩,
      ⟨⟨fun _ => nofun, trivial⟩, trivial⟩, trivial⟩

/-- The old name of a renamed machine stays, and points to nothing when the machine has left; an error wipes out the
state; and files without a path name wipe out the path. -/
theorem caches_lose_updates :
    (Throughout Entered renamed ∧ ¬ Always System.updateCache NamesRight .initial renamed) ∧
    (Throughout Entered failedTask ∧ ¬ Always System.updateCache TasksRight .initial failedTask) ∧
    Throughout Entered pathless ∧ ¬ Always System.updateCache VmsRight .initial pathless := by
  refine ⟨⟨⟨⟨nofun, trivial⟩, ⟨fun _ => nofun, trivial⟩, ⟨fun _ => nofun, trivial⟩, trivial⟩, fun h => ?_⟩,
    ⟨⟨⟨nofun, trivial⟩, ⟨fun _ => nofun, trivial⟩, trivial⟩, fun h => ?_⟩,
    ⟨⟨nofun, trivial⟩, ⟨fun _ => nofun, trivial⟩, trivial⟩, fun h => ?_⟩
  · obtain ⟨c, ⟨⟩, hindex, -⟩ := h.run
    obtain ⟨vm, hvm, -⟩ := hindex "a" 1 rfl
    cases hvm
  · obtain ⟨c, ⟨⟩, htasks⟩ := h.run
    cases htasks 1 _ rfl
  · obtain ⟨c, ⟨⟩, hvms⟩ := h.run
    cases hvms 1

end Photon.Agent.VimCache
