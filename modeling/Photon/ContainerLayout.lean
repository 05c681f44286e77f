import Mathlib.Data.List.Infix
import Photon.Keyed
/-!
# ContainerLayout — which VM a management container goes to

`CreateContainerSpecLayoutTaskService.createVmContainerAllocations`: the valid VMs of a template follow from what the
hosts allow; the VM of a container that is not replicated is chosen among all VMs, apart from those of incompatible
containers.
-/
namespace Photon.Deployer.ContainerLayout

open List
open Keyed (LinkedMap)

structure Template where
  documentSelfLink : String
  name : String
  isReplicated : Bool
  deriving DecidableEq

structure Vm where
  documentSelfLink : String
  hostServiceLink : String
  deriving DecidableEq

structure Host where
  documentSelfLink : String
  allowedServices : Option String
  deriving DecidableEq

def incompatibleContainerTypes : List (String × List String) :=
  [("LoadBalancer", ["Lightwave"]), ("Lightwave", ["LoadBalancer"])]

def contains (text part : String) : Bool := decide (part.toList <:+: text.toList)

def allowedHosts (template : Template) (hosts : List Host) : List Host :=
  let allowed := hosts.filter fun host => contains (host.allowedServices.getD "") template.name
  if allowed.isEmpty then hosts.filter fun host => host.allowedServices.isNone else allowed

def computeValidVms (template : Template) (vms : List Vm) (hosts : List Host) : List String :=
  (vms.filter fun vm => (allowedHosts template hosts).any fun host => host.documentSelfLink = vm.hostServiceLink).map
    Vm.documentSelfLink

def firstWithout (vms : List Vm) (links : List String) : Option String :=
  (vms.map Vm.documentSelfLink).find? fun link => link ∉ links

/-- `getAvailableVm`; `pick` is what the shuffle puts first. -/
def getAvailableVm (pick : List Vm → Option Vm) (containerName : String) (vms : List Vm)
    (singletonServiceToVmMap : LinkedMap String String) : Option String :=
  match incompatibleContainerTypes.lookup containerName with
  | some incompatible => firstWithout vms (incompatible.filterMap singletonServiceToVmMap.get)
  | none => (pick vms).map Vm.documentSelfLink

structure StartState where
  containerTemplate : Template
  dockerVmDocumentLinks : List String
  singletonVmServiceLink : Option String
  deriving DecidableEq

def allocate (pick : Template → List Vm → Option Vm) (vms : List Vm) (hosts : List Host) :
    List Template → LinkedMap String String → Option (List StartState)
  | [], _ => some []
  | template :: templates, assigned =>
    let valid := computeValidVms template vms hosts
    if template.isReplicated then
      (allocate pick vms hosts templates assigned).map (⟨template, valid, none⟩ :: ·)
    else
      (getAvailableVm (pick template) template.name vms assigned).bind fun vm =>
        (allocate pick vms hosts templates (assigned.put template.name vm)).map (⟨template, valid, some vm⟩ :: ·)

def createVmContainerAllocations (pick : Template → List Vm → Option Vm) (vms : List Vm) (hosts : List Host)
    (templates : List Template) : Option (List StartState) := allocate pick vms hosts templates .empty

/-! ## The rules of a layout -/

def Incompatible (x y : String) : Prop := ∃ types, incompatibleContainerTypes.lookup x = some types ∧ y ∈ types

def ValidVm (state : StartState) : Prop :=
    ∀ vm, state.singletonVmServiceLink = some vm → vm ∈ state.dockerVmDocumentLinks

def Apart (s t : StartState) : Prop := Incompatible s.containerTemplate.name t.containerTemplate.name →
  ∀ vm, s.singletonVmServiceLink = some vm → t.singletonVmServiceLink ≠ some vm

def Picks (pick : Template → List Vm → Option Vm) : Prop := ∀ template vms vm, pick template vms = some vm → vm ∈ vms

theorem lookup_incompatible {x : String} {types : List String} (h : incompatibleContainerTypes.lookup x = some types) :
    x = "LoadBalancer" ∧ types = ["Lightwave"] ∨ x = "Lightwave" ∧ types = ["LoadBalancer"] := by
  simp only [incompatibleContainerTypes, lookup_cons, lookup_nil] at h
  grind

theorem Incompatible.lookup {x y : String} (h : Incompatible x y) : incompatibleContainerTypes.lookup x = some [y] ∧
    incompatibleContainerTypes.lookup y = some [x] ∧ x ≠ y := by
  obtain ⟨types, htypes, hy⟩ := h
  rcases lookup_incompatible htypes with ⟨rfl, rfl⟩ | ⟨rfl, rfl⟩ <;> obtain rfl := mem_singleton.1 hy <;> decide

theorem Incompatible.symm {x y : String} (h : Incompatible x y) : Incompatible y x :=
  ⟨_, h.lookup.2.1, mem_singleton.2 rfl⟩

section

variable {pick : Template → List Vm → Option Vm} {vms : List Vm} {hosts : List Host}

/-- What is assigned to a container that has incompatible ones: the first VM without them.  So it is the same VM for
every container of the name. -/
def FirstOnes (vms : List Vm) (assigned : LinkedMap String String) : Prop :=
  ∀ x y vm, Incompatible x y → assigned.get x = some vm → firstWithout vms (assigned.get y).toList = some vm

theorem firstWithout_swap {b v : String} (hb : firstWithout vms [] = some b) (hv : firstWithout vms [b] = some v) :
    firstWithout vms [v] = some b := by
  unfold firstWithout at *
  cases hlinks : vms.map Vm.documentSelfLink with
  | nil =>
    rw [hlinks] at hb
    cases hb
  | cons link links =>
    rw [hlinks] at hb hv
    have hne : v ≠ b := by simpa using find?_some hv
    simp only [find?_cons, not_mem_nil, not_false_eq_true, decide_true, Option.some.injEq] at hb
    subst hb
    rw [find?_cons_of_pos (by simpa using hne.symm)]

variable {assigned : LinkedMap String String} {template : Template} {vm : String}

/-- A name that is assigned is assigned its VM again. -/
theorem FirstOnes.again (h : FirstOnes vms assigned)
    (hvm : getAvailableVm (pick template) template.name vms assigned = some vm)
    {y w : String} (hxy : Incompatible template.name y) (hw : assigned.get template.name = some w) : w = vm := by
  have hold := h template.name y w hxy hw
  rw [getAvailableVm, hxy.lookup.1] at hvm
  refine Option.some.inj (hold.symm.trans ?_)
  cases hget : assigned.get y <;> simpa [hget] using hvm

theorem FirstOnes.put (h : FirstOnes vms assigned)
    (hvm : getAvailableVm (pick template) template.name vms assigned = some vm) :
    FirstOnes vms (assigned.put template.name vm) := by
  intro x y v hxy hv
  obtain ⟨hx, hy, hne⟩ := hxy.lookup
  rw [LinkedMap.get_put] at hv ⊢
  by_cases hxname : x = template.name
  · rw [if_pos hxname] at hv
    cases hv
    rw [if_neg fun hyname => hne (hxname.trans hyname.symm)]
    rw [getAvailableVm, ← hxname, hx] at hvm
    cases hget : assigned.get y <;> simpa [hget] using hvm
  · rw [if_neg hxname] at hv
    have hold := h x y v hxy hv
    split
    · rename_i hyname
      subst hyname
      cases hget : assigned.get template.name with
      | none =>
        rw [getAvailableVm, hy] at hvm
        exact firstWithout_swap (by simpa [hget] using hold) (by simpa [hv] using hvm)
      | some w =>
        obtain rfl := h.again hvm hxy.symm hget
        rwa [hget] at hold
    · exact hold

/-- What `allocate` does, template by template. -/
inductive Allocates (pick : Template → List Vm → Option Vm) (vms : List Vm) (hosts : List Host) :
    LinkedMap String String → List Template → List StartState → Prop
  | nil (assigned : LinkedMap String String) : Allocates pick vms hosts assigned [] []
  | replicated {assigned : LinkedMap String String} {template : Template} {templates : List Template}
    {states : List StartState} :
    Allocates pick vms hosts assigned templates states → Allocates pick vms hosts assigned (template :: templates)
      (⟨template, computeValidVms template vms hosts, none⟩ :: states)
  | single {assigned : LinkedMap String String} {template : Template} {templates : List Template}
    {states : List StartState} {vm : String} : template.isReplicated = false →
      getAvailableVm (pick template) template.name vms assigned = some vm →
    Allocates pick vms hosts (assigned.put template.name vm) templates states → Allocates pick vms hosts assigned
      (template :: templates) (⟨template, computeValidVms template vms hosts, some vm⟩ :: states)

theorem allocates : ∀ {templates : List Template} {assigned : LinkedMap String String} {states : List StartState},
    allocate pick vms hosts templates assigned = some states → Allocates pick vms hosts assigned templates states
  | [], assigned, states, h => Option.some.inj h ▸ .nil assigned
  | template :: templates, assigned, states, h => by
    rw [allocate] at h
    split at h
    · obtain ⟨rest, hrest, rfl⟩ := Option.map_eq_some_iff.1 h
      exact .replicated (allocates hrest)
    · rename_i hsingle
      obtain ⟨vm, hvm, h⟩ := Option.bind_eq_some_iff.1 h
      obtain ⟨rest, hrest, rfl⟩ := Option.map_eq_some_iff.1 h
      exact .single (Bool.eq_false_iff.2 hsingle) hvm (allocates hrest)

theorem Allocates.apart {templates : List Template} {states : List StartState}
    (h : Allocates pick vms hosts assigned templates states) (hfirst : FirstOnes vms assigned) :
    (∀ s ∈ states, ∀ y w, Incompatible s.containerTemplate.name y → assigned.get y = some w →
      s.singletonVmServiceLink ≠ some w) ∧ states.Pairwise Apart := by
  induction h with
  | nil => simp
  | replicated _ ih =>
    obtain ⟨haway, happart⟩ := ih hfirst
    exact ⟨forall_mem_cons.2 ⟨by simp, haway⟩, pairwise_cons.2 ⟨fun _ _ _ _ hv => (by cases hv), happart⟩⟩
  | @single assigned template templates states vm _ hvm _ ih =>
    obtain ⟨haway, happart⟩ := ih (hfirst.put hvm)
    refine ⟨forall_mem_cons.2 ⟨fun y w hxy hw => ?_, fun s hs y w hxy hw => ?_⟩,
      pairwise_cons.2 ⟨fun t ht hxy v hv => ?_, happart⟩⟩
    · rw [getAvailableVm, hxy.lookup.1] at hvm
      simp only [filterMap_cons, hw, filterMap_nil] at hvm
      have hne : vm ∉ [w] := by simpa using find?_some hvm
      exact fun heq => hne (mem_singleton.2 (Option.some.inj heq))
    · refine haway s hs y w hxy ?_
      rw [LinkedMap.get_put]
      split
      · rename_i hyname
        subst hyname
        rw [hfirst.again hvm hxy.symm hw]
      · exact hw
    · cases hv
      exact haway t ht template.name vm hxy.symm (by rw [LinkedMap.get_put, if_pos rfl])

theorem Allocates.valid {templates : List Template} {states : List StartState}
    (h : Allocates pick vms hosts assigned templates states) (hpick : Picks pick)
    (hvalid : ∀ t ∈ templates, t.isReplicated = false → ∀ vm ∈ vms, vm.documentSelfLink ∈ computeValidVms t vms hosts) :
    ∀ s ∈ states, ValidVm s := by
  induction h with
  | nil => simp
  | replicated _ ih =>
    exact forall_mem_cons.2 ⟨fun _ hv => (by cases hv), ih fun t ht => hvalid t (mem_cons_of_mem _ ht)⟩
  | @single assigned template templates states vm hsingle hvm _ ih =>
    refine forall_mem_cons.2 ⟨fun v hv => ?_, ih fun t ht => hvalid t (mem_cons_of_mem _ ht)⟩
    cases hv
    have hmem : ∃ vm' ∈ vms, vm'.documentSelfLink = vm := by
      rw [getAvailableVm] at hvm
      split at hvm
      · exact mem_map.1 (mem_of_find?_eq_some hvm)
      · obtain ⟨vm', hvm', hlink⟩ := Option.map_eq_some_iff.1 hvm
        exact ⟨vm', hpick template vms vm' hvm', hlink⟩
    obtain ⟨vm', hvm', rfl⟩ := hmem
    exact hvalid template mem_cons_self hsingle vm' hvm'

end

theorem mem_computeValidVms_perm {vms order : List Vm} (h : order.Perm vms) (template : Template) (hosts : List Host)
    (link : String) : link ∈ computeValidVms template order hosts ↔ link ∈ computeValidVms template vms hosts :=
  ((h.filter _).map _).mem_iff

/-- **The rules of a layout.**  For the templates and all their subsets, in whatever order the VMs are and whatever the
shuffles, incompatible singleton containers have different VMs and singleton containers valid ones, exactly if every VM
is valid for every singleton container. -/
theorem layout_rules_iff (vms : List Vm) (hosts : List Host) (templates : List Template) :
    (∀ pick, Picks pick → ∀ order, order.Perm vms → ∀ ts ⊆ templates, ∀ states,
      createVmContainerAllocations pick order hosts ts = some states →
        (∀ s ∈ states, ValidVm s) ∧ states.Pairwise Apart) ↔
    ∀ t ∈ templates, t.isReplicated = false → ∀ vm ∈ vms, vm.documentSelfLink ∈ computeValidVms t vms hosts := by
  constructor
  · intro h t ht hsingle vm hvm
    have horder : (vm :: vms.erase vm).Perm vms := (perm_cons_erase hvm).symm
    have hstates : createVmContainerAllocations (fun _ vms => vms.head?) (vm :: vms.erase vm) hosts [t] =
        some [⟨t, computeValidVms t (vm :: vms.erase vm) hosts, some vm.documentSelfLink⟩] := by
      rw [createVmContainerAllocations, allocate, hsingle]
      have hfirst : getAvailableVm (fun vms => vms.head?) t.name (vm :: vms.erase vm) .empty =
          some vm.documentSelfLink := by
        rw [getAvailableVm]
        split
        · simp [firstWithout]
        · rfl
      simp [hfirst, allocate]
    have hvalid := (h _ (fun _ _ _ => mem_of_head?) _ horder [t] (by simpa using ht) _ hstates).1 _ mem_cons_self
    exact (mem_computeValidVms_perm horder t hosts _).1 (hvalid _ rfl)
  · intro h pick hpick order horder ts hts states hstates
    refine ⟨(allocates hstates).valid hpick fun t ht hsingle vm hvm => ?_, ((allocates hstates).apart ?_).2⟩
    · exact (mem_computeValidVms_perm horder t hosts _).2 (h t (hts ht) hsingle vm (horder.mem_iff.1 hvm))
    · exact fun x y vm _ hget => by cases hget

/-- A container that is not replicated goes to the VM the shuffle puts first, on a host that does not allow it. -/
theorem layout_invalid_vm : ∃ states,
    createVmContainerAllocations (fun _ vms => vms.head?) [⟨"vm1", "host1"⟩, ⟨"vm2", "host2"⟩]
        [⟨"host1", some "Zookeeper"⟩, ⟨"host2", some "Housekeeper"⟩] [⟨"t", "Housekeeper", false⟩] = some states ∧
      states = [⟨⟨"t", "Housekeeper", false⟩, ["vm2"], some "vm1"⟩] ∧ ¬ ∀ state ∈ states, ValidVm state := by
  refine ⟨_, by decide +kernel, rfl, fun hvalid => ?_⟩
  have hmem := hvalid _ mem_cons_self "vm1" rfl
  revert hmem
  decide

end Photon.Deployer.ContainerLayout
