import Photon.Fallible
import Photon.TreeRuns
/-!
# TreeRequest — what a host is configured with

`HierarchyUtils.getConfigureRequest`: the roles of a host are the schedulers it owns, each with its children as the
tree has them at that moment.  Where the source would follow a null link there is no request.  A request reads far
beyond the host it is for; `request_registered` and `request_root` list all it reads.
-/
namespace Photon.Chairman

open Keyed (KeyedList LinkedMap)
open Fallible (mapM_congr mapM_eq_none_iff)

structure ChildInfo where
  id : String
  address : Option String
  port : Int
  constraints : Option (Multiset ResourceConstraint)
  weight : Option Nat
  ownerHost : Option String
  deriving DecidableEq

/-- `SchedulerRole`; the lists of ids are unset, not empty, when there are no children of the sort. -/
structure SchedulerRole where
  id : String
  parentId : String
  schedulers : Option (List String)
  schedulerChildren : List ChildInfo
  hosts : Option (List String)
  hostChildren : List ChildInfo
  deriving DecidableEq

structure Roles where
  schedulers : Option (List SchedulerRole)
  deriving DecidableEq

structure ConfigureRequest where
  scheduler : String
  roles : Roles
  hostId : String
  deriving DecidableEq

/-- A list that is only set when there is something to add to it. -/
def unlessEmpty {α : Type} (l : List α) : Option (List α) := if l.isEmpty then none else some l

namespace Heap

def schedulerChild (H : Heap) (includeConstraints : Bool) (child : SchedulerRef) : Option ChildInfo :=
  (H.scheduler child).owner.map (fun o =>
    { id := (H.scheduler child).id
      address := (H.host o).address
      port := (H.host o).port
      constraints := if includeConstraints then some (H.constraintSet child).val else none
      weight := some (H.scheduler child).hosts.size
      ownerHost := some (H.host o).id })

def hostChild (H : Heap) (includeConstraints : Bool) (child : HostRef) : ChildInfo :=
  { id := (H.host child).id
    address := (H.host child).address
    port := (H.host child).port
    constraints := if includeConstraints then some (getHostConstraints (H.host child)) else none
    weight := none
    ownerHost := none }

def schParentId (H : Heap) (l : SchedulerRef) : Option String :=
  if (H.scheduler l).isRootScheduler then some "None" else (H.scheduler l).parent.map (fun p => (H.scheduler p).id)

def schedulerRole (H : Heap) (includeConstraints : Bool) (l : SchedulerRef) : Option SchedulerRole := do
  let schParentId ← H.schParentId l
  let schedulerChildren ← (H.scheduler l).children.values.mapM (H.schedulerChild includeConstraints)
  some { id := (H.scheduler l).id
         parentId := schParentId
         schedulers := unlessEmpty (H.scheduler l).children.keys
         schedulerChildren := schedulerChildren
         hosts := unlessEmpty (H.scheduler l).hosts.keys
         hostChildren := (H.scheduler l).hosts.values.map (H.hostChild includeConstraints) }

def hostParentSch (H : Heap) (r : HostRef) : Option String :=
  if (H.host r).id = rootSchedulerHostId then some "None"
  else (H.host r).parentScheduler.map (fun l => (H.scheduler l).id)

def getConfigureRequest (H : Heap) (r : HostRef) (includeConstraints : Bool) : Option ConfigureRequest := do
  let roles ← (H.host r).schedulers.mapM (H.schedulerRole includeConstraints)
  let hostParentSch ← H.hostParentSch r
  some { scheduler := hostParentSch, roles := ⟨unlessEmpty roles⟩, hostId := (H.host r).id }

/-- The schedulers keep the constraint sets a request with constraints asks them for. -/
def afterRequest (H : Heap) (r : HostRef) : Heap :=
  (H.host r).schedulers.foldl (fun H l =>
    (H.scheduler l).children.values.foldl (fun H child => (H.getConstraintSet child).2) H) H

end Heap

/-! ## Requests that agree -/

namespace Heap

variable {H H' : Heap} {b : Bool}

theorem host_foldl {α : Type} {f : Heap → α → Heap} (hf : ∀ H a, (f H a).host = H.host) : ∀ (l : List α) (H : Heap),
    (l.foldl f H).host = H.host
  | [], _ => rfl
  | a :: l, H => (host_foldl hf l (f H a)).trans (hf H a)

theorem host_afterRequest (H : Heap) (r : HostRef) : (H.afterRequest r).host = H.host :=
  host_foldl (fun _ _ => host_foldl (fun _ _ => by rfl) _ _) _ _

theorem host_foldl_modifyHost {f : Host → Host} (hf : ∀ k, f (f k) = f k) (x : HostRef) :
    ∀ (rs : List HostRef) (H : Heap),
    (rs.foldl (fun H r => H.modifyHost r f) H).host x = if x ∈ rs then f (H.host x) else H.host x
  | [], _ => by simp
  | r :: rs, H => by
    rw [List.foldl_cons, host_foldl_modifyHost hf x rs, host_modifyHost]
    by_cases hx : x = r <;> by_cases hm : x ∈ rs <;> simp [hx, hm, hf]

theorem schedulerRole_congr {l : SchedulerRef} (hid : (H'.scheduler l).id = (H.scheduler l).id)
    (hparent : H'.schParentId l = H.schParentId l) (hchildren : (H'.scheduler l).children = (H.scheduler l).children)
    (hhosts : (H'.scheduler l).hosts = (H.scheduler l).hosts)
    (hsch : ∀ m ∈ (H.scheduler l).children.values, H'.schedulerChild b m = H.schedulerChild b m)
    (hhost : ∀ x ∈ (H.scheduler l).hosts.values, H'.hostChild b x = H.hostChild b x) :
    H'.schedulerRole b l = H.schedulerRole b l := by
  unfold schedulerRole
  rw [hid, hparent, hchildren, hhosts, mapM_congr hsch, List.map_congr_left hhost]

theorem getConfigureRequest_congr {r : HostRef} (hid : (H'.host r).id = (H.host r).id)
    (hparent : H'.hostParentSch r = H.hostParentSch r) (hschedulers : (H'.host r).schedulers = (H.host r).schedulers)
    (hrole : ∀ l ∈ (H.host r).schedulers, H'.schedulerRole b l = H.schedulerRole b l) :
    H'.getConfigureRequest r b = H.getConfigureRequest r b := by
  unfold getConfigureRequest
  rw [hid, hparent, hschedulers, mapM_congr hrole]

/-- **When there is a request**: no link it follows is null. -/
theorem getConfigureRequest_eq_none_iff (H : Heap) (r : HostRef) (b : Bool) : H.getConfigureRequest r b = none ↔
      ((H.host r).id ≠ rootSchedulerHostId ∧ (H.host r).parentScheduler = none) ∨
      ∃ l ∈ (H.host r).schedulers, ((H.scheduler l).isRootScheduler = false ∧ (H.scheduler l).parent = none) ∨
        ∃ m ∈ (H.scheduler l).children.values, (H.scheduler m).owner = none := by
  have hrole : ∀ l, H.schedulerRole b l = none ↔
      ((H.scheduler l).isRootScheduler = false ∧ (H.scheduler l).parent = none) ∨
        ∃ m ∈ (H.scheduler l).children.values, (H.scheduler m).owner = none := by
    intro l
    have hchild : ∀ m, H.schedulerChild b m = none ↔ (H.scheduler m).owner = none := fun _ => Option.map_eq_none_iff
    have hparent : H.schParentId l = none ↔ (H.scheduler l).isRootScheduler = false ∧
        (H.scheduler l).parent = none := by
      unfold schParentId
      split <;> simp_all
    rw [← hparent]
    simp only [← hchild]
    rw [← mapM_eq_none_iff]
    unfold schedulerRole
    cases H.schParentId l <;> cases (H.scheduler l).children.values.mapM (H.schedulerChild b) <;> simp
  have hparent : H.hostParentSch r = none ↔ (H.host r).id ≠ rootSchedulerHostId ∧
      (H.host r).parentScheduler = none := by
    unfold hostParentSch
    split <;> simp_all
  rw [← hparent]
  simp only [← hrole]
  rw [← mapM_eq_none_iff]
  unfold getConfigureRequest
  cases H.hostParentSch r <;> cases (H.host r).schedulers.mapM (H.schedulerRole b) <;> simp

/-! ## Flags and kept sets are not read -/

/-- The heaps differ in flags of hosts and in which constraint sets are kept, at most. -/
structure Alike (H H' : Heap) : Prop where
  host : ∀ x, ∃ dirty configured missing,
    H'.host x = { H.host x with dirty := dirty, configured := configured, missing := missing }
  scheduler : ∀ y, ∃ set, H'.scheduler y = { H.scheduler y with constraintsSet := set }
  constraintSet : ∀ y, H'.constraintSet y = H.constraintSet y
  hostCount : H'.hostCount = H.hostCount
  schedulerCount : H'.schedulerCount = H.schedulerCount

namespace Alike

theorem refl (H : Heap) : Alike H H :=
  ⟨fun _ => ⟨_, _, _, rfl⟩, fun _ => ⟨_, rfl⟩, fun _ => rfl, rfl, rfl⟩

theorem trans {H₁ H₂ H₃ : Heap} (h : Alike H₁ H₂) (k : Alike H₂ H₃) : Alike H₁ H₃ where
  host := by
    intro x
    obtain ⟨d, c, m, hx⟩ := h.host x
    obtain ⟨d', c', m', kx⟩ := k.host x
    exact ⟨d', c', m', by rw [kx, hx]⟩
  scheduler := by
    intro y
    obtain ⟨set, hy⟩ := h.scheduler y
    obtain ⟨set', ky⟩ := k.scheduler y
    exact ⟨set', by rw [ky, hy]⟩
  constraintSet := fun y => (k.constraintSet y).trans (h.constraintSet y)
  hostCount := k.hostCount.trans h.hostCount
  schedulerCount := k.schedulerCount.trans h.schedulerCount

theorem modifyHost (H : Heap) (r : HostRef) (f : Host → Host)
    (hf : ∀ k, ∃ dirty configured missing,
    f k = { k with dirty := dirty, configured := configured, missing := missing }) :
    Alike H (H.modifyHost r f) where
  host := by
    intro x
    rw [host_modifyHost]
    split
    · exact hf _
    · exact ⟨_, _, _, rfl⟩
  scheduler := fun _ => ⟨_, rfl⟩
  constraintSet := fun _ => rfl
  hostCount := rfl
  schedulerCount := rfl

theorem getConstraintSet (H : Heap) (l : SchedulerRef) : Alike H (H.getConstraintSet l).2 where
  host := fun _ => ⟨_, _, _, rfl⟩
  scheduler := by
    intro y
    rw [scheduler_getConstraintSet]
    split <;> exact ⟨_, rfl⟩
  constraintSet := Hierarchy.constraintSet_getConstraintSet H l
  hostCount := rfl
  schedulerCount := rfl

theorem foldl {α : Type} {f : Heap → α → Heap} (hf : ∀ H a, Alike H (f H a)) :
    ∀ (l : List α) (H : Heap), Alike H (l.foldl f H)
  | [], H => refl H
  | a :: l, H => (hf H a).trans (foldl hf l (f H a))

theorem afterRequest (H : Heap) (r : HostRef) : Alike H (H.afterRequest r) :=
  foldl (fun H _ => foldl (fun H child => getConstraintSet H child) _ H) _ H

theorem setDirty (H : Heap) (rs : List HostRef) (dirty : Bool) :
    Alike H (rs.foldl (fun H r => H.modifyHost r (·.setDirty dirty)) H) :=
  foldl (fun H r => modifyHost H r _ (fun _ => ⟨_, _, _, rfl⟩)) rs H

/-- **Heaps that are alike give the same requests.** -/
theorem getConfigureRequest (h : Alike H H') (r : HostRef) (b : Bool) :
    H'.getConfigureRequest r b = H.getConfigureRequest r b := by
  have hhost : ∀ x, (H'.host x).id = (H.host x).id ∧ (H'.host x).address = (H.host x).address ∧
      (H'.host x).port = (H.host x).port ∧ (H'.host x).schedulers = (H.host x).schedulers ∧
      (H'.host x).parentScheduler = (H.host x).parentScheduler ∧ H'.hostChild b x = H.hostChild b x := by
    intro x
    obtain ⟨d, c, m, hx⟩ := h.host x
    unfold hostChild
    rw [hx]
    exact ⟨rfl, rfl, rfl, rfl, rfl, rfl⟩
  have hsch : ∀ y, (H'.scheduler y).id = (H.scheduler y).id ∧ (H'.scheduler y).children = (H.scheduler y).children ∧
      (H'.scheduler y).hosts = (H.scheduler y).hosts ∧ (H'.scheduler y).parent = (H.scheduler y).parent ∧
      (H'.scheduler y).owner = (H.scheduler y).owner := by
    intro y
    obtain ⟨set, hy⟩ := h.scheduler y
    rw [hy]
    exact ⟨rfl, rfl, rfl, rfl, rfl⟩
  have hchild : ∀ m, H'.schedulerChild b m = H.schedulerChild b m := by
    intro m
    unfold schedulerChild
    rw [(hsch m).2.2.2.2, (hsch m).1, (hsch m).2.2.1, h.constraintSet]
    simp only [(hhost _).1, (hhost _).2.1, (hhost _).2.2.1]
  refine getConfigureRequest_congr (hhost r).1 ?_ (hhost r).2.2.2.1 (fun l _ => ?_)
  · unfold hostParentSch
    rw [(hhost r).1, (hhost r).2.2.2.2.1]
    simp only [(hsch _).1]
  · refine schedulerRole_congr (hsch l).1 ?_ (hsch l).2.1 (hsch l).2.2.1 (fun m _ => hchild m)
      (fun x _ => (hhost x).2.2.2.2.2)
    unfold schParentId Scheduler.isRootScheduler
    rw [(hsch l).1, (hsch l).2.2.2.1]
    simp only [(hsch _).1]

end Alike

end Heap

namespace Hierarchy

variable {u : Uuid} {s s' : Hierarchy} {b : Bool}

theorem host_setAllHostsDirty (s : Hierarchy) (x : HostRef) : (s.setAllHostsDirty false).host x =
      if x ∈ s.getAllHosts.values then { s.host x with dirty := false } else s.host x := by
  have hdirty : ∀ k : Host, k.setDirty false = { k with dirty := false } := fun k => by simp [Host.setDirty]
  refine (Heap.host_foldl_modifyHost (f := (·.setDirty false)) (fun k => ?_) x _ _).trans ?_
  · simp only [hdirty]
  · rw [hdirty]
    rfl

theorem shape_of_alike {H : Heap} (h : s.heap.Alike H) : ({ s with heap := H } : Hierarchy).shape = s.shape := by
  have hhost := h.host
  have hsch := h.scheduler
  ext1 <;> simp only [shape, host, scheduler]
  case hostCount => exact h.hostCount
  case schedulerCount => exact h.schedulerCount
  case hostId | parentScheduler | schedulers =>
    funext x
    obtain ⟨d, c, m, hx⟩ := hhost x
    rw [hx]
  all_goals
    funext y
    obtain ⟨set, hy⟩ := hsch y
    rw [hy]

/-! ## What a request reads -/

/-- **What the request of a registered host reads**: the host, its leaf's id, and the leaves it owns with their
hosts. -/
theorem request_registered (h : s.Wf u) {i : String} {r : HostRef} (hr : s.hosts.get i = some r)
    (hid : (s'.host r).id = (s.host r).id) (hparent : (s'.host r).parentScheduler = (s.host r).parentScheduler)
    (hschedulers : (s'.host r).schedulers = (s.host r).schedulers)
    (hids : ∀ l, s.IsLeaf l ∨ l = s.rootScheduler → (s'.scheduler l).id = (s.scheduler l).id)
    (howned : ∀ l, s.IsLeaf l → (s.scheduler l).owner = some r → (s'.scheduler l).parent = (s.scheduler l).parent ∧
      (s'.scheduler l).children = (s.scheduler l).children ∧ (s'.scheduler l).hosts = (s.scheduler l).hosts ∧
      ∀ j x, (s.scheduler l).hosts.get j = some x → s'.heap.hostChild b x = s.heap.hostChild b x) :
    s'.heap.getConfigureRequest r b = s.heap.getConfigureRequest r b := by
  simp only [host, scheduler] at hid hparent hschedulers hids howned
  refine Heap.getConfigureRequest_congr hid ?_ hschedulers (fun l hl => ?_)
  · unfold Heap.hostParentSch
    rw [hid, hparent]
    cases hp : (s.heap.host r).parentScheduler with
    | none => rfl
    | some l =>
      have hl : s.IsLeaf l := h.parent_leaf i r l hr hp
      rw [Option.map_some, Option.map_some, hids l (.inl hl)]
  · have hleaf : s.IsLeaf l := h.owned_leaf i r l hr hl
    obtain ⟨hp, hc, hh, hx⟩ := howned l hleaf ((h.owner_iff l r).2 hl)
    have hnil : (s.heap.scheduler l).children = LinkedMap.empty := h.leaf_children l hleaf
    have hroot : (s.heap.scheduler l).parent = some s.rootScheduler := h.leaf_parent l hleaf
    refine Heap.schedulerRole_congr (hids l (.inl hleaf)) ?_ hc hh ?_ ?_
    · unfold Heap.schParentId Scheduler.isRootScheduler
      rw [hids l (.inl hleaf), hp, hroot, Option.map_some, Option.map_some, hids _ (.inr rfl)]
    · intro m hm
      rw [hnil] at hm
      cases hm
    · intro x hmem
      obtain ⟨j, hj⟩ := LinkedMap.mem_values_iff.1 hmem
      exact hx j x hj

/-- **What the request of the root host reads**: the leaves with their sizes and constraint sets, and their owners. -/
theorem request_root (h : s.Wf u) (hid : (s'.host s.rootHost).id = (s.host s.rootHost).id)
    (hschedulers : (s'.host s.rootHost).schedulers = (s.host s.rootHost).schedulers)
    (hsch : ∀ y, (s'.scheduler y).id = (s.scheduler y).id ∧ (s'.scheduler y).children = (s.scheduler y).children ∧
      (s'.scheduler y).hosts = (s.scheduler y).hosts ∧ (s'.scheduler y).owner = (s.scheduler y).owner ∧
      s'.heap.constraintSet y = s.heap.constraintSet y)
    (howner : ∀ l o, (s.scheduler l).owner = some o → (s'.host o).id = (s.host o).id ∧
      (s'.host o).address = (s.host o).address ∧ (s'.host o).port = (s.host o).port) :
    s'.heap.getConfigureRequest s.rootHost b = s.heap.getConfigureRequest s.rootHost b := by
  simp only [host, scheduler] at hid hschedulers hsch howner
  have hroot : (s.heap.host s.rootHost).id = rootSchedulerHostId := h.rootHost_id
  have hrootId : (s.heap.scheduler s.rootScheduler).id = rootSchedulerId := h.root_id
  refine Heap.getConfigureRequest_congr hid ?_ hschedulers (fun l hl => ?_)
  · unfold Heap.hostParentSch
    rw [hid, if_pos hroot, if_pos hroot]
  · obtain rfl : l = s.rootScheduler := h.rootHost_schedulers l hl
    refine Heap.schedulerRole_congr (hsch _).1 ?_ (hsch _).2.1 (hsch _).2.2.1 (fun m _ => ?_) (fun x hx => ?_)
    · unfold Heap.schParentId Scheduler.isRootScheduler
      simp [(hsch _).1, hrootId]
    · unfold Heap.schedulerChild
      obtain ⟨hi, -, hh, ho, hset⟩ := hsch m
      rw [ho, hi, hh, hset]
      cases hm : (s.heap.scheduler m).owner with
      | none => rfl
      | some o =>
        obtain ⟨h1, h2, h3⟩ := howner m o hm
        rw [Option.map_some, Option.map_some, h1, h2, h3]
    · obtain ⟨j, hj⟩ := LinkedMap.mem_values_iff.1 hx
      have hnone : (s.heap.scheduler s.rootScheduler).hosts.get j = none := h.root_members j
      rw [hj] at hnone
      cases hnone

end Hierarchy
end Photon.Chairman
