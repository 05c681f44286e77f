import Photon.TreeSteps
/-!
# TreeLinks — links and data on any heap

The walks up the tree touch flags and constraints only (`Heap.LinksKept`), so what an operation does to the links can be
said without any assumption on the heap.  This is what a hierarchy that is being read from ZooKeeper needs: its leaves
are filled before they are put under the root.
-/
namespace Photon.Chairman

open Keyed (LinkedMap)

/-- What a host is created with, as opposed to its links and flags. -/
def Host.data (k : Host) : String × AvailabilityZone × DatastoreSet × NetworkSet × Option String × Int × Bool :=
  (k.id, k.availabilityZone, k.datastores, k.networks, k.address, k.port, k.managementOnly)

namespace Heap

/-- The objects of the second heap are those of the first, with other flags and constraints. -/
structure LinksKept (H H' : Heap) : Prop where
  host : ∀ x, ∃ dirty configured, H'.host x = { H.host x with dirty := dirty, configured := configured }
  scheduler : ∀ y, ∃ constraints set,
    H'.scheduler y = { H.scheduler y with constraints := constraints, constraintsSet := set }
  hostCount : H'.hostCount = H.hostCount
  schedulerCount : H'.schedulerCount = H.schedulerCount

namespace LinksKept

variable {H H₁ H₂ H₃ : Heap}

theorem refl (H : Heap) : LinksKept H H := ⟨fun _ => ⟨_, _, rfl⟩, fun _ => ⟨_, _, rfl⟩, rfl, rfl⟩

theorem trans (h : LinksKept H₁ H₂) (k : LinksKept H₂ H₃) : LinksKept H₁ H₃ where
  host := by
    intro x
    obtain ⟨d, c, hx⟩ := h.host x
    obtain ⟨d', c', hx'⟩ := k.host x
    exact ⟨d', c', by rw [hx', hx]⟩
  scheduler := by
    intro y
    obtain ⟨cs, set, hy⟩ := h.scheduler y
    obtain ⟨cs', set', hy'⟩ := k.scheduler y
    exact ⟨cs', set', by rw [hy', hy]⟩
  hostCount := k.hostCount.trans h.hostCount
  schedulerCount := k.schedulerCount.trans h.schedulerCount

theorem dirtyOwner (H : Heap) (l : SchedulerRef) : LinksKept H (H.dirtyOwner l) := by
  rw [dirtyOwner_eq]
  exact ⟨fun _ => ⟨_, _, rfl⟩, fun _ => ⟨_, _, rfl⟩, rfl, rfl⟩

theorem modifyScheduler (H : Heap) (l : SchedulerRef) {f : Scheduler → Scheduler}
    (hf : ∀ k, ∃ constraints set, f k = { k with constraints := constraints, constraintsSet := set }) :
    LinksKept H (H.modifyScheduler l f) where
  host := fun _ => ⟨_, _, rfl⟩
  scheduler := by
    intro y
    rw [scheduler_modifyScheduler]
    split
    · exact hf _
    · exact ⟨_, _, rfl⟩
  hostCount := rfl
  schedulerCount := rfl

/-- **A walk up the tree keeps the links.** -/
theorem upToRoot {f : Scheduler → Scheduler}
    (hf : ∀ k, ∃ constraints set, f k = { k with constraints := constraints, constraintsSet := set }) :
    ∀ (n : Nat) (l : SchedulerRef) (H : Heap), LinksKept H (upToRoot f n l H)
  | 0, _, H => refl H
  | n + 1, l, H => by
    have hone := (modifyScheduler H l hf).trans (dirtyOwner _ l)
    unfold Heap.upToRoot
    simp only
    split
    · exact hone
    · exact hone.trans (upToRoot hf n _ _)

theorem propagateConstraintsAdd (H : Heap) (l : SchedulerRef) (subset : Multiset ResourceConstraint) :
    LinksKept H (H.propagateConstraintsAdd l subset) :=
  upToRoot (fun _ => ⟨_, _, rfl⟩) _ _ _

theorem dirtyUpToRoot (H : Heap) (l : SchedulerRef) : LinksKept H (H.dirtyUpToRoot l) :=
  upToRoot (fun k => ⟨k.constraints, k.constraintsSet, rfl⟩) _ _ _

theorem setParent (h : LinksKept H₁ H₂) (l : SchedulerRef) (p : Option SchedulerRef) :
    LinksKept (H₁.modifyScheduler l (fun k => { k with parent := p }))
    (H₂.modifyScheduler l (fun k => { k with parent :=
      p })) where
  host := h.host
  scheduler := by
    intro y
    obtain ⟨cs, set, hy⟩ := h.scheduler y
    rw [scheduler_modifyScheduler, scheduler_modifyScheduler, hy]
    split <;> exact ⟨cs, set, rfl⟩
  hostCount := h.hostCount
  schedulerCount := h.schedulerCount

theorem data (h : LinksKept H₁ H₂) (x : HostRef) : (H₂.host x).data = (H₁.host x).data := by
  obtain ⟨d, c, hx⟩ := h.host x
  rw [hx]
  rfl

end LinksKept

/-! ## The operations, up to flags and constraints -/

theorem addHost_kept (H : Heap) (l : SchedulerRef) (r : HostRef) :
    LinksKept ((H.modifyHost r (·.setParentScheduler (some l))).modifyScheduler l
      (fun k => { k with hosts := k.hosts.put (H.host r).id r })) (H.addHost l r) := by
  have hid : ((H.modifyHost r (·.setParentScheduler (some l))).host r).id = (H.host r).id := by
    rw [host_modifyHost, if_pos rfl]
    rfl
  unfold addHost
  simp only [hid]
  exact (LinksKept.dirtyOwner _ l).trans (LinksKept.propagateConstraintsAdd _ l _)

theorem addChild_kept (H : Heap) (p child : SchedulerRef) :
    LinksKept ((H.modifyScheduler p
      (fun k => { k with children := k.children.put (H.scheduler child).id child })).modifyScheduler
      child (fun k => { k with parent := some p })) (H.addChild p child) := by
  unfold addChild
  exact ((LinksKept.propagateConstraintsAdd _ p _).setParent child (some p)).trans (LinksKept.dirtyOwner _ p)

theorem data_setOwner (H : Heap) (l : SchedulerRef) (o : Option HostRef) (x : HostRef) :
    ((H.setOwner l o).host x).data = (H.host x).data := by
  have hold : ∀ o', ((H.modifyHost o' (fun k => (k.removeScheduler l).setDirty true)).host x).data =
      (H.host x).data := by
    intro o'
    rw [host_modifyHost]
    split <;> rfl
  have hnew : ∀ (H : Heap) o', ((H.modifyHost o' (·.addScheduler l)).host x).data = (H.host x).data := by
    intro H o'
    rw [host_modifyHost]
    split <;> rfl
  unfold setOwner
  cases (H.scheduler l).owner <;> cases o <;>
    simp only [(LinksKept.dirtyUpToRoot _ l).data, hnew, host_modifyScheduler, hold]

end Heap

namespace Shape

def newScheduler (t : Shape) (i : String) : Shape :=
  { t with id := fun y => if y = ⟨t.schedulerCount⟩ then i else t.id y
           children := fun y => if y = ⟨t.schedulerCount⟩ then LinkedMap.empty else t.children y
           members := fun y => if y = ⟨t.schedulerCount⟩ then LinkedMap.empty else t.members y
           parent := fun y => if y = ⟨t.schedulerCount⟩ then none else t.parent y
           owner := fun y => if y = ⟨t.schedulerCount⟩ then none else t.owner y
           schedulerCount := t.schedulerCount + 1 }

def attachAll (t : Shape) (hosts : LinkedMap String HostRef) (l : SchedulerRef) (children : List String) : Shape :=
  children.foldl (fun t child => match hosts.get child with
    | none => t
    | some r => t.attach l r) t

def graft (t : Shape) (leaves : LinkedMap String SchedulerRef) : Shape :=
  { t with leafSchedulers := leaves
           children := fun y => if y = t.rootScheduler then leaves else t.children y
           parent := fun y => if y ∈ leaves.values then some t.rootScheduler else t.parent y }

theorem attachAll_eq (hosts : LinkedMap String HostRef) (l : SchedulerRef) :
    ∀ (children : List String) (t : Shape), ∃ parents members,
    t.attachAll hosts l children = { t with parentScheduler := parents, members := members } ∧
      ∀ y, y ≠ l → members y = t.members y
  | [], t => ⟨t.parentScheduler, t.members, rfl, fun _ _ => rfl⟩
  | child :: children, t => by
    have ih := attachAll_eq hosts l children
    unfold attachAll at ih ⊢
    rw [List.foldl_cons]
    cases hosts.get child with
    | none => exact ih t
    | some r =>
      obtain ⟨parents, members, heq, hothers⟩ := ih (t.attach l r)
      exact ⟨parents, members, heq, fun y hy => (hothers y hy).trans (if_neg hy)⟩

/-- **The members are the children that are known.** -/
theorem members_attachAll (hosts : LinkedMap String HostRef) (l : SchedulerRef) (j : String) :
    ∀ (children : List String) (t : Shape), (∀ j r, hosts.get j = some r → t.hostId r = j) →
    ((t.attachAll hosts l children).members l).get j =
      if j ∈ children then (hosts.get j).or ((t.members l).get j) else (t.members l).get j
  | [], t, _ => by simp [attachAll]
  | child :: children, t, hids => by
    have ih := members_attachAll hosts l j children
    unfold attachAll at ih ⊢
    rw [List.foldl_cons]
    cases hc : hosts.get child with
    | none =>
      simp only
      rw [ih t hids]
      by_cases hj : j = child
      · subst hj
        simp [hc]
      · simp [hj]
    | some r =>
      simp only
      rw [ih (t.attach l r) hids]
      have hid := hids child r hc
      by_cases hj : j = child
      · subst hj
        simp [Shape.attach, hid, hc]
      · simp [Shape.attach, hid, hj]

end Shape

namespace Hierarchy

theorem shape_of_linksKept {s : Hierarchy} {H : Heap} (h : s.heap.LinksKept H) :
    ({ s with heap := H } : Hierarchy).shape = s.shape := by
  have hhost : ∀ x, (H.host x).id = (s.heap.host x).id ∧ (H.host x).parentScheduler = (s.heap.host x).parentScheduler ∧
      (H.host x).schedulers = (s.heap.host x).schedulers := by
    intro x
    obtain ⟨d, c, hx⟩ := h.host x
    rw [hx]
    exact ⟨rfl, rfl, rfl⟩
  have hsch : ∀ y, ∃ constraints set,
      H.scheduler y = { s.heap.scheduler y with constraints := constraints, constraintsSet := set } := h.scheduler
  ext1
  case hostId => exact funext (fun x => (hhost x).1)
  case parentScheduler => exact funext (fun x => (hhost x).2.1)
  case schedulers => exact funext (fun x => (hhost x).2.2)
  case hostCount => exact h.hostCount
  case schedulerCount => exact h.schedulerCount
  case hosts => rfl
  case leafSchedulers => rfl
  case rootScheduler => rfl
  case rootHost => rfl
  all_goals
    funext y
    obtain ⟨cs, set, hy⟩ := hsch y
    simp only [shape, scheduler, hy]

variable (s : Hierarchy)

theorem shape_fillLeaf (l : SchedulerRef) (r : HostRef) :
    ({ s with heap := s.heap.addHost l r } : Hierarchy).shape = s.shape.attach l r := by
  refine (shape_of_linksKept (s := { s with heap := _ }) (Heap.addHost_kept s.heap l r)).trans ?_
  ext1 <;> try rfl
  all_goals
    funext x
    simp only [shape, Shape.attach, host, scheduler, Heap.host_modifyHost, Heap.scheduler_modifyHost]
    split <;> rfl

theorem shape_firstOwner {l : SchedulerRef} (hl : (s.scheduler l).owner = none) (r : HostRef) :
    ({ s with heap := s.heap.setOwner l (some r) } : Hierarchy).shape = s.shape.own l r := by
  have hl' : (s.heap.scheduler l).owner = none := hl
  unfold Heap.setOwner
  simp only [hl']
  refine (shape_of_linksKept (s := { s with heap := _ }) (Heap.LinksKept.dirtyUpToRoot _ l)).trans ?_
  ext1 <;> try rfl
  case schedulers =>
    funext x
    simp only [shape, Shape.own, host, scheduler, hl', Heap.host_modifyScheduler, reduceCtorEq, if_false,
      Option.some.injEq, @eq_comm _ r x]
    split <;> rfl
  all_goals
    funext x
    simp only [shape, Shape.own, host, scheduler, Heap.scheduler_modifyScheduler]
    split <;> rfl

theorem shape_insertLeaf (leaf : SchedulerRef) : (s.insertLeaf leaf).shape = { s.shape with
      leafSchedulers := s.leafSchedulers.put (s.scheduler leaf).id leaf
      children := fun y => if y = s.rootScheduler then (s.scheduler y).children.put (s.scheduler leaf).id leaf
        else (s.scheduler y).children
      parent := fun y => if y = leaf then some s.rootScheduler else (s.scheduler y).parent } := by
  refine (shape_of_linksKept (s := { s.insertLeaf leaf with heap := _ })
    (Heap.addChild_kept s.heap s.rootScheduler leaf)).trans ?_
  ext1 <;> try rfl
  all_goals
    funext y
    simp only [shape, scheduler, Heap.scheduler_modifyScheduler]
    by_cases h1 : y = leaf <;> by_cases h2 : y = s.rootScheduler <;> simp_all

end Hierarchy
end Photon.Chairman
