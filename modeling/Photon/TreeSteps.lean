import Photon.TreeFrames
import Photon.TreeShape
/-!
# TreeSteps — the steps every operation of a hierarchy is made of

`Step` lists what can happen to a hierarchy, each step with the guard the source checks before it: a host is registered
or forgotten, joins a leaf, leaves and comes back with other tags; a leaf appears, gets an owner, goes; a constraint set
is kept; flags and the root host's address change.  Every step is an update of the shape, so it keeps the tree well
formed.  The invariants of the later modules are each proved once per step.
-/
namespace Photon.Chairman

open Keyed (KeyedList LinkedMap)

namespace Hierarchy

def shape (s : Hierarchy) : Shape where
  hostId := fun r => (s.host r).id
  parentScheduler := fun r => (s.host r).parentScheduler
  schedulers := fun r => (s.host r).schedulers
  id := fun l => (s.scheduler l).id
  children := fun l => (s.scheduler l).children
  members := fun l => (s.scheduler l).hosts
  parent := fun l => (s.scheduler l).parent
  owner := fun l => (s.scheduler l).owner
  hostCount := s.heap.hostCount
  schedulerCount := s.heap.schedulerCount
  hosts := s.hosts
  leafSchedulers := s.leafSchedulers
  rootScheduler := s.rootScheduler
  rootHost := s.rootHost

def IsLeaf (s : Hierarchy) (l : SchedulerRef) : Prop := ∃ i, s.leafSchedulers.get i = some l

def Wf (u : Uuid) (s : Hierarchy) : Prop := s.shape.Wf u

def addLeaf (u : Uuid) (s : Hierarchy) : Hierarchy :=
  ({ s with heap := s.heap.allocScheduler (Scheduler.new (u.gen s.heap.nextScheduler.addr)) }).insertLeaf
    s.heap.nextScheduler

def dropLeaf (s : Hierarchy) (l : SchedulerRef) : Hierarchy :=
  { s with hosts := s.hosts.removeAll (s.scheduler l).hosts.keys
           leafSchedulers := s.leafSchedulers.remove (s.scheduler l).id
           heap := s.heap.removeChild s.rootScheduler l }

def setFlags (s : Hierarchy) (r : HostRef) (configured missing : Bool) : Hierarchy :=
  { s with
    heap := s.heap.modifyHost r (fun k => { k with configured := k.configured && configured, missing := missing }) }

def setRootAddress (s : Hierarchy) (address : Option String) (port : Int) : Hierarchy :=
  { s with heap := s.heap.modifyHost s.rootHost (fun k => ((k.setAddress address).setPort port).setDirty true) }

theorem host_setFlags (s : Hierarchy) (r x : HostRef) (configured missing : Bool) :
    (s.setFlags r configured missing).host x =
      if x = r then { s.host x with configured := (s.host x).configured && configured, missing := missing }
        else s.host x := rfl

theorem host_setRootAddress (s : Hierarchy) (address : Option String) (port : Int) (x : HostRef) :
    (s.setRootAddress address port).host x =
      if x = s.rootHost then (((s.host x).setAddress address).setPort port).setDirty true else s.host x := rfl

def Matches (s : Hierarchy) (l : SchedulerRef) (r : HostRef) : Prop :=
  correspondingSet (schConstraintsToMatch (s.heap.constraintSet l)) (hostConstraintsToMatch (s.host r)) = true

/-- **What can happen to a hierarchy.** -/
inductive Step (u : Uuid) (s : Hierarchy) : Hierarchy → Prop
  | register (id : String) (availabilityZone : AvailabilityZone) (datastores : DatastoreSet) (networks : NetworkSet)
      (managementOnly : Bool) (address : Option String) (port : Int) (hfree : s.hosts.get id = none) :
      Step u s (s.registerHost (Host.new id availabilityZone datastores networks managementOnly address port))
  | forget (id : String) : Step u s (s.removeHost id)
  | attach (id : String) (r : HostRef) (l : SchedulerRef) (hr : s.hosts.get id = some r)
      (hstaged : (s.host r).parentScheduler = none) (hl : s.IsLeaf l)
      (hroom : (s.scheduler l).hosts.size < s.leafFanout)
      (hmatch : s.Matches l r) : Step u s { s with heap := s.heap.addHost l r }
  | addLeaf (hroom : s.leafSchedulers.size < s.rootFanout) : Step u s (s.addLeaf u)
  | own (l : SchedulerRef) (r : HostRef) (hl : s.IsLeaf l) (hr : (s.host r).parentScheduler = some l) :
      Step u s { s with heap := s.heap.setOwner l (some r) }
  | dropLeaf (l : SchedulerRef) (hl : s.IsLeaf l) : Step u s (s.dropLeaf l)
  | retag (id : String) (r : HostRef) (datastores : DatastoreSet) (hr : s.hosts.get id = some r) :
      Step u s (s.updateHostTags r datastores)
  | keepSet (l : SchedulerRef) : Step u s { s with heap := (s.heap.getConstraintSet l).2 }
  | setFlags (r : HostRef) (configured missing : Bool) : Step u s (s.setFlags r configured missing)
  | setRootAddress (address : Option String) (port : Int) : Step u s (s.setRootAddress address port)

def Steps (u : Uuid) : Hierarchy → Hierarchy → Prop := Relation.ReflTransGen (Step u)

/-! ## Well-formed hierarchies -/

namespace Wf

variable {u : Uuid} {s : Hierarchy}

variable {l : SchedulerRef}

variable (h : s.Wf u)
include h

theorem under (hl : s.IsLeaf l) : s.heap.Under l s.rootScheduler :=
  ⟨h.leaf_parent l hl, h.root_parent, Nat.lt_of_le_of_lt (Nat.zero_le _) h.root_alloc⟩

theorem leaf_ne_rootScheduler (hl : s.IsLeaf l) : l ≠ s.rootScheduler :=
  Shape.Wf.leaf_ne_root h hl

theorem rootScheduler_parent : (s.heap.scheduler s.rootScheduler).parent = none := h.root_parent

theorem rootScheduler_owner : (s.heap.scheduler s.rootScheduler).owner = some s.rootHost := h.root_owner

theorem child (hl : s.IsLeaf l) : (s.heap.scheduler s.rootScheduler).children.get (s.heap.scheduler l).id = some l := by
  have hleaf := (Shape.Wf.leaf_iff h l).1 hl
  rw [h.leaf_child] at hleaf
  exact hleaf

theorem listed {r : HostRef} (hp : (s.host r).parentScheduler = some l) :
    (s.heap.scheduler l).hosts.get (s.heap.host r).id = some r := h.parent_member r l hp

theorem member_of {i : String} {r : HostRef} (hr : s.hosts.get i = some r)
    (hp : (s.host r).parentScheduler = some l) : s.heap.Member l s.rootScheduler r where
  under := h.under (h.parent_leaf i r l hr hp)
  parent := hp
  listed := h.listed hp
  owned := by
    intro m hm
    have hmp := Shape.Wf.owned_eq_parent h hr hm
    rw [show s.shape.parentScheduler r = some l from hp] at hmp
    exact (Option.some.inj hmp).symm
  owner_iff := h.owner_iff l r

theorem nextScheduler_ne_root : s.heap.nextScheduler ≠ s.rootScheduler := by
  intro he
  have := h.root_alloc
  simp only [shape, ← he, Heap.nextScheduler] at this
  exact Nat.lt_irrefl _ this

end Wf

variable {u : Uuid} {s : Hierarchy}

theorem scheduler_addLeaf (h : s.Wf u) (y : SchedulerRef) : (s.addLeaf u).scheduler y =
      if y = s.heap.nextScheduler then
        { Scheduler.new (u.gen s.heap.schedulerCount) with parent := some s.rootScheduler }
      else if y = s.rootScheduler then
        { s.scheduler y with children := (s.scheduler y).children.put (u.gen s.heap.schedulerCount) s.heap.nextScheduler
                             constraintsSet := none } else s.scheduler y := by
  have hne := h.nextScheduler_ne_root
  have htop : ((s.heap.allocScheduler (Scheduler.new (u.gen s.heap.nextScheduler.addr))).scheduler
      s.rootScheduler).parent = none := by simp [Ne.symm hne, h.rootScheduler_parent]
  simp only [scheduler, addLeaf, insertLeaf, Heap.scheduler_addChild htop hne, Heap.scheduler_allocScheduler]
  by_cases hy : y = s.heap.nextScheduler
  · subst hy; simp [Heap.nextScheduler]
  · by_cases hyr : y = s.rootScheduler
    · subst hyr
      simp only [hy, if_false, if_true, Scheduler.unionConstraints, Scheduler.new, add_zero]
      rfl
    · simp [hy, hyr]

theorem host_addLeaf (h : s.Wf u) (x : HostRef) :
    (s.addLeaf u).host x = (s.host x).dirtyWhen (decide (s.rootHost = x)) := by
  have hne := h.nextScheduler_ne_root
  have htop : ((s.heap.allocScheduler (Scheduler.new (u.gen s.heap.nextScheduler.addr))).scheduler
      s.rootScheduler).parent = none := by simp [Ne.symm hne, h.rootScheduler_parent]
  simp [host, addLeaf, insertLeaf, Heap.host_addChild htop hne, Ne.symm hne, h.rootScheduler_owner]

variable {l : SchedulerRef}

theorem scheduler_dropLeaf (h : s.Wf u) (hl : s.IsLeaf l) (y : SchedulerRef) : (s.dropLeaf l).scheduler y =
      if y = l then { s.scheduler y with parent := none } else if y = s.rootScheduler then
        ({ s.scheduler y with children := (s.scheduler y).children.remove (s.scheduler l).id } :
          Scheduler).removeConstraints (s.scheduler l).constraints else s.scheduler y :=
  Heap.scheduler_removeChild _ _ h.rootScheduler_parent (h.leaf_ne_rootScheduler hl) (h.child hl)

theorem host_dropLeaf (h : s.Wf u) (hl : s.IsLeaf l) (x : HostRef) :
    (s.dropLeaf l).host x = (s.host x).dirtyWhen (decide (s.rootHost = x)) := by
  have hd := Heap.host_removeChild l x h.rootScheduler_parent (h.leaf_ne_rootScheduler hl) (h.child hl)
  simp only [h.rootScheduler_owner, Option.some.injEq] at hd
  exact hd

variable {r : HostRef}

theorem updateHostTags_of_parent (s : Hierarchy) (hp : (s.host r).parentScheduler = some l)
    (datastores : DatastoreSet) : s.updateHostTags r datastores = { s with heap := s.heap.retag l r datastores } := by
  unfold updateHostTags
  rw [hp]
  rfl

theorem updateHostTags_of_staged (s : Hierarchy) (hp : (s.host r).parentScheduler = none)
    (datastores : DatastoreSet) : s.updateHostTags r datastores = s := by
  unfold updateHostTags
  rw [hp]

variable {i : String}

theorem removeHost_of_registered (s : Hierarchy) (hr : s.hosts.get i = some r) :
    s.removeHost i = { s with hosts := s.hosts.remove i, heap := s.heap.removeFromHierarchy r } := by
  unfold removeHost
  rw [hr]

theorem removeHost_of_unknown (s : Hierarchy) (hr : s.hosts.get i = none) : s.removeHost i = s := by
  unfold removeHost
  rw [hr]

/-! ## The steps on shapes -/

section Shapes

variable {u : Uuid} {s : Hierarchy}

theorem shape_registerHost (s : Hierarchy) (k : Host) (hp : k.parentScheduler = none) (hs : k.schedulers = []) :
    (s.registerHost k).shape = s.shape.register k.id := by
  ext1 <;> try rfl
  all_goals
    funext x
    simp only [shape, Shape.register, registerHost, host, Heap.host_allocHost, Heap.nextHost]
    by_cases hx : x = ⟨s.heap.hostCount⟩ <;> simp [hx, hp, hs]

variable {l : SchedulerRef}

section

variable (h : s.Wf u)
include h

theorem shape_addHost (hl : s.IsLeaf l) (r : HostRef) :
    ({ s with heap := s.heap.addHost l r } : Hierarchy).shape = s.shape.attach l r := by
  have hu := h.under hl
  have hne := hu.ne
  ext1 <;> simp only [shape, Shape.attach, host, scheduler, Heap.counts_addHost]
  all_goals
    funext x
    simp only [Heap.host_addHost hu, Heap.scheduler_addHost hu, Scheduler.unionConstraints, Host.links_dirtyWhen]
  all_goals by_cases hxl : x = l <;> by_cases hxr : x = s.rootScheduler <;> simp_all

theorem shape_removeFromHierarchy {r : HostRef} (hr : s.hosts.get i = some r) :
    ({ s with hosts := s.hosts.remove i, heap := s.heap.removeFromHierarchy r } : Hierarchy).shape =
    s.shape.forget i r := by
  cases hp : (s.heap.host r).parentScheduler with
  | none =>
    have hown : (s.heap.host r).schedulers = [] := Shape.Wf.staged_owns_nothing h hr hp
    rw [Heap.removeFromHierarchy_staged hp hown]
    ext1 <;> simp only [shape, Shape.forget, host, scheduler, hp, reduceCtorEq, false_and, if_false]
    all_goals
      funext x
      by_cases hx : x = r <;> simp [hx, hp, hown]
  | some l =>
    have hm := h.member_of hr hp
    have hne := hm.under.ne
    ext1 <;> simp only [shape, Shape.forget, host, scheduler, Heap.counts_removeFromHierarchy]
    all_goals
      funext x
      simp only [Heap.host_removeFromHierarchy hm, Heap.scheduler_removeFromHierarchy hm,
        Host.links_dirtyWhen, Scheduler.removeConstraints, hp,
        Option.some.injEq]
    all_goals by_cases hxl : x = l <;> by_cases hxr : x = s.rootScheduler <;> simp_all [eq_comm]

theorem shape_addLeaf : (s.addLeaf u).shape = s.shape.addLeaf (u.gen s.heap.schedulerCount) := by
  have hne := h.nextScheduler_ne_root
  ext1 <;> simp only [shape, Shape.addLeaf, host_addLeaf h, scheduler_addLeaf h, Host.links_dirtyWhen]
  case hostCount => simp [addLeaf, insertLeaf]
  case schedulerCount => simp [addLeaf, insertLeaf]
  case hosts => rfl
  case leafSchedulers => simp [addLeaf, insertLeaf, scheduler, Scheduler.new, Heap.nextScheduler]
  case rootScheduler => rfl
  case rootHost => rfl
  all_goals
    funext x
    by_cases hxl : x = s.heap.nextScheduler <;> by_cases hxr : x = s.rootScheduler <;>
      simp_all [Heap.nextScheduler, Scheduler.new]

theorem shape_setOwner (hl : s.IsLeaf l) (r : HostRef) :
    ({ s with heap := s.heap.setOwner l (some r) } : Hierarchy).shape = s.shape.own l r := by
  have hu := h.under hl
  ext1 <;> simp only [shape, Shape.own, host, scheduler, Heap.counts_setOwner,
    Heap.host_setOwner_some hu, Heap.scheduler_setOwner_some hu, Host.links_dirtyWhen, Heap.ownedAfter]
  case schedulers => simp
  all_goals
    funext x
    by_cases hxl : x = l <;> simp_all

theorem shape_dropLeaf (hl : s.IsLeaf l) : (s.dropLeaf l).shape = s.shape.dropLeaf l := by
  have hne := h.leaf_ne_rootScheduler hl
  ext1 <;> simp only [shape, Shape.dropLeaf, host_dropLeaf h hl, scheduler_dropLeaf h hl, Host.links_dirtyWhen,
    Scheduler.removeConstraints]
  case hostCount => simp [dropLeaf]
  case schedulerCount => simp [dropLeaf]
  case hosts => rfl
  case leafSchedulers => rfl
  case rootScheduler => rfl
  case rootHost => rfl
  all_goals
    funext x
    by_cases hxl : x = l <;> by_cases hxr : x = s.rootScheduler <;> simp_all

/-- The host is taken out and put back: the tree before and after differ at most in the order of the leaf's hosts. -/
theorem shape_updateHostTags {r : HostRef} (hr : s.hosts.get i = some r)
    (hp : (s.host r).parentScheduler = some l) (datastores : DatastoreSet) :
    (s.updateHostTags r datastores).shape = s.shape.reattach l r := by
  have hm := h.member_of hr hp
  have hne := hm.under.ne
  rw [s.updateHostTags_of_parent hp]
  ext1 <;> simp only [shape, Shape.reattach, host, scheduler, Heap.counts_retag]
  all_goals
    funext x
    simp only [Heap.host_retag hm, Heap.scheduler_retag hm, Host.links_dirtyWhen, Scheduler.removeConstraints,
      Scheduler.unionConstraints]
  all_goals by_cases hxl : x = l <;> by_cases hxr : x = s.rootScheduler <;> simp_all

end

theorem shape_keepSet (s : Hierarchy) (l : SchedulerRef) :
    ({ s with heap := (s.heap.getConstraintSet l).2 } : Hierarchy).shape = s.shape := by
  ext1 <;> try rfl
  all_goals
    funext x
    simp only [shape, scheduler, Heap.scheduler_getConstraintSet]
    split <;> rfl

theorem shape_setFlags (s : Hierarchy) (r : HostRef) (configured missing : Bool) :
    (s.setFlags r configured missing).shape = s.shape := by
  ext1 <;> try rfl
  all_goals
    funext x
    simp only [shape, host_setFlags]
    split <;> rfl

theorem shape_setRootAddress (s : Hierarchy) (address : Option String) (port : Int) :
    (s.setRootAddress address port).shape = s.shape := by
  ext1 <;> try rfl
  all_goals
    funext x
    simp only [shape, host_setRootAddress]
    split <;> rfl

end Shapes

variable {s' : Hierarchy}

theorem Step.move (hstep : Step u s s') (h : s.Wf u) :
    Shape.Move u s.rootFanout s.leafFanout s.Matches s.shape s'.shape := by
  cases hstep with
  | register id az ds nets mgmt address port hfree =>
    rw [shape_registerHost s _ rfl rfl]
    exact .register id hfree
  | forget id =>
    cases hr : s.hosts.get id with
    | none => rw [s.removeHost_of_unknown hr]; exact .stay
    | some r =>
      rw [s.removeHost_of_registered hr, shape_removeFromHierarchy h hr]
      exact .forget id r hr
  | attach id r l hr hstaged hl hroom hmatch =>
    rw [shape_addHost h hl]
    exact .attach id r l hr hstaged hl hroom hmatch
  | addLeaf hroom =>
    rw [shape_addLeaf h]
    exact .addLeaf hroom
  | own l r hl hr =>
    rw [shape_setOwner h hl]
    exact .own l r hl hr
  | dropLeaf l hl =>
    rw [shape_dropLeaf h hl]
    exact .dropLeaf l hl
  | retag id r ds hr =>
    cases hp : (s.host r).parentScheduler with
    | none => rw [s.updateHostTags_of_staged hp]; exact .stay
    | some l =>
      rw [shape_updateHostTags h hr hp]
      exact .reattach id r l hr hp
  | keepSet l => rw [shape_keepSet]; exact .stay
  | setFlags r c m => rw [shape_setFlags]; exact .stay
  | setRootAddress address port => rw [shape_setRootAddress]; exact .stay

/-- **Every step keeps the tree well formed.** -/
theorem Step.wf (hstep : Step u s s') (h : s.Wf u) : s'.Wf u := (hstep.move h).wf h

/-- What a step leaves of a host that was there: its zone and sort, and the flags unless it is no longer configured. -/
structure Remains (k k' : Host) : Prop where
  availabilityZone : k'.availabilityZone = k.availabilityZone
  managementOnly : k'.managementOnly = k.managementOnly
  flags : k'.configured = true → k.configured = true ∧ k'.dirty = k.dirty

theorem Remains.refl (k : Host) : Remains k k := ⟨rfl, rfl, fun hc => ⟨hc, rfl⟩⟩

theorem Remains.dirtyWhen {k k' : Host} (hzone : k'.availabilityZone = k.availabilityZone)
    (hsort : k'.managementOnly = k.managementOnly) (hflags : k'.configured = k.configured ∧
    k'.dirty = k.dirty) (b : Bool) :
    Remains k (k'.dirtyWhen b) := ⟨hzone, hsort, by cases b <;> simp_all⟩

/-- **No step changes the kind of a host, or raises its configured flag, or leaves it up on a host that it dirties.** -/
theorem Step.remains (hstep : Step u s s') (h : s.Wf u) (x : HostRef) :
    Remains (s.host x) (s'.host x) ∨ x = s.heap.nextHost ∧ (s'.host x).configured = false := by
  cases hstep with
  | register id az ds nets mgmt address port hfree =>
    simp only [registerHost, host, Heap.host_allocHost]
    split
    · rename_i hx
      exact .inr ⟨hx, rfl⟩
    · exact .inl (.refl _)
  | forget id =>
    left
    cases hr : s.hosts.get id with
    | none =>
      rw [s.removeHost_of_unknown hr]
      exact .refl _
    | some r =>
      rw [s.removeHost_of_registered hr]
      cases hp : (s.host r).parentScheduler with
      | none =>
        rw [Heap.removeFromHierarchy_staged hp (Shape.Wf.staged_owns_nothing h hr hp)]
        exact .refl _
      | some l =>
        simp only [host, Heap.host_removeFromHierarchy (h.member_of hr hp)]
        exact .dirtyWhen (by rfl) (by rfl) ⟨by rfl, by rfl⟩ _
  | attach id r l hr hstaged hl hroom hmatch =>
    simp only [host, Heap.host_addHost (h.under hl)]
    exact .inl (.dirtyWhen (by rfl) (by rfl) ⟨by rfl, by rfl⟩ _)
  | addLeaf hroom =>
    rw [host_addLeaf h]
    exact .inl (.dirtyWhen (by rfl) (by rfl) ⟨by rfl, by rfl⟩ _)
  | own l r hl hr =>
    simp only [host, Heap.host_setOwner_some (h.under hl)]
    exact .inl (.dirtyWhen (by rfl) (by rfl) ⟨by rfl, by rfl⟩ _)
  | dropLeaf l hl =>
    rw [host_dropLeaf h hl]
    exact .inl (.dirtyWhen (by rfl) (by rfl) ⟨by rfl, by rfl⟩ _)
  | retag id r ds hr =>
    left
    cases hp : (s.host r).parentScheduler with
    | none =>
      rw [s.updateHostTags_of_staged hp]
      exact .refl _
    | some l =>
      rw [s.updateHostTags_of_parent hp]
      simp only [host, Heap.host_retag (h.member_of hr hp)]
      exact .dirtyWhen (by rfl) (by rfl) ⟨by rfl, by rfl⟩ _
  | keepSet l => exact .inl (.refl _)
  | setFlags r c m =>
    rw [host_setFlags]
    split
    · exact .inl ⟨rfl, rfl, fun hc => ⟨(Bool.and_eq_true _ _ ▸ hc).1, rfl⟩⟩
    · exact .inl (.refl _)
  | setRootAddress address port =>
    rw [host_setRootAddress]
    split
    · exact .inl ⟨rfl, rfl, fun hc => by simp [Host.setDirty] at hc⟩
    · exact .inl (.refl _)

theorem Steps.wf {u : Uuid} {s s' : Hierarchy} (hsteps : Steps u s s') (h : s.Wf u) : s'.Wf u := by
  induction hsteps with
  | refl => exact h
  | tail _ hstep ih => exact hstep.wf ih

end Hierarchy
end Photon.Chairman
