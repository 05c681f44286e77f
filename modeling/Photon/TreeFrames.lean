import Photon.TreeOps
/-!
# TreeFrames — what each heap method leaves

For every method of `TreeHeap`, the host and the scheduler at an arbitrary reference after it, as a record over the
one before.  The walks up the tree are unrolled for a scheduler without a parent and for one right under such a
scheduler, which is all a tree of height three has.
-/
namespace Photon.Chairman

open Keyed (KeyedList LinkedMap)

def Host.dirtyWhen (h : Host) (b : Bool) : Host := { h with dirty := h.dirty || b, configured := h.configured && !b }

theorem Host.setDirty_true (h : Host) : h.setDirty true = h.dirtyWhen true := by
  simp [Host.setDirty, Host.dirtyWhen]

@[simp] theorem Host.dirtyWhen_false (h : Host) : h.dirtyWhen false = h := by
  simp [Host.dirtyWhen]

@[simp] theorem Host.dirtyWhen_dirtyWhen (h : Host) (a b : Bool) :
    (h.dirtyWhen a).dirtyWhen b = h.dirtyWhen (a || b) := by
  simp [Host.dirtyWhen, Bool.or_assoc, Bool.and_assoc]

section DirtyWhen

variable (h : Host) (b : Bool)

@[simp] theorem Host.links_dirtyWhen : (h.dirtyWhen b).id = h.id ∧ (h.dirtyWhen b).parentScheduler = h.parentScheduler ∧
    (h.dirtyWhen b).schedulers = h.schedulers := ⟨rfl, rfl, rfl⟩

@[simp] theorem Host.data_dirtyWhen : (h.dirtyWhen b).availabilityZone = h.availabilityZone ∧
    (h.dirtyWhen b).datastores = h.datastores ∧ (h.dirtyWhen b).networks = h.networks ∧
    (h.dirtyWhen b).address = h.address ∧
    (h.dirtyWhen b).port = h.port ∧ (h.dirtyWhen b).missing = h.missing ∧
    (h.dirtyWhen b).managementOnly = h.managementOnly := ⟨rfl, rfl, rfl, rfl, rfl, rfl, rfl⟩

@[simp] theorem Host.dirty_dirtyWhen : (h.dirtyWhen b).dirty = (h.dirty || b) := rfl
@[simp] theorem Host.configured_dirtyWhen : (h.dirtyWhen b).configured = (h.configured && !b) := rfl

end DirtyWhen

namespace Heap

/-! ## Single writes -/

variable (H : Heap) (h : Host) (l : SchedulerRef) (f : Scheduler → Scheduler) (s : Scheduler)
  (p child y : SchedulerRef) (r r' x : HostRef)

@[simp] theorem host_modifyHost (f : Host → Host) :
    (H.modifyHost r f).host x = if x = r then f (H.host x) else H.host x := rfl

@[simp] theorem scheduler_modifyHost (f : Host → Host) :
    (H.modifyHost r f).scheduler = H.scheduler := rfl

@[simp] theorem counts_modifyHost (f : Host → Host) :
    (H.modifyHost r f).hostCount = H.hostCount ∧ (H.modifyHost r f).schedulerCount = H.schedulerCount :=
  ⟨rfl, rfl⟩

@[simp] theorem scheduler_modifyScheduler (f : Scheduler → Scheduler) :
    (H.modifyScheduler l f).scheduler y = if y = l then f (H.scheduler y) else H.scheduler y := rfl

@[simp] theorem host_modifyScheduler :
    (H.modifyScheduler l f).host = H.host := rfl

@[simp] theorem counts_modifyScheduler :
    (H.modifyScheduler l f).hostCount = H.hostCount ∧ (H.modifyScheduler l f).schedulerCount = H.schedulerCount :=
  ⟨rfl, rfl⟩

theorem dirtyOwner_eq :
    H.dirtyOwner l = { H with host := fun x => (H.host x).dirtyWhen (decide ((H.scheduler l).owner = some x)) } := by
  unfold dirtyOwner
  cases ho : (H.scheduler l).owner with
  | none => simp
  | some o =>
    simp only [modifyHost, Option.some.injEq]
    congr 1
    funext x
    by_cases hx : x = o
    · subst hx; simp [Host.setDirty_true]
    · simp [hx, Ne.symm hx]

@[simp] theorem host_dirtyOwner :
    (H.dirtyOwner l).host x = (H.host x).dirtyWhen (decide ((H.scheduler l).owner = some x)) := by rw [dirtyOwner_eq]

@[simp] theorem scheduler_dirtyOwner : (H.dirtyOwner l).scheduler = H.scheduler := by
  rw [dirtyOwner_eq]

@[simp] theorem counts_dirtyOwner :
    (H.dirtyOwner l).hostCount = H.hostCount ∧ (H.dirtyOwner l).schedulerCount = H.schedulerCount := by
  rw [dirtyOwner_eq]
  exact ⟨rfl, rfl⟩

/-! ## The walks up the tree -/

@[simp] theorem counts_upToRoot (f : Scheduler → Scheduler) : ∀ (n : Nat) (l : SchedulerRef) (H : Heap),
    (upToRoot f n l H).hostCount = H.hostCount ∧ (upToRoot f n l H).schedulerCount = H.schedulerCount
  | 0, _, _ => ⟨rfl, rfl⟩
  | n + 1, l, H => by
    simp only [upToRoot]
    split
    · simp
    · simp [counts_upToRoot f n]

/-- A change of a scheduler that a walk can make: the links the walk itself reads stay. -/
structure KeepsLinks (f : Scheduler → Scheduler) : Prop where
  parent : ∀ s, (f s).parent = s.parent
  owner : ∀ s, (f s).owner = s.owner

theorem keepsLinks_id : KeepsLinks id := ⟨fun _ => rfl, fun _ => rfl⟩

theorem keepsLinks_unionConstraints (subset : Multiset ResourceConstraint) :
    KeepsLinks (fun s => s.unionConstraints subset) := ⟨fun _ => rfl, fun _ => rfl⟩

theorem keepsLinks_removeConstraints (subset : Multiset ResourceConstraint) :
    KeepsLinks (fun s => s.removeConstraints subset) := ⟨fun _ => rfl, fun _ => rfl⟩

theorem owner_upToRoot (f : Scheduler → Scheduler) (hf : KeepsLinks f) : ∀ (n : Nat) (l y : SchedulerRef) (H : Heap),
    ((upToRoot f n l H).scheduler y).owner = (H.scheduler y).owner
  | 0, _, _, _ => rfl
  | n + 1, l, y, H => by
    have hstep : (((H.modifyScheduler l f).dirtyOwner l).scheduler y).owner = (H.scheduler y).owner := by
      simp only [scheduler_dirtyOwner, scheduler_modifyScheduler]
      split
      · exact hf.owner _
      · rfl
    simp only [upToRoot]
    split
    · exact hstep
    · rw [owner_upToRoot f hf n, hstep]

theorem upToRoot_top (hf : KeepsLinks f) (n : Nat) (l : SchedulerRef) (H : Heap)
    (hl : (H.scheduler l).parent = none) : upToRoot f (n + 1) l H = (H.modifyScheduler l f).dirtyOwner l := by
  simp only [upToRoot, scheduler_dirtyOwner, scheduler_modifyScheduler, if_true, hf.parent, hl]

theorem ne_of_parent {H : Heap} {l p : SchedulerRef} (hl : (H.scheduler l).parent = some p)
    (hp : (H.scheduler p).parent = none) : p ≠ l := by
  rintro rfl
  rw [hl] at hp
  cases hp

section

variable (hf : KeepsLinks f)
include hf

theorem upToRoot_under (n : Nat) (l p : SchedulerRef) (H : Heap)
    (hl : (H.scheduler l).parent = some p) (hp : (H.scheduler p).parent = none) :
    upToRoot f (n + 2) l H =
      (((H.modifyScheduler l f).dirtyOwner l).modifyScheduler p f).dirtyOwner p := by
  have hne := ne_of_parent hl hp
  rw [upToRoot]
  simp only [scheduler_dirtyOwner, scheduler_modifyScheduler, if_true, hf.parent, hl]
  exact upToRoot_top f hf n p _ (by simp [hne, hp])

/-- **A walk from the top of the tree** changes one scheduler and dirties its owner. -/
theorem host_upToRoot_top (n : Nat) (l : SchedulerRef) (H : Heap)
    (hl : (H.scheduler l).parent = none) (x : HostRef) :
    (upToRoot f (n + 1) l H).host x = (H.host x).dirtyWhen (decide ((H.scheduler l).owner = some x)) := by
  rw [upToRoot_top f hf n l H hl]
  simp [hf.owner]

theorem scheduler_upToRoot_top (n : Nat) (l : SchedulerRef) (H : Heap)
    (hl : (H.scheduler l).parent = none) (y : SchedulerRef) :
    (upToRoot f (n + 1) l H).scheduler y = if y = l then f (H.scheduler y) else H.scheduler y := by
  rw [upToRoot_top f hf n l H hl]
  simp

/-- **A walk from right under the top** changes both schedulers and dirties both owners. -/
theorem host_upToRoot_under (n : Nat) (l p : SchedulerRef) (H : Heap)
    (hl : (H.scheduler l).parent = some p) (hp : (H.scheduler p).parent = none) (x : HostRef) :
    (upToRoot f (n + 2) l H).host x =
      (H.host x).dirtyWhen (decide ((H.scheduler l).owner = some x) || decide ((H.scheduler p).owner = some x)) := by
  have hne := ne_of_parent hl hp
  rw [upToRoot_under f hf n l p H hl hp]
  simp [hf.owner, hne]

theorem scheduler_upToRoot_under (n : Nat) (l p : SchedulerRef)
    (H : Heap) (hl : (H.scheduler l).parent = some p) (hp : (H.scheduler p).parent = none) (y : SchedulerRef) :
    (upToRoot f (n + 2) l H).scheduler y = if y = l ∨ y = p then f (H.scheduler y) else H.scheduler y := by
  have hne := ne_of_parent hl hp
  rw [upToRoot_under f hf n l p H hl hp]
  simp only [scheduler_dirtyOwner, scheduler_modifyScheduler]
  by_cases hyp : y = p
  · subst hyp; simp [hne]
  · by_cases hyl : y = l
    · subst hyl; simp [hyp]
    · simp [hyp, hyl]

end

/-! ## Allocation -/

@[simp] theorem host_allocHost :
    (H.allocHost h).host x = if x = H.nextHost then h else H.host x := rfl

@[simp] theorem scheduler_allocHost : (H.allocHost h).scheduler = H.scheduler := rfl

@[simp] theorem hostCount_allocHost : (H.allocHost h).hostCount = H.hostCount + 1 := rfl

@[simp] theorem schedulerCount_allocHost : (H.allocHost h).schedulerCount = H.schedulerCount := rfl

@[simp] theorem scheduler_allocScheduler :
    (H.allocScheduler s).scheduler y = if y = H.nextScheduler then s else H.scheduler y := rfl

@[simp] theorem host_allocScheduler : (H.allocScheduler s).host = H.host := rfl

@[simp] theorem hostCount_allocScheduler : (H.allocScheduler s).hostCount = H.hostCount := rfl

@[simp] theorem schedulerCount_allocScheduler :
    (H.allocScheduler s).schedulerCount = H.schedulerCount + 1 := rfl

/-! ## The methods, on a leaf right under the root -/

variable {H l p child y r r' x}

/-- `l` hangs under `p`, which is the top of its tree. -/
structure Under (H : Heap) (l p : SchedulerRef) : Prop where
  parent : (H.scheduler l).parent = some p
  top : (H.scheduler p).parent = none
  counted : 0 < H.schedulerCount

theorem Under.ne {H : Heap} {l p : SchedulerRef} (h : H.Under l p) : p ≠ l := ne_of_parent h.parent h.top

theorem Under.fuel {H : Heap} {l p : SchedulerRef} (h : H.Under l p) :
    H.schedulerCount + 1 = H.schedulerCount - 1 + 2 := by
  have := h.counted
  omega

/-- **`addHost` on a leaf**: the host points to the leaf; the owners of the leaf and of the root are dirty. -/
theorem host_addHost (h : H.Under l p) :
    (H.addHost l r).host x =
      ({ H.host x with parentScheduler := if x = r then some l else (H.host x).parentScheduler } : Host).dirtyWhen
        (decide ((H.scheduler l).owner = some x) || decide ((H.scheduler p).owner = some x)) := by
  have hne := h.ne
  simp only [addHost, propagateConstraintsAdd, counts_dirtyOwner, counts_modifyScheduler,
    counts_modifyHost, h.fuel]
  rw [host_upToRoot_under _ (keepsLinks_unionConstraints _) _ l p _ (by simp [h.parent]) (by simp [hne, h.top])]
  simp only [scheduler_dirtyOwner, scheduler_modifyScheduler, scheduler_modifyHost, if_true, hne, if_false,
    host_dirtyOwner, host_modifyScheduler, host_modifyHost, Host.dirtyWhen_dirtyWhen]
  by_cases hx : x = r
  · subst hx
    cases decide ((H.scheduler l).owner = some x) <;> simp [Host.setParentScheduler]
  · cases decide ((H.scheduler l).owner = some x) <;> simp [hx]

theorem scheduler_addHost (h : H.Under l p) :
    (H.addHost l r).scheduler y =
      if y = l then ({ H.scheduler y with hosts := (H.scheduler y).hosts.put (H.host r).id r } :
        Scheduler).unionConstraints (getHostConstraints (H.host r))
      else if y = p then (H.scheduler y).unionConstraints (getHostConstraints (H.host r)) else H.scheduler y := by
  have hne := h.ne
  simp only [addHost, propagateConstraintsAdd, counts_dirtyOwner, counts_modifyScheduler,
    counts_modifyHost, h.fuel]
  rw [scheduler_upToRoot_under _ (keepsLinks_unionConstraints _) _ l p _ (by simp [h.parent]) (by simp [hne, h.top])]
  simp only [scheduler_dirtyOwner, scheduler_modifyScheduler, scheduler_modifyHost, host_modifyHost, if_true]
  rw [show getHostConstraints ((H.host r).setParentScheduler (some l)) = getHostConstraints (H.host r) from rfl]
  by_cases hyl : y = l
  · subst hyl; simp [Host.setParentScheduler]
  · by_cases hyp : y = p
    · subst hyp; simp [hyl]
    · simp [hyl, hyp]

@[simp] theorem counts_addHost :
    (H.addHost l r).hostCount = H.hostCount ∧ (H.addHost l r).schedulerCount = H.schedulerCount := by
  simp [addHost, propagateConstraintsAdd]

/-- **`removeHost` on a leaf that lists the host**: the mirror image of `addHost`. -/
theorem host_removeHost (h : H.Under l p)
    (hm : (H.scheduler l).hosts.get (H.host r).id = some r') :
    (H.removeHost l r).host x =
      ({ H.host x with parentScheduler := if x = r then none else (H.host x).parentScheduler } : Host).dirtyWhen
        (decide ((H.scheduler l).owner = some x) || decide ((H.scheduler p).owner = some x)) := by
  have hne := h.ne
  simp only [removeHost, hm, propagateConstraintsRemove, counts_modifyScheduler, h.fuel, host_dirtyOwner,
    host_modifyHost, scheduler_modifyHost]
  rw [host_upToRoot_under _ (keepsLinks_removeConstraints _) _ l p _ (by simp [h.parent]) (by simp [hne, h.top])]
  simp only [owner_upToRoot _ (keepsLinks_removeConstraints _), scheduler_modifyScheduler,
    host_modifyScheduler, if_true, hne, if_false]
  by_cases hx : x = r
  · subst hx
    cases decide ((H.scheduler l).owner = some x) <;> simp [Host.setParentScheduler, Host.dirtyWhen]
  · cases decide ((H.scheduler l).owner = some x) <;> simp [hx]

theorem scheduler_removeHost (h : H.Under l p)
    (hm : (H.scheduler l).hosts.get (H.host r).id = some r') :
    (H.removeHost l r).scheduler y =
      if y = l then ({ H.scheduler y with hosts := (H.scheduler y).hosts.remove (H.host r).id } :
        Scheduler).removeConstraints (getHostConstraints (H.host r))
      else if y = p then (H.scheduler y).removeConstraints (getHostConstraints (H.host r)) else H.scheduler y := by
  have hne := h.ne
  simp only [removeHost, hm, propagateConstraintsRemove, counts_modifyScheduler, h.fuel, scheduler_dirtyOwner,
    scheduler_modifyHost]
  rw [scheduler_upToRoot_under _ (keepsLinks_removeConstraints _) _ l p _ (by simp [h.parent]) (by simp [hne, h.top])]
  simp only [scheduler_modifyScheduler, host_modifyScheduler]
  by_cases hyl : y = l
  · subst hyl; simp
  · by_cases hyp : y = p
    · subst hyp; simp [hyl]
    · simp [hyl, hyp]

@[simp] theorem counts_removeHost :
    (H.removeHost l r).hostCount = H.hostCount ∧ (H.removeHost l r).schedulerCount = H.schedulerCount := by
  unfold removeHost
  split <;> simp [propagateConstraintsRemove]

/-! ### Owners -/

/-- The schedulers `x` owns once `l` has the owner `newOwner`. -/
def ownedAfter (H : Heap) (l : SchedulerRef) (newOwner : Option HostRef) (x : HostRef) : List SchedulerRef :=
  let kept := if (H.scheduler l).owner = some x then (H.host x).schedulers.filter (fun m => m ≠ l)
    else (H.host x).schedulers
  if newOwner = some x then (if l ∈ kept then kept else kept ++ [l]) else kept

theorem host_setOwner_none :
    (H.setOwner l none).host x = ({ H.host x with schedulers := H.ownedAfter l none x } : Host).dirtyWhen
      (decide ((H.scheduler l).owner = some x)) := by
  unfold setOwner ownedAfter
  cases ho : (H.scheduler l).owner with
  | none => simp
  | some o =>
    simp only [host_modifyScheduler, host_modifyHost, Option.some.injEq, reduceCtorEq, if_false]
    by_cases hx : x = o
    · subst hx; simp [Host.removeScheduler, Host.setDirty_true]
    · simp [hx, Ne.symm hx]

theorem scheduler_setOwner_none :
    (H.setOwner l none).scheduler y = if y = l then { H.scheduler y with owner := none } else H.scheduler y := by
  unfold setOwner
  cases (H.scheduler l).owner <;> simp

/-- **`setOwner` on a leaf**: the old owner, the new one and the root's owner are dirty. -/
theorem host_setOwner_some (h : H.Under l p) :
    (H.setOwner l (some r)).host x = ({ H.host x with schedulers := H.ownedAfter l (some r) x } : Host).dirtyWhen
      (decide ((H.scheduler l).owner = some x) || decide (r = x) || decide ((H.scheduler p).owner = some x)) := by
  have hne := h.ne
  unfold setOwner ownedAfter
  cases ho : (H.scheduler l).owner with
  | none =>
    simp only [dirtyUpToRoot, counts_modifyHost, counts_modifyScheduler, h.fuel]
    rw [host_upToRoot_under _ keepsLinks_id _ l p _ (by simp [h.parent]) (by simp [hne, h.top])]
    by_cases hx : x = r
    · subst hx
      simp [hne, Host.addScheduler]
      rfl
    · simp [hne, hx, Ne.symm hx]
  | some o =>
    simp only [dirtyUpToRoot, counts_modifyHost, counts_modifyScheduler, h.fuel]
    rw [host_upToRoot_under _ keepsLinks_id _ l p _ (by simp [h.parent]) (by simp [hne, h.top])]
    by_cases hx : x = r
    · subst hx
      by_cases hxo : x = o
      · subst hxo; simp [hne, Host.addScheduler, Host.removeScheduler, Host.setDirty_true, Host.dirtyWhen]
      · simp [hne, Host.addScheduler, hxo, Ne.symm hxo]
    · by_cases hxo : x = o
      · subst hxo; simp [hne, hx, Ne.symm hx, Host.removeScheduler, Host.setDirty_true]
      · simp [hne, hx, Ne.symm hx, hxo, Ne.symm hxo]

theorem scheduler_setOwner_some (h : H.Under l p) :
    (H.setOwner l (some r)).scheduler y = if y = l then { H.scheduler y with owner := some r } else H.scheduler y := by
  have hne := h.ne
  unfold setOwner
  cases ho : (H.scheduler l).owner with
  | none | some o =>
    simp only [dirtyUpToRoot, counts_modifyHost, counts_modifyScheduler, h.fuel]
    rw [scheduler_upToRoot_under _ keepsLinks_id _ l p _ (by simp [h.parent]) (by simp [hne, h.top])]
    simp

@[simp] theorem counts_setOwner (o : Option HostRef) :
    (H.setOwner l o).hostCount = H.hostCount ∧ (H.setOwner l o).schedulerCount = H.schedulerCount := by
  unfold setOwner
  cases (H.scheduler l).owner <;> cases o <;> simp [dirtyUpToRoot]

/-! ### Children of the root -/

/-- **`addChild` on the top of the tree.** -/
theorem host_addChild (hp : (H.scheduler p).parent = none)
    (hne : child ≠ p) :
    (H.addChild p child).host x = (H.host x).dirtyWhen (decide ((H.scheduler p).owner = some x)) := by
  simp only [addChild, propagateConstraintsAdd, host_dirtyOwner, host_modifyScheduler, scheduler_modifyScheduler,
    Ne.symm hne, if_false]
  rw [host_upToRoot_top _ (keepsLinks_unionConstraints _) _ p _ (by simp [hp])]
  simp [owner_upToRoot _ (keepsLinks_unionConstraints _)]

theorem scheduler_addChild (hp : (H.scheduler p).parent = none) (hne : child ≠ p) :
    (H.addChild p child).scheduler y =
      if y = child then { H.scheduler y with parent := some p }
      else if y = p then
        ({ H.scheduler y with children :=
          (H.scheduler y).children.put (H.scheduler child).id child } : Scheduler).unionConstraints
          (H.scheduler child).constraints
      else H.scheduler y := by
  simp only [addChild, propagateConstraintsAdd, scheduler_dirtyOwner, scheduler_modifyScheduler]
  rw [scheduler_upToRoot_top _ (keepsLinks_unionConstraints _) _ p _ (by simp [hp])]
  by_cases hyc : y = child
  · subst hyc; simp [hne]
  · by_cases hyp : y = p
    · subst hyp; simp [hyc, hne]
    · simp [hyc, hyp]

@[simp] theorem counts_addChild :
    (H.addChild p child).hostCount = H.hostCount ∧ (H.addChild p child).schedulerCount = H.schedulerCount := by
  simp [addChild, propagateConstraintsAdd]

/-- **`removeChild` on the top of the tree, of a child it lists.** -/
theorem host_removeChild (c : SchedulerRef) (x : HostRef) (hp : (H.scheduler p).parent = none)
    (hne : child ≠ p) (hc : (H.scheduler p).children.get (H.scheduler child).id = some c) :
    (H.removeChild p child).host x = (H.host x).dirtyWhen (decide ((H.scheduler p).owner = some x)) := by
  simp only [removeChild, hc, propagateConstraintsRemove, host_dirtyOwner, host_modifyScheduler,
    scheduler_modifyScheduler, Ne.symm hne, if_false]
  rw [host_upToRoot_top _ (keepsLinks_removeConstraints _) _ p _ (by simp [hp])]
  simp [owner_upToRoot _ (keepsLinks_removeConstraints _)]

theorem scheduler_removeChild (c y : SchedulerRef) (hp : (H.scheduler p).parent = none)
    (hne : child ≠ p) (hc : (H.scheduler p).children.get (H.scheduler child).id = some c) :
    (H.removeChild p child).scheduler y =
      if y = child then { H.scheduler y with parent := none }
      else if y = p then
        ({ H.scheduler y with children := (H.scheduler y).children.remove (H.scheduler child).id } :
          Scheduler).removeConstraints (H.scheduler child).constraints
      else H.scheduler y := by
  simp only [removeChild, hc, propagateConstraintsRemove, scheduler_dirtyOwner, scheduler_modifyScheduler]
  rw [scheduler_upToRoot_top _ (keepsLinks_removeConstraints _) _ p _ (by simp [hp])]
  by_cases hyc : y = child
  · subst hyc; simp [hne]
  · by_cases hyp : y = p
    · subst hyp; simp [hyc, hne]
    · simp [hyc, hyp]

@[simp] theorem counts_removeChild :
    (H.removeChild p child).hostCount = H.hostCount ∧ (H.removeChild p child).schedulerCount = H.schedulerCount := by
  unfold removeChild
  split <;> simp [propagateConstraintsRemove]

/-! ### Leaving the tree -/

theorem setOwner_none_of_none (h : (H.scheduler l).owner = none) : H.setOwner l none = H := by
  obtain ⟨hosts, scheds, n, m⟩ := H
  unfold setOwner modifyScheduler
  simp only at h ⊢
  simp only [h]
  congr 1
  funext y
  split
  · rename_i hy
    subst hy
    rw [← h]
  · rfl

theorem clearOwner_clearOwner : (H.clearOwner l).clearOwner l = H.clearOwner l :=
  setOwner_none_of_none (by simp only [clearOwner, scheduler_setOwner_none, if_true])

theorem foldl_clearOwner (l : SchedulerRef) : ∀ (ms : List SchedulerRef) (H : Heap), (∀ m ∈ ms, m = l) → ms ≠ [] →
    ms.foldl (fun H m => H.clearOwner m) H = H.clearOwner l
  | [], _, _, hne => absurd rfl hne
  | [m], H, h, _ => by
    obtain rfl := h m (by simp)
    rfl
  | m :: m' :: ms, H, h, _ => by
    obtain rfl := h m (by simp)
    rw [List.foldl_cons, foldl_clearOwner m (m' :: ms) _ (fun x hx => h x (by simp [hx])) (by simp),
      clearOwner_clearOwner]

/-- **A host that is in no leaf and owns nothing leaves no trace.** -/
theorem removeFromHierarchy_staged (hpar : (H.host r).parentScheduler = none)
    (hown : (H.host r).schedulers = []) : H.removeFromHierarchy r = H := by
  unfold removeFromHierarchy
  simp only [hpar, hown, List.foldl_nil]

/-- **A host of a leaf leaves it**, and leaves it without an owner when it was the owner. -/
theorem removeFromHierarchy_member (h : H.Under l p)
    (hpar : (H.host r).parentScheduler = some l) (hm : (H.scheduler l).hosts.get (H.host r).id = some r')
    (hown : ∀ m ∈ (H.host r).schedulers, m = l) :
    H.removeFromHierarchy r = if l ∈ (H.host r).schedulers then (H.removeHost l r).clearOwner l
      else H.removeHost l r := by
  unfold removeFromHierarchy
  simp only [hpar, host_removeHost h hm, Host.links_dirtyWhen]
  by_cases hl : l ∈ (H.host r).schedulers
  · rw [if_pos hl, foldl_clearOwner l _ _ hown (List.ne_nil_of_mem hl)]
  · rw [if_neg hl]
    have hnil : (H.host r).schedulers = [] := List.eq_nil_iff_forall_not_mem.2 (fun m hm => hl (hown m hm ▸ hm))
    rw [hnil, List.foldl_nil]

/-- A member of a leaf that owns nothing but that leaf, if anything. -/
structure Member (H : Heap) (l p : SchedulerRef) (r : HostRef) : Prop where
  under : H.Under l p
  parent : (H.host r).parentScheduler = some l
  listed : (H.scheduler l).hosts.get (H.host r).id = some r
  owned : ∀ m ∈ (H.host r).schedulers, m = l
  owner_iff : (H.scheduler l).owner = some r ↔ l ∈ (H.host r).schedulers

theorem host_removeFromHierarchy (h : H.Member l p r) :
    (H.removeFromHierarchy r).host x =
      ({ H.host x with parentScheduler := if x = r then none else (H.host x).parentScheduler
                       schedulers := if x = r then [] else (H.host x).schedulers } : Host).dirtyWhen
        (decide ((H.scheduler l).owner = some x) || decide ((H.scheduler p).owner = some x)) := by
  rw [removeFromHierarchy_member h.under h.parent h.listed h.owned]
  by_cases hl : l ∈ (H.host r).schedulers
  · have ho := h.owner_iff.2 hl
    simp only [if_pos hl, clearOwner, host_setOwner_none, ownedAfter, host_removeHost h.under h.listed,
      scheduler_removeHost h.under h.listed, Scheduler.removeConstraints, if_true, ho, Option.some.injEq,
      Host.links_dirtyWhen, reduceCtorEq, if_false]
    by_cases hx : r = x
    · subst hx
      simpa [Host.dirtyWhen] using h.owned
    · simp [hx, Ne.symm hx, Host.dirtyWhen]
  · have hnil : (H.host r).schedulers = [] := List.eq_nil_iff_forall_not_mem.2 (fun m hm => hl (h.owned m hm ▸ hm))
    simp only [if_neg hl, host_removeHost h.under h.listed]
    by_cases hx : x = r
    · subst hx; simp [hnil]
    · simp [hx]

theorem scheduler_removeFromHierarchy (h : H.Member l p r) :
    (H.removeFromHierarchy r).scheduler y =
      if y = l then ({ H.scheduler y with hosts := (H.scheduler y).hosts.remove (H.host r).id
                                          owner := if (H.scheduler y).owner = some r then none
                                            else (H.scheduler y).owner } : Scheduler).removeConstraints
        (getHostConstraints (H.host r))
      else if y = p then (H.scheduler y).removeConstraints (getHostConstraints (H.host r)) else H.scheduler y := by
  rw [removeFromHierarchy_member h.under h.parent h.listed h.owned]
  by_cases hl : l ∈ (H.host r).schedulers
  · have ho := h.owner_iff.2 hl
    simp only [if_pos hl, clearOwner, scheduler_setOwner_none, scheduler_removeHost h.under h.listed]
    by_cases hy : y = l
    · subst hy; simp [ho, Scheduler.removeConstraints]
    · simp [hy]
  · have ho : (H.scheduler l).owner ≠ some r := fun ho => hl (h.owner_iff.1 ho)
    simp only [if_neg hl, scheduler_removeHost h.under h.listed]
    by_cases hy : y = l
    · subst hy; simp [ho]
    · simp [hy]

/-! ### A change of tags -/

def retag (H : Heap) (l : SchedulerRef) (r : HostRef) (newDatastores : DatastoreSet) : Heap :=
  ((H.removeHost l r).modifyHost r (·.setDatastores newDatastores)).addHost l r

theorem under_retag (h : H.Member l p r) (newDatastores : DatastoreSet) :
    ((H.removeHost l r).modifyHost r (·.setDatastores newDatastores)).Under l p := by
  have hne := h.under.ne
  refine ⟨?_, ?_, ?_⟩
  · simp [scheduler_removeHost h.under h.listed, Scheduler.removeConstraints, h.under.parent]
  · simp [scheduler_removeHost h.under h.listed, Scheduler.removeConstraints, h.under.top, hne]
  · simp [h.under.counted]

theorem host_retag (h : H.Member l p r) (newDatastores : DatastoreSet) :
    (H.retag l r newDatastores).host x =
      ({ H.host x with datastores := if x = r then newDatastores else (H.host x).datastores } : Host).dirtyWhen
        (decide ((H.scheduler l).owner = some x) || decide ((H.scheduler p).owner = some x)) := by
  have hne := h.under.ne
  unfold retag
  rw [host_addHost (under_retag h newDatastores)]
  simp only [scheduler_modifyHost, scheduler_removeHost h.under h.listed, Scheduler.removeConstraints, if_true,
    if_neg hne, host_modifyHost, host_removeHost h.under h.listed]
  by_cases hx : x = r
  · subst hx; simp [Host.setDatastores, Host.dirtyWhen, h.parent]
  · simp [hx, Host.dirtyWhen]

theorem scheduler_retag (h : H.Member l p r)
    (newDatastores : DatastoreSet) :
    (H.retag l r newDatastores).scheduler y =
      if y = l then (({ H.scheduler y with hosts := ((H.scheduler y).hosts.remove (H.host r).id).put (H.host r).id r }
          : Scheduler).removeConstraints (getHostConstraints (H.host r))).unionConstraints
            (getHostConstraints { H.host r with datastores := newDatastores })
      else if y = p then ((H.scheduler y).removeConstraints (getHostConstraints (H.host r))).unionConstraints
        (getHostConstraints { H.host r with datastores := newDatastores })
      else H.scheduler y := by
  have hne := h.under.ne
  unfold retag
  rw [scheduler_addHost (under_retag h newDatastores)]
  simp only [scheduler_modifyHost, scheduler_removeHost h.under h.listed, host_modifyHost, if_true,
    host_removeHost h.under h.listed]
  by_cases hy : y = l
  · subst hy; simp only [if_true]; rfl
  · by_cases hyp : y = p
    · subst hyp; simp only [if_neg hy, if_true]; rfl
    · simp only [if_neg hy, if_neg hyp]

@[simp] theorem counts_retag (newDatastores : DatastoreSet) :
    (H.retag l r newDatastores).hostCount = H.hostCount ∧ (H.retag l r newDatastores).schedulerCount =
    H.schedulerCount := by
  simp [retag]

@[simp] theorem counts_foldl_clearOwner : ∀ (ms : List SchedulerRef) (H : Heap),
    (ms.foldl (fun H m => H.clearOwner m) H).hostCount = H.hostCount ∧
      (ms.foldl (fun H m => H.clearOwner m) H).schedulerCount = H.schedulerCount
  | [], _ => ⟨rfl, rfl⟩
  | m :: ms, H => by simp only [List.foldl_cons, counts_foldl_clearOwner ms]; simp [clearOwner]

@[simp] theorem counts_removeFromHierarchy :
    (H.removeFromHierarchy r).hostCount = H.hostCount ∧ (H.removeFromHierarchy r).schedulerCount =
    H.schedulerCount := by
  unfold removeFromHierarchy
  cases (H.host r).parentScheduler <;> simp

/-! ### The kept constraint sets -/

@[simp] theorem host_getConstraintSet : (H.getConstraintSet l).2.host = H.host := rfl

@[simp] theorem scheduler_getConstraintSet :
    (H.getConstraintSet l).2.scheduler y =
      if y = l then { H.scheduler y with constraintsSet := some (H.constraintSet l) } else H.scheduler y := rfl

end Heap
end Photon.Chairman
