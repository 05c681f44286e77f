import Photon.TreeRuns
/-!
# TreeSums — the constraints a scheduler counts are those of the hosts below it

`Scheduler` keeps its constraints as a multiset that is added to and subtracted from along the parent links, and hands
out a set of them that it keeps until the next change.  `Accounted` says that neither ever drifts: a leaf counts what
its hosts offer, the root what its leaves count, and a kept set is the set of what is counted.
-/
namespace Photon.Chairman

open Keyed (KeyedList LinkedMap)
open Keyed.LinkedMap (get_put mem_sum sum_congr sum_put_of_absent sum_remove)

namespace Hierarchy

variable {u : Uuid} {s s' : Hierarchy}

def offers (s : Hierarchy) (r : HostRef) : Multiset ResourceConstraint := getHostConstraints (s.host r)

structure Accounted (s : Hierarchy) : Prop where
  leaf : ∀ l, s.IsLeaf l → (s.scheduler l).constraints = (s.scheduler l).hosts.sum s.offers
  root : (s.scheduler s.rootScheduler).constraints = s.leafSchedulers.sum (fun l => (s.scheduler l).constraints)
  kept : ∀ y set, (s.scheduler y).constraintsSet = some set → set = (s.scheduler y).constraints.toFinset

/-- At the leaf `l` the constraints `out` are exchanged for `into`, in the leaf and in the root. -/
structure Exchange (s s' : Hierarchy) (l : SchedulerRef) (out into : Multiset ResourceConstraint) : Prop where
  leaves : s'.leafSchedulers = s.leafSchedulers
  rootScheduler : s'.rootScheduler = s.rootScheduler
  constraints : ∀ y, y = l ∨ y = s.rootScheduler →
    (s'.scheduler y).constraints = (s.scheduler y).constraints - out + into
  dropped : ∀ y, y = l ∨ y = s.rootScheduler → (s'.scheduler y).constraintsSet = none
  others : ∀ y, y ≠ l → y ≠ s.rootScheduler → s'.scheduler y = s.scheduler y
  members : ∃ rest, (s.scheduler l).hosts.sum s.offers = out + rest ∧ (s'.scheduler l).hosts.sum s'.offers = into + rest
  offers : ∀ m i r, s.IsLeaf m → m ≠ l → (s.scheduler m).hosts.get i = some r → s'.offers r = s.offers r

variable {l : SchedulerRef}

/-- **An exchange keeps the account.** -/
theorem Exchange.accounted {out into : Multiset ResourceConstraint} (e : Exchange s s' l out into)
    (h : s.Wf u) (hl : s.IsLeaf l) (ha : s.Accounted) : s'.Accounted := by
  obtain ⟨rest, hout, hinto⟩ := e.members
  have hleaf : (s'.scheduler l).constraints = into + rest := by
    rw [e.constraints l (.inl rfl), ha.leaf l hl, hout, add_tsub_cancel_left, add_comm]
  refine ⟨?_, ?_, ?_⟩
  · rintro m ⟨i, hi⟩
    rw [e.leaves] at hi
    have hm : s.IsLeaf m := ⟨i, hi⟩
    by_cases hml : m = l
    · subst hml
      rw [hleaf, hinto]
    · rw [e.others m hml (h.leaf_ne_rootScheduler hm), ha.leaf m hm]
      exact sum_congr _ _ _ (fun i r hi => (e.offers m i r hm hml hi).symm)
  · obtain ⟨i, hi⟩ := hl
    obtain ⟨others, hold, hnew⟩ := s.leafSchedulers.sum_change i l (fun m => (s.scheduler m).constraints)
      (fun m => (s'.scheduler m).constraints) hi (by
        intro j m hj hji
        have hml : m ≠ l := by
          rintro rfl
          exact hji (by rw [← h.leaf_id j m hj, ← h.leaf_id i m hi])
        rw [e.others m hml (h.leaf_ne_rootScheduler ⟨j, hj⟩)])
    rw [e.rootScheduler, e.leaves, hnew, e.constraints _ (.inr rfl), ha.root, hold, hleaf, ha.leaf l ⟨i, hi⟩, hout,
      add_assoc, add_tsub_cancel_left, add_assoc, add_comm]
    simp only [add_comm, add_left_comm]
  · intro y set hy
    by_cases hc : y = l ∨ y = s.rootScheduler
    · rw [e.dropped y hc] at hy
      cases hy
    · rw [not_or] at hc
      rw [e.others y hc.1 hc.2] at hy ⊢
      exact ha.kept y set hy

/-! ## The steps -/

@[simp] theorem getHostConstraints_dirtyWhen (h : Host) (b : Bool) :
    getHostConstraints (h.dirtyWhen b) = getHostConstraints h := rfl

theorem Accounted.of_same (ha : s.Accounted) (hleaves : s'.leafSchedulers = s.leafSchedulers)
    (hroot : s'.rootScheduler = s.rootScheduler) (hhosts : ∀ y, (s'.scheduler y).hosts = (s.scheduler y).hosts)
    (hc : ∀ y, (s'.scheduler y).constraints = (s.scheduler y).constraints)
    (hset : ∀ y, (s'.scheduler y).constraintsSet = (s.scheduler y).constraintsSet)
    (ho : ∀ l i r, s.IsLeaf l → (s.scheduler l).hosts.get i = some r → s'.offers r = s.offers r) : s'.Accounted where
  leaf := by
    rintro l ⟨i, hi⟩
    rw [hleaves] at hi
    rw [hc, hhosts, ha.leaf l ⟨i, hi⟩]
    exact sum_congr _ _ _ (fun j r hj => (ho l j r ⟨i, hi⟩ hj).symm)
  root := by
    rw [hroot, hleaves, hc, ha.root]
    exact sum_congr _ _ _ (fun i l _ => (hc l).symm)
  kept := by
    intro y set hy
    rw [hset] at hy
    rw [hc]
    exact ha.kept y set hy

variable {i : String} {r : HostRef}

theorem exchange_removeFromHierarchy (h : s.Wf u) (hr : s.hosts.get i = some r)
    (hp : (s.host r).parentScheduler = some l) :
    Exchange s { s with hosts := s.hosts.remove i, heap := s.heap.removeFromHierarchy r } l (s.offers r) 0 := by
  have hm := h.member_of hr hp
  have hne := hm.under.ne
  have hoffers : ∀ x, getHostConstraints ((s.heap.removeFromHierarchy r).host x) = s.offers x := by
    intro x
    rw [Heap.host_removeFromHierarchy hm]
    rfl
  refine ⟨rfl, rfl, ?_, ?_, ?_, ?_, fun m j x _ _ _ => hoffers x⟩
  · rintro y (rfl | rfl) <;>
      simp [scheduler, Heap.scheduler_removeFromHierarchy hm, Scheduler.removeConstraints, hne, offers, host]
  · rintro y (rfl | rfl) <;>
      simp [scheduler, Heap.scheduler_removeFromHierarchy hm, Scheduler.removeConstraints, hne]
  · intro y hyl hyr
    simp [scheduler, Heap.scheduler_removeFromHierarchy hm, hyl, hyr]
  · refine ⟨((s.scheduler l).hosts.remove (s.host r).id).sum s.offers, sum_remove _ _ r _ (h.listed hp), ?_⟩
    simp only [scheduler, Heap.scheduler_removeFromHierarchy hm, if_true, Scheduler.removeConstraints, zero_add]
    exact sum_congr _ _ _ (fun j x _ => hoffers x)

theorem exchange_addHost (h : s.Wf u) (hr : s.hosts.get i = some r) (hp : (s.host r).parentScheduler = none)
    (hl : s.IsLeaf l) : Exchange s { s with heap := s.heap.addHost l r } l 0 (s.offers r) := by
  have hu := h.under hl
  have hne := hu.ne
  have hoffers : ∀ x, getHostConstraints ((s.heap.addHost l r).host x) = s.offers x := by
    intro x
    rw [Heap.host_addHost hu]
    rfl
  refine ⟨rfl, rfl, ?_, ?_, ?_, ?_, fun m j x _ _ _ => hoffers x⟩
  · rintro y (rfl | rfl) <;>
      simp [scheduler, Heap.scheduler_addHost hu, Scheduler.unionConstraints, hne, offers, host]
  · rintro y (rfl | rfl) <;> simp [scheduler, Heap.scheduler_addHost hu, Scheduler.unionConstraints, hne]
  · intro y hyl hyr
    simp [scheduler, Heap.scheduler_addHost hu, hyl, hyr]
  · refine ⟨(s.scheduler l).hosts.sum s.offers, (zero_add _).symm, ?_⟩
    simp only [scheduler, Heap.scheduler_addHost hu, if_true, Scheduler.unionConstraints]
    rw [show ({ s with heap := s.heap.addHost l r } : Hierarchy).offers = s.offers from funext hoffers, add_comm]
    exact sum_put_of_absent _ _ _ _ (h.staged_absent hr hp hl)

theorem exchange_retag (h : s.Wf u) (hr : s.hosts.get i = some r)
    (hp : (s.host r).parentScheduler = some l) (datastores : DatastoreSet) :
    Exchange s { s with heap := s.heap.retag l r datastores } l (s.offers r)
      (getHostConstraints { s.host r with datastores := datastores }) := by
  have hm := h.member_of hr hp
  have hne := hm.under.ne
  have hself : getHostConstraints ((s.heap.retag l r datastores).host r) =
      getHostConstraints { s.host r with datastores := datastores } := by
    rw [Heap.host_retag hm, if_pos rfl]
    rfl
  have hoffers : ∀ x, x ≠ r → getHostConstraints ((s.heap.retag l r datastores).host x) = s.offers x := by
    intro x hx
    rw [Heap.host_retag hm, if_neg hx]
    rfl
  refine ⟨rfl, rfl, ?_, ?_, ?_, ?_, ?_⟩
  · rintro y (rfl | rfl) <;> simp [scheduler, Heap.scheduler_retag hm, Scheduler.removeConstraints,
      Scheduler.unionConstraints, hne, offers, host]
  · rintro y (rfl | rfl) <;> simp [scheduler, Heap.scheduler_retag hm, Scheduler.unionConstraints, hne]
  · intro y hyl hyr
    simp [scheduler, Heap.scheduler_retag hm, hyl, hyr]
  · refine ⟨((s.scheduler l).hosts.remove (s.host r).id).sum s.offers, sum_remove _ _ r _ (h.listed hp), ?_⟩
    simp only [scheduler, Heap.scheduler_retag hm, if_true, Scheduler.removeConstraints, Scheduler.unionConstraints]
    rw [sum_put_of_absent _ _ _ _ (by simp), add_comm]
    congr 1
    refine sum_congr _ _ _ (fun j x hj => hoffers x ?_)
    rintro rfl
    simp only [LinkedMap.get_remove] at hj
    split at hj
    · cases hj
    · rename_i hne'
      exact hne' (h.member l j x hj).1.symm
  · intro m j x hml hne' hj
    refine hoffers x ?_
    rintro rfl
    have := (h.member m j x hj).2
    rw [show s.shape.parentScheduler x = some l from hp] at this
    exact hne' (Option.some.inj this).symm

theorem Accounted.addLeaf (ha : s.Accounted) (h : s.Wf u) : (s.addLeaf u).Accounted := by
  have hne := h.nextScheduler_ne_root
  have hshape := shape_addLeaf h
  have hleaves : (s.addLeaf u).leafSchedulers = s.leafSchedulers.put (u.gen s.heap.schedulerCount)
    s.heap.nextScheduler :=
    congrArg Shape.leafSchedulers hshape
  have hold : ∀ m, s.IsLeaf m → (s.addLeaf u).scheduler m = s.scheduler m := by
    intro m hm
    have hmn : m ≠ s.heap.nextScheduler := by
      rintro rfl
      exact Nat.lt_irrefl _ (h.leaf_alloc _ hm)
    rw [scheduler_addLeaf h, if_neg hmn, if_neg (h.leaf_ne_rootScheduler hm)]
  have hoffers : (s.addLeaf u).offers = s.offers := by
    funext x
    simp only [offers, host_addLeaf h, getHostConstraints_dirtyWhen]
  have hfree : s.leafSchedulers.get (u.gen s.heap.schedulerCount) = none := Shape.Wf.next_id_free h
  refine ⟨?_, ?_, ?_⟩
  · rintro l ⟨i, hi⟩
    rw [hleaves, get_put] at hi
    split at hi
    · cases hi
      rw [scheduler_addLeaf_self h]
      rfl
    · rw [hold l ⟨i, hi⟩, hoffers]
      exact ha.leaf l ⟨i, hi⟩
  · have hroot : ((s.addLeaf u).scheduler s.rootScheduler).constraints = (s.scheduler s.rootScheduler).constraints := by
      rw [scheduler_addLeaf h, if_neg (Ne.symm hne), if_pos rfl]
    rw [hleaves, sum_put_of_absent _ _ _ _ hfree, scheduler_addLeaf_self h]
    simp only [Scheduler.new, add_zero]
    refine (hroot.trans ha.root).trans (sum_congr _ _ _ (fun i l hi => ?_))
    rw [hold l ⟨i, hi⟩]
  · intro y set hy
    rw [scheduler_addLeaf h] at hy ⊢
    split at hy
    · cases hy
    · rename_i hyn
      split at hy
      · cases hy
      · rename_i hyr
        rw [if_neg hyn, if_neg hyr]
        exact ha.kept y set hy

theorem Accounted.dropLeaf (ha : s.Accounted) (h : s.Wf u) {l : SchedulerRef} (hl : s.IsLeaf l) :
    (s.dropLeaf l).Accounted := by
  have hne := h.leaf_ne_rootScheduler hl
  have hid := (Shape.Wf.leaf_iff h l).1 hl
  have hold : ∀ m, s.IsLeaf m → m ≠ l → (s.dropLeaf l).scheduler m = s.scheduler m := by
    intro m hm hml
    rw [scheduler_dropLeaf h hl, if_neg hml, if_neg (h.leaf_ne_rootScheduler hm)]
  have hoffers : (s.dropLeaf l).offers = s.offers := by
    funext x
    simp only [offers, host_dropLeaf h hl, getHostConstraints_dirtyWhen]
  refine ⟨?_, ?_, ?_⟩
  · intro m hm
    obtain ⟨hm, hml⟩ := (isLeaf_dropLeaf h hl m).1 hm
    rw [hold m hm hml, hoffers]
    exact ha.leaf m hm
  · have hroot : ((s.dropLeaf l).scheduler s.rootScheduler).constraints =
        (s.scheduler s.rootScheduler).constraints - (s.scheduler l).constraints := by
      rw [scheduler_dropLeaf h hl, if_neg (Ne.symm hne), if_pos rfl]
      rfl
    rw [ha.root, s.leafSchedulers.sum_remove _ l _ hid, add_tsub_cancel_left] at hroot
    refine hroot.trans (sum_congr _ _ _ (fun i m hi => ?_))
    obtain ⟨hm, hml⟩ := (isLeaf_dropLeaf h hl m).1 ⟨i, hi⟩
    rw [hold m hm hml]
  · intro y set hy
    rw [scheduler_dropLeaf h hl] at hy ⊢
    split at hy
    · rename_i hyl
      rw [if_pos hyl]
      exact ha.kept y set hy
    · rename_i hyl
      split at hy
      · cases hy
      · rename_i hyr
        rw [if_neg hyl, if_neg hyr]
        exact ha.kept y set hy

theorem Accounted.constraintSet_eq (ha : s.Accounted) (l : SchedulerRef) :
    s.heap.constraintSet l = (s.scheduler l).constraints.toFinset := by
  unfold Heap.constraintSet
  cases hk : (s.heap.scheduler l).constraintsSet with
  | none => rfl
  | some set => exact ha.kept l set hk

theorem Accounted.keepSet (ha : s.Accounted) (l : SchedulerRef) :
    ({ s with heap := (s.heap.getConstraintSet l).2 } : Hierarchy).Accounted := by
  have hframe : ∀ y, (({ s with heap := (s.heap.getConstraintSet l).2 } : Hierarchy).scheduler y).hosts =
      (s.scheduler y).hosts ∧
      (({ s with heap := (s.heap.getConstraintSet l).2 } : Hierarchy).scheduler y).constraints =
        (s.scheduler y).constraints := by
    intro y
    simp only [scheduler, Heap.scheduler_getConstraintSet]
    split <;> exact ⟨rfl, rfl⟩
  refine ⟨?_, ?_, ?_⟩
  · intro m hm
    rw [(hframe m).1, (hframe m).2]
    exact ha.leaf m hm
  · rw [(hframe _).2]
    refine Eq.trans ha.root (sum_congr _ _ _ (fun i m _ => ?_))
    rw [(hframe m).2]
  · intro y set hy
    rw [(hframe y).2]
    simp only [scheduler, Heap.scheduler_getConstraintSet] at hy
    split at hy
    · rename_i hyl
      subst hyl
      rw [← Option.some.inj hy]
      exact ha.constraintSet_eq y
    · exact ha.kept y set hy

/-- **Every step keeps the account.** -/
theorem Step.accounted (hstep : Step u s s') (h : s.Wf u) (ha : s.Accounted) : s'.Accounted := by
  cases hstep with
  | register id az ds nets mgmt address port hfree =>
    refine ha.of_same rfl rfl (fun _ => rfl) (fun _ => rfl) (fun _ => rfl) (fun l i r hl hm => ?_)
    unfold offers
    rw [show (s.registerHost _).host r = s.host r from if_neg (Shape.Wf.member_ne_next h hm)]
  | forget id =>
    cases hr : s.hosts.get id with
    | none => rw [s.removeHost_of_unknown hr]; exact ha
    | some r =>
      rw [s.removeHost_of_registered hr]
      cases hp : (s.host r).parentScheduler with
      | none =>
        rw [Heap.removeFromHierarchy_staged hp (Shape.Wf.staged_owns_nothing h hr hp)]
        exact { ha with }
      | some l => exact (exchange_removeFromHierarchy h hr hp).accounted h (h.parent_leaf id r l hr hp) ha
  | attach id r l hr hstaged hl hroom hmatch => exact (exchange_addHost h hr hstaged hl).accounted h hl ha
  | addLeaf hroom => exact ha.addLeaf h
  | own l r hl hr =>
    have hu := h.under hl
    refine ha.of_same rfl rfl ?_ ?_ ?_ ?_
    · intro y
      simp only [scheduler, Heap.scheduler_setOwner_some hu]
      split <;> rfl
    · intro y
      simp only [scheduler, Heap.scheduler_setOwner_some hu]
      split <;> rfl
    · intro y
      simp only [scheduler, Heap.scheduler_setOwner_some hu]
      split <;> rfl
    · intro m i x _ _
      simp only [offers, host, Heap.host_setOwner_some hu]
      rfl
  | dropLeaf l hl => exact ha.dropLeaf h hl
  | retag id r ds hr =>
    cases hp : (s.host r).parentScheduler with
    | none => rw [s.updateHostTags_of_staged hp]; exact ha
    | some l =>
      rw [s.updateHostTags_of_parent hp]
      exact (exchange_retag h hr hp ds).accounted h (h.parent_leaf id r l hr hp) ha
  | keepSet l => exact ha.keepSet l
  | setFlags r c m =>
    refine ha.of_same rfl rfl (fun _ => rfl) (fun _ => rfl) (fun _ => rfl) (fun l i x _ _ => ?_)
    simp only [offers, host_setFlags]
    split <;> rfl
  | setRootAddress address port =>
    refine ha.of_same rfl rfl (fun _ => rfl) (fun _ => rfl) (fun _ => rfl) (fun l i x _ _ => ?_)
    simp only [offers, host_setRootAddress]
    split <;> rfl

theorem Steps.accounted (hsteps : Steps u s s') (h : s.Wf u) (ha : s.Accounted) : s'.Accounted := by
  induction hsteps with
  | refl => exact ha
  | tail hsteps hstep ih => exact hstep.accounted (Steps.wf hsteps h) ih

theorem accounted_new (rootFanout leafFanout : Nat) : (new rootFanout leafFanout).Accounted where
  leaf := by
    rintro l ⟨i, hi⟩
    cases hi
  root := by
    rw [scheduler_new]
    rfl
  kept := by
    intro y set hy
    rw [scheduler_new] at hy
    split at hy <;> cases hy

/-- The constraints of the schedulers are exactly those of the hosts below them. -/
structure ExactConstraints (s : Hierarchy) : Prop where
  leaf : ∀ l ∈ s.leafSchedulers.values,
    (s.scheduler l).constraints = (s.scheduler l).hosts.sum (fun r => getHostConstraints (s.host r))
  root : (s.scheduler s.rootScheduler).constraints = s.leafSchedulers.sum (fun l => (s.scheduler l).constraints)
  /-- What `getConstraintSet` answers with, on any scheduler. -/
  set : ∀ l, (s.heap.getConstraintSet l).1 = (s.scheduler l).constraints.toFinset
  leaf_shows : ∀ l ∈ s.leafSchedulers.values, ∀ c, c ∈ (s.heap.getConstraintSet l).1 ↔
    ∃ r ∈ (s.scheduler l).hosts.values, c ∈ getHostConstraints (s.host r)
  root_shows : ∀ c, c ∈ (s.heap.getConstraintSet s.rootScheduler).1 ↔
    ∃ l ∈ s.leafSchedulers.values, ∃ r ∈ (s.scheduler l).hosts.values, c ∈ getHostConstraints (s.host r)

theorem Accounted.exactConstraints (ha : s.Accounted) : s.ExactConstraints := by
  have hleaf : ∀ l ∈ s.leafSchedulers.values,
      (s.scheduler l).constraints = (s.scheduler l).hosts.sum (fun r => getHostConstraints (s.host r)) :=
    fun l hl => ha.leaf l (LinkedMap.mem_values_iff.1 hl)
  refine ⟨hleaf, ha.root, ha.constraintSet_eq, ?_, ?_⟩
  · intro l hl c
    rw [show (s.heap.getConstraintSet l).1 = _ from ha.constraintSet_eq l, Multiset.mem_toFinset, hleaf l hl, mem_sum]
  · intro c
    rw [show (s.heap.getConstraintSet s.rootScheduler).1 = _ from ha.constraintSet_eq _, Multiset.mem_toFinset, ha.root,
      mem_sum]
    refine exists_congr (fun l => and_congr_right (fun hl => ?_))
    rw [hleaf l hl, mem_sum]

theorem accounted_run (u : Uuid) (rootFanout leafFanout : Nat) (hlf : 1 ≤ leafFanout) (ops : List Op) :
    (run u (new rootFanout leafFanout) ops).Accounted :=
  (run_steps ops _ (wf_new u rootFanout leafFanout) hlf).accounted (wf_new u rootFanout leafFanout)
    (accounted_new rootFanout leafFanout)

/-- **After every run of operations on a new hierarchy the constraints are exact.** -/
theorem exactConstraints_run (u : Uuid) (rootFanout leafFanout : Nat) (hlf : 1 ≤ leafFanout) (ops : List Op) :
    (run u (new rootFanout leafFanout) ops).ExactConstraints :=
  (accounted_run u rootFanout leafFanout hlf ops).exactConstraints

/-- A host of a leaf comes back with a tag on its datastore. -/
theorem exactConstraints_run_tagged_host :
    (run Uuid.unary (new 1 1) [.addHost "h" ⟨"a"⟩ (KeyedList.empty.put ⟨"d", ∅⟩) KeyedList.empty false "x" 1,
      .scan Chance.first,
      .addHost "h" ⟨"a"⟩ (KeyedList.empty.put ⟨"d", {"t"}⟩) KeyedList.empty false "x" 1]).ExactConstraints :=
  exactConstraints_run Uuid.unary 1 1 (by decide) _

end Hierarchy
end Photon.Chairman
