import Photon.TreeSteps
/-!
# TreeRuns — whole runs of a hierarchy

Each public operation of `Hierarchy` is a chain of steps from any well-formed state, so whatever the steps keep holds
after every run of operations on a new hierarchy.
-/
namespace Photon.Chairman

open List
open Keyed (KeyedList LinkedMap)
open Relation.ReflTransGen (head refl single)
open Keyed.LinkedMap (eq_empty_of_get get_removeAll mem_values_iff)

namespace Hierarchy

variable {u : Uuid} {c : Chance} {s s' : Hierarchy}

/-! ## Looking for a leaf -/

def available (s : Hierarchy) (h : Host) (l : SchedulerRef) : Bool :=
  decide ((s.scheduler l).hosts.size < s.leafFanout) &&
    correspondingSet (schConstraintsToMatch (s.heap.constraintSet l)) (hostConstraintsToMatch h)

theorem constraintSet_getConstraintSet (H : Heap) (l y : SchedulerRef) :
    (H.getConstraintSet l).2.constraintSet y = H.constraintSet y := by
  unfold Heap.constraintSet
  rw [Heap.scheduler_getConstraintSet]
  split
  · rename_i hy
    subst hy
    rfl
  · rfl

theorem available_keepSet (s : Hierarchy) (h : Host) (l y : SchedulerRef) :
    ({ s with heap := (s.heap.getConstraintSet l).2 } : Hierarchy).available h y = s.available h y := by
  unfold available
  rw [constraintSet_getConstraintSet]
  simp only [scheduler, Heap.scheduler_getConstraintSet]
  split <;> rfl

/-- **`findLeafScheduler` answers with the first leaf that is available.** -/
theorem findLeafScheduler_fst (h : Host) : ∀ (ls : List SchedulerRef) (s : Hierarchy),
    (findLeafScheduler s.leafFanout h ls s.heap).1 = ls.find? (s.available h)
  | [], _ => rfl
  | l :: ls, s => by
    have hrest := findLeafScheduler_fst h ls
    unfold findLeafScheduler
    by_cases hroom : (s.heap.scheduler l).hosts.size < s.leafFanout
    · rw [if_pos hroom]
      by_cases hm : correspondingSet (schConstraintsToMatch (s.heap.constraintSet l)) (hostConstraintsToMatch h) = true
      · simp [Heap.getConstraintSet, hm, find?, available, scheduler, hroom]
      · have hno : s.available h l = false := by simp [available, hm]
        have hkeep := hrest { s with heap := (s.heap.getConstraintSet l).2 }
        rw [funext (s.available_keepSet h l)] at hkeep
        simp only [Heap.getConstraintSet, hm, if_false, Bool.false_eq_true] at hkeep ⊢
        rw [hkeep, find?_cons_of_neg (by simp [hno])]
    · have hno : s.available h l = false := by simp [available, scheduler, hroom]
      rw [if_neg hroom, hrest s, find?_cons_of_neg (by simp [hno])]

theorem findLeafScheduler_steps (h : Host) : ∀ (ls : List SchedulerRef) (s : Hierarchy),
    Steps u s { s with heap := (findLeafScheduler s.leafFanout h ls s.heap).2 }
  | [], _ => refl
  | l :: ls, s => by
    unfold findLeafScheduler
    by_cases hroom : (s.heap.scheduler l).hosts.size < s.leafFanout
    · rw [if_pos hroom]
      have hstep : Step u s { s with heap := (s.heap.getConstraintSet l).2 } := .keepSet l
      by_cases hm : correspondingSet (schConstraintsToMatch (s.heap.constraintSet l)) (hostConstraintsToMatch h) = true
      · simp only [Heap.getConstraintSet, hm, if_true]
        exact single hstep
      · simp only [Heap.getConstraintSet, hm, if_false, Bool.false_eq_true]
        exact head hstep (findLeafScheduler_steps h ls _)
    · rw [if_neg hroom]
      exact findLeafScheduler_steps h ls s

theorem findLeafScheduler_frame (h : Host) : ∀ (ls : List SchedulerRef) (s : Hierarchy),
    ({ s with heap := (findLeafScheduler s.leafFanout h ls s.heap).2 } : Hierarchy).shape = s.shape ∧
      (findLeafScheduler s.leafFanout h ls s.heap).2.host = s.heap.host ∧
      ∀ k l, ({ s with heap := (findLeafScheduler s.leafFanout h ls s.heap).2 } : Hierarchy).available k l =
        s.available k l
  | [], _ => ⟨rfl, rfl, fun _ _ => rfl⟩
  | l :: ls, s => by
    unfold findLeafScheduler
    by_cases hroom : (s.heap.scheduler l).hosts.size < s.leafFanout
    · rw [if_pos hroom]
      by_cases hm : correspondingSet (schConstraintsToMatch (s.heap.constraintSet l)) (hostConstraintsToMatch h) = true
      · simp only [Heap.getConstraintSet, hm, if_true]
        exact ⟨s.shape_keepSet l, rfl, fun k => s.available_keepSet k l⟩
      · obtain ⟨h1, h2, h3⟩ := findLeafScheduler_frame h ls { s with heap := (s.heap.getConstraintSet l).2 }
        simp only [Heap.getConstraintSet, hm, if_false, Bool.false_eq_true]
        exact ⟨h1.trans (s.shape_keepSet l), h2, fun k m => (h3 k m).trans (s.available_keepSet k l m)⟩
    · rw [if_neg hroom]
      exact findLeafScheduler_frame h ls s

def lookedThrough (c : Chance) (s : Hierarchy) (r : HostRef) : Hierarchy :=
  { s with heap := (findLeafScheduler s.leafFanout (s.host r) (c.order s.leafSchedulers.values) s.heap).2 }

def pick (c : Chance) (s : Hierarchy) (r : HostRef) : Option SchedulerRef :=
  (c.order s.leafSchedulers.values).find? (s.available (s.host r))

variable {l : SchedulerRef} {r : HostRef}

theorem pick_isLeaf (h : s.pick c r = some l) : s.IsLeaf l := by
  have hm := mem_of_find?_eq_some h
  rw [(c.order_perm _).mem_iff, mem_values_iff] at hm
  exact hm

def foundLeaf (u : Uuid) (s : Hierarchy) (r : HostRef) : Hierarchy :=
  { s.addLeaf u with
    heap := ((s.addLeaf u).heap.addHost s.heap.nextScheduler r).setOwner s.heap.nextScheduler (some r) }

theorem insertHost_of_parent (hp : (s.host r).parentScheduler = some l) : s.insertHost u c r = s := by
  unfold insertHost
  rw [hp]

/-- **One turn of `insertHosts` on a staged host.** -/
theorem insertHost_of_staged (hp : (s.host r).parentScheduler = none) : s.insertHost u c r = match s.pick c r with
      | some l => { s.lookedThrough c r with heap := (s.lookedThrough c r).heap.addHost l r }
      | none =>
        if s.leafSchedulers.size ≥ s.rootFanout then s.lookedThrough c r else (s.lookedThrough c r).foundLeaf u r := by
  unfold insertHost pick
  rw [← findLeafScheduler_fst]
  simp only [hp]
  rfl

theorem lookedThrough_steps (c : Chance) (s : Hierarchy) (r : HostRef) : Steps u s (s.lookedThrough c r) :=
  findLeafScheduler_steps (s.host r) _ s

theorem host_lookedThrough (c : Chance) (s : Hierarchy) (r x : HostRef) : (s.lookedThrough c r).host x = s.host x :=
  congrFun (findLeafScheduler_frame (s.host r) _ s).2.1 x

theorem available_lookedThrough (c : Chance) (s : Hierarchy) (r : HostRef) (k : Host) (l : SchedulerRef) :
    (s.lookedThrough c r).available k l = s.available k l :=
  (findLeafScheduler_frame (s.host r) _ s).2.2 k l

/-! ## Inserting the staged hosts -/

theorem correspondingSet_empty (hostConstraints : Finset ResourceConstraint) :
    correspondingSet (schConstraintsToMatch ∅) hostConstraints = true := by
  simp [correspondingSet, schConstraintsToMatch, stripConstraintSet]

theorem scheduler_addLeaf_self (h : s.Wf u) : (s.addLeaf u).scheduler s.heap.nextScheduler =
      { Scheduler.new (u.gen s.heap.schedulerCount) with parent := some s.rootScheduler } := by
  rw [scheduler_addLeaf h, if_pos rfl]

/-- **A leaf founded for a staged host** is a leaf added, joined and owned. -/
theorem foundLeaf_steps (h : s.Wf u) (hlf : 1 ≤ s.leafFanout) {i : String} (hr : s.hosts.get i = some r)
    (hp : (s.host r).parentScheduler = none) (hroom : s.leafSchedulers.size < s.rootFanout) :
    Steps u s (s.foundLeaf u r) := by
  have hadd : Step u s (s.addLeaf u) := .addLeaf hroom
  have hw := hadd.wf h
  have hshape := shape_addLeaf h
  have hself := scheduler_addLeaf_self h
  have hl : (s.addLeaf u).IsLeaf s.heap.nextScheduler := by
    refine ⟨u.gen s.heap.schedulerCount, ?_⟩
    rw [show (s.addLeaf u).leafSchedulers = (s.addLeaf u).shape.leafSchedulers from rfl, hshape]
    simp [Shape.addLeaf, Heap.nextScheduler, shape]
  have hstaged : ((s.addLeaf u).host r).parentScheduler = none := by
    rw [show ((s.addLeaf u).host r).parentScheduler = (s.addLeaf u).shape.parentScheduler r from rfl, hshape]
    exact hp
  have hattach : Step u (s.addLeaf u)
      { s.addLeaf u with heap := (s.addLeaf u).heap.addHost s.heap.nextScheduler r } := by
    refine .attach i r s.heap.nextScheduler hr hstaged hl ?_ ?_
    · rw [hself]
      exact hlf
    · unfold Matches Heap.constraintSet
      rw [show (s.addLeaf u).heap.scheduler s.heap.nextScheduler =
        (s.addLeaf u).scheduler s.heap.nextScheduler from rfl, hself]
      exact correspondingSet_empty _
  have hown : Step u { s.addLeaf u with heap := (s.addLeaf u).heap.addHost s.heap.nextScheduler r }
      (s.foundLeaf u r) := by
    refine .own s.heap.nextScheduler r hl ?_
    have := congrArg (fun t => t.parentScheduler r) (shape_addHost hw hl r)
    simpa [shape, Shape.attach] using this
  exact ((single hadd).tail hattach).tail hown

theorem insertHost_steps (h : s.Wf u) (hlf : 1 ≤ s.leafFanout) {i : String} (hr : s.hosts.get i = some r) :
    Steps u s (s.insertHost u c r) := by
  cases hp : (s.host r).parentScheduler with
  | some l => rw [insertHost_of_parent hp]; exact refl
  | none =>
    have hlook := s.lookedThrough_steps (u := u) c r
    have hstaged : ((s.lookedThrough c r).host r).parentScheduler = none := by rw [host_lookedThrough, hp]
    rw [insertHost_of_staged hp]
    cases hpick : s.pick c r with
    | some l =>
      have hl : (s.lookedThrough c r).IsLeaf l := pick_isLeaf (s := s) hpick
      have hav : s.available (s.host r) l = true := find?_some hpick
      rw [← available_lookedThrough c s r, available, Bool.and_eq_true, decide_eq_true_eq,
        ← host_lookedThrough c s r] at hav
      exact hlook.tail (.attach i r l hr hstaged hl hav.1 hav.2)
    | none =>
      simp only
      split
      · exact hlook
      · rename_i hroom
        exact hlook.trans (foundLeaf_steps (Steps.wf hlook h) hlf hr hstaged (Nat.lt_of_not_le hroom))

@[simp] theorem hosts_insertHost (s : Hierarchy) (r : HostRef) : (s.insertHost u c r).hosts = s.hosts := by
  cases hp : (s.host r).parentScheduler with
  | some l => rw [insertHost_of_parent hp]
  | none =>
    rw [insertHost_of_staged hp]
    cases s.pick c r with
    | some l => rfl
    | none =>
      simp only
      split <;> rfl

theorem Step.fanouts (h : Step u s s') : s'.rootFanout = s.rootFanout ∧ s'.leafFanout = s.leafFanout := by
  cases h with
  | forget id => unfold removeHost; split <;> exact ⟨rfl, rfl⟩
  | retag id r ds hr => unfold updateHostTags; split <;> exact ⟨rfl, rfl⟩
  | _ => exact ⟨rfl, rfl⟩

theorem Steps.fanouts (h : Steps u s s') : s'.rootFanout = s.rootFanout ∧ s'.leafFanout = s.leafFanout := by
  induction h with
  | refl => exact ⟨rfl, rfl⟩
  | tail _ hstep ih => exact ⟨hstep.fanouts.1.trans ih.1, hstep.fanouts.2.trans ih.2⟩

theorem foldl_insertHost_steps : ∀ (rs : List HostRef) (s : Hierarchy), s.Wf u → 1 ≤ s.leafFanout →
    (∀ r ∈ rs, ∃ i, s.hosts.get i = some r) → Steps u s (rs.foldl (insertHost u c) s)
  | [], _, _, _, _ => refl
  | r :: rs, s, h, hlf, hrs => by
    obtain ⟨i, hr⟩ := hrs r (by simp)
    have hstep := insertHost_steps (c := c) h hlf hr
    rw [foldl_cons]
    refine hstep.trans (foldl_insertHost_steps rs _ (hstep.wf h) (by rw [hstep.fanouts.2]; exact hlf) ?_)
    intro x hx
    rw [hosts_insertHost]
    exact hrs x (by simp [hx])

theorem insertHosts_steps (h : s.Wf u) (hlf : 1 ≤ s.leafFanout) : Steps u s (s.insertHosts u c) :=
  foldl_insertHost_steps _ s h hlf (fun _ hr => mem_values_iff.1 hr)

/-! ## Leaves that go -/

theorem isLeaf_dropLeaf (h : s.Wf u) {l : SchedulerRef} (hl : s.IsLeaf l) (m : SchedulerRef) :
    (s.dropLeaf l).IsLeaf m ↔ s.IsLeaf m ∧ m ≠ l := Shape.Wf.isLeaf_dropLeaf h hl m

theorem dropLeaf_keeps (h : s.Wf u) (hl : s.IsLeaf l) (m : SchedulerRef) :
    ((s.dropLeaf l).scheduler m).id = (s.scheduler m).id ∧ ((s.dropLeaf l).scheduler m).hosts =
    (s.scheduler m).hosts := by
  have hshape := shape_dropLeaf h hl
  exact ⟨congrArg (fun t => t.id m) hshape, congrArg (fun t => t.members m) hshape⟩

theorem isLeaf_rest_dropLeaf (h : s.Wf u) {ls : List SchedulerRef} (hnot : l ∉ ls) (hls : ∀ m ∈ l :: ls, s.IsLeaf m) :
    ∀ m ∈ ls, (s.dropLeaf l).IsLeaf m := by
  intro m hm
  refine (isLeaf_dropLeaf h (hls l mem_cons_self) m).2 ⟨hls m (mem_cons_of_mem l hm), ?_⟩
  rintro rfl
  exact hnot hm

/-- **Several leaves that go, at once.** -/
theorem foldl_dropLeaf : ∀ (ls : List SchedulerRef) (s : Hierarchy), s.Wf u → ls.Nodup → (∀ l ∈ ls, s.IsLeaf l) →
    Steps u s (ls.foldl dropLeaf s) ∧ ls.foldl dropLeaf s =
        { s with hosts := s.hosts.removeAll (ls.flatMap (fun l => (s.scheduler l).hosts.keys))
                 leafSchedulers := s.leafSchedulers.removeAll (ls.map (fun l => (s.scheduler l).id))
                 heap := ls.foldl (fun H l => H.removeChild s.rootScheduler l) s.heap }
  | [], _, _, _, _ => ⟨refl, rfl⟩
  | l :: ls, s, h, hnd, hls => by
    rw [nodup_cons] at hnd
    have hl := hls l (by simp)
    have hstep : Step u s (s.dropLeaf l) := .dropLeaf l hl
    obtain ⟨h1, h2⟩ := foldl_dropLeaf ls (s.dropLeaf l) (hstep.wf h) hnd.2 (isLeaf_rest_dropLeaf h hnd.1 hls)
    rw [foldl_cons]
    refine ⟨head hstep h1, ?_⟩
    rw [h2]
    simp only [dropLeaf_keeps h hl]
    simp only [dropLeaf, LinkedMap.removeAll, flatMap_cons, foldl_append, map_cons, foldl_cons]

theorem mem_rootChildren_iff (h : s.Wf u) (l : SchedulerRef) :
    l ∈ (s.scheduler s.rootScheduler).children.values ↔ s.IsLeaf l := by
  rw [mem_values_iff]
  exact exists_congr (fun i => by rw [show (s.scheduler s.rootScheduler).children.get i = s.leafSchedulers.get i from
    (h.leaf_child i).symm])

theorem nodup_rootChildren (h : s.Wf u) : (s.scheduler s.rootScheduler).children.values.Nodup := by
  refine LinkedMap.nodup_values _ (fun j k l hj hk => ?_)
  rw [← h.leaf_id j l ((h.leaf_child j).trans hj), ← h.leaf_id k l ((h.leaf_child k).trans hk)]

def emptyLeaves (s : Hierarchy) : List SchedulerRef :=
  (s.scheduler s.rootScheduler).children.values.filter (fun l => (s.scheduler l).hosts.size == 0)

theorem mem_emptyLeaves_iff (h : s.Wf u) (l : SchedulerRef) :
    l ∈ s.emptyLeaves ↔ s.IsLeaf l ∧ (s.scheduler l).hosts.size = 0 := by
  simp only [emptyLeaves, mem_filter, mem_rootChildren_iff h, beq_iff_eq]

theorem owner_of_empty (h : s.Wf u) (hl : s.IsLeaf l) (he : (s.scheduler l).hosts.size = 0) :
    (s.scheduler l).owner = none := by
  cases ho : (s.scheduler l).owner with
  | none => rfl
  | some r =>
    have hm := h.parent_member r l (h.owner_parent l r hl ho)
    rw [show s.shape.members l = (s.scheduler l).hosts from rfl, (LinkedMap.size_eq_zero_iff _).1 he] at hm
    cases hm

theorem foldl_clearEmpty : ∀ (ls : List SchedulerRef) (s : Hierarchy), (∀ l ∈ ls, (s.scheduler l).owner = none) →
    ls.foldl (fun s l => { s with heap := s.heap.setOwner l none,
                                  leafSchedulers := s.leafSchedulers.remove (s.scheduler l).id }) s =
      { s with leafSchedulers := s.leafSchedulers.removeAll (ls.map (fun l => (s.scheduler l).id)) }
  | [], _, _ => rfl
  | l :: ls, s, h => by
    rw [foldl_cons, Heap.setOwner_none_of_none (h l (by simp))]
    exact foldl_clearEmpty ls { s with leafSchedulers := s.leafSchedulers.remove (s.scheduler l).id }
      (fun m hm => h m (by simp [hm]))

/-- **`removeEmptySchedulers` drops the empty leaves.** -/
theorem removeEmptySchedulers_eq (h : s.Wf u) : s.removeEmptySchedulers = s.emptyLeaves.foldl dropLeaf s := by
  have hmem := mem_emptyLeaves_iff h
  have hdrop := (foldl_dropLeaf s.emptyLeaves s h ((nodup_rootChildren h).filter _) (fun l hl => ((hmem l).1 hl).1)).2
  have hkeys : s.emptyLeaves.flatMap (fun l => (s.scheduler l).hosts.keys) = [] := by
    rw [flatMap_eq_nil_iff]
    intro l hl
    exact map_eq_nil_iff.2 (length_eq_zero_iff.1 ((hmem l).1 hl).2)
  have hfirst := foldl_clearEmpty s.emptyLeaves s
    (fun l hl => owner_of_empty h ((hmem l).1 hl).1 ((hmem l).1 hl).2)
  rw [hdrop, hkeys]
  unfold removeEmptySchedulers
  rw [show (s.scheduler s.rootScheduler).children.values.filter (fun l => (s.scheduler l).hosts.size == 0) =
    s.emptyLeaves from rfl]
  simp only [hfirst]
  rfl

theorem removeEmptySchedulers_steps (h : s.Wf u) : Steps u s s.removeEmptySchedulers := by
  rw [removeEmptySchedulers_eq h]
  exact (foldl_dropLeaf s.emptyLeaves s h ((nodup_rootChildren h).filter _)
    (fun l hl => ((mem_emptyLeaves_iff h l).1 hl).1)).1

/-! ## Owners -/

theorem assignOwner_cases (c : Chance) (s : Hierarchy) (l : SchedulerRef) :
    s.assignOwner c l = s ∨ ∃ r ∈ s.availableHosts l, s.needsOwner l = true ∧
      s.assignOwner c l = { s with heap := s.heap.setOwner l (some r) } := by
  unfold assignOwner
  by_cases hn : s.needsOwner l = true
  · rw [if_pos hn]
    cases hr : (s.availableHosts l)[c.nextInt l (s.availableHosts l).length]? with
    | none => exact .inl rfl
    | some r => exact .inr ⟨r, mem_of_getElem? hr, hn, rfl⟩
  · rw [if_neg hn]
    exact .inl rfl

theorem mem_availableHosts_iff (h : s.Wf u) (l : SchedulerRef) (r : HostRef) :
    r ∈ s.availableHosts l ↔ (s.host r).parentScheduler = some l ∧ (s.scheduler l).owner ≠ some r := by
  simp only [availableHosts, mem_filter, mem_values_iff, decide_eq_true_eq]
  refine and_congr ⟨?_, ?_⟩ ⟨fun h => Ne.symm h, fun h => Ne.symm h⟩
  · rintro ⟨i, hi⟩
    exact (h.member l i r hi).2
  · intro hp
    exact ⟨_, h.parent_member r l hp⟩

theorem assignOwner_steps (h : s.Wf u) (hl : s.IsLeaf l) : Steps u s (s.assignOwner c l) := by
  obtain he | ⟨r, hr, -, he⟩ := s.assignOwner_cases c l
  · rw [he]; exact refl
  · rw [he]
    exact single (.own l r hl ((mem_availableHosts_iff h l r).1 hr).1)

@[simp] theorem leafSchedulers_assignOwner (s : Hierarchy) (l : SchedulerRef) :
    (s.assignOwner c l).leafSchedulers = s.leafSchedulers := by
  obtain he | ⟨r, -, -, he⟩ := s.assignOwner_cases c l <;> rw [he]

theorem foldl_assignOwner_steps : ∀ (ls : List SchedulerRef) (s : Hierarchy), s.Wf u → (∀ l ∈ ls, s.IsLeaf l) →
    Steps u s (ls.foldl (assignOwner c) s)
  | [], _, _, _ => refl
  | l :: ls, s, h, hls => by
    have hstep := assignOwner_steps (c := c) h (hls l (by simp))
    rw [foldl_cons]
    refine hstep.trans (foldl_assignOwner_steps ls _ (hstep.wf h) ?_)
    intro m hm
    unfold IsLeaf
    rw [leafSchedulers_assignOwner]
    exact hls m (by simp [hm])

/-- **A scan is a chain of steps.** -/
theorem scan_steps (h : s.Wf u) (hlf : 1 ≤ s.leafFanout) : Steps u s (s.scan u c) := by
  have h1 := insertHosts_steps (c := c) h hlf
  have h2 := removeEmptySchedulers_steps (h1.wf h)
  exact (h1.trans h2).trans (foldl_assignOwner_steps _ _ (h2.wf (h1.wf h)) fun l hl => mem_values_iff.1 hl)

/-! ## The other operations -/

theorem addHost_steps (s : Hierarchy) (id : String) (az : AvailabilityZone) (ds : DatastoreSet) (nets : NetworkSet)
    (mgmt : Bool) (address : String) (port : Int) : Steps u s (s.addHost id az ds nets mgmt address port).2 := by
  unfold addHost
  cases hk : s.hosts.get id with
  | none => exact single (.register id az ds nets mgmt (some address) port hk)
  | some known =>
    have hflags : Step u s
        { s with heap := s.heap.modifyHost known (fun k => { k with configured := false, missing := false }) } := by
      have := Step.setFlags (u := u) (s := s) known false false
      simpa only [setFlags, Bool.and_false] using this
    simp only
    split
    · split
      · exact single hflags
      · exact (single hflags).tail (.retag id known ds hk)
    · refine (single (.forget id)).tail (.register id az ds nets mgmt (some address) port ?_)
      rw [s.removeHost_of_registered hk]
      simp

theorem markMissing_steps (s : Hierarchy) (id : String) : Steps u s (s.markMissing id) := by
  unfold markMissing
  split
  · exact refl
  · rename_i r _
    have := Step.setFlags (u := u) (s := s) r true true
    simp only [setFlags, Bool.and_true] at this
    exact single this

theorem markResurrected_steps (s : Hierarchy) (id : String) : Steps u s (s.markResurrected id) := by
  unfold markResurrected
  split
  · exact refl
  · rename_i r _
    have := Step.setFlags (u := u) (s := s) r true false
    simp only [setFlags, Bool.and_true] at this
    exact single this

theorem foldl_removeHost_staged : ∀ (ks : List String) (s : Hierarchy), s.Wf u → (∀ l, ¬ s.IsLeaf l) →
    Steps u s (ks.foldl removeHost s) ∧ ks.foldl removeHost s = { s with hosts := s.hosts.removeAll ks }
  | [], _, _, _ => ⟨refl, rfl⟩
  | k :: ks, s, h, hno => by
    have hstep : Step u s (s.removeHost k) := .forget k
    have heq : s.removeHost k = { s with hosts := s.hosts.remove k } := by
      cases hr : s.hosts.get k with
      | none =>
        rw [s.removeHost_of_unknown hr, LinkedMap.remove_of_absent _ _ hr]
      | some r =>
        have hp : (s.heap.host r).parentScheduler = none := by
          cases hp : (s.heap.host r).parentScheduler with
          | none => rfl
          | some l => exact absurd (h.parent_leaf k r l hr hp) (hno l)
        rw [s.removeHost_of_registered hr, Heap.removeFromHierarchy_staged hp (Shape.Wf.staged_owns_nothing h hr hp)]
    obtain ⟨h1, h2⟩ := foldl_removeHost_staged ks (s.removeHost k) (hstep.wf h) (by rw [heq]; exact hno)
    rw [foldl_cons]
    refine ⟨head hstep h1, ?_⟩
    rw [h2, heq]
    rfl

/-- **`clear` drops every leaf with its hosts and forgets the hosts that were staged.** -/
theorem clear_steps (h : s.Wf u) : Steps u s s.clear := by
  obtain ⟨h1, h2⟩ := foldl_dropLeaf (s.scheduler s.rootScheduler).children.values s h (nodup_rootChildren h)
    (fun l hl => (mem_rootChildren_iff h l).1 hl)
  generalize hs₁ : (s.scheduler s.rootScheduler).children.values.foldl dropLeaf s = s₁ at h1 h2
  have hleaves : s₁.leafSchedulers = LinkedMap.empty := by
    rw [h2]
    refine eq_empty_of_get _ (fun i => ?_)
    rw [get_removeAll]
    split
    · rfl
    · rename_i hi
      cases hl : s.leafSchedulers.get i with
      | none => rfl
      | some l =>
        refine absurd (mem_map.2 ⟨l, (mem_rootChildren_iff h l).2 ⟨i, hl⟩, ?_⟩) hi
        exact h.leaf_id i l hl
  have hno : ∀ l, ¬ s₁.IsLeaf l := by
    rintro l ⟨i, hi⟩
    rw [hleaves] at hi
    cases hi
  obtain ⟨h3, h4⟩ := foldl_removeHost_staged s₁.hosts.keys s₁ (h1.wf h) hno
  have hhosts : s₁.hosts.removeAll s₁.hosts.keys = LinkedMap.empty := by
    refine eq_empty_of_get _ (fun i => ?_)
    rw [get_removeAll]
    split
    · rfl
    · rename_i hi
      cases hr : s₁.hosts.get i with
      | none => rfl
      | some r => exact absurd (LinkedMap.mem_keys_iff.2 ⟨r, hr⟩) hi
  have heq : s₁.hosts.keys.foldl removeHost s₁ = s.clear := by
    rw [h4, hhosts]
    rw [h2] at hleaves ⊢
    simp only at hleaves
    rw [hleaves]
    rfl
  rw [heq] at h3
  exact h1.trans h3

/-! ## Runs -/

/-- The operations, with what the caller passes and what a scan leaves to chance. -/
inductive Op
  | addHost (id : String) (availabilityZone : AvailabilityZone) (datastores : DatastoreSet) (networks : NetworkSet)
      (managementOnly : Bool) (address : String) (port : Int)
  | removeHost (id : String)
  | markMissing (hostId : String)
  | markResurrected (hostId : String)
  | addRootHost (address : String) (port : Int)
  | removeRootHost
  | scan (c : Chance)
  | clear

def Op.apply (u : Uuid) (s : Hierarchy) : Op → Hierarchy
  | .addHost id az ds nets mgmt address port => (s.addHost id az ds nets mgmt address port).2
  | .removeHost id => s.removeHost id
  | .markMissing id => s.markMissing id
  | .markResurrected id => s.markResurrected id
  | .addRootHost address port => s.addRootHost address port
  | .removeRootHost => s.removeRootHost
  | .scan c => s.scan u c
  | .clear => s.clear

def run (u : Uuid) (s : Hierarchy) (ops : List Op) : Hierarchy := ops.foldl (Op.apply u) s

/-- **Every operation is a chain of steps.** -/
theorem Op.steps (op : Op) (h : s.Wf u) (hlf : 1 ≤ s.leafFanout) : Steps u s (op.apply u s) := by
  cases op with
  | addHost id az ds nets mgmt address port => exact s.addHost_steps id az ds nets mgmt address port
  | removeHost id => exact single (.forget id)
  | markMissing id => exact s.markMissing_steps id
  | markResurrected id => exact s.markResurrected_steps id
  | addRootHost address port => exact single (.setRootAddress (some address) port)
  | removeRootHost => exact single (.setRootAddress none (-1))
  | scan c => exact scan_steps h hlf
  | clear => exact clear_steps h

/-- **So is every run.** -/
theorem run_steps : ∀ (ops : List Op) (s : Hierarchy), s.Wf u → 1 ≤ s.leafFanout → Steps u s (run u s ops)
  | [], _, _, _ => refl
  | op :: ops, s, h, hlf => by
    have hop := op.steps h hlf
    exact hop.trans (run_steps ops _ (hop.wf h) (by rw [hop.fanouts.2]; exact hlf))

/-! ## The new hierarchy -/

variable (rootFanout leafFanout : Nat)

theorem host_new (x : HostRef) : (new rootFanout leafFanout).host x =
      if x = ⟨0⟩ then { Host.new rootSchedulerHostId rootSchedulerAvailabilityZone KeyedList.empty KeyedList.empty false
        none (-1) with schedulers := [⟨0⟩] } else Host.blank := by
  simp only [new, host, Heap.setOwner, Heap.dirtyUpToRoot]
  rw [Heap.host_upToRoot_top _ Heap.keepsLinks_id]
  · by_cases hx : x = ⟨0⟩
    · subst hx; rfl
    · simp [hx, Ne.symm hx, Heap.allocHost, Heap.empty, Heap.nextHost, Heap.nextScheduler, Scheduler.new]
  · rfl

theorem scheduler_new (y : SchedulerRef) : (new rootFanout leafFanout).scheduler y =
      if y = ⟨0⟩ then { Scheduler.new rootSchedulerId with owner := some ⟨0⟩ } else Scheduler.new "" := by
  simp only [new, scheduler, Heap.setOwner, Heap.dirtyUpToRoot]
  rw [Heap.scheduler_upToRoot_top _ Heap.keepsLinks_id]
  · by_cases hy : y = ⟨0⟩
    · subst hy; rfl
    · simp [hy, Heap.empty, Heap.nextScheduler, Scheduler.new]
  · rfl

theorem shape_new : (new rootFanout leafFanout).shape = Shape.initial := by
  ext1 <;> simp only [shape, Shape.initial, host_new, scheduler_new]
  case hostCount => simp [new, Heap.empty]
  case schedulerCount => simp [new, Heap.empty]
  case hosts => rfl
  case leafSchedulers => rfl
  case rootScheduler => rfl
  case rootHost => rfl
  all_goals
    funext x
    by_cases hx : x = ⟨0⟩ <;> simp [hx, Host.new, Host.blank, Scheduler.new]

theorem wf_new (u : Uuid) (rootFanout leafFanout : Nat) : (new rootFanout leafFanout).Wf u := by
  unfold Wf
  rw [shape_new]
  exact Shape.wf_initial u

/-! ## Room -/

/-- No more leaves than the root has room for, and no more hosts than a leaf has. -/
def Fits (s : Hierarchy) : Prop := s.shape.Fits s.rootFanout s.leafFanout

/-- **Every step keeps within the fanouts.** -/
theorem Step.fits (hstep : Step u s s') (h : s.Wf u) (hf : s.Fits) : s'.Fits := by
  unfold Fits at hf ⊢
  rw [hstep.fanouts.1, hstep.fanouts.2]
  exact (hstep.move h).fits h hf

theorem Steps.fits (hsteps : Steps u s s') (h : s.Wf u) (hf : s.Fits) : s'.Fits := by
  induction hsteps with
  | refl => exact hf
  | tail hsteps hstep ih => exact hstep.fits (Steps.wf hsteps h) ih

theorem fits_new : (new rootFanout leafFanout).Fits := by
  unfold Fits
  rw [shape_new]
  refine ⟨Nat.zero_le _, ?_⟩
  rintro l ⟨i, hi⟩
  cases hi

/-! ## The tree after a run -/

/-- The tree is whole: the redundant links agree, and the tree keeps within its fanouts. -/
structure TreeInvariant (rootFanout leafFanout : Nat) (s : Hierarchy) : Prop where
  leaves_children : ∀ i, s.leafSchedulers.get i = (s.scheduler s.rootScheduler).children.get i
  leaf_parent : ∀ l ∈ s.leafSchedulers.values, (s.scheduler l).parent = some s.rootScheduler
  member_iff : ∀ r ∈ s.hosts.values, ∀ l ∈ s.leafSchedulers.values,
    r ∈ (s.scheduler l).hosts.values ↔ (s.host r).parentScheduler = some l
  member_registered : ∀ l ∈ s.leafSchedulers.values, ∀ i r, (s.scheduler l).hosts.get i = some r →
    (s.host r).id = i ∧ s.hosts.get i = some r
  member_unique : ∀ l ∈ s.leafSchedulers.values, ∀ m ∈ s.leafSchedulers.values, ∀ r,
    r ∈ (s.scheduler l).hosts.values → r ∈ (s.scheduler m).hosts.values → l = m
  owner_iff : ∀ l r, (s.scheduler l).owner = some r ↔ l ∈ (s.host r).schedulers
  owner_member : ∀ l ∈ s.leafSchedulers.values, ∀ r, (s.scheduler l).owner = some r → r ∈ (s.scheduler l).hosts.values
  root_room : s.leafSchedulers.size ≤ rootFanout
  leaf_room : ∀ l ∈ s.leafSchedulers.values, (s.scheduler l).hosts.size ≤ leafFanout

theorem treeInvariant_of_wf (h : s.Wf u) (hf : s.Fits) : s.TreeInvariant s.rootFanout s.leafFanout where
  leaves_children := h.leaf_child
  leaf_parent := fun l hl => h.leaf_parent l (mem_values_iff.1 hl)
  member_iff := by
    intro r hr l hl
    rw [mem_values_iff]
    constructor
    · rintro ⟨i, hi⟩
      exact (h.member l i r hi).2
    · intro hp
      exact ⟨_, h.parent_member r l hp⟩
  member_registered := fun l hl i r hi =>
    ⟨(h.member l i r hi).1, h.member_registered l i r (mem_values_iff.1 hl) hi⟩
  member_unique := by
    intro l _ m _ r hl hm
    obtain ⟨i, hi⟩ := mem_values_iff.1 hl
    obtain ⟨j, hj⟩ := mem_values_iff.1 hm
    exact Shape.Wf.member_unique h hi hj
  owner_iff := h.owner_iff
  owner_member := by
    intro l hl r ho
    rw [mem_values_iff]
    exact ⟨_, h.parent_member r l (h.owner_parent l r (mem_values_iff.1 hl) ho)⟩
  root_room := hf.leaves
  leaf_room := fun l hl => hf.members l (mem_values_iff.1 hl)

/-- **After every run of operations on a new hierarchy the tree is whole.** -/
theorem treeInvariant_run (u : Uuid) (rootFanout leafFanout : Nat) (hlf : 1 ≤ leafFanout) (ops : List Op) :
    (run u (new rootFanout leafFanout) ops).TreeInvariant rootFanout leafFanout := by
  have hwf := wf_new u rootFanout leafFanout
  have hsteps := run_steps ops (new rootFanout leafFanout) hwf hlf
  have hinv := treeInvariant_of_wf (hsteps.wf hwf) (hsteps.fits hwf (fits_new rootFanout leafFanout))
  rw [hsteps.fanouts.1, hsteps.fanouts.2] at hinv
  exact hinv

/-- A host joins, the tree is scanned, and the host comes back in another zone. -/
theorem treeInvariant_run_moved_host :
    (run Uuid.unary (new 1 1) [.addHost "h" ⟨"a"⟩ KeyedList.empty KeyedList.empty false "x" 1, .scan Chance.first,
      .addHost "h" ⟨"b"⟩ KeyedList.empty KeyedList.empty false "x" 1, .scan Chance.first]).TreeInvariant 1 1 :=
  treeInvariant_run Uuid.unary 1 1 (by decide) _

end Hierarchy
end Photon.Chairman
