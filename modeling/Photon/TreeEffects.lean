import Photon.TreeScan
import Photon.TreeSums
/-!
# TreeEffects — what a scan and a registration come to

A scan leaves no empty leaf, an owner in every leaf and no host outside the tree while there is room for a leaf.
Whether the owners are live is up to the draw, which is made among all the other hosts of a leaf (`LiveDraws`).
`addHost` on a known host compares less than it is given and gives new tags to the hosts of a leaf only (`Covered`).
-/
namespace Photon.Chairman

open List
open Keyed (KeyedList LinkedMap)
open Keyed.LinkedMap (get_put mem_values_iff size_eq_zero_iff)

namespace Hierarchy

variable {u : Uuid} {c : Chance} {s : Hierarchy}

/-! ## A full tree -/

def Full (s : Hierarchy) : Prop :=
  s.rootFanout ≤ s.leafSchedulers.size ∧ ∀ l, s.IsLeaf l → (s.scheduler l).hosts.size ≠ 0

variable {l : SchedulerRef}

/-- **An empty leaf is available to every host**: it counts no constraints. -/
theorem available_of_empty (ha : s.Accounted) (hlf : 1 ≤ s.leafFanout) (hl : s.IsLeaf l)
    (he : (s.scheduler l).hosts.size = 0) (k : Host) : s.available k l = true := by
  have hnone : s.heap.constraintSet l = ∅ := by
    refine Finset.eq_empty_of_forall_notMem (fun x hx => ?_)
    obtain ⟨r, hr, -⟩ := (ha.exactConstraints.leaf_shows l (mem_values_iff.2 hl) x).1 hx
    obtain ⟨i, hi⟩ := mem_values_iff.1 hr
    rw [(size_eq_zero_iff _).1 he] at hi
    cases hi
  unfold available
  rw [hnone, correspondingSet_empty, he, Bool.and_true, decide_eq_true_eq]
  exact hlf

variable {r : HostRef}

theorem full_of_noRoom (ha : s.Accounted) (hlf : 1 ≤ s.leafFanout) (hn : s.noRoom c r = true) : s.Full := by
  simp only [noRoom, Bool.and_eq_true, Option.isNone_iff_eq_none, decide_eq_true_eq] at hn
  refine ⟨hn.2, fun l hl he => ?_⟩
  have hnot := find?_eq_none.1 hn.1.2 l ((c.order_perm _).mem_iff.2 (mem_values_iff.2 hl))
  exact hnot (available_of_empty ha hlf hl he _)

/-- **A full tree stays full when hosts are inserted.** -/
theorem Full.insertHost (hf : s.Full) (h : s.Wf u) (r : HostRef) : (s.insertHost u c r).Full := by
  cases hp : (s.host r).parentScheduler with
  | some l => rw [insertHost_of_parent hp]; exact hf
  | none =>
    have hshape : (s.lookedThrough c r).shape = s.shape := (findLeafScheduler_frame (s.host r) _ s).1
    have hhosts : ∀ m, ((s.lookedThrough c r).scheduler m).hosts = (s.scheduler m).hosts :=
      fun m => congrArg (fun t => t.members m) hshape
    rw [insertHost_of_staged hp]
    cases hpick : s.pick c r with
    | none =>
      simp only
      rw [if_pos hf.1]
      exact ⟨hf.1, fun m hm => by rw [hhosts]; exact hf.2 m hm⟩
    | some l =>
      have hw : (s.lookedThrough c r).Wf u := (s.lookedThrough_steps (u := u) c r).wf h
      refine ⟨hf.1, fun m hm he => ?_⟩
      have hmembers := congrArg (fun t => t.members m) (shape_addHost hw (pick_isLeaf (s := s) hpick) r)
      simp only [shape, Shape.attach] at hmembers
      rw [hmembers, hhosts] at he
      split at he
      · rw [size_eq_zero_iff] at he
        have hget := he ((s.lookedThrough c r).host r).id
        rw [get_put, if_pos rfl] at hget
        cases hget
      · exact hf.2 m hm he

theorem Full.foldl_insertHost : ∀ (rs : List HostRef) (s : Hierarchy), s.Full → s.Wf u → 1 ≤ s.leafFanout →
    (∀ r ∈ rs, ∃ i, s.hosts.get i = some r) → (rs.foldl (Hierarchy.insertHost u c) s).Full
  | [], _, hf, _, _, _ => hf
  | r :: rs, s, hf, h, hlf, hrs => by
    obtain ⟨i, hr⟩ := hrs r mem_cons_self
    have hstep := insertHost_steps (c := c) h hlf hr
    rw [foldl_cons]
    apply Full.foldl_insertHost rs _ (hf.insertHost h r) (hstep.wf h)
    · rw [hstep.fanouts.2]
      exact hlf
    · intro y hy
      rw [hosts_insertHost]
      exact hrs y (mem_cons_of_mem _ hy)

/-- **A host is left out of a full tree only.** -/
theorem full_of_notPlaced {x : HostRef} :
    ∀ {rs : List HostRef} {s : Hierarchy}, s.Wf u → s.Accounted → 1 ≤ s.leafFanout →
    (∀ r ∈ rs, ∃ i, s.hosts.get i = some r) → x ∈ notPlaced u c rs s → (rs.foldl (insertHost u c) s).Full
  | [], _, _, _, _, _, hx => absurd hx not_mem_nil
  | r :: rs, s, h, ha, hlf, hrs, hx => by
    obtain ⟨i, hr⟩ := hrs r mem_cons_self
    have hstep := insertHost_steps (c := c) h hlf hr
    have hlf' : 1 ≤ (s.insertHost u c r).leafFanout := by rw [hstep.fanouts.2]; exact hlf
    have hrest : ∀ y ∈ rs, ∃ i, (s.insertHost u c r).hosts.get i = some y := by
      intro y hy
      rw [hosts_insertHost]
      exact hrs y (mem_cons_of_mem _ hy)
    rw [notPlaced, mem_append] at hx
    rw [foldl_cons]
    rcases hx with hx | hx
    · split at hx
      · rename_i hn
        exact ((full_of_noRoom ha hlf hn).insertHost h r).foldl_insertHost rs _ (hstep.wf h) hlf' hrest
      · cases hx
    · exact full_of_notPlaced (hstep.wf h) (hstep.accounted h ha) hlf' hrest hx

/-! ## The tree after a scan -/

def filled (u : Uuid) (c : Chance) (s : Hierarchy) : Hierarchy := (s.insertHosts u c).removeEmptySchedulers

theorem filled_steps (h : s.Wf u) (hlf : 1 ≤ s.leafFanout) : Steps u s (s.filled u c) := by
  have h1 := insertHosts_steps (c := c) h hlf
  exact h1.trans (removeEmptySchedulers_steps (h1.wf h))

theorem Full.removeEmptySchedulers (hf : s.Full) (h : s.Wf u) : s.removeEmptySchedulers = s := by
  have hnone : s.emptyLeaves = [] := by
    refine eq_nil_iff_forall_not_mem.2 (fun l hl => ?_)
    rw [mem_emptyLeaves_iff h] at hl
    exact hf.2 l hl.1 hl.2
  rw [removeEmptySchedulers_eq h, hnone, foldl_nil]

/-- No leaf is empty, every leaf is owned by one of its hosts, and a host outside the tree means that the root is
full. -/
structure Tidy (s : Hierarchy) (rootFanout : Nat) : Prop where
  nonempty : ∀ l ∈ s.leafSchedulers.values, (s.scheduler l).hosts.size ≠ 0
  owned : ∀ l ∈ s.leafSchedulers.values, ∃ r ∈ (s.scheduler l).hosts.values, (s.scheduler l).owner = some r
  placed : ∀ r ∈ s.hosts.values,
    (∃ l ∈ s.leafSchedulers.values, r ∈ (s.scheduler l).hosts.values) ∨ rootFanout ≤ s.leafSchedulers.size

theorem nodup_leaves (h : s.Wf u) : s.leafSchedulers.values.Nodup := by
  refine LinkedMap.nodup_values _ (fun j k l hj hk => ?_)
  rw [← h.leaf_id j l hj, ← h.leaf_id k l hk]

theorem owner_member (h : s.Wf u) (hl : s.IsLeaf l) (ho : (s.scheduler l).owner = some r) :
    r ∈ (s.scheduler l).hosts.values :=
  mem_values_iff.2 ⟨_, h.parent_member r l (h.owner_parent l r hl ho)⟩

theorem tidy_scan (h : s.Wf u) (ha : s.Accounted) (hlf : 1 ≤ s.leafFanout) : (s.scan u c).Tidy s.rootFanout := by
  have h1 := (insertHosts_steps (c := c) h hlf).wf h
  have hw := (scan_steps (c := c) h hlf).wf h
  have h2 := (filled_steps (c := c) h hlf).wf h
  have hleaves : (s.scan u c).leafSchedulers = (s.filled u c).leafSchedulers :=
    (foldl_assignOwner_keeps s.rootHost _ _ h2 (isLeaf_values _)).1
  have howner : ∀ l ∈ (s.scan u c).leafSchedulers.values,
      ∃ r ∈ ((s.scan u c).scheduler l).hosts.values, ((s.scan u c).scheduler l).owner = some r := by
    intro l hl
    have hl := isLeaf_values _ l hl
    obtain ⟨r, hr⟩ := Option.ne_none_iff_exists'.1 (owner_scan h hlf hl)
    exact ⟨r, owner_member hw hl hr, hr⟩
  refine ⟨fun l hl he => ?_, howner, fun r hr => ?_⟩
  · obtain ⟨r, hr, -⟩ := howner l hl
    obtain ⟨i, hi⟩ := mem_values_iff.1 hr
    rw [(size_eq_zero_iff _).1 he] at hi
    cases hi
  · obtain ⟨i, hi⟩ := mem_values_iff.1 hr
    cases hp : ((s.scan u c).host r).parentScheduler with
    | some l =>
      exact .inl ⟨l, mem_values_iff.2 (hw.parent_leaf i r l hi hp), mem_values_iff.2 ⟨_, hw.parent_member r l hp⟩⟩
    | none =>
      rw [hosts_scan] at hi
      have hfull : (s.insertHosts u c).Full := full_of_notPlaced h ha hlf (fun x hx => mem_values_iff.1 hx)
        ((parent_scan h hlf hi).1 hp)
      refine .inr ?_
      rw [hleaves, filled, hfull.removeEmptySchedulers h1, ← (insertHosts_steps (c := c) h hlf).fanouts.1]
      exact hfull.1

/-- **After a scan no leaf is empty, every leaf is owned by one of its own hosts, and every registered host is in a leaf
unless there are as many leaves as the root has room for.** -/
theorem scan_result (u : Uuid) (rootFanout leafFanout : Nat) (hlf : 1 ≤ leafFanout) (ops : List Op) (c : Chance) :
    ((run u (new rootFanout leafFanout) ops).scan u c).Tidy rootFanout := by
  have hwf := wf_new u rootFanout leafFanout
  have hsteps := run_steps ops (new rootFanout leafFanout) hwf hlf
  have htidy := tidy_scan (c := c) (hsteps.wf hwf) (accounted_run u rootFanout leafFanout hlf ops)
    (by rw [hsteps.fanouts.2]; exact hlf)
  rw [hsteps.fanouts.1] at htidy
  exact htidy

/-- One leaf of one host, which goes; a host of another zone takes its leaf. -/
theorem scan_result_emptied_leaf :
    ((run Uuid.unary (new 1 1) [.addHost "h" ⟨"a"⟩ KeyedList.empty KeyedList.empty false "x" 1, .scan Chance.first,
      .removeHost "h", .addHost "k" ⟨"b"⟩ KeyedList.empty KeyedList.empty false "x" 1]).scan Uuid.unary
        Chance.first).Tidy 1 :=
  scan_result Uuid.unary 1 1 (by decide) _ _

/-! ## Who is in the tree -/

def Op.register (ids : Finset String) : Op → Finset String
  | .addHost id .. => insert id ids
  | .removeHost id => ids.erase id
  | .clear => ∅
  | _ => ids

theorem keys_removeHost (s : Hierarchy) (id i : String) :
    i ∈ (s.removeHost id).hosts.keys ↔ i ≠ id ∧ i ∈ s.hosts.keys := by
  cases hr : s.hosts.get id with
  | none =>
    have habsent : id ∉ s.hosts.keys := (LinkedMap.get_eq_none_iff _ _).1 hr
    rw [s.removeHost_of_unknown hr]
    grind
  | some r =>
    rw [s.removeHost_of_registered hr]
    exact LinkedMap.mem_keys_remove _ _ _

theorem keys_addHost (s : Hierarchy) (id : String) (availabilityZone : AvailabilityZone) (datastores : DatastoreSet)
    (networks : NetworkSet) (managementOnly : Bool) (address : String) (port : Int) (i : String) :
    i ∈ (s.addHost id availabilityZone datastores networks managementOnly address port).2.hosts.keys ↔
      i = id ∨ i ∈ s.hosts.keys := by
  unfold addHost
  cases hk : s.hosts.get id with
  | none => exact LinkedMap.mem_keys_put _ _ _ _
  | some known =>
    have hmem : id ∈ s.hosts.keys := LinkedMap.mem_keys_iff.2 ⟨known, hk⟩
    have hsame : i ∈ s.hosts.keys ↔ i = id ∨ i ∈ s.hosts.keys := by grind
    dsimp only
    split
    · split
      · exact hsame
      · unfold updateHostTags
        split <;> exact hsame
    · refine (LinkedMap.mem_keys_put _ _ _ _).trans ?_
      rw [keys_removeHost]
      grind [Host.new]

theorem keys_apply (op : Op) {ids : Finset String} (h : ∀ i, i ∈ s.hosts.keys ↔ i ∈ ids) (i : String) :
    i ∈ (op.apply u s).hosts.keys ↔ i ∈ op.register ids := by
  cases op with
  | addHost id => simp only [Op.apply, Op.register, keys_addHost, Finset.mem_insert, h]
  | removeHost id => simp only [Op.apply, Op.register, keys_removeHost, Finset.mem_erase, h]
  | markMissing id | markResurrected id =>
    simp only [Op.apply, markMissing, markResurrected]
    split <;> exact h i
  | addRootHost | removeRootHost => exact h i
  | scan c => exact (by rw [Op.apply, hosts_scan] : i ∈ _ ↔ i ∈ s.hosts.keys).trans (h i)
  | clear => exact iff_of_false (List.not_mem_nil) (Finset.notMem_empty i)

theorem keys_run (ops : List Op) {ids : Finset String} (h : ∀ i, i ∈ s.hosts.keys ↔ i ∈ ids) (i : String) :
    i ∈ (run u s ops).hosts.keys ↔ i ∈ ops.foldl Op.register ids := by
  induction ops generalizing s ids with
  | nil => exact h i
  | cons op ops ih => exact ih (keys_apply op h)

/-- **The tree has no other hosts than those that were added and not removed since.**  After every run these are the
registered ones, and every host of a leaf is one of them. -/
theorem tree_hosts_registered (u : Uuid) (rootFanout leafFanout : Nat) (hlf : 1 ≤ leafFanout) (ops : List Op) :
    let s := run u (new rootFanout leafFanout) ops
    let ids := ops.foldl Op.register ∅
    (∀ i, i ∈ s.hosts.keys ↔ i ∈ ids) ∧ ∀ l ∈ s.leafSchedulers.values, ∀ i ∈ (s.scheduler l).hosts.keys, i ∈ ids := by
  have hids : ∀ i, i ∈ (run u (new rootFanout leafFanout) ops).hosts.keys ↔ i ∈ ops.foldl Op.register ∅ :=
    keys_run ops (fun i => iff_of_false List.not_mem_nil (Finset.notMem_empty i))
  have hwf := wf_new u rootFanout leafFanout
  have hw := (run_steps ops (new rootFanout leafFanout) hwf hlf).wf hwf
  refine ⟨hids, fun l hl i hi => (hids i).1 ?_⟩
  obtain ⟨r, hr⟩ := LinkedMap.mem_keys_iff.1 hi
  exact LinkedMap.mem_keys_iff.2 ⟨r, hw.member_registered l i r (mem_values_iff.1 hl) hr⟩

def hostLeaves : List Op :=
  [.addHost "h" ⟨"a"⟩ KeyedList.empty KeyedList.empty false "x" 1, .scan Chance.first, .removeHost "h"]

/-- A host that leaves its leaf. -/
theorem tree_hosts_registered_removed :
    let s := run Uuid.unary (new 1 1) hostLeaves
    (∀ i, i ∈ s.hosts.keys ↔ i ∈ hostLeaves.foldl Op.register ∅) ∧
      ∀ l ∈ s.leafSchedulers.values, ∀ i ∈ (s.scheduler l).hosts.keys, i ∈ hostLeaves.foldl Op.register ∅ :=
  tree_hosts_registered Uuid.unary 1 1 (by decide) hostLeaves

/-! ## Live owners -/

/-- Every leaf with a host that is not missing is owned by one. -/
def LiveOwners (s : Hierarchy) : Prop :=
  ∀ l ∈ s.leafSchedulers.values, (∃ r ∈ (s.scheduler l).hosts.values, (s.host r).missing = false) →
    ∃ o ∈ (s.scheduler l).owner, (s.host o).missing = false

def drawn (c : Chance) (s : Hierarchy) (l : SchedulerRef) : Option HostRef :=
  (s.availableHosts l)[c.nextInt l (s.availableHosts l).length]?

/-- A leaf that has a host which is not missing, and whose owner is to be replaced, does not draw a missing host. -/
def LiveDraws (c : Chance) (s : Hierarchy) : Prop :=
  ∀ l ∈ s.leafSchedulers.values, s.needsOwner l = true →
    (∃ r ∈ (s.scheduler l).hosts.values, (s.host r).missing = false) → ∀ o ∈ s.drawn c l, (s.host o).missing = false

/-- A leaf that has a host which is not missing, and whose owner is to be replaced, has no missing candidate. -/
def LiveCandidates (s : Hierarchy) : Prop :=
  ∀ l ∈ s.leafSchedulers.values, s.needsOwner l = true →
    (∃ r ∈ (s.scheduler l).hosts.values, (s.host r).missing = false) → ∀ o ∈ s.availableHosts l,
    (s.host o).missing = false

instance (s : Hierarchy) : Decidable s.LiveOwners := by unfold LiveOwners; infer_instance

instance (c : Chance) (s : Hierarchy) : Decidable (s.LiveDraws c) := by unfold LiveDraws; infer_instance

instance (s : Hierarchy) : Decidable s.LiveCandidates := by unfold LiveCandidates; infer_instance

def nextOwner (c : Chance) (s : Hierarchy) (l : SchedulerRef) : Option HostRef :=
  if s.needsOwner l then (s.drawn c l).or (s.scheduler l).owner else (s.scheduler l).owner

theorem assignOwner_eq (c : Chance) (s : Hierarchy) (l : SchedulerRef) :
    s.assignOwner c l = s ∧ s.nextOwner c l = (s.scheduler l).owner ∨ ∃ r ∈ s.availableHosts l,
        s.nextOwner c l = some r ∧ s.assignOwner c l = { s with heap := s.heap.setOwner l (some r) } := by
  unfold assignOwner nextOwner
  by_cases hn : s.needsOwner l = true
  · rw [if_pos hn, if_pos hn]
    unfold drawn
    cases hr : (s.availableHosts l)[c.nextInt l (s.availableHosts l).length]? with
    | none => exact .inl ⟨rfl, rfl⟩
    | some r => exact .inr ⟨r, mem_of_getElem? hr, rfl, rfl⟩
  · rw [if_neg hn, if_neg hn]
    exact .inl ⟨rfl, rfl⟩

theorem missing_assignOwner (h : s.Wf u) (hl : s.IsLeaf l) (x : HostRef) :
    ((s.assignOwner c l).host x).missing = (s.host x).missing := by
  obtain ⟨he, -⟩ | ⟨r, -, -, he⟩ := s.assignOwner_eq c l
  · rw [he]
  · rw [he]
    simp only [host, Heap.host_setOwner_some (h.under hl), Host.data_dirtyWhen]

theorem scheduler_assignOwner (h : s.Wf u) (hl : s.IsLeaf l) (m : SchedulerRef) : (s.assignOwner c l).scheduler m =
      if m = l then { s.scheduler m with owner := s.nextOwner c l } else s.scheduler m := by
  obtain ⟨he, ho⟩ | ⟨r, -, ho, he⟩ := s.assignOwner_eq c l
  · rw [he, ho]
    split
    · rename_i hm
      rw [hm]
    · rfl
  · rw [he, ho]
    exact Heap.scheduler_setOwner_some (h.under hl)

/-- **The turn of one leaf leaves the next owner of another as it is**: the hosts it dirties are not the other's. -/
theorem nextOwner_assignOwner (h : s.Wf u) {m : SchedulerRef} (hl : s.IsLeaf l) (hm : s.IsLeaf m) (hne : m ≠ l) :
    (s.assignOwner c l).nextOwner c m = s.nextOwner c m := by
  have hsched : (s.assignOwner c l).scheduler m = s.scheduler m := by rw [scheduler_assignOwner h hl, if_neg hne]
  have hneeds : (s.assignOwner c l).needsOwner m = s.needsOwner m := by
    unfold needsOwner
    rw [hsched]
    cases ho : (s.scheduler m).owner with
    | none => rfl
    | some o =>
      have hparent : (s.host o).parentScheduler = some m := h.owner_parent m o hm ho
      obtain ⟨he, -⟩ | ⟨r, hr, -, he⟩ := s.assignOwner_eq c l
      · rw [he]
      · have hother : ∀ x, (s.host x).parentScheduler = some l → x ≠ o := by
          rintro x hx rfl
          rw [hparent] at hx
          exact hne (Option.some.inj hx)
        have hroot : s.rootHost ≠ o := by
          rintro rfl
          exact absurd (hparent.symm.trans h.rootHost_parent) (Option.some_ne_none m)
        have howner : (s.heap.scheduler l).owner ≠ some o :=
          fun hlo => hother o (h.owner_parent l o hl hlo) rfl
        rw [he]
        simp only [host, Heap.host_setOwner_some (h.under hl), h.rootScheduler_owner, howner,
          hother r ((mem_availableHosts_iff h l r).1 hr).1, Option.some.injEq, hroot, decide_false, Bool.or_false,
          Host.dirtyWhen_false]
  unfold nextOwner drawn availableHosts
  rw [hneeds, hsched]

theorem foldl_assignOwner_owner (m : SchedulerRef) (x : HostRef) : ∀ (ls : List SchedulerRef) (s : Hierarchy), s.Wf u →
    ls.Nodup → (∀ l ∈ ls, s.IsLeaf l) → s.IsLeaf m → (ls.foldl (assignOwner c) s).scheduler m =
        { s.scheduler m with owner := if m ∈ ls then s.nextOwner c m else (s.scheduler m).owner } ∧
      ((ls.foldl (assignOwner c) s).host x).missing = (s.host x).missing
  | [], _, _, _, _, _ => ⟨rfl, rfl⟩
  | l :: ls, s, h, hnd, hls, hm => by
    have hl := hls l mem_cons_self
    rw [nodup_cons] at hnd
    have hleaf : ∀ y, s.IsLeaf y → (s.assignOwner c l).IsLeaf y := by
      intro y hy
      unfold IsLeaf
      rw [leafSchedulers_assignOwner]
      exact hy
    obtain ⟨h1, h2⟩ := foldl_assignOwner_owner m x ls _ ((assignOwner_steps (c := c) h hl).wf h) hnd.2
      (fun y hy => hleaf y (hls y (mem_cons_of_mem _ hy))) (hleaf m hm)
    rw [foldl_cons, h1, h2, missing_assignOwner h hl, scheduler_assignOwner h hl]
    refine ⟨?_, rfl⟩
    by_cases hml : m = l
    · subst hml
      rw [if_pos rfl, if_neg hnd.1, if_pos mem_cons_self]
    · rw [if_neg hml, nextOwner_assignOwner h hl hm hml]
      simp only [mem_cons, hml, false_or]

theorem scheduler_assignOwners (h : s.Wf u) (hl : s.IsLeaf l) :
    (s.assignOwners c).scheduler l = { s.scheduler l with owner := s.nextOwner c l } := by
  have := (foldl_assignOwner_owner (c := c) l s.rootHost _ s h (nodup_leaves h) (isLeaf_values s) hl).1
  rwa [if_pos (mem_values_iff.2 hl)] at this

/-- **A leaf with a live host gets a live owner exactly when it does not draw a missing one.** -/
theorem nextOwner_live_iff (s : Hierarchy) (c : Chance) {x : HostRef}
    (hx : x ∈ (s.scheduler l).hosts.values) (hlive : (s.host x).missing = false) :
    (∃ o ∈ s.nextOwner c l, (s.host o).missing = false) ↔
      (s.needsOwner l = true → ∀ o ∈ s.drawn c l, (s.host o).missing = false) := by
  unfold nextOwner
  by_cases hn : s.needsOwner l = true
  · simp only [hn, if_true, forall_true_left]
    cases hd : s.drawn c l with
    | some r => simp
    | none =>
      -- nobody was drawn, so the live host is the owner
      have hnone : s.availableHosts l = [] := by
        by_contra hne
        have hlt := c.nextInt_lt l _ (length_pos_iff.2 hne)
        exact absurd (getElem?_eq_none_iff.1 hd) (Nat.not_le_of_lt hlt)
      have howner : (s.scheduler l).owner = some x := by
        by_contra hne
        have hmem : x ∈ s.availableHosts l :=
          mem_filter.2 ⟨hx, decide_eq_true (Ne.symm hne)⟩
        rw [hnone] at hmem
        cases hmem
      simp [howner, hlive]
  · refine ⟨fun _ h => absurd h hn, fun _ => ?_⟩
    rw [if_neg hn]
    unfold needsOwner at hn
    cases ho : (s.scheduler l).owner with
    | none => simp [ho] at hn
    | some o =>
      simp only [ho, Bool.or_eq_true, not_or, Bool.not_eq_true] at hn
      exact ⟨o, rfl, hn.1⟩

theorem liveOwners_assignOwners (h : s.Wf u) : (s.assignOwners c).LiveOwners ↔ s.LiveDraws c := by
  have hleaves : (s.assignOwners c).leafSchedulers = s.leafSchedulers :=
    (foldl_assignOwner_keeps s.rootHost _ s h (isLeaf_values s)).1
  have hmissing : ∀ l x, s.IsLeaf l → ((s.assignOwners c).host x).missing = (s.host x).missing :=
    fun l x hl => (foldl_assignOwner_owner l x _ s h (nodup_leaves h) (isLeaf_values s) hl).2
  unfold LiveOwners LiveDraws
  rw [hleaves]
  refine forall₂_congr (fun l hl => ?_)
  have hl := isLeaf_values s l hl
  rw [scheduler_assignOwners h hl]
  simp only [hmissing l _ hl]
  constructor
  · rintro hlive hn ⟨x, hx, hxl⟩
    exact (nextOwner_live_iff s c hx hxl).1 (hlive ⟨x, hx, hxl⟩) hn
  · rintro hdraw ⟨x, hx, hxl⟩
    exact (nextOwner_live_iff s c hx hxl).2 (fun hn => hdraw hn ⟨x, hx, hxl⟩)

/-- The leaves are listed as before, and `i` is drawn for the leaf wherever it can be. -/
def drawing (c : Chance) (leaf : SchedulerRef) (i : Nat) : Chance where
  order := c.order
  order_perm := c.order_perm
  nextInt := fun l n => if l = leaf ∧ i < n then i else c.nextInt l n
  nextInt_lt := by
    intro l n hn
    split
    · rename_i hi
      exact hi.2
    · exact c.nextInt_lt l n hn

theorem forall_liveDraws_iff (c : Chance) (s : Hierarchy) :
    (∀ c', c'.order = c.order → s.LiveDraws c') ↔ s.LiveCandidates := by
  constructor
  · intro hdraws l hl hn hlive o ho
    obtain ⟨i, hi, rfl⟩ := mem_iff_getElem.1 ho
    refine hdraws (drawing c l i) rfl l hl hn hlive _ ?_
    have hnext : (drawing c l i).nextInt l (s.availableHosts l).length = i := if_pos ⟨rfl, hi⟩
    rw [drawn, hnext, getElem?_eq_getElem hi]
    exact Option.mem_some_self _
  · intro hcandidates c' _ l hl hn hlive o ho
    exact hcandidates l hl hn hlive o (mem_of_getElem? ho)

theorem filled_congr {c' : Chance} (h : c'.order = c.order) (s : Hierarchy) : s.filled u c' = s.filled u c := by
  have hinsert : insertHost u c' = insertHost u c := by
    funext s r
    unfold insertHost
    rw [h]
  rw [filled, filled, insertHosts, insertHosts, hinsert]

def threeHosts : List Op :=
  [.addHost "a" ⟨"z"⟩ KeyedList.empty KeyedList.empty false "x" 1,
    .addHost "b" ⟨"z"⟩ KeyedList.empty KeyedList.empty false "y" 1,
    .addHost "c" ⟨"z"⟩ KeyedList.empty KeyedList.empty false "w" 1, .scan Chance.first]

/-- **After a scan the leaves are owned by live hosts exactly when no leaf with a live host draws a missing one**; and
they are whatever is drawn, exactly when no such leaf has a missing candidate. -/
theorem liveOwners_scan (u : Uuid) (rootFanout leafFanout : Nat) (hlf : 1 ≤ leafFanout) (ops : List Op) (c : Chance) :
    let s := run u (new rootFanout leafFanout) ops
    ((s.scan u c).LiveOwners ↔ (s.filled u c).LiveDraws c) ∧
      ((∀ c', c'.order = c.order → (s.scan u c').LiveOwners) ↔ (s.filled u c).LiveCandidates) := by
  have hwf := wf_new u rootFanout leafFanout
  have hsteps := run_steps ops (new rootFanout leafFanout) hwf hlf
  have hscan : ∀ c, ((run u (new rootFanout leafFanout) ops).scan u c).LiveOwners ↔
      ((run u (new rootFanout leafFanout) ops).filled u c).LiveDraws c := by
    intro c
    have hfilled := filled_steps (c := c) (hsteps.wf hwf) (by rw [hsteps.fanouts.2]; exact hlf)
    exact liveOwners_assignOwners (hfilled.wf (hsteps.wf hwf))
  refine ⟨hscan c, Iff.trans ?_ (forall_liveDraws_iff c _)⟩
  refine forall₂_congr fun c' horder => ?_
  rw [hscan c', filled_congr horder]

/-- The owner is missing and the other hosts are not. -/
theorem liveOwners_scan_one_missing :
    let s := run Uuid.unary (new 1 3) (threeHosts ++ [.markMissing "a"])
    (s.filled Uuid.unary Chance.first).LiveDraws Chance.first ∧ (s.scan Uuid.unary Chance.first).LiveOwners ∧
      ∀ c, c.order = Chance.first.order → (s.scan Uuid.unary c).LiveOwners := by
  have hscan := liveOwners_scan Uuid.unary 1 3 (by decide) (threeHosts ++ [.markMissing "a"]) Chance.first
  exact ⟨by decide +kernel, hscan.1.2 (by decide +kernel), hscan.2.2 (by decide +kernel)⟩

/-- The owner and another host are missing, and the draw falls on the other although the third host is not missing. -/
theorem scan_missing_owner :
    ¬ (run Uuid.unary (new 1 3)
      (threeHosts ++ [.markMissing "a", .markMissing "b", .scan Chance.first])).LiveOwners := by
  decide +kernel

/-! ## Registration -/

/-- The host registered under `id` has what it was registered with. -/
def HasAttributes (s : Hierarchy) (id : String) (availabilityZone : AvailabilityZone) (datastores : DatastoreSet)
    (networks : NetworkSet) (managementOnly : Bool) (address : String) (port : Int) : Prop :=
  ∃ r ∈ s.hosts.get id, (s.host r).availabilityZone = availabilityZone ∧
    (∀ d, (s.host r).datastores.find d = datastores.find d) ∧ (∀ n, (s.host r).networks.find n = networks.find n) ∧
    (s.host r).managementOnly = managementOnly ∧ (s.host r).address = some address ∧ (s.host r).port = port

def untagged : Op := .addHost "h" ⟨"a"⟩ (KeyedList.empty.put ⟨"d", ∅⟩) KeyedList.empty false "x" 1

/-- A known host that `Host.equals` does not tell from the new one has the networks it comes back with, types included,
and it has the tags or is in a leaf. -/
def Covered (s : Hierarchy) (id : String) (availabilityZone : AvailabilityZone) (datastores : DatastoreSet)
    (networks : NetworkSet) (managementOnly : Bool) (address : String) (port : Int) : Prop :=
  ∀ known ∈ s.hosts.get id,
    (s.host known).equals (Host.new id availabilityZone datastores networks managementOnly (some address) port) = true →
      (∀ n, (s.host known).networks.find n = networks.find n) ∧
      (compareDatastoresWithTags (s.host known).datastores datastores = true ∨ (s.host known).parentScheduler ≠ none)

theorem compareDatastoresWithTags_iff (setA setB : DatastoreSet) :
    compareDatastoresWithTags setA setB = true ↔ ∀ d, setA.find d = setB.find d := by
  unfold compareDatastoresWithTags
  constructor
  · intro h
    split at h
    · cases h
    · rename_i hsize
      have hsub : setB.elems ⊆ setA.elems := by
        intro ds hds
        have hds := all_eq_true.1 h ds hds
        cases hfind : setA.find ds.id with
        | none => simp [hfind] at hds
        | some dest =>
          obtain ⟨hmem, hid⟩ := (setA.find_eq_some_iff ds.id dest).1 hfind
          simp only [hfind, decide_eq_true_eq] at hds
          rwa [show ds = dest by cases ds; cases dest; simp_all]
      have hperm := (setB.nodup_elems.subperm hsub).perm_of_length_le (Nat.le_of_eq (not_not.1 hsize))
      intro d
      apply Option.ext
      intro ds
      rw [setA.find_eq_some_iff, setB.find_eq_some_iff, hperm.mem_iff]
  · intro h
    rw [if_neg (not_not_intro (show setA.size = setB.size from (setA.perm_of_find_eq setB h).length_eq))]
    refine all_eq_true.2 (fun ds hds => ?_)
    rw [h, (setB.find_eq_some_iff ds.id ds).2 ⟨hds, rfl⟩]
    simp

section

variable {id : String} {availabilityZone : AvailabilityZone} {datastores : DatastoreSet} {networks : NetworkSet}
  {managementOnly : Bool} {address : String} {port : Int}

theorem hasAttributes_registerHost (s : Hierarchy) :
    (s.registerHost (Host.new id availabilityZone datastores networks managementOnly (some address) port)).HasAttributes
      id availabilityZone datastores networks managementOnly address port := by
  refine ⟨s.heap.nextHost, ?_, ?_⟩
  · simp [registerHost, Host.new]
  · simp [registerHost, host, Heap.allocHost, Host.new]

theorem host_updateHostTags (h : s.Wf u) (hr : s.hosts.get id = some r) (datastores : DatastoreSet) :
    ∃ b, (s.updateHostTags r datastores).host r = ({ s.host r with datastores :=
      if (s.host r).parentScheduler = none then (s.host r).datastores else datastores } : Host).dirtyWhen b := by
  cases hp : (s.host r).parentScheduler with
  | none =>
    rw [s.updateHostTags_of_staged hp, if_pos rfl]
    exact ⟨false, (Host.dirtyWhen_false _).symm⟩
  | some l =>
    rw [s.updateHostTags_of_parent hp, if_neg (by simp), host, Heap.host_retag (h.member_of hr hp), if_pos rfl]
    exact ⟨_, rfl⟩

/-- A known host that is not told from the new one: its flags are lowered, and it is retagged if its tags changed. -/
theorem addHost_known {known : HostRef} (hk : s.hosts.get id = some known) (heq : (s.host known).equals
      (Host.new id availabilityZone datastores networks managementOnly (some address) port) = true) :
    (s.addHost id availabilityZone datastores networks managementOnly address port).2 =
      if compareDatastoresWithTags (s.host known).datastores datastores then s.setFlags known false false
      else (s.setFlags known false false).updateHostTags known datastores := by
  unfold addHost setFlags
  simp only [hk, heq, if_true, Bool.and_false]
  split <;> rfl

/-- For a host whose other attributes are right, datastores and networks are left to compare. -/
theorem hasAttributes_iff (hr : s.hosts.get id = some r) (datastores : DatastoreSet) (networks : NetworkSet)
    (ha : (s.host r).address = some address) :
    s.HasAttributes id (s.host r).availabilityZone datastores networks (s.host r).managementOnly address
      (s.host r).port ↔
      (∀ d, (s.host r).datastores.find d = datastores.find d) ∧ ∀ n, (s.host r).networks.find n = networks.find n := by
  simp [HasAttributes, hr, ha]

/-- **A registration takes effect exactly when a known host that is not told from the new one is covered.** -/
theorem hasAttributes_addHost_iff (h : s.Wf u) :
    (s.addHost id availabilityZone datastores networks managementOnly address port).2.HasAttributes
        id availabilityZone datastores networks managementOnly address port ↔
      s.Covered id availabilityZone datastores networks managementOnly address port := by
  unfold Covered
  cases hk : s.hosts.get id with
  | none => simp [addHost, hk, hasAttributes_registerHost]
  | some known =>
    simp only [Option.mem_some_iff, forall_eq']
    by_cases heq : (s.host known).equals
        (Host.new id availabilityZone datastores networks managementOnly (some address) port) = true
    · simp only [heq, forall_true_left]
      rw [addHost_known hk heq]
      simp only [Host.equals, Bool.and_eq_true, Host.new] at heq
      obtain ⟨⟨⟨⟨⟨⟨-, hzone⟩, -⟩, -⟩, haddress⟩, hmgmt⟩, hport⟩ := heq
      obtain rfl := of_decide_eq_true hzone
      obtain rfl := of_decide_eq_true hmgmt
      obtain rfl := of_decide_eq_true hport
      have haddress := of_decide_eq_true haddress
      have hflags := s.host_setFlags known known false false
      rw [if_pos rfl] at hflags
      by_cases hcmp : compareDatastoresWithTags (s.host known).datastores datastores = true
      · have hknown : (s.setFlags known false false).hosts.get id = some known := hk
        have hiff := hasAttributes_iff hknown datastores networks (by rw [hflags]; exact haddress)
        rw [hflags] at hiff
        rw [if_pos hcmp, hiff, ← compareDatastoresWithTags_iff]
        simp [hcmp]
      · obtain ⟨b, hhost⟩ := host_updateHostTags (Step.wf (.setFlags known false false) h) (r := known) hk datastores
        have hhosts : ((s.setFlags known false false).updateHostTags known datastores).hosts.get id = some known := by
          unfold updateHostTags
          split <;> exact hk
        have hiff := hasAttributes_iff hhosts datastores networks (by rw [hhost, hflags]; exact haddress)
        rw [hhost, hflags] at hiff
        simp only [Host.data_dirtyWhen] at hiff
        rw [if_neg hcmp, hiff]
        by_cases hp : (s.host known).parentScheduler = none
        · rw [if_pos hp, ← compareDatastoresWithTags_iff]
          simp [hcmp, hp]
        · rw [if_neg hp]
          simp [hp]
    · simp [addHost, hk, heq, hasAttributes_registerHost]

end

/-- **After every run, a registration takes effect unless the host is known, `Host.equals` does not tell it from the new
one, and either a network comes with another type or a datastore of a staged host comes with other tags.** -/
theorem registration_takes_effect (u : Uuid) (rootFanout leafFanout : Nat) (hlf : 1 ≤ leafFanout) (ops : List Op)
    (id : String) (availabilityZone : AvailabilityZone) (datastores : DatastoreSet) (networks : NetworkSet)
    (managementOnly : Bool) (address : String) (port : Int) :
    ((run u (new rootFanout leafFanout) ops).addHost id availabilityZone datastores networks managementOnly address
        port).2.HasAttributes id availabilityZone datastores networks managementOnly address port ↔
      (run u (new rootFanout leafFanout) ops).Covered id availabilityZone datastores networks managementOnly
        address port := by
  have hwf := wf_new u rootFanout leafFanout
  exact hasAttributes_addHost_iff ((run_steps ops (new rootFanout leafFanout) hwf hlf).wf hwf)

/-- A host of a leaf comes back with a tag. -/
theorem registration_takes_effect_in_leaf :
    ((run Uuid.unary (new 1 1) [untagged, .scan Chance.first]).addHost "h" ⟨"a"⟩ (KeyedList.empty.put ⟨"d", {"t"}⟩)
      KeyedList.empty false "x" 1).2.HasAttributes "h" ⟨"a"⟩ (KeyedList.empty.put ⟨"d", {"t"}⟩)
        KeyedList.empty false "x" 1 := by
  rw [registration_takes_effect Uuid.unary 1 1 (by decide)]
  intro known hk heq
  have hleaf : ∀ r ∈ (run Uuid.unary (new 1 1) [untagged, .scan Chance.first]).hosts.get "h",
      ((run Uuid.unary (new 1 1) [untagged, .scan Chance.first]).host r).networks.elems = [] ∧
        ((run Uuid.unary (new 1 1) [untagged, .scan Chance.first]).host r).parentScheduler ≠ none := by decide +kernel
  obtain ⟨hnetworks, hparent⟩ := hleaf known hk
  refine ⟨fun n => ?_, .inr hparent⟩
  rw [KeyedList.find, hnetworks]
  rfl

/-- A host that is still staged comes back with a tag and keeps its datastore without it. -/
theorem registration_keeps_old_tags :
    ¬ ((run Uuid.unary (new 1 1) [untagged]).addHost "h" ⟨"a"⟩ (KeyedList.empty.put ⟨"d", {"t"}⟩) KeyedList.empty false
      "x" 1).2.HasAttributes "h" ⟨"a"⟩ (KeyedList.empty.put ⟨"d", {"t"}⟩) KeyedList.empty false "x" 1 := by
  rintro ⟨r, hr, -, hds, -⟩
  cases show some (⟨1⟩ : HostRef) = some r from hr
  exact absurd (hds "d") (by decide +kernel)

end Hierarchy
end Photon.Chairman
