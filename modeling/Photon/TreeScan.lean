import Photon.TreeRuns
/-!
# TreeScan — what a scan leaves behind

After a scan every leaf has an owner, and the registered hosts that are still staged are those `insertHosts` could not
place (`leftOut`).
-/
namespace Photon.Chairman

open List
open Keyed (LinkedMap)

namespace Hierarchy

variable {u : Uuid} {c : Chance} {s s' : Hierarchy}

/-! ## The hosts that stay staged -/

/-- The staged host fits in no leaf, and there is no room for another leaf. -/
def noRoom (c : Chance) (s : Hierarchy) (r : HostRef) : Bool :=
  (s.host r).parentScheduler.isNone && (s.pick c r).isNone && decide (s.rootFanout ≤ s.leafSchedulers.size)

def notPlaced (u : Uuid) (c : Chance) : List HostRef → Hierarchy → List HostRef
  | [], _ => []
  | r :: rs, s => (if s.noRoom c r then [r] else []) ++ notPlaced u c rs (s.insertHost u c r)

/-- The hosts that `insertHosts` warns about and passes over. -/
def leftOut (u : Uuid) (c : Chance) (s : Hierarchy) : List HostRef := notPlaced u c s.hosts.values s

theorem mem_of_notPlaced {x : HostRef} : ∀ {rs : List HostRef} {s : Hierarchy}, x ∈ notPlaced u c rs s → x ∈ rs
  | [], _, hx => hx
  | r :: rs, s, hx => by
    rw [notPlaced, mem_append] at hx
    rcases hx with hx | hx
    · split at hx
      · exact mem_cons.2 (.inl (mem_singleton.1 hx))
      · cases hx
    · exact mem_cons_of_mem _ (mem_of_notPlaced hx)

variable {l : SchedulerRef}

theorem parent_addHost (h : s.Wf u) (hl : s.IsLeaf l) (r x : HostRef) :
    (({ s with heap := s.heap.addHost l r } : Hierarchy).host x).parentScheduler =
      if x = r then some l else (s.host x).parentScheduler :=
  congrArg (fun t => t.parentScheduler x) (shape_addHost h hl r)

theorem parent_setOwner (h : s.Wf u) (hl : s.IsLeaf l) (r x : HostRef) :
    (({ s with heap := s.heap.setOwner l (some r) } : Hierarchy).host x).parentScheduler = (s.host x).parentScheduler :=
  congrArg (fun t => t.parentScheduler x) (shape_setOwner h hl r)

theorem isLeaf_addLeaf_self (h : s.Wf u) : (s.addLeaf u).IsLeaf s.heap.nextScheduler := by
  refine ⟨u.gen s.heap.schedulerCount, ?_⟩
  have := congrArg (fun t => t.leafSchedulers.get (u.gen s.heap.schedulerCount)) (shape_addLeaf h)
  simpa [shape, Shape.addLeaf, Heap.nextScheduler] using this

variable {i : String} {r : HostRef}

theorem parent_foundLeaf (h : s.Wf u) (hr : s.hosts.get i = some r) (hp : (s.host r).parentScheduler = none)
    (x : HostRef) : ((s.foundLeaf u r).host x).parentScheduler =
      if x = r then some s.heap.nextScheduler else (s.host x).parentScheduler := by
  have hw : (s.addLeaf u).Wf u := by
    rw [Wf, shape_addLeaf h]
    exact Shape.Wf.addLeaf h h.next_id_free (fun n hn he => Nat.ne_of_lt hn (u.inj _ _ he))
  have hl := isLeaf_addLeaf_self h
  have hparent : ∀ y, ((s.addLeaf u).host y).parentScheduler = (s.host y).parentScheduler := by
    intro y
    rw [host_addLeaf h, (Host.links_dirtyWhen _ _).2.1]
  have hw' : ({ s.addLeaf u with heap := (s.addLeaf u).heap.addHost s.heap.nextScheduler r } : Hierarchy).Wf u := by
    rw [Wf, shape_addHost hw hl r]
    exact Shape.Wf.attach hw (i := i) hr ((hparent r).trans hp) hl
  exact (parent_setOwner hw' hl r x).trans ((parent_addHost hw hl r x).trans (by rw [hparent]))

/-- **After its turn a host is staged exactly when there was no room for it.** -/
theorem parent_insertHost (h : s.Wf u) (hr : s.hosts.get i = some r) (x : HostRef) :
    ((s.insertHost u c r).host x).parentScheduler = none ↔
      (s.host x).parentScheduler = none ∧ (x = r → s.noRoom c r = true) := by
  cases hp : (s.host r).parentScheduler with
  | some l =>
    rw [insertHost_of_parent hp]
    refine ⟨fun hx => ⟨hx, ?_⟩, fun hx => hx.1⟩
    rintro rfl
    rw [hp] at hx
    cases hx
  | none =>
    have hw : (s.lookedThrough c r).Wf u := (s.lookedThrough_steps (u := u) c r).wf h
    have hstaged : ((s.lookedThrough c r).host r).parentScheduler = none := by rw [host_lookedThrough, hp]
    rw [insertHost_of_staged hp]
    cases hpick : s.pick c r with
    | some l =>
      have hl : (s.lookedThrough c r).IsLeaf l := pick_isLeaf (s := s) hpick
      simp only
      rw [parent_addHost hw hl, host_lookedThrough]
      by_cases hx : x = r <;> simp [hx, noRoom, hpick]
    | none =>
      simp only
      split
      · rename_i hfull
        rw [host_lookedThrough]
        simp only [noRoom, hp, hpick, Option.isNone_none, Bool.and_self, Bool.true_and, decide_eq_true_eq]
        exact ⟨fun hx => ⟨hx, fun _ => hfull⟩, fun hx => hx.1⟩
      · rename_i hroom
        rw [parent_foundLeaf hw hr hstaged, host_lookedThrough]
        by_cases hx : x = r
        · have : s.noRoom c r = false := by simp [noRoom, hroom]
          simp [hx, this]
        · simp [hx]

theorem parent_foldl_insertHost (x : HostRef) : ∀ (rs : List HostRef) (s : Hierarchy), s.Wf u → 1 ≤ s.leafFanout →
    (∀ r ∈ rs, ∃ i, s.hosts.get i = some r) → rs.Nodup →
      (((rs.foldl (insertHost u c) s).host x).parentScheduler = none ↔
      (s.host x).parentScheduler = none ∧ (x ∈ rs → x ∈ notPlaced u c rs s))
  | [], s, _, _, _, _ => by simp
  | r :: rs, s, h, hlf, hrs, hnd => by
    rw [nodup_cons] at hnd
    obtain ⟨i, hr⟩ := hrs r (by simp)
    have hstep := insertHost_steps (c := c) h hlf hr
    have hrest : ∀ y ∈ rs, ∃ i, (s.insertHost u c r).hosts.get i = some y := by
      intro y hy
      rw [hosts_insertHost]
      exact hrs y (by simp [hy])
    rw [foldl_cons, parent_foldl_insertHost x rs _ (hstep.wf h) (by rw [hstep.fanouts.2]; exact hlf) hrest hnd.2,
      parent_insertHost h hr, notPlaced]
    by_cases hx : x = r
    · subst hx
      have hnot : x ∉ notPlaced u c rs (s.insertHost u c x) := fun hm => hnd.1 (mem_of_notPlaced hm)
      by_cases hn : s.noRoom c x = true <;> simp [hn, hnd.1, hnot]
    · by_cases hn : s.noRoom c r = true <;> simp [hn, hx]

theorem staged_of_notPlaced {x : HostRef} : ∀ {rs : List HostRef} {s : Hierarchy}, s.Wf u → 1 ≤ s.leafFanout →
    (∀ r ∈ rs, ∃ i, s.hosts.get i = some r) → x ∈ notPlaced u c rs s → (s.host x).parentScheduler = none
  | [], _, _, _, _, hx => absurd hx (by simp [notPlaced])
  | r :: rs, s, h, hlf, hrs, hx => by
    obtain ⟨i, hr⟩ := hrs r (by simp)
    have hstep := insertHost_steps (c := c) h hlf hr
    rw [notPlaced, mem_append] at hx
    rcases hx with hx | hx
    · split at hx
      · rename_i hn
        rw [mem_singleton.1 hx]
        simp only [noRoom, Bool.and_eq_true, Option.isNone_iff_eq_none] at hn
        exact hn.1.1
      · cases hx
    · refine ((parent_insertHost (c := c) h hr x).1 (staged_of_notPlaced (hstep.wf h) ?_ ?_ hx)).1
      · rw [hstep.fanouts.2]
        exact hlf
      · intro y hy
        rw [hosts_insertHost]
        exact hrs y (by simp [hy])

/-! ## Leaves and owners after a scan -/

theorem foldl_dropLeaf_keeps (m : SchedulerRef) (x : HostRef) : ∀ (ls : List SchedulerRef) (s : Hierarchy), s.Wf u →
    ls.Nodup → (∀ l ∈ ls, s.IsLeaf l) → ((ls.foldl dropLeaf s).IsLeaf m ↔ s.IsLeaf m ∧ m ∉ ls) ∧
      ((ls.foldl dropLeaf s).scheduler m).hosts = (s.scheduler m).hosts ∧
      ((ls.foldl dropLeaf s).host x).parentScheduler = (s.host x).parentScheduler
  | [], s, _, _, _ => by simp
  | l :: ls, s, h, hnd, hls => by
    rw [nodup_cons] at hnd
    have hl := hls l (by simp)
    obtain ⟨h1, h2, h3⟩ := foldl_dropLeaf_keeps m x ls (s.dropLeaf l) (Step.wf (.dropLeaf l hl) h) hnd.2
      (isLeaf_rest_dropLeaf h hnd.1 hls)
    rw [foldl_cons, h1, h2, h3, isLeaf_dropLeaf h hl, (dropLeaf_keeps h hl m).2, host_dropLeaf h hl]
    refine ⟨?_, rfl, rfl⟩
    rw [mem_cons, not_or, and_assoc]

theorem removeEmptySchedulers_keeps (h : s.Wf u) (m : SchedulerRef) (x : HostRef) :
    (s.removeEmptySchedulers.IsLeaf m ↔ s.IsLeaf m ∧ m ∉ s.emptyLeaves) ∧
      (s.removeEmptySchedulers.scheduler m).hosts = (s.scheduler m).hosts ∧
      (s.removeEmptySchedulers.host x).parentScheduler = (s.host x).parentScheduler := by
  rw [removeEmptySchedulers_eq h]
  exact foldl_dropLeaf_keeps m x _ s h ((nodup_rootChildren h).filter _)
    (fun l hl => ((mem_emptyLeaves_iff h l).1 hl).1)

theorem nonempty_removeEmptySchedulers (h : s.Wf u) (hl : s.removeEmptySchedulers.IsLeaf l) :
    (s.removeEmptySchedulers.scheduler l).hosts.size ≠ 0 := by
  obtain ⟨hleaf, hhosts, -⟩ := removeEmptySchedulers_keeps h l s.rootHost
  obtain ⟨hl, hne⟩ := hleaf.1 hl
  rw [hhosts]
  exact fun he => hne ((mem_emptyLeaves_iff h l).2 ⟨hl, he⟩)

theorem assignOwner_keeps (h : s.Wf u) (hl : s.IsLeaf l) (m : SchedulerRef) (x : HostRef) :
    ((s.assignOwner c l).scheduler m).hosts = (s.scheduler m).hosts ∧
      ((s.assignOwner c l).host x).parentScheduler = (s.host x).parentScheduler ∧
      ((s.scheduler m).owner ≠ none → ((s.assignOwner c l).scheduler m).owner ≠ none) := by
  obtain he | ⟨r, hr, -, he⟩ := s.assignOwner_cases c l
  · rw [he]
    exact ⟨rfl, rfl, id⟩
  · rw [he]
    have hshape := shape_setOwner h hl r
    refine ⟨congrArg (fun t => t.members m) hshape, parent_setOwner h hl r x, fun hm => ?_⟩
    have howner := congrArg (fun t => t.owner m) hshape
    simp only [shape, Shape.own] at howner
    rw [howner]
    split
    · simp
    · exact hm

theorem owner_assignOwner (h : s.Wf u) (hl : s.IsLeaf l) (hne : (s.scheduler l).hosts.size ≠ 0) :
    ((s.assignOwner c l).scheduler l).owner ≠ none := by
  cases ho : (s.scheduler l).owner with
  | some o => exact (assignOwner_keeps h hl l s.rootHost).2.2 (by simp [ho])
  | none =>
    have hall : s.availableHosts l = (s.scheduler l).hosts.values := by
      rw [availableHosts, filter_eq_self]
      simp [ho]
    have hpos : 0 < (s.availableHosts l).length := by
      rw [hall, LinkedMap.length_values]
      exact Nat.pos_of_ne_zero hne
    have hlt := c.nextInt_lt l _ hpos
    unfold assignOwner
    rw [if_pos (by simp [needsOwner, ho]), getElem?_eq_getElem hlt]
    have howner := congrArg (fun t => t.owner l) (shape_setOwner h hl (s.availableHosts l)[c.nextInt l _])
    simp only [shape, Shape.own, if_pos] at howner
    simp only
    rw [howner]
    simp

theorem owner_foldl_assignOwner (m : SchedulerRef) : ∀ (ls : List SchedulerRef) (s : Hierarchy), s.Wf u →
    (∀ l ∈ ls, s.IsLeaf l) → ((s.scheduler m).owner ≠ none ∨ m ∈ ls ∧ (s.scheduler m).hosts.size ≠ 0) →
    ((ls.foldl (assignOwner c) s).scheduler m).owner ≠ none
  | [], _, _, _, hm => hm.elim id (fun hm => absurd hm.1 (by simp))
  | l :: ls, s, h, hls, hm => by
    have hl := hls l (by simp)
    obtain ⟨hhosts, -, howner⟩ := assignOwner_keeps (c := c) h hl m s.rootHost
    rw [foldl_cons]
    refine owner_foldl_assignOwner m ls _ ((assignOwner_steps h hl).wf h) ?_ ?_
    · intro y hy
      unfold IsLeaf
      rw [leafSchedulers_assignOwner]
      exact hls y (by simp [hy])
    · rw [hhosts]
      rcases hm with hm | ⟨hm, hne⟩
      · exact .inl (howner hm)
      · rcases mem_cons.1 hm with rfl | hm
        · exact .inl (owner_assignOwner h hl hne)
        · exact .inr ⟨hm, hne⟩

theorem foldl_assignOwner_keeps (x : HostRef) :
    ∀ (ls : List SchedulerRef) (s : Hierarchy), s.Wf u → (∀ l ∈ ls, s.IsLeaf l) →
    (ls.foldl (assignOwner c) s).leafSchedulers = s.leafSchedulers ∧
      ((ls.foldl (assignOwner c) s).host x).parentScheduler = (s.host x).parentScheduler
  | [], _, _, _ => ⟨rfl, rfl⟩
  | l :: ls, s, h, hls => by
    have hl := hls l (by simp)
    have hrest : ∀ m ∈ ls, (s.assignOwner c l).IsLeaf m := by
      intro m hm
      unfold IsLeaf
      rw [leafSchedulers_assignOwner]
      exact hls m (by simp [hm])
    obtain ⟨h1, h2⟩ := foldl_assignOwner_keeps x ls _ ((assignOwner_steps (c := c) h hl).wf h) hrest
    rw [foldl_cons, h1, h2, leafSchedulers_assignOwner, (assignOwner_keeps h hl l x).2.1]
    exact ⟨rfl, rfl⟩

theorem isLeaf_values (s : Hierarchy) : ∀ l ∈ s.leafSchedulers.values, s.IsLeaf l :=
  fun _ hl => LinkedMap.mem_values_iff.1 hl

/-- **Every leaf has an owner after a scan.** -/
theorem owner_scan (h : s.Wf u) (hlf : 1 ≤ s.leafFanout) (hl : (s.scan u c).IsLeaf l) :
    ((s.scan u c).scheduler l).owner ≠ none := by
  have h1 := (insertHosts_steps (c := c) h hlf).wf h
  have h2 := (removeEmptySchedulers_steps h1).wf h1
  have hl' : (s.insertHosts u c).removeEmptySchedulers.IsLeaf l := by
    unfold IsLeaf at hl
    rwa [scan, assignOwners, (foldl_assignOwner_keeps s.rootHost _ _ h2 (isLeaf_values _)).1] at hl
  refine owner_foldl_assignOwner l _ _ h2 (isLeaf_values _) (.inr ⟨?_, nonempty_removeEmptySchedulers h1 hl'⟩)
  exact LinkedMap.mem_values_iff.2 hl'

theorem hosts_foldl_insertHost : ∀ (rs : List HostRef) (s : Hierarchy), (rs.foldl (insertHost u c) s).hosts = s.hosts
  | [], _ => rfl
  | r :: rs, s => by rw [foldl_cons, hosts_foldl_insertHost rs, hosts_insertHost]

theorem hosts_foldl_assignOwner :
    ∀ (ls : List SchedulerRef) (s : Hierarchy), (ls.foldl (assignOwner c) s).hosts = s.hosts
  | [], _ => rfl
  | l :: ls, s => by
    rw [foldl_cons, hosts_foldl_assignOwner ls]
    obtain he | ⟨r, -, -, he⟩ := s.assignOwner_cases c l <;> rw [he]

theorem hosts_removeEmptySchedulers (s : Hierarchy) : s.removeEmptySchedulers.hosts = s.hosts := by
  have hfold : ∀ (ls : List SchedulerRef) (s : Hierarchy), (ls.foldl (fun s l =>
      ({ s with heap := s.heap.setOwner l none, leafSchedulers := s.leafSchedulers.remove (s.scheduler l).id } :
        Hierarchy)) s).hosts = s.hosts := by
    intro ls
    induction ls with
    | nil => intro s; rfl
    | cons l ls ih => intro s; rw [foldl_cons, ih]
  exact hfold _ s

theorem hosts_scan (s : Hierarchy) : (s.scan u c).hosts = s.hosts := by
  rw [scan, assignOwners, hosts_foldl_assignOwner, hosts_removeEmptySchedulers, insertHosts, hosts_foldl_insertHost]

theorem nodup_hosts (h : s.Wf u) : s.hosts.values.Nodup := by
  refine LinkedMap.nodup_values _ (fun j k r hj hk => ?_)
  rw [← (h.registered j r hj).1, ← (h.registered k r hk).1]

/-- **A registered host is staged after a scan exactly when it was left out.** -/
theorem parent_scan (h : s.Wf u) (hlf : 1 ≤ s.leafFanout) (hr : s.hosts.get i = some r) :
    ((s.scan u c).host r).parentScheduler = none ↔ r ∈ s.leftOut u c := by
  have h1 := (insertHosts_steps (c := c) h hlf).wf h
  have h2 := (removeEmptySchedulers_steps h1).wf h1
  have hmem : r ∈ s.hosts.values := LinkedMap.mem_values_iff.2 ⟨i, hr⟩
  have hall : ∀ x ∈ s.hosts.values, ∃ i, s.hosts.get i = some x := fun x hx => LinkedMap.mem_values_iff.1 hx
  rw [scan, assignOwners, (foldl_assignOwner_keeps r _ _ h2 (isLeaf_values _)).2,
    (removeEmptySchedulers_keeps h1 s.rootScheduler r).2.2, insertHosts,
    parent_foldl_insertHost r _ s h hlf hall (nodup_hosts h)]
  exact ⟨fun hx => hx.2 hmem, fun hx => ⟨staged_of_notPlaced h hlf hall hx, fun _ => hx⟩⟩

end Hierarchy
end Photon.Chairman
