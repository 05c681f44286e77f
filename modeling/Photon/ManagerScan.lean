import Photon.ManagerOps
import Photon.TreeMarks
import Photon.TreeScan
/-!
# ManagerScan — when a scan of the manager fails

`HierarchyManager.scan` builds a configure request for the owner of every leaf it persists and for every host that is
not configured.  Owners are there and are in the tree (`owner_scan`), so only a host the scan left out has no request;
and then an exception leaves the scan, unless the write threw before.
-/
namespace Photon.Chairman

open Keyed (LinkedMap)
open Fallible (mapM_eq_none_iff)

namespace Hierarchy

variable {u : Uuid} {c : Chance} {s s' : Hierarchy} {b : Bool}

/-! ## Which requests can be built -/

variable {r : HostRef} {l : SchedulerRef}

theorem owned_links (h : s.Wf u) (howned : ∀ l, s.IsLeaf l → (s.scheduler l).owner ≠ none)
    (hr : s.Current r) (hl : l ∈ (s.host r).schedulers) :
    ((s.scheduler l).isRootScheduler = true ∨ (s.scheduler l).parent ≠ none) ∧
      ∀ child ∈ (s.scheduler l).children.values, (s.scheduler child).owner ≠ none := by
  rcases hr with rfl | ⟨i, hr⟩
  · have hroot : l = s.rootScheduler := h.rootHost_schedulers l hl
    subst hroot
    have hid : (s.scheduler s.rootScheduler).id = rootSchedulerId := h.root_id
    exact ⟨.inl (by simp [Scheduler.isRootScheduler, hid]), fun m hm => howned m ((mem_rootChildren_iff h m).1 hm)⟩
  · have hleaf : s.IsLeaf l := h.owned_leaf i r l hr hl
    have hparent : (s.scheduler l).parent = some s.rootScheduler := h.leaf_parent l hleaf
    have hchildren : (s.scheduler l).children = LinkedMap.empty := h.leaf_children l hleaf
    exact ⟨.inr (by rw [hparent]; simp), by simp [hchildren]⟩

/-- **With an owner for every leaf, a host has no request exactly when it is staged.** -/
theorem request_eq_none_iff (h : s.Wf u) (howned : ∀ l, s.IsLeaf l → (s.scheduler l).owner ≠ none) (hr : s.Current r) :
    s.heap.getConfigureRequest r b = none ↔ (s.host r).id ≠ rootSchedulerHostId ∧
    (s.host r).parentScheduler = none := by
  rw [Heap.getConfigureRequest_eq_none_iff]
  refine ⟨fun hn => hn.resolve_right ?_, .inl⟩
  rintro ⟨l, hl, hbad⟩
  obtain ⟨hparent, hchild⟩ := owned_links h howned hr hl
  rcases hbad with ⟨hroot, hnone⟩ | ⟨m, hm, ho⟩
  · rcases hparent with hparent | hparent
    · exact absurd hparent (by rw [show (s.scheduler l).isRootScheduler = false from hroot]; simp)
    · exact hparent hnone
  · exact hchild m hm ho

theorem owner_registered (h : s.Wf u) {o : HostRef} (hl : s.IsLeaf l) (ho : (s.scheduler l).owner = some o) :
    s.hosts.get (s.host o).id = some o ∧ (s.host o).parentScheduler = some l := by
  have hp := h.owner_parent l o hl ho
  exact ⟨h.member_registered l _ o hl (h.parent_member o l hp), hp⟩

theorem leafRoles_ne_none (h : s.Wf u) (howned : ∀ l, s.IsLeaf l → (s.scheduler l).owner ≠ none)
    (hl : s.IsLeaf l) : s.leafRoles l ≠ none := by
  obtain ⟨o, ho⟩ := Option.ne_none_iff_exists'.1 (howned l hl)
  obtain ⟨hreg, hp⟩ := owner_registered h hl ho
  have hreq : s.heap.getConfigureRequest o false ≠ none := by
    rw [Ne, request_eq_none_iff h howned (.inr ⟨_, hreg⟩), hp]
    simp
  obtain ⟨req, hreq⟩ := Option.ne_none_iff_exists'.1 hreq
  simp [leafRoles, ho, hreq]

/-- **Persisting throws only when ZooKeeper does, on a write.** -/
theorem persistDirtyHosts_eq_none_iff (h : s.Wf u) (howned : ∀ l, s.IsLeaf l → (s.scheduler l).owner ≠ none) (zk : Zk)
    (dict : LinkedMap String Roles) :
    s.persistDirtyHosts zk dict = none ↔ zk = .failed ∧ s.isHierarchyDirty dict.keys = true := by
  have hroles : s.leafSchedulers.values.mapM s.leafRoles ≠ none := by
    rw [Ne, mapM_eq_none_iff]
    rintro ⟨l, hl, hn⟩
    exact leafRoles_ne_none h howned (isLeaf_values s l hl) hn
  obtain ⟨roles, hroles⟩ := Option.ne_none_iff_exists'.1 hroles
  cases zk with
  | failed => simp [persistDirtyHosts, hroles]
  | ok => by_cases hd : s.isHierarchyDirty dict.keys = true <;> simp [persistDirtyHosts, hroles, hd]
  | unlisted => by_cases hd : s.isHierarchyDirty [] = true <;> simp [persistDirtyHosts, hroles, hd]

/-! ## Configuring -/

theorem alike_configureHost (s : Hierarchy) (r : HostRef) (answer : Bool) :
    s.heap.Alike (s.configureHost r answer).heap := by
  refine (Heap.Alike.afterRequest s.heap r).trans
    (Heap.Alike.modifyHost _ r (fun k => if answer then (k.setConfigured true).getD k else k) (fun k => ?_))
  cases answer with
  | false => exact ⟨k.dirty, k.configured, k.missing, rfl⟩
  | true =>
    by_cases hd : k.dirty = true
    · refine ⟨k.dirty, k.configured, k.missing, ?_⟩
      show (k.setConfigured true).getD k = k
      simp [Host.setConfigured, hd]
    · exact ⟨k.dirty, true, k.missing, by simp [Host.setConfigured, hd]⟩

theorem host_configureHost (s : Hierarchy) (r x : HostRef) (answer : Bool) : (s.configureHost r answer).host x =
      if x = r ∧ answer = true ∧ (s.host x).dirty = false then { s.host x with configured := true } else s.host x := by
  simp only [configureHost, host, Heap.host_modifyHost, Heap.host_afterRequest]
  by_cases hx : x = r <;> cases answer <;> by_cases hd : (s.heap.host x).dirty = true <;>
    simp [hx, Host.setConfigured] <;> grind

/-- **Configuring fails exactly on a host that is not configured and has no request.** -/
theorem configureHosts_eq_none_iff (answers : HostRef → Bool) : ∀ (rs : List HostRef) (s : Hierarchy),
    configureHosts answers rs s = none ↔ ∃ r ∈ rs, (s.host r).configured = false ∧
    s.heap.getConfigureRequest r true = none
  | [], s => by simp [configureHosts]
  | r :: rs, s => by
    unfold configureHosts
    by_cases hc : (s.host r).configured = true
    · rw [if_pos hc, configureHosts_eq_none_iff answers rs s]
      simp [hc]
    · rw [if_neg hc]
      cases hreq : s.heap.getConfigureRequest r true with
      | none => simpa [hreq] using .inl (Bool.eq_false_iff.2 hc)
      | some req =>
        -- the flag that changed is that of a host whose request could be built
        have hflag : ∀ x, s.heap.getConfigureRequest x true = none →
            (s.configureHost r (answers r)).host x = s.host x := by
          intro x hx
          rw [host_configureHost, if_neg]
          rintro ⟨rfl, -⟩
          rw [hreq] at hx
          cases hx
        rw [Option.bind_eq_bind, Option.bind_some, configureHosts_eq_none_iff answers rs]
        simp only [(alike_configureHost s r (answers r)).getConfigureRequest]
        constructor
        · rintro ⟨x, hx, hcx, hnone⟩
          exact ⟨x, List.mem_cons_of_mem _ hx, by rwa [hflag x hnone] at hcx, hnone⟩
        · rintro ⟨x, hx, hcx, hnone⟩
          rcases List.mem_cons.1 hx with rfl | hx
          · rw [hreq] at hnone
            cases hnone
          · exact ⟨x, hx, by rwa [hflag x hnone], hnone⟩

theorem configureHosts_keeps (answers : HostRef → Bool) : ∀ (rs : List HostRef) (s s' : Hierarchy),
    configureHosts answers rs s = some s' → s' = { s with heap := s'.heap } ∧ s.heap.Alike s'.heap ∧
      ∀ x, (s'.host x).dirty = (s.host x).dirty ∧
        ((s'.host x).configured = true → (s.host x).configured = true ∨ (s.host x).dirty = false)
  | [], s, s', h => by
    cases h
    exact ⟨rfl, Heap.Alike.refl _, fun x => ⟨rfl, .inl⟩⟩
  | r :: rs, s, s', h => by
    unfold configureHosts at h
    split at h
    · exact configureHosts_keeps answers rs s s' h
    · cases hreq : s.heap.getConfigureRequest r true with
      | none => simp [hreq] at h
      | some req =>
        rw [hreq, Option.bind_eq_bind, Option.bind_some] at h
        obtain ⟨h1, h2, h3⟩ := configureHosts_keeps answers rs _ s' h
        refine ⟨h1, (alike_configureHost s r (answers r)).trans h2, fun x => ?_⟩
        have hx := h3 x
        rw [host_configureHost] at hx
        split at hx <;> grind

/-! ## Hosts that are staged are dirty -/

/-- What the scans of a manager keep: a staged host is dirty, and a dirty host is not configured. -/
structure Tended (u : Uuid) (s : Hierarchy) : Prop where
  wf : s.Wf u
  leafFanout : 1 ≤ s.leafFanout
  staged : s.shape.StagedDirty s.dirty
  clean : ∀ r, (s.host r).configured = true → (s.host r).dirty = false

theorem Tended.steps (h : s.Tended u) (hsteps : Steps u s s') : s'.Tended u := by
  induction hsteps with
  | refl => exact h
  | tail _ hstep ih =>
    refine ⟨hstep.wf ih.wf, by rw [hstep.fanouts.2]; exact ih.leafFanout,
      (hstep.marks ih.wf).stagedDirty ih.wf ih.staged, fun r hc => ?_⟩
    obtain ⟨hc', hd⟩ := hstep.flags ih.wf r hc
    rw [hd]
    exact ih.clean r hc'

theorem Tended.configureHosts {answers : HostRef → Bool} {rs : List HostRef} (h : s.Tended u)
    (hs : s.configureHosts answers rs = some s') : s'.Tended u := by
  obtain ⟨heq, halike, hflags⟩ := configureHosts_keeps answers rs s s' hs
  have hshape : s'.shape = s.shape := by
    rw [heq]
    exact shape_of_alike halike
  refine ⟨by rw [Wf, hshape]; exact h.wf, by rw [heq]; exact h.leafFanout, ?_, fun r hc => ?_⟩
  · intro i r
    rw [hshape, dirty, (hflags r).1]
    exact h.staged i r
  · rw [(hflags r).1]
    exact ((hflags r).2 hc).elim (h.clean r) id

theorem mem_getAllHosts (h : s.Wf u) (r : HostRef) :
    r ∈ s.getAllHosts.values ↔ r = s.rootHost ∨ ∃ i, i ≠ rootSchedulerHostId ∧ s.hosts.get i = some r := by
  have hid : (s.host s.rootHost).id = rootSchedulerHostId := h.rootHost_id
  simp only [getAllHosts, LinkedMap.mem_values_iff, LinkedMap.get_put, hid]
  constructor
  · rintro ⟨i, hi⟩
    split at hi
    · exact .inl (Option.some.inj hi).symm
    · rename_i hne
      exact .inr ⟨i, hne, hi⟩
  · rintro (rfl | ⟨i, hne, hi⟩)
    · exact ⟨rootSchedulerHostId, if_pos rfl⟩
    · exact ⟨i, by rw [if_neg hne, hi]⟩

theorem shape_setAllHostsDirty (s : Hierarchy) (dirty : Bool) : (s.setAllHostsDirty dirty).shape = s.shape :=
  shape_of_alike (Heap.Alike.setDirty _ _ _)

theorem configured_setAllHostsDirty (s : Hierarchy) (x : HostRef) :
    ((s.setAllHostsDirty false).host x).configured = (s.host x).configured := by
  rw [host_setAllHostsDirty]
  split <;> rfl

theorem Tended.cleaned (h : s.Tended u) (hall : ∀ i r, s.hosts.get i = some r → (s.host r).parentScheduler = none →
    i = rootSchedulerHostId) : (s.setAllHostsDirty false).Tended u where
  wf := by
    rw [Wf, shape_setAllHostsDirty]
    exact h.wf
  leafFanout := h.leafFanout
  staged := by
    intro i r hr hp
    rw [shape_setAllHostsDirty] at hp
    have hi := hall i r hr hp
    have hreg := h.wf.registered i r hr
    have hout : r ∉ s.getAllHosts.values := by
      rw [mem_getAllHosts h.wf]
      rintro (hroot | ⟨j, hj, hr'⟩)
      · exact hreg.2.2 hroot
      · exact hj (((h.wf.registered j r hr').1.symm.trans hreg.1).trans hi)
    rw [dirty, host_setAllHostsDirty, if_neg hout]
    exact h.staged i r hr hp
  clean := by
    intro r hc
    rw [configured_setAllHostsDirty] at hc
    rw [host_setAllHostsDirty]
    split
    · rfl
    · exact h.clean r hc

theorem isHierarchyDirty_of_dirty {i : String} (hr : s.hosts.get i = some r) (hd : (s.host r).dirty = true)
    (schedulerHosts : List String) : s.isHierarchyDirty schedulerHosts = true := by
  have hmem : r ∈ s.getDirtyHosts := List.mem_filter.2 ⟨LinkedMap.mem_values_iff.2 ⟨i, hr⟩, hd⟩
  have hpos : 0 < s.getDirtyHosts.length := List.length_pos_of_mem hmem
  simp [isHierarchyDirty, hpos]

theorem Tended.not_configured (h : s.Tended u) {i : String} (hr : s.hosts.get i = some r)
    (hp : (s.host r).parentScheduler = none) : (s.host r).configured = false := by
  by_contra hc
  have hd : (s.host r).dirty = true := h.staged i r hr hp
  rw [h.clean r (Bool.eq_true_of_not_eq_false hc)] at hd
  cases hd

/-- **Once persisted, configuring fails exactly when some host but the root host's namesake is staged.** -/
theorem configureAll_eq_none_iff (h : s.Tended u) (howned : ∀ l, s.IsLeaf l → (s.scheduler l).owner ≠ none)
    (answers : HostRef → Bool) :
    (s.setAllHostsDirty false).configureHosts answers (s.setAllHostsDirty false).getNonConfiguredHosts = none ↔
      ∃ i r, i ≠ rootSchedulerHostId ∧ s.hosts.get i = some r ∧ (s.host r).parentScheduler = none := by
  have hshape := s.shape_setAllHostsDirty false
  have hw : (s.setAllHostsDirty false).Wf u := by rw [Wf, hshape]; exact h.wf
  have hparent : ∀ r, ((s.setAllHostsDirty false).host r).parentScheduler = (s.host r).parentScheduler :=
    fun r => congrArg (fun t => t.parentScheduler r) hshape
  have howned' : ∀ l, (s.setAllHostsDirty false).IsLeaf l → ((s.setAllHostsDirty false).scheduler l).owner ≠ none := by
    intro l hl
    rw [show ((s.setAllHostsDirty false).scheduler l).owner = _ from congrArg (fun t => t.owner l) hshape]
    exact howned l hl
  simp only [configureHosts_eq_none_iff, getNonConfiguredHosts, List.mem_filter, mem_getAllHosts hw]
  constructor
  · rintro ⟨r, ⟨hall, -⟩, -, hreq⟩
    rcases hall with rfl | ⟨i, hi, hr⟩
    · exact absurd hw.rootHost_id ((request_eq_none_iff hw howned' (.inl rfl)).1 hreq).1
    · refine ⟨i, r, hi, hr, ?_⟩
      rw [← hparent]
      exact ((request_eq_none_iff hw howned' (.inr ⟨i, hr⟩)).1 hreq).2
  · rintro ⟨i, r, hi, hr, hp⟩
    have hc : ((s.setAllHostsDirty false).host r).configured = false := by
      rw [configured_setAllHostsDirty]
      exact h.not_configured hr hp
    refine ⟨r, ⟨.inr ⟨i, hi, hr⟩, by simp [hc]⟩, hc, (request_eq_none_iff hw howned' (.inr ⟨i, hr⟩)).2 ⟨?_, ?_⟩⟩
    · rw [show ((s.setAllHostsDirty false).host r).id = i from (hw.registered i r hr).1]
      exact hi
    · rw [hparent, hp]

end Hierarchy

namespace Manager

open Hierarchy

variable {u : Uuid} {c : Chance} {zk : Zk} {answers : HostRef → Bool} {m m' : Manager}

/-! ## A scan -/

theorem scan_of_failed (hp : (m.tree.scan u c).persistDirtyHosts zk m.roles = none) :
    m.scan u c zk answers = some { m with tree := m.tree.scan u c } := by
  simp only [scan, hp]

theorem scan_of_persisted {roles : LinkedMap String Roles}
    (hp : (m.tree.scan u c).persistDirtyHosts zk m.roles = some roles) :
    m.scan u c zk answers = (((m.tree.scan u c).setAllHostsDirty false).configureHosts answers
      ((m.tree.scan u c).setAllHostsDirty false).getNonConfiguredHosts).map (fun s => ⟨s, roles⟩) := by
  simp only [scan, hp, Option.bind_eq_bind, Option.map_eq_bind]
  rfl

/-- What a scan leaves: the scanned tree alone when it did not persist, and else the tree as its hosts were
configured. -/
theorem scan_cases (hm : m.scan u c zk answers = some m') :
    ((m.tree.scan u c).persistDirtyHosts zk m.roles = none ∧ m' = { m with tree := m.tree.scan u c }) ∨
    ∃ roles s', (m.tree.scan u c).persistDirtyHosts zk m.roles = some roles ∧
      ((m.tree.scan u c).setAllHostsDirty false).configureHosts answers
        ((m.tree.scan u c).setAllHostsDirty false).getNonConfiguredHosts = some s' ∧ m' = ⟨s', roles⟩ := by
  cases hp : (m.tree.scan u c).persistDirtyHosts zk m.roles with
  | none =>
    rw [scan_of_failed hp] at hm
    exact .inl ⟨rfl, (Option.some.inj hm).symm⟩
  | some roles =>
    rw [scan_of_persisted hp, Option.map_eq_some_iff] at hm
    obtain ⟨s', hs', hm'⟩ := hm
    exact .inr ⟨roles, s', rfl, hs', hm'.symm⟩

/-- **What a scan keeps.** -/
theorem Tended.scan (h : m.tree.Tended u) (hm : m.scan u c zk answers = some m') : m'.tree.Tended u := by
  have hs := h.steps (scan_steps (c := c) h.wf h.leafFanout)
  rcases scan_cases hm with ⟨-, rfl⟩ | ⟨roles, s', -, hs', rfl⟩
  · exact hs
  · refine (hs.cleaned (fun i r hr hstaged => ?_)).configureHosts hs'
    by_contra hi
    have hnone := (configureAll_eq_none_iff hs (fun l hl => owner_scan h.wf h.leafFanout hl) answers).2
      ⟨i, r, hi, hr, hstaged⟩
    rw [hs'] at hnone
    cases hnone

theorem handle_steps (h : m.tree.Wf u) (hlf : 1 ≤ m.tree.leafFanout) {e : Event} (hm : m.handle u e = some m') :
    (∃ c zk answers, e = .scan c zk answers) ∨ (Steps u m.tree m'.tree ∧ m'.roles = m.roles) := by
  cases e with
  | onHostAdded id config =>
    cases hm
    exact .inr ⟨addHost_steps _ _ _ _ _ _ _ _, rfl⟩
  | onHostRemoved id =>
    cases hm
    exact .inr ⟨Op.steps (.removeHost id) h hlf, rfl⟩
  | onHostMissing id =>
    cases hm
    exact .inr ⟨markMissing_steps _ id, rfl⟩
  | onHostResurrected id =>
    cases hm
    exact .inr ⟨markResurrected_steps _ id, rfl⟩
  | onServerAdded address port =>
    cases hm
    exact .inr ⟨Op.steps (.addRootHost address port) h hlf, rfl⟩
  | onServerRemoved =>
    cases hm
    exact .inr ⟨Op.steps .removeRootHost h hlf, rfl⟩
  | scan c zk answers => exact .inl ⟨c, zk, answers, rfl⟩

theorem Tended.handle (h : m.tree.Tended u) {e : Event} (hm : m.handle u e = some m') : m'.tree.Tended u := by
  rcases handle_steps h.wf h.leafFanout hm with ⟨c, zk, answers, rfl⟩ | ⟨hsteps, -⟩
  · exact Tended.scan h hm
  · exact h.steps hsteps

theorem Tended.run : ∀ {events : List Event} {m : Manager}, m.tree.Tended u → m.run u events = some m' →
    m'.tree.Tended u
  | [], m, h, hm => by
    cases hm
    exact h
  | e :: events, m, h, hm => by
    rw [Manager.run, List.foldlM_cons] at hm
    obtain ⟨m₁, h₁, hm⟩ := Option.bind_eq_some_iff.1 hm
    exact Tended.run (Tended.handle h h₁) hm

/-! ## The start -/

/-- The leaves whose owners' roles are serialised. -/
def serialised (u : Uuid) (c : Chance) (zk : Zk) (m : Manager) : List SchedulerRef :=
  let s := m.tree.scan u c
  if s.isHierarchyDirty (if zk = .unlisted then [] else m.roles.keys) then s.leafSchedulers.values else []

/-- The hosts the scan passes to `getConfigureRequest`: the owners of those leaves and, when the write went through, the
hosts that are not configured. -/
def requested (u : Uuid) (c : Chance) (zk : Zk) (m : Manager) : List HostRef :=
  let s := m.tree.scan u c
  (m.serialised u c zk).filterMap (fun l => (s.scheduler l).owner) ++
    match s.persistDirtyHosts zk m.roles with
    | none => []
    | some _ => (s.setAllHostsDirty false).getNonConfiguredHosts.filter (fun r => !(s.host r).configured)

end Manager
end Photon.Chairman
