import Photon.ManagerRoles
/-!
# ManagerRestore — the links of a hierarchy that was read from ZooKeeper

While `/roles` is read its leaves are outside the tree, each with its owner and its members; they are put under the root
in the end.  Seen as if they were under the root already (`Shape.graft`), reading a role is adding a leaf, filling it
and giving it its owner, each of which keeps the links in order.
-/
namespace Photon.Chairman

open List
open Keyed (LinkedMap)

namespace Shape

variable {u : Uuid} {t : Shape} {hosts : LinkedMap String HostRef} {l : SchedulerRef}

/-! ## Filling a leaf -/

theorem parentScheduler_attachAll (hosts : LinkedMap String HostRef) (l : SchedulerRef) (r : HostRef) :
    ∀ (children : List String) (t : Shape),
    ((t.attachAll hosts l children).parentScheduler r = some l ∧ ∃ j ∈ children, hosts.get j = some r) ∨
      ((t.attachAll hosts l children).parentScheduler r = t.parentScheduler r ∧ ∀ j ∈ children, hosts.get j ≠ some r)
  | [], _ => .inr ⟨rfl, by simp⟩
  | child :: children, t => by
    have ih := parentScheduler_attachAll hosts l r children
    unfold attachAll at ih ⊢
    rw [foldl_cons]
    cases hc : hosts.get child with
    | none =>
      rcases ih t with ⟨hp, j, hj, hr⟩ | ⟨hp, hnone⟩
      · exact .inl ⟨hp, j, mem_cons_of_mem _ hj, hr⟩
      · exact .inr ⟨hp, forall_mem_cons.2 ⟨by simp [hc], hnone⟩⟩
    | some x =>
      rcases ih (t.attach l x) with ⟨hp, j, hj, hr⟩ | ⟨hp, hnone⟩
      · exact .inl ⟨hp, j, mem_cons_of_mem _ hj, hr⟩
      · by_cases hx : r = x
        · subst hx
          exact .inl ⟨hp.trans (by simp [attach]), child, mem_cons_self, hc⟩
        · refine .inr ⟨hp.trans (by simp [attach, hx]), forall_mem_cons.2 ⟨?_, hnone⟩⟩
          rw [hc]
          exact fun h => hx (Option.some.inj h).symm

theorem Wf.attachAll (hosts : LinkedMap String HostRef) : ∀ (children : List String) {t : Shape}, t.Wf u → t.IsLeaf l →
    t.hosts = hosts → children.Nodup →
    (∀ j ∈ children, ∀ r, hosts.get j = some r → t.parentScheduler r = none) → (t.attachAll hosts l children).Wf u
  | [], _, h, _, _, _, _ => h
  | child :: children, t, h, hl, hhosts, hnd, hstaged => by
    have ih := fun t => Wf.attachAll hosts children (t := t)
    unfold Shape.attachAll at ih ⊢
    rw [nodup_cons] at hnd
    rw [foldl_cons]
    cases hc : hosts.get child with
    | none => exact ih t h hl hhosts hnd.2 (fun j hj => hstaged j (mem_cons_of_mem _ hj))
    | some x =>
      rw [← hhosts] at hc
      refine ih _ (h.attach hc (hstaged child (by simp) x (hhosts ▸ hc)) hl) hl hhosts hnd.2 (fun j hj r hr => ?_)
      have hne : r ≠ x := by
        rintro rfl
        have hid := (h.registered child r hc).1
        rw [← hhosts] at hr
        rw [(h.registered j r hr).1] at hid
        exact hnd.1 (hid ▸ hj)
      simp only [Shape.attach, if_neg hne]
      exact hstaged j (mem_cons_of_mem _ hj) r hr

/-! ## Leaves as if under the root -/

variable {leaves : LinkedMap String SchedulerRef}

theorem graft_newScheduler {i : String} (hi : leaves.get i = none) (hroot : t.rootScheduler ≠ ⟨t.schedulerCount⟩) :
    (t.newScheduler i).graft (leaves.put i ⟨t.schedulerCount⟩) = (t.graft leaves).addLeaf i := by
  have hvalues : (leaves.put i ⟨t.schedulerCount⟩).values = leaves.values ++ [⟨t.schedulerCount⟩] := by
    unfold LinkedMap.values
    rw [LinkedMap.entries_put_of_absent _ _ _ hi, map_append]
    rfl
  ext1 <;> try rfl
  case children =>
    funext y
    simp only [graft, newScheduler, addLeaf]
    by_cases h1 : y = t.rootScheduler
    · subst h1
      simp [hroot]
    · simp [h1]
  case parent =>
    funext y
    simp only [graft, newScheduler, addLeaf, hvalues, mem_append, mem_singleton]
    by_cases h1 : y = ⟨t.schedulerCount⟩ <;> simp [h1]

theorem graft_attachAll (leaves : LinkedMap String SchedulerRef) : ∀ (children : List String) (t : Shape),
    (t.attachAll hosts l children).graft leaves = (t.graft leaves).attachAll hosts l children
  | [], _ => rfl
  | child :: children, t => by
    have ih := graft_attachAll leaves children
    unfold attachAll at ih ⊢
    rw [foldl_cons, foldl_cons]
    cases hosts.get child with
    | none => exact ih t
    | some r => exact ih (t.attach l r)

theorem graft_firstOwner (leaves : LinkedMap String SchedulerRef) (o : Option HostRef) :
    (t.firstOwner l o).graft leaves = (t.graft leaves).firstOwner l o := by
  cases o <;> rfl

theorem attachAll_firstOwner {m : SchedulerRef} (o : Option HostRef) : ∀ (children : List String) (t : Shape),
    (t.firstOwner m o).attachAll hosts l children = (t.attachAll hosts l children).firstOwner m o
  | [], _ => rfl
  | child :: children, t => by
    have ih := attachAll_firstOwner (m := m) o children
    unfold attachAll at ih ⊢
    rw [foldl_cons, foldl_cons]
    cases hosts.get child with
    | none => exact ih t
    | some r =>
      refine Eq.trans ?_ (ih (t.attach l r))
      cases o <;> rfl

theorem graft_readRole {i : String} (hostId : String) (children : List String)
    (hi : leaves.get i = none) (hroot : t.rootScheduler ≠ ⟨t.schedulerCount⟩) :
    (t.readRole hosts hostId i children).graft (leaves.put i ⟨t.schedulerCount⟩) =
      (((t.graft leaves).addLeaf i).attachAll hosts ⟨t.schedulerCount⟩ children).firstOwner ⟨t.schedulerCount⟩
        (hosts.get hostId) := by
  rw [readRole, graft_attachAll, graft_firstOwner, graft_newScheduler hi hroot, attachAll_firstOwner]

theorem children_readRole (hostId i : String) (children : List String) :
    (t.readRole hosts hostId i children).children = (t.newScheduler i).children := by
  obtain ⟨parents, members, heq, -⟩ := attachAll_eq hosts ⟨t.schedulerCount⟩ children
    ((t.newScheduler i).firstOwner ⟨t.schedulerCount⟩ (hosts.get hostId))
  rw [readRole, heq]
  cases hosts.get hostId <;> rfl

theorem parentScheduler_firstOwner (o : Option HostRef) : (t.firstOwner l o).parentScheduler = t.parentScheduler := by
  cases o <;> rfl

end Shape

/-! ## Reading the hosts -/

namespace Hierarchy

variable {u : Uuid} {s : Hierarchy}

theorem foldl_readHostEntry_steps : ∀ (es : List (String × HostConfig)) (acc : LinkedMap String HostRef × Heap),
    (es.map Prod.fst).Nodup → (∀ e ∈ es, acc.1.get e.1 = none) → Steps u { s with hosts := acc.1, heap := acc.2 }
      { s with hosts := (es.foldl Heap.readHostEntry acc).1, heap := (es.foldl Heap.readHostEntry acc).2 }
  | [], _, _, _ => Relation.ReflTransGen.refl
  | e :: es, acc, hnd, hfree => by
    rw [map_cons, nodup_cons] at hnd
    rw [foldl_cons]
    refine Relation.ReflTransGen.head (.register e.1 ⟨e.2.availabilityZone⟩ (getDatastores e.2) (getNetworks e.2)
      (e.2.managementOnly.getD false) (some e.2.host) e.2.port (hfree e (by simp))) ?_
    refine foldl_readHostEntry_steps es (Heap.readHostEntry acc e) hnd.2 (fun e' he' => ?_)
    have hne : e'.1 ≠ e.1 := fun heq => hnd.1 (heq ▸ mem_map_of_mem he')
    simp only [Heap.readHostEntry, LinkedMap.get_put, if_neg hne]
    exact hfree e' (mem_cons_of_mem _ he')

def withHosts (s : Hierarchy) (zkHosts : LinkedMap String HostConfig) : Hierarchy :=
  { s with hosts := (s.heap.readHostsFromZk zkHosts).1, heap := (s.heap.readHostsFromZk zkHosts).2 }

theorem withHosts_steps (hs : s.hosts = LinkedMap.empty) (zkHosts : LinkedMap String HostConfig) :
    Steps u s (s.withHosts zkHosts) := by
  have hstart : ({ s with hosts := LinkedMap.empty } : Hierarchy) = s := by rw [← hs]
  have hsteps : Steps u { s with hosts := LinkedMap.empty } (s.withHosts zkHosts) :=
    foldl_readHostEntry_steps zkHosts.entries (LinkedMap.empty, s.heap) zkHosts.nodup_keys (fun _ _ => rfl)
  rwa [hstart] at hsteps

/-! ## Reading the leaves -/

/-- The links with the leaves that were read as if under the root. -/
def grafted (s : Hierarchy) (acc : LinkedMap String SchedulerRef × Heap) : Shape :=
  ({ s with heap := acc.2 } : Hierarchy).shape.graft acc.1

/-- What holds when some of the roles are read, and they are apart from each other. -/
structure Restored (u : Uuid) (s : Hierarchy) (done : List (String × SchedulerRole))
    (acc : LinkedMap String SchedulerRef × Heap) : Prop where
  wf : (s.grafted acc).Wf u
  placed : ∀ j r, s.hosts.get j = some r → (s.grafted acc).parentScheduler r ≠ none →
    ∃ p ∈ done, ∃ children, p.2.hosts = some children ∧ j ∈ children
  ids : ∀ i l, acc.1.get i = some l → ∃ p ∈ done, p.2.id = i
  bare : (acc.2.scheduler s.rootScheduler).children = LinkedMap.empty

/-- The role has a host list with its owner in it, and no id or host of an earlier one. -/
structure Readable (u : Uuid) (done : List (String × SchedulerRole)) (p : String × SchedulerRole) : Prop where
  nodup : ∀ children, p.2.hosts = some children → children.Nodup ∧ p.1 ∈ children
  fresh : ∀ n, p.2.id ≠ u.gen n
  apart : ∀ q ∈ done, q.2.id ≠ p.2.id ∧
    ∀ children children', q.2.hosts = some children → p.2.hosts = some children' → children.Disjoint children'

theorem Restored.step {done : List (String × SchedulerRole)} {p : String × SchedulerRole}
    {acc acc' : LinkedMap String SchedulerRef × Heap} (h : s.Restored u done acc) (hp : Readable u done p)
    (hread : Heap.readScheduler s.hosts p.1 acc p.2 = some acc') : s.Restored u (done ++ [p]) acc' := by
  obtain ⟨children, hchildren, hleaves, hshape⟩ := shape_readScheduler { s with heap := acc.2 } hread
  obtain ⟨hnd, howner⟩ := hp.nodup children hchildren
  have hfree : acc.1.get p.2.id = none := by
    cases hi : acc.1.get p.2.id with
    | none => rfl
    | some l =>
      obtain ⟨q, hq, hid⟩ := h.ids _ l hi
      exact absurd hid (hp.apart q hq).1
  have hroot : s.rootScheduler ≠ ⟨acc.2.schedulerCount⟩ := by
    intro heq
    have halloc : s.rootScheduler.addr < acc.2.schedulerCount := h.wf.root_alloc
    rw [heq] at halloc
    exact Nat.lt_irrefl _ halloc
  have hgraft : s.grafted acc' = (((s.grafted acc).addLeaf p.2.id).attachAll s.hosts ⟨acc.2.schedulerCount⟩
      children).firstOwner ⟨acc.2.schedulerCount⟩ (s.hosts.get p.1) := by
    unfold grafted
    rw [hshape, hleaves]
    exact Shape.graft_readRole p.1 children hfree hroot
  have hparent := fun r => Shape.parentScheduler_attachAll s.hosts ⟨acc.2.schedulerCount⟩ r children
    ((s.grafted acc).addLeaf p.2.id)
  have hadded : ((s.grafted acc).addLeaf p.2.id).Wf u := h.wf.addLeaf hfree (fun n _ => hp.fresh n)
  have hleaf : ((s.grafted acc).addLeaf p.2.id).IsLeaf ⟨acc.2.schedulerCount⟩ :=
    (Shape.isLeaf_addLeaf _ _ hfree _).2 (.inl rfl)
  have hfilled := Shape.Wf.attachAll s.hosts children hadded hleaf rfl hnd (fun j hj r hr => by
    -- a host of this role is in no role read before
    by_contra hne
    obtain ⟨q, hq, children', hc, hmem⟩ := h.placed j r hr hne
    exact (hp.apart q hq).2 children' children hc hchildren hmem hj)
  constructor
  · rw [hgraft]
    cases ho : s.hosts.get p.1 with
    | none => exact hfilled
    | some o =>
      refine hfilled.own (by obtain ⟨_, _, heq, -⟩ := Shape.attachAll_eq s.hosts _ children _; rw [heq]; exact hleaf) ?_
      rcases hparent o with ⟨hpo, -⟩ | ⟨-, hnone⟩
      · exact hpo
      · exact absurd ho (hnone p.1 howner)
  · intro j r hr hplaced
    rw [hgraft, Shape.parentScheduler_firstOwner] at hplaced
    rcases hparent r with ⟨-, j', hj', hr'⟩ | ⟨hpr, -⟩
    · have hid : (s.grafted acc).hostId r = j := (h.wf.registered j r hr).1
      rw [(h.wf.registered j' r hr').1] at hid
      exact ⟨p, by simp, children, hchildren, hid ▸ hj'⟩
    · rw [hpr] at hplaced
      obtain ⟨q, hq, hrest⟩ := h.placed j r hr hplaced
      exact ⟨q, by simp [hq], hrest⟩
  · intro i l hl
    rw [hleaves] at hl
    rcases LinkedMap.get_put_cases hl with ⟨hi, -⟩ | ⟨-, hl⟩
    · exact ⟨p, by simp, hi.symm⟩
    · obtain ⟨q, hq, hid⟩ := h.ids i l hl
      exact ⟨q, by simp [hq], hid⟩
  · have hchildren : (acc'.2.scheduler s.rootScheduler).children = _ :=
      congrArg (fun t => t.children s.rootScheduler) hshape
    rw [hchildren, Shape.children_readRole]
    exact (if_neg hroot).trans h.bare

theorem Restored.start (h : s.Wf u) (hleaves : s.leafSchedulers = LinkedMap.empty) :
    s.Restored u [] (LinkedMap.empty, s.heap) := by
  have hleaf : ∀ l, ¬ s.IsLeaf l := by
    rintro l ⟨i, hi⟩
    rw [hleaves] at hi
    cases hi
  have hbare : (s.heap.scheduler s.rootScheduler).children = LinkedMap.empty := by
    refine LinkedMap.eq_empty_of_get _ (fun i => ?_)
    refine (h.leaf_child i).symm.trans ?_
    rw [show s.shape.leafSchedulers = LinkedMap.empty from hleaves]
    rfl
  have hgraft : s.grafted (LinkedMap.empty, s.heap) = s.shape := by
    ext1 <;> try rfl
    case leafSchedulers => exact hleaves.symm
    case children =>
      funext y
      by_cases hy : y = s.rootScheduler
      · subst hy
        exact (if_pos rfl).trans hbare.symm
      · exact if_neg hy
  constructor
  · rw [hgraft]
    exact h
  · intro j r hr hp
    rw [hgraft] at hp
    obtain ⟨l, hl⟩ := Option.ne_none_iff_exists'.1 hp
    exact absurd (h.parent_leaf j r l hr hl) (hleaf l)
  · intro i l hl
    cases hl
  · exact hbare

end Hierarchy

variable {u : Uuid} {zkRoles : LinkedMap String Roles}

theorem Storable.pairwise (hd : Storable zkRoles) : (storedRoles zkRoles).Pairwise (fun p q => p.1 ≠ q.1) := by
  rw [storedRoles, pairwise_flatMap]
  constructor
  · intro e he
    obtain ⟨role, children, heq, -⟩ := hd.single e.1 e.2 (LinkedMap.mem_entries_iff.1 he)
    rw [heq]
    simp
  · have hkeys : zkRoles.entries.Pairwise (fun e e' => e.1 ≠ e'.1) := pairwise_map.1 zkRoles.nodup_keys
    refine hkeys.imp (fun {e e'} hne p hp q hq => ?_)
    obtain ⟨-, -, rfl⟩ := mem_map.1 hp
    obtain ⟨-, -, rfl⟩ := mem_map.1 hq
    exact hne

theorem Storable.readable (hd : Storable zkRoles) (hfresh : ∀ p ∈ storedRoles zkRoles, ∀ n, p.2.id ≠ u.gen n)
    {pre post : List (String × SchedulerRole)} {p : String × SchedulerRole} (heq : storedRoles zkRoles =
    pre ++ p :: post) :
    Hierarchy.Readable u pre p := by
  have hp : p ∈ storedRoles zkRoles := by simp [heq]
  have hpair := hd.pairwise
  rw [heq, pairwise_append] at hpair
  constructor
  · intro children hc
    obtain ⟨role, children', hvalue, hc', hnd, howner⟩ := hd.single p.1 _ ((hd.legible.mem_iff p.1 p.2).1 hp)
    obtain ⟨rfl⟩ : p.2 = role := by simpa using hvalue
    rw [hc] at hc'
    cases hc'
    exact ⟨hnd, howner⟩
  · exact hfresh p hp
  · intro q hq
    exact hd.apart q (by simp [heq, hq]) p hp (hpair.2.2 q hq p (by simp))

namespace Hierarchy

variable {s : Hierarchy}

variable {read : LinkedMap String SchedulerRef × Heap}

/-- **The leaves of `/roles`, put under the root, fit together.** -/
theorem restored_readSchedulersFromZk (h : s.Wf u) (hleaves : s.leafSchedulers = LinkedMap.empty)
    (hd : Storable zkRoles) (hfresh : ∀ p ∈ storedRoles zkRoles, ∀ n, p.2.id ≠ u.gen n)
    (hread : s.heap.readSchedulersFromZk s.hosts zkRoles = some read) : s.Restored u (storedRoles zkRoles) read := by
  refine Heap.readSchedulersFromZk_rec
    (P := fun done acc => (∀ pre p post, done = pre ++ p :: post → Readable u pre p) → s.Restored u done acc)
    (fun _ => Restored.start h hleaves) (fun done p acc acc' ih hstep hall => ?_) hread
    (fun pre p post heq => hd.readable hfresh heq)
  refine (ih (fun pre q post heq => hall pre q (post ++ [p]) ?_)).step (hall done p [] rfl) hstep
  rw [heq, append_assoc]
  rfl

theorem shape_foldl_insertLeaf :
    ∀ (ls : List SchedulerRef) (s : Hierarchy), (ls.foldl insertLeaf s).shape = { s.shape with
      leafSchedulers := s.leafSchedulers.putAll (ls.map (fun l => ((s.scheduler l).id, l)))
      children := fun y => if y = s.rootScheduler
        then (s.scheduler y).children.putAll (ls.map (fun l => ((s.scheduler l).id, l))) else (s.scheduler y).children
      parent := fun y => if y ∈ ls then some s.rootScheduler else (s.scheduler y).parent }
  | [], s => by
    ext1 <;> try rfl
    all_goals
      funext y
      simp [LinkedMap.putAll, shape]
  | leaf :: ls, s => by
    have hone := s.shape_insertLeaf leaf
    have hid : ∀ l, ((s.insertLeaf leaf).scheduler l).id =
      (s.scheduler l).id := fun l => congrArg (fun t => t.id l) hone
    have hchildren : ∀ y, ((s.insertLeaf leaf).scheduler y).children = if y = s.rootScheduler
        then (s.scheduler y).children.put (s.scheduler leaf).id leaf else (s.scheduler y).children :=
      fun y => congrArg (fun t => t.children y) hone
    have hparent : ∀ y, ((s.insertLeaf leaf).scheduler y).parent = if y = leaf then some s.rootScheduler
        else (s.scheduler y).parent := fun y => congrArg (fun t => t.parent y) hone
    have hroot : (s.insertLeaf leaf).rootScheduler = s.rootScheduler := rfl
    rw [foldl_cons, shape_foldl_insertLeaf ls (s.insertLeaf leaf), hone]
    ext1 <;> try rfl
    case leafSchedulers =>
      simp only [hid]
      rfl
    case children =>
      funext y
      simp only [hid, hchildren, hroot]
      by_cases hy : y = s.rootScheduler <;> simp [hy, LinkedMap.putAll]
    case parent =>
      funext y
      simp only [hparent, hroot]
      by_cases h1 : y = leaf <;> by_cases h2 : y ∈ ls <;> simp [h1, h2]

theorem shape_insertLeaves {done : List (String × SchedulerRole)}
    (h : s.Restored u done read) (hleaves : s.leafSchedulers = LinkedMap.empty) :
    (read.1.values.foldl insertLeaf { s with heap := read.2 }).shape = s.grafted read := by
  have hentries : read.1.values.map (fun l => ((read.2.scheduler l).id, l)) = read.1.entries := by
    unfold LinkedMap.values
    rw [map_map]
    refine (map_congr_left (fun e he => ?_)).trans (map_id _)
    have hid : (read.2.scheduler e.2).id = e.1 := h.wf.leaf_id e.1 e.2 (LinkedMap.mem_entries_iff.1 he)
    exact Prod.ext hid rfl
  have hids : ∀ l, (({ s with heap := read.2 } : Hierarchy).scheduler l).id = (read.2.scheduler l).id := fun _ => rfl
  rw [shape_foldl_insertLeaf]
  simp only [hids, hentries]
  ext1 <;> try rfl
  case leafSchedulers =>
    show s.leafSchedulers.putAll read.1.entries = read.1
    rw [hleaves, LinkedMap.putAll_entries]
  case children =>
    funext y
    by_cases hy : y = s.rootScheduler
    · subst hy
      refine (if_pos rfl).trans (Eq.trans ?_ (if_pos rfl).symm)
      show (read.2.scheduler s.rootScheduler).children.putAll read.1.entries = read.1
      rw [h.bare, LinkedMap.putAll_entries]
    · exact (if_neg hy).trans (if_neg hy).symm

/-- **What was read is saved**, whatever the flags are. -/
theorem saved_grafted (hw : (s.grafted read).Wf u)
    (hr : s.Reading s.hosts (storedRoles zkRoles) read) (hd : Storable zkRoles) (d : HostRef → Bool) :
    (s.grafted read).Saved d zkRoles := by
  rintro l ⟨i, hi⟩
  obtain ⟨p, hp, hid, hleaf⟩ := hr.leaf i l hi
  have howner : (s.grafted read).owner l = s.hosts.get p.1 := hleaf.owner
  cases ho : s.hosts.get p.1 with
  | none => exact .inl (.inl (howner.trans ho))
  | some o =>
    obtain ⟨children, hchildren, hmembers⟩ := hleaf.members
    have hget : ∀ j, ((s.grafted read).members l).get j = if j ∈ children then s.hosts.get j else none := hmembers
    refine .inr ⟨o, p.2, children, howner.trans ho, ?_, ?_, hchildren, fun j r hj => ?_, fun j r hj hreg _ => ?_⟩
    · rw [(hw.registered p.1 o ho).1]
      exact (hd.legible.mem_iff p.1 p.2).1 hp
    · exact hid.trans (hw.leaf_id i l hi).symm
    · rw [hget] at hj
      by_contra hnot
      rw [if_neg hnot] at hj
      cases hj
    · have hmember : ((s.grafted read).members l).get j = some r := (hget j).trans ((if_pos hj).trans hreg)
      exact (hw.member l j r hmember).2

end Hierarchy

namespace Manager

open Hierarchy

/-- **A manager that has started from what a manager left**: its links fit together, and its leaves are saved. -/
theorem init_saved {tree : Hierarchy} {zkHosts : LinkedMap String HostConfig} {answers : HostRef → Bool} {m : Manager}
    (h : tree.Wf u) (hd : Storable zkRoles) (hfresh : ∀ p ∈ storedRoles zkRoles, ∀ n, p.2.id ≠ u.gen n)
    (hinit : init tree zkHosts zkRoles answers = some m) :
    m.tree.Wf u ∧ m.tree.leafFanout = tree.leafFanout ∧ m.tree.shape.Saved m.tree.dirty zkRoles ∧
      m.roles = zkRoles := by
  obtain ⟨read, hread, hroles, rs, hconf⟩ := init_eq_some hinit
  obtain ⟨-, hloaded⟩ := loaded_eq hread
  obtain ⟨heq, halike, -⟩ := configureHosts_keeps answers rs _ m.tree hconf
  have hwf : (tree.clear.withHosts zkHosts).Wf u := Steps.wf (withHosts_steps rfl zkHosts) (Steps.wf (clear_steps h) h)
  have hrestored := restored_readSchedulersFromZk hwf rfl hd hfresh hread
  have hreading := reading_readSchedulersFromZk (tree.clear.withHosts zkHosts)
    (fun j r hr => (hwf.registered j r hr).1) hread
  have hshape : m.tree.shape = (tree.clear.withHosts zkHosts).grafted read := by
    rw [heq, shape_of_alike halike, started, shape_setAllHostsDirty]
    refine (shape_of_alike (alike_setAllHostsNotConfigured _)).trans ?_
    rw [hloaded]
    exact shape_insertLeaves hrestored rfl
  refine ⟨?_, ?_, ?_, hroles⟩
  · rw [Hierarchy.Wf, hshape]
    exact hrestored.wf
  · rw [heq]
    show (loaded tree _ read).leafFanout = tree.leafFanout
    rw [hloaded]
    exact (foldl_insertLeaf_keeps tree.rootHost read.1.values _).2.1
  · rw [hshape]
    exact saved_grafted hrestored.wf hreading hd _

end Manager
end Photon.Chairman
