import Photon.ManagerScan
import Photon.TreeLinks
/-!
# ManagerRead — what is read from ZooKeeper

`readHostsFromZk` and `readSchedulersFromZk` on any heap: which hosts and leaves there are afterwards, and how they are
linked.  From this follows when a hierarchy that was built from `/hosts` agrees with the notifications about the same
configurations.
-/
namespace Photon.Chairman

open List
open Keyed (KeyedList LinkedMap)

/-! ## Hosts -/

namespace Heap

def readHostEntry (acc : LinkedMap String HostRef × Heap) (e : String × HostConfig) : LinkedMap String HostRef × Heap :=
  (acc.1.put e.1 acc.2.nextHost, acc.2.allocHost (readHost e.1 e.2))

theorem foldl_readHostEntry : ∀ (es : List (String × HostConfig)) (acc : LinkedMap String HostRef × Heap),
    (es.map Prod.fst).Nodup → (∀ e ∈ es, ∃ r, (es.foldl readHostEntry acc).1.get e.1 = some r ∧
      acc.2.hostCount ≤ r.addr ∧ (es.foldl readHostEntry acc).2.host r = readHost e.1 e.2) ∧
    (∀ k, k ∉ es.map Prod.fst → (es.foldl readHostEntry acc).1.get k = acc.1.get k) ∧
    (∀ x, x.addr < acc.2.hostCount → (es.foldl readHostEntry acc).2.host x = acc.2.host x)
  | [], _, _ => ⟨by simp, fun _ _ => rfl, fun _ _ => rfl⟩
  | e :: es, acc, hnd => by
    rw [map_cons, nodup_cons] at hnd
    obtain ⟨h1, h2, h3⟩ := foldl_readHostEntry es (readHostEntry acc e) hnd.2
    have hcount : (readHostEntry acc e).2.hostCount = acc.2.hostCount + 1 := rfl
    rw [foldl_cons]
    refine ⟨fun e' he' => ?_, fun k hk => ?_, fun x hx => ?_⟩
    · rcases mem_cons.1 he' with rfl | he'
      · refine ⟨acc.2.nextHost, ?_, le_refl _, ?_⟩
        · rw [h2 _ hnd.1]
          simp [readHostEntry]
        · rw [h3 _ (by rw [hcount]; exact Nat.lt_succ_self _)]
          simp [readHostEntry]
      · obtain ⟨r, hr, hle, hhost⟩ := h1 e' he'
        rw [hcount] at hle
        exact ⟨r, hr, Nat.le_of_succ_le hle, hhost⟩
    · rw [map_cons, mem_cons, not_or] at hk
      rw [h2 k hk.2]
      simp [readHostEntry, hk.1]
    · rw [h3 x (by rw [hcount]; exact Nat.lt_succ_of_lt hx)]
      have hne : x ≠ acc.2.nextHost := by
        rintro rfl
        exact Nat.lt_irrefl _ hx
      simp [readHostEntry, hne]

/-- **There is one host for every configuration, made from it.** -/
theorem readHostsFromZk_get (H : Heap) {zkHosts : LinkedMap String HostConfig} {id : String} {config : HostConfig}
    (hc : zkHosts.get id = some config) :
    ∃ r, (H.readHostsFromZk zkHosts).1.get id = some r ∧ (H.readHostsFromZk zkHosts).2.host r = readHost id config := by
  obtain ⟨r, hr, -, hhost⟩ :=
    (foldl_readHostEntry zkHosts.entries (LinkedMap.empty, H) zkHosts.nodup_keys).1 (id, config)
    (LinkedMap.mem_entries_iff.2 hc)
  exact ⟨r, hr, hhost⟩

theorem readHostsFromZk_id (H : Heap) {zkHosts : LinkedMap String HostConfig} {id : String} {r : HostRef}
    (hr : (H.readHostsFromZk zkHosts).1.get id = some r) : ((H.readHostsFromZk zkHosts).2.host r).id = id := by
  cases hc : zkHosts.get id with
  | none =>
    have hk : id ∉ zkHosts.keys := by
      rw [LinkedMap.mem_keys_iff, hc]
      simp
    have hnone := (foldl_readHostEntry zkHosts.entries (LinkedMap.empty, H) zkHosts.nodup_keys).2.1 id hk
    rw [show (H.readHostsFromZk zkHosts).1.get id = none from hnone] at hr
    cases hr
  | some config =>
    obtain ⟨r', hr', hhost⟩ := H.readHostsFromZk_get hc
    rw [hr'] at hr
    cases hr
    rw [hhost]
    rfl

end Heap

/-! ## Schedulers -/

def Heap.leafView (H : Heap) (leaves : LinkedMap String SchedulerRef) (i : String) :
    Option (Option String × Finset String) :=
  (leaves.get i).map (fun l =>
    ((H.scheduler l).owner.map (fun o => (H.host o).id), (H.scheduler l).hosts.keys.toFinset))

def Hierarchy.leafView (s : Hierarchy) (i : String) : Option (Option String × Finset String) :=
  s.heap.leafView s.leafSchedulers i

def storedRoles (zkRoles : LinkedMap String Roles) : List (String × SchedulerRole) :=
  zkRoles.entries.flatMap (fun e => (e.2.schedulers.getD []).map (fun role => (e.1, role)))

theorem mem_storedRoles_iff (zkRoles : LinkedMap String Roles) (key : String) (role : SchedulerRole) :
    (key, role) ∈ storedRoles zkRoles ↔
      ∃ roles schedulers, zkRoles.get key = some roles ∧ roles.schedulers = some schedulers ∧ role ∈ schedulers := by
  simp only [storedRoles, mem_flatMap, mem_map, Prod.mk.injEq]
  constructor
  · rintro ⟨⟨k, roles⟩, he, role', hrole, rfl, rfl⟩
    cases hs : roles.schedulers with
    | none => simp [hs] at hrole
    | some schedulers => exact ⟨roles, schedulers, LinkedMap.mem_entries_iff.1 he, hs, by simpa [hs] using hrole⟩
  · rintro ⟨roles, schedulers, hk, hs, hrole⟩
    exact ⟨(key, roles), LinkedMap.mem_entries_iff.2 hk, role, by simpa [hs] using hrole, rfl, rfl⟩

namespace Heap

variable {H : Heap} {hosts : LinkedMap String HostRef} {role : SchedulerRole}

theorem readScheduler_eq_some_iff {hostId : String} {acc acc' : LinkedMap String SchedulerRef × Heap} :
    readScheduler hosts hostId acc role = some acc' ↔ ∃ children, role.hosts = some children ∧
      acc' = (acc.1.put role.id acc.2.nextScheduler,
        ((acc.2.allocScheduler (Scheduler.new role.id)).setOwner acc.2.nextScheduler (hosts.get hostId)).addHosts hosts
          acc.2.nextScheduler children) := by
  unfold readScheduler
  cases role.hosts with
  | none => simp
  | some children => simp [eq_comm]

variable {zkRoles : LinkedMap String Roles}

/-- **Reading `/roles` is reading its roles one by one**, once every entry has a list of them. -/
theorem readSchedulersFromZk_eq (hset : ∀ e ∈ zkRoles.entries, e.2.schedulers ≠ none) :
      H.readSchedulersFromZk hosts zkRoles =
      (storedRoles zkRoles).foldlM (fun acc p => readScheduler hosts p.1 acc p.2) (LinkedMap.empty, H) := by
  have hfold : ∀ (es : List (String × Roles)) (acc : LinkedMap String SchedulerRef × Heap),
      (∀ e ∈ es, e.2.schedulers ≠ none) →
      es.foldlM (fun acc e => do
        let schedulers ← e.2.schedulers
        schedulers.foldlM (readScheduler hosts e.1) acc) acc =
      (es.flatMap (fun e => (e.2.schedulers.getD []).map (fun role => (e.1, role)))).foldlM
        (fun acc p => readScheduler hosts p.1 acc p.2) acc := by
    intro es
    induction es with
    | nil => intro acc _; rfl
    | cons e es ih =>
      intro acc hset
      obtain ⟨schedulers, hs⟩ := Option.ne_none_iff_exists'.1 (hset e (by simp))
      rw [foldlM_cons, flatMap_cons, foldlM_append, hs, foldlM_map]
      exact bind_congr (fun acc' => ih acc' (fun e' he' => hset e' (mem_cons_of_mem _ he')))
  exact hfold _ _ hset

variable {res : LinkedMap String SchedulerRef × Heap}

theorem schedulers_ne_none_of_read
    (h : H.readSchedulersFromZk hosts zkRoles = some res) : ∀ e ∈ zkRoles.entries, e.2.schedulers ≠ none := by
  have hfold : ∀ (es : List (String × Roles)) (acc : LinkedMap String SchedulerRef × Heap),
      es.foldlM (fun acc e => do
        let schedulers ← e.2.schedulers
        schedulers.foldlM (readScheduler hosts e.1) acc) acc = some res → ∀ e ∈ es, e.2.schedulers ≠ none := by
    intro es
    induction es with
    | nil => intro _ _ e he; cases he
    | cons e es ih =>
      intro acc h e' he' hnone
      rw [foldlM_cons] at h
      obtain ⟨acc', h', hrest⟩ := Option.bind_eq_some_iff.1 h
      rcases mem_cons.1 he' with rfl | he'
      · simp [hnone] at h'
      · exact ih acc' hrest e' he' hnone
  exact hfold _ _ h

/-- **The rule for what is read**: it holds of nothing read and is kept with every role. -/
theorem readSchedulersFromZk_rec
    {P : List (String × SchedulerRole) → LinkedMap String SchedulerRef × Heap → Prop} (h0 : P [] (LinkedMap.empty, H))
    (hstep : ∀ done p acc acc', P done acc → readScheduler hosts p.1 acc p.2 = some acc' → P (done ++ [p]) acc')
    (h : H.readSchedulersFromZk hosts zkRoles = some res) : P (storedRoles zkRoles) res := by
  rw [readSchedulersFromZk_eq (schedulers_ne_none_of_read h)] at h
  have := Fallible.foldlM_rec hstep (storedRoles zkRoles) [] _ res h0 h
  rwa [nil_append] at this

theorem data_addHosts (x : HostRef) (l : SchedulerRef) : ∀ (children : List String) (H : Heap),
    ((H.addHosts hosts l children).host x).data = (H.host x).data
  | [], _ => rfl
  | child :: children, H => by
    have hrest := data_addHosts x l children
    unfold addHosts at hrest ⊢
    rw [foldl_cons, hrest]
    cases hosts.get child with
    | none => rfl
    | some r =>
      rw [(H.addHost_kept l r).data]
      simp only [host_modifyScheduler, host_modifyHost]
      split <;> rfl

end Heap

def Shape.firstOwner (t : Shape) (l : SchedulerRef) : Option HostRef → Shape
  | none => t
  | some r => t.own l r

/-- What reading a role does to the links: a new scheduler gets its owner and then its members. -/
def Shape.readRole (t : Shape) (hosts : LinkedMap String HostRef) (hostId i : String)
    (children : List String) : Shape :=
  ((t.newScheduler i).firstOwner ⟨t.schedulerCount⟩ (hosts.get hostId)).attachAll hosts ⟨t.schedulerCount⟩ children

namespace Hierarchy

theorem shape_addHosts (hosts : LinkedMap String HostRef) (l : SchedulerRef) :
    ∀ (children : List String) (s : Hierarchy),
    ({ s with heap := s.heap.addHosts hosts l children } : Hierarchy).shape = s.shape.attachAll hosts l children
  | [], _ => rfl
  | child :: children, s => by
    have hrest := shape_addHosts hosts l children
    unfold Heap.addHosts Shape.attachAll at hrest ⊢
    rw [foldl_cons, foldl_cons]
    cases hosts.get child with
    | none => exact hrest s
    | some r =>
      refine (hrest { s with heap := s.heap.addHost l r }).trans ?_
      rw [s.shape_fillLeaf l r]

theorem shape_allocScheduler (s : Hierarchy) (i : String) :
    ({ s with heap := s.heap.allocScheduler (Scheduler.new i) } : Hierarchy).shape = s.shape.newScheduler i := by
  ext1 <;> try rfl
  all_goals
    funext y
    simp only [shape, Shape.newScheduler, scheduler, Heap.scheduler_allocScheduler, Heap.nextScheduler]
    by_cases hy : y = ⟨s.heap.schedulerCount⟩ <;> simp [hy, Scheduler.new]

theorem shape_readScheduler (s : Hierarchy) {hosts : LinkedMap String HostRef} {hostId : String} {role : SchedulerRole}
    {leaves : LinkedMap String SchedulerRef} {acc' : LinkedMap String SchedulerRef × Heap}
    (h : Heap.readScheduler hosts hostId (leaves, s.heap) role = some acc') :
    ∃ children, role.hosts = some children ∧ acc'.1 = leaves.put role.id ⟨s.heap.schedulerCount⟩ ∧
      ({ s with heap := acc'.2 } : Hierarchy).shape = s.shape.readRole hosts hostId role.id children := by
  obtain ⟨children, hc, rfl⟩ := Heap.readScheduler_eq_some_iff.1 h
  refine ⟨children, hc, rfl, ?_⟩
  have halloc := s.shape_allocScheduler role.id
  have hnone : ((s.heap.allocScheduler (Scheduler.new role.id)).scheduler s.heap.nextScheduler).owner = none := by
    simp [Scheduler.new]
  have hown : ∀ o, ({ s with
        heap := Heap.setOwner (s.heap.allocScheduler (Scheduler.new role.id)) s.heap.nextScheduler o } :
      Hierarchy).shape = (s.shape.newScheduler role.id).firstOwner ⟨s.heap.schedulerCount⟩ o := by
    intro o
    cases o with
    | none =>
      rw [Heap.setOwner_none_of_none hnone]
      exact halloc
    | some r =>
      refine (shape_firstOwner { s with heap := s.heap.allocScheduler (Scheduler.new role.id) } hnone r).trans ?_
      rw [halloc]
      rfl
  have hread := hown (hosts.get hostId)
  simp only
  generalize Heap.setOwner _ s.heap.nextScheduler (hosts.get hostId) = H₁ at hread ⊢
  refine (shape_addHosts hosts s.heap.nextScheduler children { s with heap := H₁ }).trans ?_
  rw [hread]
  rfl

end Hierarchy

namespace Shape

variable {t : Shape} {hosts : LinkedMap String HostRef}

/-- The scheduler read for a role: its owner is the host it was stored under, its members are the role's hosts, as far
as they are known. -/
structure ReadLeaf (t : Shape) (hosts : LinkedMap String HostRef) (key : String) (role : SchedulerRole)
    (l : SchedulerRef) : Prop where
  id : t.id l = role.id
  owner : t.owner l = hosts.get key
  members : ∃ children, role.hosts = some children ∧
    ∀ j, (t.members l).get j = if j ∈ children then hosts.get j else none

theorem firstOwner_eq (l : SchedulerRef) (o : Option HostRef) : ∃ schedulers, t.firstOwner l o =
    { t with schedulers := schedulers, owner := fun y => if y = l then o.or (t.owner y) else t.owner y } := by
  cases o with
  | none => exact ⟨t.schedulers, by simp [firstOwner]⟩
  | some r => exact ⟨_, rfl⟩

/-- **A role read, field by field.** -/
theorem readRole_eq (hostId i : String) (children : List String) (hids : ∀ j r, hosts.get j = some r → t.hostId r = j) :
    ∃ parents schedulers members, t.readRole hosts hostId i children = { t.newScheduler i with
        parentScheduler := parents, schedulers := schedulers, members := members
        owner := fun y => if y = ⟨t.schedulerCount⟩ then hosts.get hostId else t.owner y } ∧
      (∀ y, y ≠ ⟨t.schedulerCount⟩ → members y = t.members y) ∧
      ∀ j, (members ⟨t.schedulerCount⟩).get j = if j ∈ children then hosts.get j else none := by
  obtain ⟨schedulers, howner⟩ := firstOwner_eq (t := t.newScheduler i) ⟨t.schedulerCount⟩ (hosts.get hostId)
  obtain ⟨parents, members, hattach, hothers⟩ := attachAll_eq hosts ⟨t.schedulerCount⟩ children
    ((t.newScheduler i).firstOwner ⟨t.schedulerCount⟩ (hosts.get hostId))
  have hself := fun j => members_attachAll hosts ⟨t.schedulerCount⟩ j children
    ((t.newScheduler i).firstOwner ⟨t.schedulerCount⟩ (hosts.get hostId)) (by rw [howner]; exact hids)
  refine ⟨parents, schedulers, members, ?_, fun y hy => ?_, fun j => ?_⟩
  · rw [readRole, hattach, howner]
    congr 1
    funext y
    by_cases hy : y = ⟨t.schedulerCount⟩ <;> simp [hy, newScheduler]
  · rw [hothers y hy, howner]
    simp [newScheduler, hy]
  · have hj := hself j
    rw [hattach, howner] at hj
    simpa [newScheduler] using hj

theorem ReadLeaf.congr {t' : Shape} {key : String} {role : SchedulerRole} {l : SchedulerRef}
    (h : t.ReadLeaf hosts key role l)
    (hid : t'.id l = t.id l) (howner : t'.owner l = t.owner l) (hmembers : t'.members l = t.members l) :
    t'.ReadLeaf hosts key role l :=
  ⟨hid.trans h.id, howner.trans h.owner, by rw [hmembers]; exact h.members⟩

end Shape

namespace Hierarchy

variable {hosts : LinkedMap String HostRef}

/-- What holds when some of the roles are read: every leaf is that of a role, every role has a leaf under its id, the
leaf of the last one is its own, and the hosts are what they were. -/
structure Reading (s : Hierarchy) (hosts : LinkedMap String HostRef) (done : List (String × SchedulerRole))
    (acc : LinkedMap String SchedulerRef × Heap) : Prop where
  data : ∀ x, (acc.2.host x).data = (s.host x).data
  counted : ∀ i l, acc.1.get i = some l → l.addr < acc.2.schedulerCount
  leaf : ∀ i l, acc.1.get i = some l → ∃ p ∈ done, p.2.id = i ∧
    ({ s with heap := acc.2 } : Hierarchy).shape.ReadLeaf hosts p.1 p.2 l
  role : ∀ p ∈ done, ∃ l, acc.1.get p.2.id = some l
  last : ∀ p, done.getLast? = some p → ∃ l, acc.1.get p.2.id = some l ∧
    ({ s with heap := acc.2 } : Hierarchy).shape.ReadLeaf hosts p.1 p.2 l

theorem Reading.step {s : Hierarchy} (hids : ∀ j r, hosts.get j = some r → (s.host r).id = j)
    {done : List (String × SchedulerRole)} {p : String × SchedulerRole}
    {acc acc' : LinkedMap String SchedulerRef × Heap}
    (h : s.Reading hosts done acc) (hread : Heap.readScheduler hosts p.1 acc p.2 = some acc') :
    s.Reading hosts (done ++ [p]) acc' := by
  obtain ⟨children, hchildren, hleaves, hshape⟩ := shape_readScheduler { s with heap := acc.2 } hread
  have hids' : ∀ j r, hosts.get j = some r → ({ s with heap := acc.2 } : Hierarchy).shape.hostId r = j := by
    intro j r hr
    rw [← hids j r hr]
    exact congrArg Prod.fst (h.data r)
  obtain ⟨parents, schedulers, members, heq, hothers, hself⟩ :=
    Shape.readRole_eq p.1 p.2.id children hids'
  rw [heq] at hshape
  have hcount : acc'.2.schedulerCount = acc.2.schedulerCount + 1 := congrArg Shape.schedulerCount hshape
  have hnew : ({ s with heap := acc'.2 } : Hierarchy).shape.ReadLeaf hosts p.1 p.2 ⟨acc.2.schedulerCount⟩ := by
    rw [hshape]
    exact ⟨by simp [Shape.newScheduler, shape], by simp [shape], children, hchildren, hself⟩
  constructor
  · intro x
    obtain ⟨children, -, rfl⟩ := Heap.readScheduler_eq_some_iff.1 hread
    rw [Heap.data_addHosts, Heap.data_setOwner]
    exact h.data x
  · intro i l hl
    rw [hleaves] at hl
    rw [hcount]
    rcases LinkedMap.get_put_cases hl with ⟨-, rfl⟩ | ⟨-, hl⟩
    · exact Nat.lt_succ_self _
    · exact Nat.lt_succ_of_lt (h.counted i l hl)
  · intro i l hl
    rw [hleaves] at hl
    rcases LinkedMap.get_put_cases hl with ⟨hi, rfl⟩ | ⟨-, hl⟩
    · exact ⟨p, by simp, hi.symm, hnew⟩
    · obtain ⟨q, hq, hi, hleaf⟩ := h.leaf i l hl
      have hne : l ≠ ⟨acc.2.schedulerCount⟩ := by
        rintro rfl
        exact Nat.lt_irrefl _ (h.counted i _ hl)
      refine ⟨q, by simp [hq], hi, hleaf.congr ?_ ?_ ?_⟩
      · rw [hshape]
        exact if_neg hne
      · rw [hshape]
        exact if_neg hne
      · rw [hshape]
        exact hothers l hne
  · intro q hq
    rw [hleaves]
    simp only [LinkedMap.get_put]
    split
    · exact ⟨_, rfl⟩
    · rename_i hne
      rcases mem_append.1 hq with hq | hq
      · exact h.role q hq
      · rw [mem_singleton.1 hq] at hne
        exact absurd rfl hne
  · intro q hq
    rw [getLast?_concat] at hq
    cases hq
    exact ⟨_, by simp [hleaves], hnew⟩

/-- **What `readSchedulersFromZk` rebuilds.** -/
theorem reading_readSchedulersFromZk (s : Hierarchy) (hids : ∀ j r, hosts.get j = some r → (s.host r).id = j)
    {zkRoles : LinkedMap String Roles} {res : LinkedMap String SchedulerRef × Heap}
    (h : s.heap.readSchedulersFromZk hosts zkRoles = some res) : s.Reading hosts (storedRoles zkRoles) res := by
  refine Heap.readSchedulersFromZk_rec (P :=
    s.Reading hosts) ⟨fun _ => rfl, nofun, nofun, nofun, nofun⟩ (fun done p acc acc' => ?_) h
  · exact fun hdone hread => hdone.step hids hread

end Hierarchy
end Photon.Chairman
