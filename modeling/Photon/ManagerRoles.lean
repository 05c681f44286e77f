import Photon.ManagerSaved
/-!
# ManagerRoles — what `persistDirtyHosts` leaves in `/roles`

A write that lists the keys there are, or finds only keys it sets again, makes the dictionary a snapshot of the leaves.
-/
namespace Photon.Chairman

open List
open Keyed (LinkedMap)
open Option (bind_eq_some_iff map_some ne_none_iff_exists' some)

namespace Hierarchy

variable {u : Uuid} {c : Chance} {s s' : Hierarchy} {dict : LinkedMap String Roles}

/-! ## Change sets -/

theorem foldl_change_of_not_mem (k : String) : ∀ (es : List (String × Option Roles)) (dict : LinkedMap String Roles),
    k ∉ es.map Prod.fst → (es.foldl (fun dict e => match e.2 with
      | none => dict.remove e.1
      | some value => dict.put e.1 value) dict).get k = dict.get k
  | [], _, _ => rfl
  | (k', v) :: es, dict, hk => by
    rw [map_cons, mem_cons, not_or] at hk
    rw [foldl_cons, foldl_change_of_not_mem k es _ hk.2]
    cases v <;> simp [hk.1]

theorem foldl_change_of_mem {k : String} {v : Option Roles} : ∀ (es : List (String × Option Roles))
    (dict : LinkedMap String Roles), (es.map Prod.fst).Nodup → (k, v) ∈ es → (es.foldl (fun dict e => match e.2 with
      | none => dict.remove e.1
      | some value => dict.put e.1 value) dict).get k = v
  | (k', v') :: es, dict, hnd, hk => by
    rw [map_cons, nodup_cons] at hnd
    rw [foldl_cons]
    rcases mem_cons.1 hk with heq | hk
    · cases heq
      rw [foldl_change_of_not_mem k es _ hnd.1]
      cases v <;> simp
    · exact foldl_change_of_mem es _ hnd.2 hk

theorem get_applyChanges (dict : LinkedMap String Roles) (changes : LinkedMap String (Option Roles)) (k : String) :
    (applyChanges dict changes).get k = (changes.get k).getD (dict.get k) := by
  unfold applyChanges
  cases hk : changes.get k with
  | none =>
    refine foldl_change_of_not_mem k _ dict (fun hmem => ?_)
    obtain ⟨v, hv⟩ := LinkedMap.mem_keys_iff.1 hmem
    rw [hk] at hv
    cases hv
  | some v => exact foldl_change_of_mem _ dict changes.nodup_keys (LinkedMap.mem_entries_iff.2 hk)

theorem changeSet_eq (schedulerHosts : List String) (roles : List (String × Roles)) :
    changeSet schedulerHosts roles = (LinkedMap.empty.putAll (schedulerHosts.map (fun key => (key, none)))).putAll
      (roles.map (fun e => (e.1, some e.2))) := by
  unfold changeSet LinkedMap.putAll
  rw [foldl_map, foldl_map]

variable {roles : List (String × Roles)}

theorem get_changeSet_of_mem (schedulerHosts : List String) {k : String}
    (hk : k ∈ roles.map Prod.fst) : ∃ v, (k, v) ∈ roles ∧ (changeSet schedulerHosts roles).get k = some (some v) := by
  rw [changeSet_eq]
  obtain ⟨v, hv, hget⟩ := LinkedMap.get_putAll_of_mem (k := k) (roles.map (fun e => (e.1, some e.2)))
    (LinkedMap.empty.putAll (schedulerHosts.map (fun key => (key, none)))) (by simpa using hk)
  obtain ⟨⟨k', v'⟩, he, heq⟩ := mem_map.1 hv
  cases heq
  exact ⟨v', he, hget⟩

theorem get_changeSet_of_not_mem {schedulerHosts : List String} {k : String} (hk : k ∉ roles.map Prod.fst) :
    (changeSet schedulerHosts roles).get k = if k ∈ schedulerHosts then some none else none := by
  rw [changeSet_eq, LinkedMap.get_putAll_of_not_mem _ _ _ (by simpa using hk)]
  split
  · rename_i hmem
    obtain ⟨v, hv, hget⟩ := LinkedMap.get_putAll_of_mem (k := k)
      (schedulerHosts.map (fun key => (key, (none : Option Roles)))) LinkedMap.empty (by simpa using hmem)
    obtain ⟨key, -, heq⟩ := mem_map.1 hv
    cases heq
    exact hget
  · rename_i hmem
    rw [LinkedMap.get_putAll_of_not_mem _ _ _ (by simpa using hmem)]
    rfl

theorem get_written_of_mem (dict : LinkedMap String Roles) (keys : List String) {k : String}
    (hk : k ∈ roles.map Prod.fst) :
    ∃ v, (k, v) ∈ roles ∧ (applyChanges dict (changeSet keys roles)).get k = some v := by
  obtain ⟨v, hv, hget⟩ := get_changeSet_of_mem keys hk
  rw [get_applyChanges, hget]
  exact ⟨v, hv, rfl⟩

theorem get_written_of_not_mem {keys : List String} {k : String} (hk : k ∉ roles.map Prod.fst) :
    (applyChanges dict (changeSet keys roles)).get k = if k ∈ keys then none else dict.get k := by
  rw [get_applyChanges, get_changeSet_of_not_mem hk]
  split <;> rfl

/-- **What a change set leaves**: the new roles and nothing else, when every key there was is listed or set again. -/
theorem get_written {keys : List String} (hkeys : ∀ key ∈ dict.keys, key ∈ keys ∨ key ∈ roles.map Prod.fst)
    (k : String) : (k ∈ roles.map Prod.fst → ∃ v, (applyChanges dict (changeSet keys roles)).get k = some v) ∧
      ∀ v, (applyChanges dict (changeSet keys roles)).get k = some v → (k, v) ∈ roles := by
  by_cases hk : k ∈ roles.map Prod.fst
  · obtain ⟨v, hv, hget⟩ := get_written_of_mem dict keys hk
    rw [hget]
    refine ⟨fun _ => ⟨v, rfl⟩, fun w hw => ?_⟩
    cases hw
    exact hv
  · refine ⟨fun hmem => absurd hmem hk, fun v hv => ?_⟩
    rw [get_written_of_not_mem hk] at hv
    split at hv
    · cases hv
    · rename_i hlist
      exact absurd (hkeys k (LinkedMap.mem_keys_iff.2 ⟨v, hv⟩)) (not_or.2 ⟨hlist, hk⟩)

/-! ## The write -/

variable {l : SchedulerRef} {o : HostRef}

theorem schedulers_owner (h : s.Wf u) (hl : s.IsLeaf l)
    (ho : (s.scheduler l).owner = some o) : (s.host o).schedulers = [l] := by
  obtain ⟨hreg, hp⟩ := owner_registered h hl ho
  have hmem : l ∈ (s.host o).schedulers := (h.owner_iff l o).1 ho
  have hall : ∀ m ∈ (s.host o).schedulers, m = l := by
    intro m hm
    have hpm : (s.host o).parentScheduler = some m := Shape.Wf.owned_eq_parent h hreg hm
    rw [hp] at hpm
    exact (some.inj hpm).symm
  have hnd : (s.host o).schedulers.Nodup := h.schedulers_nodup o
  generalize (s.host o).schedulers = ls at hmem hall hnd
  cases ls with
  | nil => cases hmem
  | cons m ls =>
    obtain rfl := hall m (by simp)
    cases ls with
    | nil => rfl
    | cons x ls =>
      obtain rfl := hall x (by simp)
      simp at hnd

theorem leafRoles_eq (h : s.Wf u) (hl : s.IsLeaf l) (ho : (s.scheduler l).owner = some o)
    {e : String × Roles} (he : s.leafRoles l = some e) :
    ∃ role, e = ((s.host o).id, ⟨some [role]⟩) ∧ role.id = (s.scheduler l).id ∧
      role.hosts = some (s.scheduler l).hosts.keys := by
  have hmember : (s.scheduler l).hosts.get (s.host o).id = some o := h.listed (owner_registered h hl ho).2
  have hkeys : (s.scheduler l).hosts.keys ≠ [] := by
    intro hnil
    have hmem := LinkedMap.mem_keys_iff.2 ⟨o, hmember⟩
    rw [hnil] at hmem
    cases hmem
  have hsch : (s.heap.host o).schedulers = [l] := schedulers_owner h hl ho
  unfold leafRoles Heap.getConfigureRequest at he
  rw [ho] at he
  simp only [hsch, Option.bind_eq_bind, Option.bind_some] at he
  obtain ⟨req, hreq, he⟩ := bind_eq_some_iff.1 he
  obtain ⟨roles, hroles, hreq⟩ := bind_eq_some_iff.1 hreq
  obtain ⟨parent, -, hreq⟩ := bind_eq_some_iff.1 hreq
  rw [mapM_cons] at hroles
  obtain ⟨role, hrole, hroles⟩ := bind_eq_some_iff.1 hroles
  cases hroles
  cases hreq
  cases he
  obtain ⟨p, -, hrole⟩ := bind_eq_some_iff.1 hrole
  obtain ⟨cs, -, hrole⟩ := bind_eq_some_iff.1 hrole
  cases hrole
  refine ⟨_, rfl, rfl, ?_⟩
  show unlessEmpty (s.scheduler l).hosts.keys = _
  simp [unlessEmpty, hkeys]

def OwnsLeaf (s : Hierarchy) (key : String) : Prop :=
  ∃ l o, s.IsLeaf l ∧ (s.scheduler l).owner = some o ∧ (s.host o).id = key

theorem mem_leafRoles (hroles : s.leafSchedulers.values.mapM s.leafRoles = some roles)
    (e : String × Roles) : e ∈ roles ↔ ∃ l, s.IsLeaf l ∧ s.leafRoles l = some e := by
  rw [Fallible.mem_mapM_iff hroles]
  exact ⟨fun ⟨l, hl, he⟩ => ⟨l, isLeaf_values s l hl, he⟩, fun ⟨l, hl, he⟩ => ⟨l, LinkedMap.mem_values_iff.2 hl, he⟩⟩

theorem owner_of_leafRoles {e : String × Roles} (he : s.leafRoles l = some e) :
    ∃ o, (s.scheduler l).owner = some o ∧ (s.host o).id = e.1 := by
  obtain ⟨o, ho, he⟩ := bind_eq_some_iff.1 he
  obtain ⟨req, -, he⟩ := bind_eq_some_iff.1 he
  cases he
  exact ⟨o, ho, rfl⟩

theorem mem_leafRoles_keys (hroles : s.leafSchedulers.values.mapM s.leafRoles = some roles) (key : String) :
    key ∈ roles.map Prod.fst ↔ s.OwnsLeaf key := by
  constructor
  · intro hk
    obtain ⟨e, he, rfl⟩ := mem_map.1 hk
    obtain ⟨l, hl, he⟩ := (mem_leafRoles hroles e).1 he
    obtain ⟨o, ho, hid⟩ := owner_of_leafRoles he
    exact ⟨l, o, hl, ho, hid⟩
  · rintro ⟨l, o, hl, ho, rfl⟩
    cases he : s.leafRoles l with
    | none =>
      rw [Fallible.mapM_eq_none_iff.2 ⟨l, LinkedMap.mem_values_iff.2 hl, he⟩] at hroles
      cases hroles
    | some e =>
      obtain ⟨o', ho', hid⟩ := owner_of_leafRoles he
      rw [ho] at ho'
      cases ho'
      rw [hid]
      exact mem_map_of_mem ((mem_leafRoles hroles e).2 ⟨l, hl, he⟩)

/-- **A write records every leaf under its owner's id**, whatever keys it lists. -/
theorem recorded_write (h : s.Wf u) (howned : ∀ l, s.IsLeaf l → (s.scheduler l).owner ≠ none) (keys : List String)
    (hroles : s.leafSchedulers.values.mapM s.leafRoles = some roles) :
    s.shape.Recorded (applyChanges dict (changeSet keys roles)) := by
  intro l o hl ho
  obtain ⟨e, he⟩ := ne_none_iff_exists'.1 (leafRoles_ne_none h howned hl)
  obtain ⟨role, rfl, hid, hhosts⟩ := leafRoles_eq h hl ho he
  refine ⟨role, ?_, hid, hhosts⟩
  obtain ⟨v, hmem, hv⟩ := get_written_of_mem dict keys ((mem_leafRoles_keys hroles _).2 ⟨l, o, hl, ho, rfl⟩)
  -- the same owner id means the same owner, and so the same leaf
  obtain ⟨m, hm, hw⟩ := (mem_leafRoles hroles _).1 hmem
  obtain ⟨x, hx, hids⟩ := owner_of_leafRoles hw
  obtain ⟨hreg, hp⟩ := owner_registered h hl ho
  obtain ⟨hreg', hp'⟩ := owner_registered h hm hx
  rw [hids, hreg] at hreg'
  cases hreg'
  rw [hp] at hp'
  cases hp'
  rw [he] at hw
  rw [show s.shape.hostId o = (s.host o).id from rfl, hv, (Prod.mk.inj (some.inj hw)).2]

def listedKeys (zk : Zk) (dict : LinkedMap String Roles) : List String := if zk = .unlisted then [] else dict.keys

/-- **What is in the dictionary after `persistDirtyHosts`**: what was, when nothing is dirty, and else every leaf; other
keys stay only where the keys could not be listed. -/
theorem persistDirtyHosts_cases (h : s.Wf u) (howned : ∀ l, s.IsLeaf l → (s.scheduler l).owner ≠ none) {zk : Zk}
    {dict' : LinkedMap String Roles} (hp : s.persistDirtyHosts zk dict = some dict') :
    (s.isHierarchyDirty (listedKeys zk dict) = false ∧ dict' = dict) ∨
      (s.isHierarchyDirty (listedKeys zk dict) = true ∧ s.shape.Recorded dict' ∧
        ∀ key value, dict'.get key = some value → s.OwnsLeaf key ∨ (zk = .unlisted ∧ dict.get key = some value)) := by
  unfold persistDirtyHosts at hp
  change (if s.isHierarchyDirty (listedKeys zk dict) = true then _ else _) = _ at hp
  by_cases hd : s.isHierarchyDirty (listedKeys zk dict) = true
  · right
    rw [if_pos hd] at hp
    obtain ⟨roles, hroles, hp⟩ := bind_eq_some_iff.1 hp
    refine ⟨hd, ?_⟩
    split at hp
    · cases hp
    · cases hp
      refine ⟨recorded_write h howned _ hroles, fun key value hv => ?_⟩
      by_cases hk : key ∈ roles.map Prod.fst
      · exact .inl ((mem_leafRoles_keys hroles key).1 hk)
      · rw [get_written_of_not_mem hk] at hv
        by_cases hzk : zk = .unlisted
        · simp only [if_pos hzk, not_mem_nil, if_false] at hv
          exact .inr ⟨hzk, hv⟩
        · rw [if_neg hzk] at hv
          split at hv
          · cases hv
          · rename_i hmem
            exact absurd (LinkedMap.mem_keys_iff.2 ⟨value, hv⟩) hmem
  · left
    rw [if_neg hd] at hp
    exact ⟨Bool.eq_false_iff.2 hd, (some.inj hp).symm⟩

/-! ## Reading it back -/

theorem readSchedulersFromZk_ne_none (hd : Legible dict) (H : Heap) (hosts : LinkedMap String HostRef) :
    H.readSchedulersFromZk hosts dict ≠ none := by
  rw [Heap.readSchedulersFromZk_eq]
  · refine Fallible.foldlM_ne_none _ (fun acc p hp => ?_)
    obtain ⟨role, children, heq, hhosts⟩ := hd p.1 _ ((hd.mem_iff p.1 p.2).1 hp)
    obtain ⟨rfl⟩ : p.2 = role := by simpa using heq
    simp [Heap.readScheduler, hhosts]
  · intro e he
    obtain ⟨role, children, heq, -⟩ := hd e.1 e.2 (LinkedMap.mem_entries_iff.1 he)
    simp [heq]

/-- What is rebuilt from the dictionary, with the registered hosts, are the leaves.  `readSchedulersFromZk` goes over
the roles in the order of a hash map, so in any. -/
def Mirrors (s : Hierarchy) (dict : LinkedMap String Roles) : Prop :=
  ∀ roles : LinkedMap String Roles, (∀ key, roles.get key = dict.get key) →
    ∃ leaves H, s.heap.readSchedulersFromZk s.hosts roles = some (leaves, H) ∧ ∀ i, H.leafView leaves i = s.leafView i

/-- No two roles are of one leaf, and none is of a leaf that is gone. -/
structure OfLeaves (s : Hierarchy) (dict : LinkedMap String Roles) : Prop where
  once : ∀ p ∈ storedRoles dict, ∀ q ∈ storedRoles dict, p.2.id = q.2.id → p.1 = q.1
  live : ∀ p ∈ storedRoles dict, s.leafSchedulers.get p.2.id ≠ none

theorem OfLeaves.congr {roles : LinkedMap String Roles} (h : s.OfLeaves dict)
    (hget : ∀ key, roles.get key = dict.get key) : s.OfLeaves roles := by
  have hmem : ∀ p, p ∈ storedRoles roles ↔ p ∈ storedRoles dict := by
    intro p
    rw [mem_storedRoles_iff roles p.1 p.2, mem_storedRoles_iff dict p.1 p.2, hget]
  exact ⟨fun p hp q hq => h.once p ((hmem p).1 hp) q ((hmem q).1 hq), fun p hp => h.live p ((hmem p).1 hp)⟩

theorem leafView_of_stored (h : s.Wf u) {l' : SchedulerRef} {role : SchedulerRole} {children : List String}
    {H : Heap} (hl : s.IsLeaf l) (hst : s.shape.Stored (fun _ => false) dict l o role children)
    (hdata : ∀ x, (H.host x).data = (s.host x).data)
    (hread : ({ s with heap := H } : Hierarchy).shape.ReadLeaf s.hosts (s.host o).id role l') :
    (H.scheduler l').owner.map (fun o => (H.host o).id) = (s.scheduler l).owner.map (fun o => (s.host o).id) ∧
      (H.scheduler l').hosts.keys.toFinset = (s.scheduler l).hosts.keys.toFinset := by
  obtain ⟨hreg, -⟩ := owner_registered h hl hst.owner
  constructor
  · have howner : (H.scheduler l').owner = s.hosts.get (s.host o).id := hread.owner
    have hid : (H.host o).id = (s.host o).id := congrArg Prod.fst (hdata o)
    rw [howner, hreg, show (s.scheduler l).owner = some o from hst.owner]
    simp [hid]
  · obtain ⟨children', hc, hmembers⟩ := hread.members
    rw [hst.hosts] at hc
    cases hc
    ext j
    rw [mem_toFinset, mem_toFinset, LinkedMap.mem_keys_iff, LinkedMap.mem_keys_iff]
    have hj : (H.scheduler l').hosts.get j = if j ∈ children then s.hosts.get j else none := hmembers j
    rw [hj]
    constructor
    · rintro ⟨r, hr⟩
      split at hr
      · rename_i hmem
        have hp := hst.member j r hmem hr rfl
        have hlisted := h.listed hp
        rw [show (s.heap.host r).id = j from (h.registered j r hr).1] at hlisted
        exact ⟨r, hlisted⟩
      · cases hr
    · rintro ⟨r, hr⟩
      exact ⟨r, by rw [if_pos (hst.listed j r hr)]; exact h.member_registered l j r hl hr⟩

theorem leafView_eq_of_ofLeaves (h : s.Wf u) (hd : Legible dict) (hof : s.OfLeaves dict)
    (hstored : ∀ l, s.IsLeaf l → ∃ o role children, s.shape.Stored (fun _ => false) dict l o role children)
    {leaves : LinkedMap String SchedulerRef} {H : Heap} (hread : s.heap.readSchedulersFromZk s.hosts dict =
      some (leaves, H))
    (i : String) : H.leafView leaves i = s.leafView i := by
  have hreading := reading_readSchedulersFromZk s (fun j r hr => (h.registered j r hr).1) hread
  unfold Hierarchy.leafView Heap.leafView
  cases hi : leaves.get i with
  | none =>
    cases hl : s.leafSchedulers.get i with
    | none => rfl
    | some l =>
      obtain ⟨o, role, children, hst⟩ := hstored l ⟨i, hl⟩
      obtain ⟨l', hl'⟩ := hreading.role _ ((hd.mem_iff _ role).2 hst.entry)
      rw [show role.id = i from hst.id.trans (h.leaf_id i l hl), hi] at hl'
      cases hl'
  | some l' =>
    obtain ⟨p, hp, rfl, hleaf⟩ := hreading.leaf i l' hi
    obtain ⟨l, hl⟩ := ne_none_iff_exists'.1 (hof.live p hp)
    obtain ⟨o, role, children, hst⟩ := hstored l ⟨_, hl⟩
    -- the role that was read is the one that is stored for the leaf of that id
    have hmem := (hd.mem_iff _ role).2 hst.entry
    have hid : role.id = p.2.id := hst.id.trans (h.leaf_id _ l hl)
    have hkey : p.1 = s.shape.hostId o := hof.once p hp _ hmem hid.symm
    have hrole : p.2 = role := by
      have hget := (hd.mem_iff p.1 p.2).1 hp
      rw [hkey, hst.entry] at hget
      simpa using hget.symm
    rw [hkey, hrole] at hleaf
    obtain ⟨howner, hkeys⟩ := leafView_of_stored h ⟨_, hl⟩ hst hreading.data hleaf
    rw [hl, map_some, map_some]
    exact congrArg some (Prod.ext howner hkeys)

/-- In a mirror every role is stored under the owner of its leaf: it could be the last that is read. -/
theorem Mirrors.key_eq (hm : s.Mirrors dict) (h : s.Wf u) (hd : Legible dict)
    (howned : ∀ l, s.IsLeaf l → ∃ o, (s.scheduler l).owner = some o) {p : String × SchedulerRole}
    (hp : p ∈ storedRoles dict) : ∃ l o, s.leafSchedulers.get p.2.id = some l ∧ (s.scheduler l).owner = some o ∧
      (s.host o).id = p.1 := by
  have hp := (hd.mem_iff p.1 p.2).1 hp
  have habsent : (dict.remove p.1).get p.1 = none := by simp
  obtain ⟨leaves, H, hread, hview⟩ := hm ((dict.remove p.1).put p.1 ⟨some [p.2]⟩) (fun key => by
    by_cases hkey : key = p.1 <;> simp [hkey, hp])
  have hids : ∀ j r, s.hosts.get j = some r → (s.host r).id = j := fun j r hr => (h.registered j r hr).1
  have hreading := reading_readSchedulersFromZk s hids hread
  have hlast : (storedRoles ((dict.remove p.1).put p.1 ⟨some [p.2]⟩)).getLast? = some p := by
    simp [storedRoles, LinkedMap.entries_put_of_absent _ _ _ habsent]
  obtain ⟨l', hl', hleaf⟩ := hreading.last p hlast
  have hi := hview p.2.id
  rw [Heap.leafView, hl', map_some, Hierarchy.leafView, Heap.leafView] at hi
  obtain ⟨l, hl, hi⟩ := Option.map_eq_some_iff.1 hi.symm
  obtain ⟨o, ho⟩ := howned l ⟨_, hl⟩
  have howner : (H.scheduler l').owner = s.hosts.get p.1 := hleaf.owner
  have howners := (Prod.mk.inj hi).1
  rw [howner, show (s.heap.scheduler l).owner = some o from ho, map_some] at howners
  obtain ⟨r, hr, hid⟩ := Option.map_eq_some_iff.1 howners.symm
  refine ⟨l, o, hl, ho, ?_⟩
  rw [← hids p.1 r hr, ← show (H.host r).id = (s.host r).id from congrArg Prod.fst (hreading.data r)]
  exact hid.symm

/-- **When every leaf is stored, the dictionary mirrors the tree unless it holds a role of a leaf that is gone, or two
of one leaf.** -/
theorem mirrors_iff (h : s.Wf u) (hd : Legible dict)
    (hstored : ∀ l, s.IsLeaf l → ∃ o role children, s.shape.Stored (fun _ => false) dict l o role children) :
    s.Mirrors dict ↔ s.OfLeaves dict := by
  constructor
  · intro hm
    have howned : ∀ l, s.IsLeaf l → ∃ o, (s.scheduler l).owner = some o := by
      intro l hl
      obtain ⟨o, role, children, hst⟩ := hstored l hl
      exact ⟨o, hst.owner⟩
    refine ⟨fun p hp q hq hid => ?_, fun p hp hnone => ?_⟩
    · obtain ⟨l, o, hl, ho, hkey⟩ := hm.key_eq h hd howned hp
      obtain ⟨l', o', hl', ho', hkey'⟩ := hm.key_eq h hd howned hq
      rw [hid, hl'] at hl
      cases hl
      rw [ho'] at ho
      cases ho
      exact hkey.symm.trans hkey'
    · obtain ⟨l, o, hl, -⟩ := hm.key_eq h hd howned hp
      rw [hnone] at hl
      cases hl
  · intro hof roles hget
    have hlegible : Legible roles := fun key value hv => hd key value (hget key ▸ hv)
    obtain ⟨⟨leaves, H⟩, hread⟩ := ne_none_iff_exists'.1 (readSchedulersFromZk_ne_none hlegible s.heap s.hosts)
    refine ⟨leaves, H, hread, leafView_eq_of_ofLeaves h hlegible (hof.congr hget) (fun l hl => ?_) hread⟩
    obtain ⟨o, role, children, hst⟩ := hstored l hl
    exact ⟨o, role, children, { hst with entry := (hget _).trans hst.entry }⟩

end Hierarchy
end Photon.Chairman
