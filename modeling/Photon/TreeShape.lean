import Photon.TreeOps
/-!
# TreeShape — the links of a hierarchy, without its flags and constraints

A `Shape` is what is left of a hierarchy when only the links are kept: which hosts are registered, which leaves there
are, who is whose parent, member and owner.  On it the operations are record updates with a guard, and `Shape.Wf` is
the invariant they keep.  Objects that left the tree are still in the shape: the links between members and parents and
between owners and owned are required of every object, registered or not, so that nothing has to be said about when
an object is forgotten.
-/
namespace Photon.Chairman

open Keyed (KeyedList LinkedMap)

@[ext] structure Shape where
  hostId : HostRef → String
  parentScheduler : HostRef → Option SchedulerRef
  schedulers : HostRef → List SchedulerRef
  id : SchedulerRef → String
  children : SchedulerRef → LinkedMap String SchedulerRef
  members : SchedulerRef → LinkedMap String HostRef
  parent : SchedulerRef → Option SchedulerRef
  owner : SchedulerRef → Option HostRef
  hostCount : Nat
  schedulerCount : Nat
  hosts : LinkedMap String HostRef
  leafSchedulers : LinkedMap String SchedulerRef
  rootScheduler : SchedulerRef
  rootHost : HostRef

namespace Shape

def IsLeaf (t : Shape) (l : SchedulerRef) : Prop := ∃ i, t.leafSchedulers.get i = some l

/-- **The links of a tree fit together.** -/
structure Wf (u : Uuid) (t : Shape) : Prop where
  registered : ∀ i r, t.hosts.get i = some r → t.hostId r = i ∧ r.addr < t.hostCount ∧ r ≠ t.rootHost
  /-- The leaf map and the root's children are the same map. -/
  leaf_child : ∀ i, t.leafSchedulers.get i = (t.children t.rootScheduler).get i
  leaf_id : ∀ i l, t.leafSchedulers.get i = some l → t.id l = i
  leaf_parent : ∀ l, t.IsLeaf l → t.parent l = some t.rootScheduler
  leaf_alloc : ∀ l, t.IsLeaf l → l.addr < t.schedulerCount
  leaf_children : ∀ l, t.IsLeaf l → t.children l = LinkedMap.empty
  /-- Members and parents are each other's converse, for every object. -/
  member : ∀ l i r, (t.members l).get i = some r → t.hostId r = i ∧ t.parentScheduler r = some l
  parent_member : ∀ r l, t.parentScheduler r = some l → (t.members l).get (t.hostId r) = some r
  /-- So are owners and the schedulers they own. -/
  owner_iff : ∀ l r, t.owner l = some r ↔ l ∈ t.schedulers r
  schedulers_nodup : ∀ r, (t.schedulers r).Nodup
  member_registered : ∀ l i r, t.IsLeaf l → (t.members l).get i = some r → t.hosts.get i = some r
  parent_leaf : ∀ i r l, t.hosts.get i = some r → t.parentScheduler r = some l → t.IsLeaf l
  owner_parent : ∀ l r, t.IsLeaf l → t.owner l = some r → t.parentScheduler r = some l
  owned_leaf : ∀ i r l, t.hosts.get i = some r → l ∈ t.schedulers r → t.IsLeaf l
  root_id : t.id t.rootScheduler = rootSchedulerId
  root_parent : t.parent t.rootScheduler = none
  root_owner : t.owner t.rootScheduler = some t.rootHost
  root_members : ∀ i, (t.members t.rootScheduler).get i = none
  root_alloc : t.rootScheduler.addr < t.schedulerCount
  rootHost_id : t.hostId t.rootHost = rootSchedulerHostId
  rootHost_schedulers : ∀ l, l ∈ t.schedulers t.rootHost → l = t.rootScheduler
  rootHost_parent : t.parentScheduler t.rootHost = none
  rootHost_alloc : t.rootHost.addr < t.hostCount
  fresh_host : ∀ r, t.hostCount ≤ r.addr → t.parentScheduler r = none ∧ t.schedulers r = []
  fresh_scheduler : ∀ l, t.schedulerCount ≤ l.addr → t.members l = LinkedMap.empty ∧ t.owner l = none
  fresh_id : ∀ n i l, t.schedulerCount ≤ n → t.leafSchedulers.get i = some l → i ≠ u.gen n

namespace Wf

variable {u : Uuid} {t : Shape}

variable {l : SchedulerRef}

theorem leaf_ne_root (h : t.Wf u) (hl : t.IsLeaf l) : l ≠ t.rootScheduler := by
  rintro rfl
  have := h.leaf_parent _ hl
  rw [h.root_parent] at this
  cases this

theorem leaf_iff (h : t.Wf u) (l : SchedulerRef) : t.IsLeaf l ↔ t.leafSchedulers.get (t.id l) = some l := by
  constructor
  · rintro ⟨i, hi⟩
    rw [h.leaf_id i l hi]
    exact hi
  · intro hi
    exact ⟨_, hi⟩

theorem member_unique (h : t.Wf u) {m : SchedulerRef} {i j : String} {r : HostRef}
    (hl : (t.members l).get i = some r) (hm : (t.members m).get j = some r) : l = m := by
  have h1 := (h.member l i r hl).2
  have h2 := (h.member m j r hm).2
  rw [h1] at h2
  exact Option.some.inj h2

theorem owned_eq_parent (h : t.Wf u) {i : String} {r : HostRef} (hr : t.hosts.get i = some r)
    (hl : l ∈ t.schedulers r) : t.parentScheduler r = some l :=
  h.owner_parent l r (h.owned_leaf i r l hr hl) ((h.owner_iff l r).2 hl)

end Wf

/-! ## The updates -/

def register (t : Shape) (i : String) : Shape :=
  { t with hostId := fun x => if x = ⟨t.hostCount⟩ then i else t.hostId x
           parentScheduler := fun x => if x = ⟨t.hostCount⟩ then none else t.parentScheduler x
           schedulers := fun x => if x = ⟨t.hostCount⟩ then [] else t.schedulers x
           hosts := t.hosts.put i ⟨t.hostCount⟩
           hostCount := t.hostCount + 1 }

def forget (t : Shape) (i : String) (r : HostRef) : Shape :=
  { t with hosts := t.hosts.remove i
           parentScheduler := fun x => if x = r then none else t.parentScheduler x
           schedulers := fun x => if x = r then [] else t.schedulers x
           members := fun y => if t.parentScheduler r = some y then (t.members y).remove (t.hostId r) else t.members y
           owner := fun y => if t.parentScheduler r = some y ∧ t.owner y = some r then none else t.owner y }

def attach (t : Shape) (l : SchedulerRef) (r : HostRef) : Shape :=
  { t with parentScheduler := fun x => if x = r then some l else t.parentScheduler x
           members := fun y => if y = l then (t.members y).put (t.hostId r) r else t.members y }

def reattach (t : Shape) (l : SchedulerRef) (r : HostRef) : Shape :=
  { t with members := fun y => if y = l then ((t.members y).remove (t.hostId r)).put (t.hostId r) r else t.members y }

def addLeaf (t : Shape) (i : String) : Shape :=
  { t with id := fun y => if y = ⟨t.schedulerCount⟩ then i else t.id y
           children := fun y => if y = ⟨t.schedulerCount⟩ then LinkedMap.empty
             else if y = t.rootScheduler then (t.children y).put i ⟨t.schedulerCount⟩ else t.children y
           members := fun y => if y = ⟨t.schedulerCount⟩ then LinkedMap.empty else t.members y
           parent := fun y => if y = ⟨t.schedulerCount⟩ then some t.rootScheduler else t.parent y
           owner := fun y => if y = ⟨t.schedulerCount⟩ then none else t.owner y
           leafSchedulers := t.leafSchedulers.put i ⟨t.schedulerCount⟩
           schedulerCount := t.schedulerCount + 1 }

def own (t : Shape) (l : SchedulerRef) (r : HostRef) : Shape :=
  { t with schedulers := fun x =>
             let kept := if t.owner l = some x then (t.schedulers x).filter (fun m => m ≠ l) else t.schedulers x
             if some r = some x then (if l ∈ kept then kept else kept ++ [l]) else kept
           owner := fun y => if y = l then some r else t.owner y }

def dropLeaf (t : Shape) (l : SchedulerRef) : Shape :=
  { t with hosts := t.hosts.removeAll (t.members l).keys
           children := fun y => if y = t.rootScheduler then (t.children y).remove (t.id l) else t.children y
           parent := fun y => if y = l then none else t.parent y
           leafSchedulers := t.leafSchedulers.remove (t.id l) }

/-! ## What they keep -/

theorem isLeaf_addLeaf (t : Shape) (i : String) (hi : t.leafSchedulers.get i = none) (l : SchedulerRef) :
    (t.addLeaf i).IsLeaf l ↔ l = ⟨t.schedulerCount⟩ ∨ t.IsLeaf l := by
  simp only [IsLeaf, addLeaf, LinkedMap.get_put]
  constructor
  · rintro ⟨j, hj⟩
    split at hj
    · exact .inl (Option.some.inj hj).symm
    · exact .inr ⟨j, hj⟩
  · rintro (rfl | ⟨j, hj⟩)
    · exact ⟨i, if_pos rfl⟩
    · refine ⟨j, ?_⟩
      rw [if_neg, hj]
      rintro rfl
      rw [hi] at hj
      cases hj

theorem mem_schedulers_own (t : Shape) (l m : SchedulerRef) (r x : HostRef) :
    m ∈ (t.own l r).schedulers x ↔ (m ∈ t.schedulers x ∧ (m ≠ l ∨ t.owner l ≠ some x)) ∨ (m = l ∧ x = r) := by
  simp only [own, Option.some.injEq]
  by_cases ho : t.owner l = some x <;> by_cases hx : r = x <;> grind

namespace Wf

variable {u : Uuid} {t : Shape}

variable {l : SchedulerRef}

theorem isLeaf_dropLeaf (h : t.Wf u) (hl : t.IsLeaf l) (m : SchedulerRef) :
    (t.dropLeaf l).IsLeaf m ↔ t.IsLeaf m ∧ m ≠ l := by
  have hlid := (h.leaf_iff l).1 hl
  simp only [IsLeaf, Shape.dropLeaf, LinkedMap.get_remove]
  constructor
  · rintro ⟨j, hj⟩
    split at hj
    · cases hj
    · rename_i hne
      refine ⟨⟨j, hj⟩, ?_⟩
      rintro rfl
      exact hne (h.leaf_id j _ hj).symm
  · rintro ⟨⟨j, hj⟩, hne⟩
    refine ⟨j, ?_⟩
    rw [if_neg, hj]
    rintro rfl
    rw [hlid] at hj
    exact hne (Option.some.inj hj).symm

variable {i : String} {r : HostRef}

section

variable (h : t.Wf u)
include h

theorem member_ne_next (hm : (t.members l).get i = some r) : r ≠ ⟨t.hostCount⟩ := by
  rintro rfl
  have hp := (h.member l i _ hm).2
  rw [(h.fresh_host ⟨t.hostCount⟩ (le_refl _)).1] at hp
  cases hp

theorem registered_ne_next (hr : t.hosts.get i = some r) : r ≠ ⟨t.hostCount⟩ := by
  rintro rfl
  exact Nat.lt_irrefl _ (h.registered i _ hr).2.1

theorem owner_ne_next (ho : t.owner l = some r) : r ≠ ⟨t.hostCount⟩ := by
  rintro rfl
  have hl := (h.owner_iff l _).1 ho
  rw [(h.fresh_host ⟨t.hostCount⟩ (le_refl _)).2] at hl
  cases hl

theorem rootHost_ne_next : t.rootHost ≠ ⟨t.hostCount⟩ := by
  intro he
  have := h.rootHost_alloc
  rw [he] at this
  exact Nat.lt_irrefl _ this

theorem register (i : String) (hi : t.hosts.get i = none) : (t.register i).Wf u :=
  { h with
    registered := by
      intro j r hr
      have := h.rootHost_ne_next
      have := h.registered j r
      have := h.registered_ne_next (i := j) (r := r)
      grind [Shape.register]
    member := by
      intro l j r hm
      have := h.member_ne_next hm
      have := h.member l j r hm
      grind [Shape.register]
    parent_member := by
      intro r l hp
      have := h.parent_member r l
      grind [Shape.register]
    owner_iff := by
      intro l r
      have := h.owner_iff l r
      have := h.owner_ne_next (l := l) (r := r)
      grind [Shape.register]
    schedulers_nodup := by
      intro r
      have := h.schedulers_nodup r
      grind [Shape.register]
    member_registered := by
      intro l j r hl hm
      have := h.member_registered l j r hl hm
      grind [Shape.register]
    parent_leaf := by
      intro j r l hr hp
      show t.IsLeaf l
      have := h.parent_leaf j r l
      grind [Shape.register]
    owner_parent := by
      intro l r hl ho
      have := h.owner_ne_next ho
      have := h.owner_parent l r hl ho
      grind [Shape.register]
    owned_leaf := by
      intro j r l hr hl
      show t.IsLeaf l
      have := h.owned_leaf j r l
      grind [Shape.register]
    rootHost_id := by
      have := h.rootHost_id
      grind [Shape.register, h.rootHost_ne_next]
    rootHost_schedulers := by
      intro l hl
      have := h.rootHost_schedulers l
      grind [Shape.register, h.rootHost_ne_next]
    rootHost_parent := by
      have := h.rootHost_parent
      grind [Shape.register]
    rootHost_alloc := Nat.lt_succ_of_lt h.rootHost_alloc
    fresh_host := by
      intro r hr
      have := h.fresh_host r (Nat.le_of_succ_le hr)
      grind [Shape.register] }

theorem parent_ne_root (hr : t.hosts.get i = some r) : t.parentScheduler r ≠ some t.rootScheduler := by
  intro hp
  exact h.leaf_ne_root (h.parent_leaf i r _ hr hp) rfl

theorem parent_alloc (hp : t.parentScheduler r = some l) : l.addr < t.schedulerCount := by
  by_contra hl
  have hm := h.parent_member r l hp
  rw [(h.fresh_scheduler l (Nat.le_of_not_lt hl)).1] at hm
  cases hm

end

variable {r : HostRef} {i : String}

theorem forget (h : t.Wf u) (hr : t.hosts.get i = some r) : (t.forget i r).Wf u :=
  have hreg := h.registered i r hr
  { h with
    registered := by
      intro j x hx
      have := h.registered j x
      grind [Shape.forget]
    member := by
      intro l j x hm
      have := h.member l j x
      grind [Shape.forget]
    parent_member := by
      intro x l hp
      have := h.parent_member x l
      have := h.parent_member r l
      grind [Shape.forget]
    owner_iff := by
      intro l x
      have := h.owner_iff l x
      have := h.owned_eq_parent hr (l := l)
      grind [Shape.forget]
    schedulers_nodup := by
      intro x
      have := h.schedulers_nodup x
      grind [Shape.forget]
    member_registered := by
      intro l j x hl hm
      have := h.member_registered l j x hl
      have := h.member l j x
      grind [Shape.forget]
    parent_leaf := by
      intro j x l hx hp
      show t.IsLeaf l
      have := h.parent_leaf j x l
      grind [Shape.forget]
    owner_parent := by
      intro l x hl ho
      have := h.owner_parent l x hl
      grind [Shape.forget]
    owned_leaf := by
      intro j x l hx hl
      show t.IsLeaf l
      have := h.owned_leaf j x l
      grind [Shape.forget]
    root_owner := by
      have := h.root_owner
      have := h.parent_ne_root hr
      grind [Shape.forget]
    root_members := by
      intro j
      have := h.root_members j
      have := h.parent_ne_root hr
      grind [Shape.forget]
    rootHost_schedulers := by
      intro l hl
      have := h.rootHost_schedulers l
      grind [Shape.forget]
    rootHost_parent := by
      have := h.rootHost_parent
      grind [Shape.forget]
    fresh_host := by
      intro x hx
      have := h.fresh_host x hx
      grind [Shape.forget]
    fresh_scheduler := by
      intro l hl
      have := h.fresh_scheduler l hl
      have := h.parent_alloc (r := r) (l := l)
      grind [Shape.forget] }

theorem staged_owns_nothing (h : t.Wf u) (hr : t.hosts.get i = some r)
    (hp : t.parentScheduler r = none) : t.schedulers r = [] := by
  rw [List.eq_nil_iff_forall_not_mem]
  intro m hm
  rw [h.owned_eq_parent hr hm] at hp
  cases hp

theorem staged_absent (h : t.Wf u) (hr : t.hosts.get i = some r)
    (hp : t.parentScheduler r = none) (hl : t.IsLeaf l) : (t.members l).get (t.hostId r) = none := by
  cases hg : (t.members l).get (t.hostId r) with
  | none => rfl
  | some x =>
    have hx := h.member_registered l _ x hl hg
    rw [(h.registered i r hr).1, hr] at hx
    cases hx
    rw [(h.member l _ r hg).2] at hp
    cases hp

variable {l : SchedulerRef}

variable (h : t.Wf u)
include h

theorem attach (hr : t.hosts.get i = some r) (hp : t.parentScheduler r = none) (hl : t.IsLeaf l) :
    (t.attach l r).Wf u :=
  have hreg := h.registered i r hr
  have hroot := h.leaf_ne_root hl
  { h with
    member := by
      intro m j x hm
      have := h.member m j x
      grind [Shape.attach]
    parent_member := by
      intro x m hx
      -- another host of the leaf with the same id would be the registered one
      have := h.parent_member x m
      have := h.member_registered l (t.hostId r) x hl
      grind [Shape.attach]
    member_registered := by
      intro m j x hm hx
      have := h.member_registered m j x hm
      grind [Shape.attach]
    parent_leaf := by
      intro j x m hx hm
      show t.IsLeaf m
      have := h.parent_leaf j x m hx
      grind [Shape.attach]
    owner_parent := by
      intro m x hm ho
      have := h.owner_parent m x hm ho
      grind [Shape.attach]
    root_members := by
      intro j
      have := h.root_members j
      grind [Shape.attach]
    rootHost_parent := by
      have := h.rootHost_parent
      grind [Shape.attach]
    fresh_host := by
      intro x hx
      have := h.fresh_host x hx
      grind [Shape.attach]
    fresh_scheduler := by
      intro m hm
      have := h.fresh_scheduler m hm
      have := h.leaf_alloc l hl
      grind [Shape.attach] }

theorem reattach (hr : t.hosts.get i = some r) (hp : t.parentScheduler r = some l) : (t.reattach l r).Wf u :=
  have hl := h.parent_leaf i r l hr hp
  have hreg := h.registered i r hr
  have hself := h.parent_member r l hp
  have hroot := h.leaf_ne_root hl
  { h with
    member := by
      intro m j x hm
      have := h.member m j x
      grind [Shape.reattach]
    parent_member := by
      intro x m hx
      have := h.parent_member x m hx
      grind [Shape.reattach]
    member_registered := by
      intro m j x hm hx
      have := h.member_registered m j x hm
      grind [Shape.reattach]
    root_members := by
      intro j
      have := h.root_members j
      grind [Shape.reattach]
    fresh_scheduler := by
      intro m hm
      have := h.fresh_scheduler m hm
      have := h.leaf_alloc l hl
      grind [Shape.reattach] }

theorem next_id_free : t.leafSchedulers.get (u.gen t.schedulerCount) = none := by
  cases hg : t.leafSchedulers.get (u.gen t.schedulerCount) with
  | none => rfl
  | some l => exact absurd rfl (h.fresh_id t.schedulerCount _ l (le_refl _) hg)

theorem addLeaf (hfree : t.leafSchedulers.get i = none)
    (hfresh : ∀ n, t.schedulerCount < n → i ≠ u.gen n) : (t.addLeaf i).Wf u :=
  have hroot : t.rootScheduler ≠ ⟨t.schedulerCount⟩ := by
    have := h.root_alloc
    grind
  have hnew := h.fresh_scheduler ⟨t.schedulerCount⟩ (le_refl _)
  have hleaf := t.isLeaf_addLeaf i hfree
  { h with
    leaf_child := by
      intro j
      have := h.leaf_child j
      grind [Shape.addLeaf]
    leaf_id := by
      intro j l hl
      have := h.leaf_id j l
      have := h.leaf_alloc l
      grind [Shape.addLeaf, IsLeaf]
    leaf_parent := by
      intro l hl
      have := h.leaf_parent l
      grind [Shape.addLeaf]
    leaf_alloc := by
      intro l hl
      have := h.leaf_alloc l
      grind [Shape.addLeaf]
    leaf_children := by
      intro l hl
      have := h.leaf_children l
      have := h.leaf_ne_root (l := l)
      grind [Shape.addLeaf]
    member := by
      intro l j r hm
      have := h.member l j r
      grind [Shape.addLeaf]
    parent_member := by
      intro r l hp
      have := h.parent_member r l hp
      have := h.parent_alloc hp
      grind [Shape.addLeaf]
    owner_iff := by
      intro l r
      have := h.owner_iff l r
      grind [Shape.addLeaf]
    member_registered := by
      intro l j r hl hm
      have := h.member_registered l j r
      grind [Shape.addLeaf]
    parent_leaf := by
      intro j r l hr hp
      exact (hleaf l).2 (.inr (h.parent_leaf j r l hr hp))
    owner_parent := by
      intro l r hl ho
      have := h.owner_parent l r
      grind [Shape.addLeaf]
    owned_leaf := by
      intro j r l hr hl
      exact (hleaf l).2 (.inr (h.owned_leaf j r l hr hl))
    root_id := by
      have := h.root_id
      grind [Shape.addLeaf]
    root_parent := by
      have := h.root_parent
      grind [Shape.addLeaf]
    root_owner := by
      have := h.root_owner
      grind [Shape.addLeaf]
    root_members := by
      intro j
      have := h.root_members j
      grind [Shape.addLeaf]
    root_alloc := Nat.lt_succ_of_lt h.root_alloc
    fresh_scheduler := by
      intro l hl
      have := h.fresh_scheduler l (Nat.le_of_succ_le hl)
      grind [Shape.addLeaf]
    fresh_id := by
      intro n j l hn hl
      have := h.fresh_id n j l (Nat.le_of_succ_le hn)
      have := hfresh n hn
      grind [Shape.addLeaf] }

theorem own (hl : t.IsLeaf l) (hp : t.parentScheduler r = some l) : (t.own l r).Wf u :=
  have hroot := h.leaf_ne_root hl
  have hrp := h.rootHost_parent
  have hmem := t.mem_schedulers_own l
  { h with
    owner_iff := by
      intro m x
      rw [hmem]
      have := h.owner_iff m x
      grind [Shape.own]
    schedulers_nodup := by
      intro x
      have := h.schedulers_nodup x
      have := (h.schedulers_nodup x).filter (fun m => decide (m ≠ l))
      grind [Shape.own]
    owner_parent := by
      intro m x hm ho
      have := h.owner_parent m x hm
      grind [Shape.own]
    owned_leaf := by
      intro j x m hx hm
      have := h.owned_leaf j x m hx
      have := (hmem m r x).1 hm
      show t.IsLeaf m
      grind
    root_owner := by
      have := h.root_owner
      grind [Shape.own]
    rootHost_schedulers := by
      intro m hm
      have := h.rootHost_schedulers m
      have := (hmem m r t.rootHost).1 hm
      show m = t.rootScheduler
      grind
    fresh_host := by
      intro x hx
      have hfx := h.fresh_host x hx
      refine ⟨hfx.1, ?_⟩
      rw [List.eq_nil_iff_forall_not_mem]
      intro m hm
      have := (hmem m r x).1 hm
      grind
    fresh_scheduler := by
      intro m hm
      have := h.fresh_scheduler m hm
      have := h.leaf_alloc l hl
      grind [Shape.own] }

theorem dropLeaf (hl : t.IsLeaf l) : (t.dropLeaf l).Wf u :=
  have hleaf := h.isLeaf_dropLeaf hl
  have hroot := h.leaf_ne_root hl
  have hkeys := fun j => (t.members l).mem_keys_iff (k := j)
  { h with
    registered := by
      intro j x hx
      have := h.registered j x
      grind [Shape.dropLeaf]
    leaf_child := by
      intro j
      have := h.leaf_child j
      grind [Shape.dropLeaf]
    leaf_id := by
      intro j m hm
      have := h.leaf_id j m
      grind [Shape.dropLeaf]
    leaf_parent := by
      intro m hm
      have := h.leaf_parent m
      grind [Shape.dropLeaf]
    leaf_alloc := by
      intro m hm
      exact h.leaf_alloc m ((hleaf m).1 hm).1
    leaf_children := by
      intro m hm
      have := h.leaf_children m
      have := h.leaf_ne_root (l := m)
      grind [Shape.dropLeaf]
    member_registered := by
      intro m j x hm hx
      -- the id of a member of `m` is not the id of a member of `l`, or the host would be in both
      have hxm : (t.members m).get j = some x := hx
      have hj : j ∉ (t.members l).keys := by
        intro hj
        obtain ⟨y, hy⟩ := (hkeys j).1 hj
        have h1 := h.member_registered l j y hl hy
        rw [h.member_registered m j x ((hleaf m).1 hm).1 hxm] at h1
        cases h1
        exact ((hleaf m).1 hm).2 (h.member_unique hxm hy)
      show (t.hosts.removeAll (t.members l).keys).get j = some x
      rw [LinkedMap.get_removeAll, if_neg hj]
      exact h.member_registered m j x ((hleaf m).1 hm).1 hxm
    parent_leaf := by
      intro j x m hx hm
      have := h.parent_leaf j x m
      have := h.parent_member x m hm
      have := h.registered j x
      have := hkeys j
      grind [Shape.dropLeaf]
    owner_parent := by
      intro m x hm ho
      exact h.owner_parent m x ((hleaf m).1 hm).1 ho
    owned_leaf := by
      intro j x m hx hm
      have := h.owned_leaf j x m
      have := h.owned_eq_parent (i := j) (r := x) (l := m)
      have := h.parent_member x m
      have := h.registered j x
      have := hkeys j
      grind [Shape.dropLeaf]
    root_parent := by
      have := h.root_parent
      grind [Shape.dropLeaf]
    fresh_id := by
      intro n j m hn hm
      have := h.fresh_id n j m hn
      grind [Shape.dropLeaf] }

end Wf

/-! ## The empty tree -/

def initial : Shape where
  hostId := fun x => if x = ⟨0⟩ then rootSchedulerHostId else ""
  parentScheduler := fun _ => none
  schedulers := fun x => if x = ⟨0⟩ then [⟨0⟩] else []
  id := fun y => if y = ⟨0⟩ then rootSchedulerId else ""
  children := fun _ => LinkedMap.empty
  members := fun _ => LinkedMap.empty
  parent := fun _ => none
  owner := fun y => if y = ⟨0⟩ then some ⟨0⟩ else none
  hostCount := 1
  schedulerCount := 1
  hosts := LinkedMap.empty
  leafSchedulers := LinkedMap.empty
  rootScheduler := ⟨0⟩
  rootHost := ⟨0⟩

theorem wf_initial (u : Uuid) : initial.Wf u := by
  have hleaf : ∀ l, ¬ initial.IsLeaf l := by
    rintro l ⟨i, hi⟩
    cases hi
  constructor
  case leaf_parent => exact fun l hl => absurd hl (hleaf l)
  case leaf_alloc => exact fun l hl => absurd hl (hleaf l)
  case leaf_children => exact fun l hl => absurd hl (hleaf l)
  case member_registered => exact fun l _ _ hl => absurd hl (hleaf l)
  case owner_parent => exact fun l _ hl => absurd hl (hleaf l)
  case fresh_host =>
    intro r hr
    have hne : r ≠ ⟨0⟩ := by rintro rfl; exact absurd hr (by decide)
    simp [initial, hne]
  case fresh_scheduler =>
    intro l hl
    have hne : l ≠ ⟨0⟩ := by rintro rfl; exact absurd hl (by decide)
    simp [initial, hne]
  case schedulers_nodup =>
    intro r
    simp only [initial]
    split <;> simp
  case owner_iff =>
    intro l r
    simp only [initial]
    by_cases hl : l = ⟨0⟩ <;> by_cases hr : r = ⟨0⟩ <;> simp [hl, hr, eq_comm]
  all_goals simp [initial]

/-! ## Room -/

structure Fits (t : Shape) (rootFanout leafFanout : Nat) : Prop where
  leaves : t.leafSchedulers.size ≤ rootFanout
  members : ∀ l, t.IsLeaf l → (t.members l).size ≤ leafFanout

namespace Fits

variable {t : Shape} {rootFanout leafFanout : Nat}

section

variable (h : t.Fits rootFanout leafFanout)
include h

theorem forget (i : String) (r : HostRef) : (t.forget i r).Fits rootFanout leafFanout where
  leaves := h.leaves
  members := by
    intro l hl
    simp only [Shape.forget]
    split
    · exact le_trans (LinkedMap.size_remove_le _ _) (h.members l hl)
    · exact h.members l hl

theorem attach {l : SchedulerRef} (r : HostRef) (hroom : (t.members l).size < leafFanout) :
    (t.attach l r).Fits rootFanout leafFanout where
  leaves := h.leaves
  members := by
    intro m hm
    simp only [Shape.attach]
    split
    · rename_i hml
      subst hml
      rw [LinkedMap.size_put]
      split
      · exact h.members m hm
      · exact hroom
    · exact h.members m hm

theorem reattach {l : SchedulerRef} {r : HostRef}
    (hm : (t.members l).get (t.hostId r) = some r) : (t.reattach l r).Fits rootFanout leafFanout where
  leaves := h.leaves
  members := by
    intro m hl
    simp only [Shape.reattach]
    split
    · rename_i hml
      subst hml
      rw [LinkedMap.size_put]
      simp only [LinkedMap.get_remove, if_true, Option.isSome_none, Bool.false_eq_true, if_false]
      rw [LinkedMap.size_remove_add_one _ _ r hm]
      exact h.members m hl
    · exact h.members m hl

theorem addLeaf (i : String) (hroom : t.leafSchedulers.size < rootFanout) :
    (t.addLeaf i).Fits rootFanout leafFanout where
  leaves := by
    simp only [Shape.addLeaf]
    rw [LinkedMap.size_put]
    split
    · exact h.leaves
    · exact hroom
  members := by
    rintro l ⟨j, hj⟩
    simp only [Shape.addLeaf, LinkedMap.get_put] at hj ⊢
    split
    · exact Nat.zero_le _
    · rename_i hne
      split at hj
      · exact absurd (Option.some.inj hj).symm hne
      · exact h.members l ⟨j, hj⟩

end

theorem dropLeaf {u : Uuid} (h : t.Fits rootFanout leafFanout) (hw : t.Wf u) {l : SchedulerRef} (hl : t.IsLeaf l) :
    (t.dropLeaf l).Fits rootFanout leafFanout where
  leaves := le_trans (LinkedMap.size_remove_le _ _) h.leaves
  members := fun m hm => h.members m ((hw.isLeaf_dropLeaf hl m).1 hm).1

end Fits

/-! ## Steps -/

section

variable (u : Uuid) (rootFanout leafFanout : Nat) (matched : SchedulerRef → HostRef → Prop) (t : Shape)

/-- **What a step does to the links**: an update, where it may be made; `matched` are the hosts a leaf can take. -/
inductive Move : Shape → Prop
  | stay : Move t
  | register (i : String) (hfree : t.hosts.get i = none) : Move (t.register i)
  | forget (i : String) (r : HostRef) (hr : t.hosts.get i = some r) : Move (t.forget i r)
  | attach (i : String) (r : HostRef) (l : SchedulerRef) (hr : t.hosts.get i = some r)
      (hstaged : t.parentScheduler r = none)
      (hl : t.IsLeaf l) (hroom : (t.members l).size < leafFanout) (hmatch : matched l r) : Move (t.attach l r)
  | addLeaf (hroom : t.leafSchedulers.size < rootFanout) : Move (t.addLeaf (u.gen t.schedulerCount))
  | own (l : SchedulerRef) (r : HostRef) (hl : t.IsLeaf l) (hr : t.parentScheduler r = some l) : Move (t.own l r)
  | dropLeaf (l : SchedulerRef) (hl : t.IsLeaf l) : Move (t.dropLeaf l)
  | reattach (i : String) (r : HostRef) (l : SchedulerRef) (hr : t.hosts.get i = some r)
      (hp : t.parentScheduler r = some l) : Move (t.reattach l r)

end

variable {u : Uuid} {rootFanout leafFanout : Nat} {matched : SchedulerRef → HostRef → Prop} {t t' : Shape}

variable (hmove : Move u rootFanout leafFanout matched t t')
include hmove

theorem Move.wf (h : t.Wf u) : t'.Wf u := by
  cases hmove with
  | stay => exact h
  | register i hfree => exact h.register i hfree
  | forget i r hr => exact h.forget hr
  | attach i r l hr hstaged hl => exact h.attach hr hstaged hl
  | addLeaf => exact h.addLeaf h.next_id_free fun n hn he => Nat.ne_of_lt hn (u.inj _ _ he)
  | own l r hl hr => exact h.own hl hr
  | dropLeaf l hl => exact h.dropLeaf hl
  | reattach i r l hr hp => exact h.reattach hr hp

theorem Move.fits (h : t.Wf u) (hf : t.Fits rootFanout leafFanout) : t'.Fits rootFanout leafFanout := by
  cases hmove with
  | stay => exact hf
  | register i hfree => exact ⟨hf.leaves, hf.members⟩
  | forget i r => exact hf.forget i r
  | attach i r l hr hstaged hl hroom => exact hf.attach r hroom
  | addLeaf hroom => exact hf.addLeaf _ hroom
  | own l r => exact ⟨hf.leaves, hf.members⟩
  | dropLeaf l hl => exact hf.dropLeaf h hl
  | reattach i r l hr hp => exact hf.reattach (h.parent_member r l hp)

theorem Move.id_eq {l : SchedulerRef} (hl : l ≠ ⟨t.schedulerCount⟩) : t'.id l = t.id l := by
  cases hmove with
  | addLeaf hroom => exact if_neg hl
  | _ => rfl

theorem Move.member_origin (h : t.Wf u) : ∃ r₀, ∀ l i r, t'.IsLeaf l → (t'.members l).get i = some r →
      t.IsLeaf l ∧ ((t.members l).get i = some r ∨ r = r₀ ∧ r₀ ≠ ⟨t.hostCount⟩ ∧ matched l r₀) := by
  cases hmove with
  | stay | register i hfree | own l r => exact ⟨t.rootHost, fun l i r hl hm => ⟨hl, .inl hm⟩⟩
  | forget j x hx =>
    refine ⟨t.rootHost, fun l i r hl hm => ⟨hl, .inl ?_⟩⟩
    simp only [Shape.forget] at hm
    split at hm
    · exact LinkedMap.get_of_get_remove hm
    · exact hm
  | attach j r₀ l₀ hr hstaged hl₀ hroom hmatch =>
    refine ⟨r₀, fun l i r hl hm => ⟨hl, ?_⟩⟩
    simp only [Shape.attach] at hm
    split at hm
    · rename_i hll
      subst hll
      rcases LinkedMap.get_put_cases hm with ⟨-, hr₀⟩ | ⟨-, hm⟩
      · exact .inr ⟨hr₀.symm, h.registered_ne_next hr, hmatch⟩
      · exact .inl hm
    · exact .inl hm
  | addLeaf hroom =>
    refine ⟨t.rootHost, fun l i r hl hm => ?_⟩
    have hleaf := (t.isLeaf_addLeaf _ h.next_id_free l).1 hl
    simp only [Shape.addLeaf] at hm
    split at hm
    · cases hm
    · rename_i hne
      exact ⟨hleaf.resolve_left hne, .inl hm⟩
  | dropLeaf l₀ hl₀ => exact ⟨t.rootHost, fun l i r hl hm => ⟨((h.isLeaf_dropLeaf hl₀ l).1 hl).1, .inl hm⟩⟩
  | reattach j x l₀ hx hp =>
    refine ⟨t.rootHost, fun l i r hl hm => ⟨hl, .inl ?_⟩⟩
    simp only [Shape.reattach] at hm
    split at hm
    · rename_i hll
      subst hll
      rcases LinkedMap.get_put_cases hm with ⟨rfl, rfl⟩ | ⟨-, hm⟩
      · exact h.parent_member x l hp
      · exact LinkedMap.get_of_get_remove hm
    · exact hm

end Shape
end Photon.Chairman
