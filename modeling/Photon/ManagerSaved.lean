import Photon.ManagerInit
/-!
# ManagerSaved — which leaves are stored in `/roles`

A leaf that has an owner and no dirty member is one whose roles are stored (`Shape.Saved`): whatever changes a leaf
takes its owner away or dirties a member of it.  This is kept by every step of the hierarchy, without any condition,
since a dirty host is all it takes to be excused.  What a leaf that is gone has left in `/roles` is not spoken of.
-/
namespace Photon.Chairman

open Keyed (LinkedMap)

namespace Shape

/-- The leaf may differ from what is stored: it has no owner, or a dirty member. -/
def Unsaved (t : Shape) (d : HostRef → Bool) (l : SchedulerRef) : Prop :=
  t.owner l = none ∨ ∃ i r, (t.members l).get i = some r ∧ d r = true

/-- What is stored under the owner of the leaf is the leaf: its id and, among the hosts that are registered and not
dirty, its members. -/
structure Stored (t : Shape) (d : HostRef → Bool) (roles : LinkedMap String Roles) (l : SchedulerRef) (o : HostRef)
    (role : SchedulerRole) (children : List String) : Prop where
  owner : t.owner l = some o
  entry : roles.get (t.hostId o) = some ⟨some [role]⟩
  id : role.id = t.id l
  hosts : role.hosts = some children
  listed : ∀ i r, (t.members l).get i = some r → i ∈ children
  member : ∀ i r, i ∈ children → t.hosts.get i = some r → d r = false → t.parentScheduler r = some l

variable {l : SchedulerRef}

theorem Stored.mono {t : Shape} {d d' : HostRef → Bool} {roles : LinkedMap String Roles} {o : HostRef}
    {role : SchedulerRole} {children : List String} (h : t.Stored d roles l o role children)
    (hd : ∀ i r, t.hosts.get i = some r → d' r = false → d r = false) : t.Stored d' roles l o role children :=
  { h with member := fun i r hi hr hd' => h.member i r hi hr (hd i r hr hd') }

/-- **Every leaf is stored, or may differ from what is.** -/
def Saved (t : Shape) (d : HostRef → Bool) (roles : LinkedMap String Roles) : Prop :=
  ∀ l, t.IsLeaf l → t.Unsaved d l ∨ ∃ o role children, t.Stored d roles l o role children

variable {u : Uuid} {t t' : Shape} {d d' : HostRef → Bool} {roles : LinkedMap String Roles}

/-- A step that takes the owner of a leaf away, or leaves it a member and marks it, leaves the leaf unsaved. -/
theorem Wf.unsaved_of_owner (h : t.Wf u) (hl : t.IsLeaf l) (hnone : t.owner l = none → t'.owner l = none)
    (hmarked : ∀ o, t.owner l = some o → o ≠ t.rootHost → (t.members l).get (t.hostId o) = some o →
      t'.owner l = none ∨ ((t'.members l).get (t.hostId o) = some o ∧ d' o = true)) : t'.Unsaved d' l := by
  cases ho : t.owner l with
  | none => exact .inl (hnone ho)
  | some o =>
    have hparent := h.owner_parent l o hl ho
    have hne : o ≠ t.rootHost := by
      intro heq
      rw [heq, h.rootHost_parent] at hparent
      cases hparent
    rcases hmarked o ho hne (h.parent_member o l hparent) with hgone | ⟨hmember, hdirty⟩
    · exact .inl hgone
    · exact .inr ⟨t.hostId o, o, hmember, hdirty⟩

/-- **A step that touches a leaf leaves it without an owner or with a dirty member.** -/
theorem Marks.leaf_kept (hm : Marks u t d t' d') (h : t.Wf u) (hl : t.IsLeaf l) :
    t'.Unsaved d' l ∨ (t'.id l = t.id l ∧ t'.owner l = t.owner l ∧ t'.members l = t.members l) := by
  have hroot := h.rootHost_parent
  cases hm with
  | register i d' hi hd => exact .inr ⟨rfl, rfl, rfl⟩
  | forget i r d' hr hd =>
    by_cases hp : t.parentScheduler r = some l
    · refine .inl (h.unsaved_of_owner hl (fun ho => by simp [Shape.forget, ho]) ?_)
      intro o ho hne hmember
      by_cases hor : o = r
      · exact .inl (by simp [Shape.forget, ho, hp, hor])
      · have hmine := h.parent_member r l hp
        refine .inr ⟨?_, (hd o hne).2 (.inr ⟨l, hp, ho⟩)⟩
        grind [Shape.forget]
    · exact .inr ⟨rfl, by simp [Shape.forget, hp], by simp [Shape.forget, hp]⟩
  | attach i r m d' hr hp hm hd =>
    by_cases hlm : l = m
    · subst hlm
      refine .inl (h.unsaved_of_owner hl (fun ho => ho) ?_)
      intro o ho hne hmember
      have habsent := h.staged_absent hr hp hl
      refine .inr ⟨?_, (hd o hne).2 (.inr ho)⟩
      grind [Shape.attach]
    · exact .inr ⟨rfl, rfl, by simp [Shape.attach, hlm]⟩
  | addLeaf d' hd =>
    have hne : l ≠ ⟨t.schedulerCount⟩ := by
      rintro rfl
      exact Nat.lt_irrefl _ (h.leaf_alloc _ hl)
    exact .inr ⟨by simp [Shape.addLeaf, hne], by simp [Shape.addLeaf, hne], by simp [Shape.addLeaf, hne]⟩
  | own m r d' hm hp hd =>
    by_cases hlm : l = m
    · subst hlm
      exact .inl (.inr ⟨t.hostId r, r, h.parent_member r l hp, (hd r (by grind)).2 (.inr (.inr rfl))⟩)
    · exact .inr ⟨rfl, by simp [Shape.own, hlm], rfl⟩
  | dropLeaf m d' hm hd => exact .inr ⟨rfl, rfl, rfl⟩
  | reattach i r m d' hr hp hd =>
    by_cases hlm : l = m
    · subst hlm
      refine .inl (h.unsaved_of_owner hl (fun ho => ho) ?_)
      intro o ho hne hmember
      have hmine := h.parent_member r l hp
      refine .inr ⟨?_, (hd o hne).2 (.inr ho)⟩
      grind [Shape.reattach]
    · exact .inr ⟨rfl, rfl, by simp [Shape.reattach, hlm]⟩
  | stay d' hd => exact .inr ⟨rfl, rfl, rfl⟩

variable {r : HostRef}

variable (hm : Marks u t d t' d')
include hm

theorem Marks.clean (h : t.Wf u) {i : String} (hr : t'.hosts.get i = some r) (hd' : d' r = false) :
    t.hosts.get i = some r ∧ d r = false ∧
    (t.parentScheduler r = none ∨ t'.parentScheduler r = t.parentScheduler r) := by
  have hroot := h.registered i r
  cases hm with
  | register j d' hj hd =>
    have := hd r
    have := h.rootHost_ne_next
    grind [Shape.register]
  | forget j x d' hx hd =>
    have := hd r
    have := h.registered j x
    grind [Shape.forget]
  | attach j x m d' hx hp hm hd =>
    have := hd r
    grind [Shape.attach]
  | addLeaf d' hd =>
    have := hd r
    grind [Shape.addLeaf]
  | own m x d' hm hp hd =>
    have := hd r
    grind [Shape.own]
  | dropLeaf m d' hm hd =>
    have := hd r
    grind [Shape.dropLeaf]
  | reattach j x m d' hx hp hd =>
    have := hd r
    grind [Shape.reattach]
  | stay d' hd =>
    have := hd r
    grind

theorem Marks.leaf_was (h : t.Wf u) (hl : t'.IsLeaf l) : t.IsLeaf l ∨ t'.owner l = none := by
  cases hm with
  | addLeaf d' hd =>
    rcases (t.isLeaf_addLeaf _ h.next_id_free l).1 hl with rfl | hl
    · exact .inr (by simp [Shape.addLeaf])
    · exact .inl hl
  | dropLeaf m d' hm hd => exact .inl ((h.isLeaf_dropLeaf hm l).1 hl).1
  | _ => exact .inl hl

theorem Marks.hostId_kept (hr : r.addr < t.hostCount) : t'.hostId r = t.hostId r := by
  cases hm with
  | register j d' hj hd =>
    have hne : r ≠ ⟨t.hostCount⟩ := by
      rintro rfl
      exact Nat.lt_irrefl _ hr
    simp [Shape.register, hne]
  | _ => rfl

/-- **Every step keeps the leaves saved.** -/
theorem Marks.saved (h : t.Wf u) (hs : t.Saved d roles) : t'.Saved d' roles := by
  intro l hl
  rcases hm.leaf_was h hl with hl | ho
  · rcases hm.leaf_kept h hl with hu | ⟨hid, howner, hmembers⟩
    · exact .inl hu
    · rcases hs l hl with (ho | ⟨i, r, hr, hd⟩) | ⟨o, role, children, hst⟩
      · exact .inl (.inl (howner.trans ho))
      · have hreg := h.registered i r (h.member_registered l i r hl hr)
        exact .inl (.inr ⟨i, r, by rw [hmembers]; exact hr, by
          cases hm <;> rename_i hraises <;> exact (hraises r hreg.2.2).2 (.inl hd)⟩)
      · have hop := h.owner_parent l o hl hst.owner
        have hoa := (h.registered _ o (h.member_registered l _ o hl (h.parent_member o l hop))).2.1
        refine .inr ⟨o, role, children, howner.trans hst.owner, ?_, hst.id.trans hid.symm, hst.hosts, ?_, ?_⟩
        · rw [hm.hostId_kept hoa]
          exact hst.entry
        · rw [hmembers]
          exact hst.listed
        · intro i r hi hr hd'
          obtain ⟨hr, hd, hp⟩ := hm.clean h hr hd'
          have hparent := hst.member i r hi hr hd
          rcases hp with hp | hp
          · rw [hp] at hparent
            cases hparent
          · exact hp.trans hparent
  · exact .inl (.inl ho)

end Shape

/-! ## What a manager stores -/

/-- What a manager leaves in `/roles`: one scheduler under each key, the host it is stored under among its hosts, and no
two of them with the same id or with a host in common. -/
structure Storable (roles : LinkedMap String Roles) : Prop where
  single : ∀ key value, roles.get key = some value →
    ∃ role children, value = ⟨some [role]⟩ ∧ role.hosts = some children ∧ children.Nodup ∧ key ∈ children
  apart : ∀ p ∈ storedRoles roles, ∀ q ∈ storedRoles roles, p.1 ≠ q.1 → p.2.id ≠ q.2.id ∧
    ∀ children children', p.2.hosts = some children → q.2.hosts = some children' → children.Disjoint children'

/-- Every entry is one scheduler with a list of hosts. -/
def Legible (roles : LinkedMap String Roles) : Prop :=
  ∀ key value, roles.get key = some value → ∃ role children, value = ⟨some [role]⟩ ∧ role.hosts = some children

theorem Storable.legible {roles : LinkedMap String Roles} (h : Storable roles) : Legible roles := by
  intro key value hv
  obtain ⟨role, children, heq, hhosts, -⟩ := h.single key value hv
  exact ⟨role, children, heq, hhosts⟩

theorem Legible.mem_iff {roles : LinkedMap String Roles} (h : Legible roles) (key : String) (role : SchedulerRole) :
    (key, role) ∈ storedRoles roles ↔ roles.get key = some ⟨some [role]⟩ := by
  rw [mem_storedRoles_iff]
  constructor
  · rintro ⟨value, schedulers, hk, hs, hrole⟩
    obtain ⟨role', children, rfl, -⟩ := h key value hk
    cases hs
    rw [List.mem_singleton.1 hrole]
    exact hk
  · intro hk
    exact ⟨_, _, hk, rfl, List.mem_singleton.2 rfl⟩

namespace Shape

def Recorded (t : Shape) (roles : LinkedMap String Roles) : Prop :=
  ∀ l o, t.IsLeaf l → t.owner l = some o → ∃ role, roles.get (t.hostId o) = some ⟨some [role]⟩ ∧
    role.id = t.id l ∧ role.hosts = some (t.members l).keys

/-- The dictionary holds every leaf under its owner's id, and nothing else. -/
structure Snapshot (t : Shape) (roles : LinkedMap String Roles) : Prop where
  leaf : t.Recorded roles
  key : ∀ key value, roles.get key = some value → ∃ l o, t.IsLeaf l ∧ t.owner l = some o ∧ t.hostId o = key

variable {u : Uuid} {t : Shape} {roles : LinkedMap String Roles}

theorem Recorded.stored (hs : t.Recorded roles) (h : t.Wf u) (d : HostRef → Bool) {l : SchedulerRef} {o : HostRef}
    (hl : t.IsLeaf l) (ho : t.owner l = some o) : ∃ role children, t.Stored d roles l o role children := by
  obtain ⟨role, hentry, hid, hhosts⟩ := hs l o hl ho
  refine ⟨role, _, ho, hentry, hid, hhosts, fun i r hr => LinkedMap.mem_keys_iff.2 ⟨r, hr⟩, fun i r hi hr _ => ?_⟩
  obtain ⟨x, hx⟩ := LinkedMap.mem_keys_iff.1 hi
  have hreg := h.member_registered l i x hl hx
  rw [hr] at hreg
  cases hreg
  exact (h.member l i r hx).2

namespace Snapshot

variable (hs : t.Snapshot roles)
include hs

theorem of_mem {p : String × SchedulerRole} (hp : p ∈ storedRoles roles) :
    ∃ l o, t.IsLeaf l ∧ t.owner l = some o ∧ t.hostId o = p.1 ∧ p.2.id = t.id l ∧
    p.2.hosts = some (t.members l).keys := by
  obtain ⟨value, schedulers, hk, hschedulers, hrole⟩ := (mem_storedRoles_iff roles p.1 p.2).1 hp
  obtain ⟨l, o, hl, ho, hkey⟩ := hs.key p.1 value hk
  obtain ⟨role, hentry, hid, hhosts⟩ := hs.leaf l o hl ho
  rw [hkey, hk] at hentry
  cases hentry
  cases hschedulers
  obtain rfl := List.mem_singleton.1 hrole
  exact ⟨l, o, hl, ho, hkey, hid, hhosts⟩

theorem storable (h : t.Wf u) : Storable roles where
  single := by
    intro key value hk
    obtain ⟨l, o, hl, ho, rfl⟩ := hs.key key value hk
    obtain ⟨role, hentry, -, hhosts⟩ := hs.leaf l o hl ho
    rw [hk] at hentry
    cases hentry
    refine ⟨role, _, rfl, hhosts, (t.members l).nodup_keys, LinkedMap.mem_keys_iff.2 ⟨o, ?_⟩⟩
    exact h.parent_member o l (h.owner_parent l o hl ho)
  apart := by
    intro p hp q hq hne
    obtain ⟨l, o, hl, ho, hkey, hid, hhosts⟩ := hs.of_mem hp
    obtain ⟨m, x, hm, hx, hkey', hid', hhosts'⟩ := hs.of_mem hq
    have hlm : l ≠ m := by
      rintro rfl
      rw [ho] at hx
      cases hx
      exact hne (hkey.symm.trans hkey')
    refine ⟨fun heq => hlm ?_, fun children children' hc hc' => ?_⟩
    · have hl' := (h.leaf_iff l).1 hl
      rw [← hid, heq, hid', (h.leaf_iff m).1 hm] at hl'
      exact (Option.some.inj hl').symm
    · rw [hhosts] at hc
      rw [hhosts'] at hc'
      cases hc
      cases hc'
      intro i hi hi'
      obtain ⟨r, hr⟩ := LinkedMap.mem_keys_iff.1 hi
      obtain ⟨r', hr'⟩ := LinkedMap.mem_keys_iff.1 hi'
      have hreg := h.member_registered l i r hl hr
      rw [h.member_registered m i r' hm hr'] at hreg
      cases hreg
      exact hlm (h.member_unique hr hr')

end Snapshot

end Shape
end Photon.Chairman
