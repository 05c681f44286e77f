import Photon.TreePush
/-!
# TreeMarks — which hosts a step dirties

The dirty flags decide what is persisted, so a step is described by what it does to the links together with the flags it
raises (`Shape.Marks`), and every step of the hierarchy is one of these (`Step.marks`).  The root host is left out: its
flag is not looked at when the hierarchy is persisted.
-/
namespace Photon.Chairman

open Keyed (LinkedMap)

namespace Shape

/-- The hosts other than the root host that are dirty after a step are those that were, and those `raised`. -/
def Raises (t : Shape) (d d' : HostRef → Bool) (raised : HostRef → Prop) : Prop :=
  ∀ x, x ≠ t.rootHost → (d' x = true ↔ d x = true ∨ raised x)

/-- The links and the dirty flags, before and after a step. -/
inductive Marks (u : Uuid) (t : Shape) (d : HostRef → Bool) : Shape → (HostRef → Bool) → Prop
  | register (i : String) (d' : HostRef → Bool) (hi : t.hosts.get i = none)
      (hd : t.Raises d d' (fun x => x = ⟨t.hostCount⟩)) : Marks u t d (t.register i) d'
  | forget (i : String) (r : HostRef) (d' : HostRef → Bool) (hr : t.hosts.get i = some r)
      (hd : t.Raises d d' (fun x => ∃ l, t.parentScheduler r = some l ∧ t.owner l = some x)) :
      Marks u t d (t.forget i r) d'
  | attach (i : String) (r : HostRef) (l : SchedulerRef) (d' : HostRef → Bool) (hr : t.hosts.get i = some r)
      (hp : t.parentScheduler r = none) (hl : t.IsLeaf l) (hd : t.Raises d d' (fun x => t.owner l = some x)) :
      Marks u t d (t.attach l r) d'
  | addLeaf (d' : HostRef → Bool) (hd : t.Raises d d' (fun _ => False)) :
      Marks u t d (t.addLeaf (u.gen t.schedulerCount)) d'
  | own (l : SchedulerRef) (r : HostRef) (d' : HostRef → Bool) (hl : t.IsLeaf l) (hp : t.parentScheduler r = some l)
      (hd : t.Raises d d' (fun x => t.owner l = some x ∨ x = r)) : Marks u t d (t.own l r) d'
  | dropLeaf (l : SchedulerRef) (d' : HostRef → Bool) (hl : t.IsLeaf l) (hd : t.Raises d d' (fun _ => False)) :
      Marks u t d (t.dropLeaf l) d'
  | reattach (i : String) (r : HostRef) (l : SchedulerRef) (d' : HostRef → Bool) (hr : t.hosts.get i = some r)
      (hp : t.parentScheduler r = some l) (hd : t.Raises d d' (fun x => t.owner l = some x)) :
      Marks u t d (t.reattach l r) d'
  | stay (d' : HostRef → Bool) (hd : t.Raises d d' (fun _ => False)) : Marks u t d t d'

/-- A host outside the tree is dirty. -/
def StagedDirty (t : Shape) (d : HostRef → Bool) : Prop :=
  ∀ i r, t.hosts.get i = some r → t.parentScheduler r = none → d r = true

theorem Marks.stagedDirty {u : Uuid} {t t' : Shape} {d d' : HostRef → Bool} (hm : Marks u t d t' d') (h : t.Wf u)
    (hs : t.StagedDirty d) : t'.StagedDirty d' := by
  intro i r
  have hroot := h.registered i r
  have hold := hs i r
  cases hm with
  | register j d' hi hd =>
    have := hd r
    have := h.rootHost_ne_next
    grind [Shape.register]
  | forget j x d' hx hd =>
    have := hd r
    have := h.registered j x
    grind [Shape.forget]
  | attach j x l d' hx hp hl hd =>
    have := hd r
    grind [Shape.attach]
  | addLeaf d' hd =>
    have := hd r
    grind [Shape.addLeaf]
  | own l x d' hl hp hd =>
    have := hd r
    grind [Shape.own]
  | dropLeaf l d' hl hd =>
    have := hd r
    grind [Shape.dropLeaf]
  | reattach j x l d' hx hp hd =>
    have := hd r
    grind [Shape.reattach]
  | stay d' hd =>
    have := hd r
    grind

end Shape

namespace Hierarchy

variable {u : Uuid} {s s' : Hierarchy}

def dirty (s : Hierarchy) (r : HostRef) : Bool := (s.host r).dirty

/-- **A step changes the links and raises the dirty flags as its abstract counterpart says.** -/
theorem Step.marks (hstep : Step u s s') (h : s.Wf u) : Shape.Marks u s.shape s.dirty s'.shape s'.dirty := by
  cases hstep with
  | register id az ds nets mgmt address port hfree =>
    rw [shape_registerHost s _ rfl rfl]
    refine .register id _ hfree (fun x _ => ?_)
    simp only [dirty, registerHost, host, Heap.host_allocHost]
    by_cases hx : x = s.heap.nextHost
    · simp [hx, Host.new, shape, Heap.nextHost]
    · simp only [if_neg hx]
      exact ⟨.inl, fun hd => hd.resolve_right hx⟩
  | forget id =>
    cases hr : s.hosts.get id with
    | none =>
      rw [s.removeHost_of_unknown hr]
      exact .stay _ (fun x _ => by simp)
    | some r =>
      rw [s.removeHost_of_registered hr, shape_removeFromHierarchy h hr]
      refine .forget id r _ hr (fun x hx => ?_)
      cases hp : (s.host r).parentScheduler with
      | none =>
        simp only [dirty, host]
        rw [Heap.removeFromHierarchy_staged hp (Shape.Wf.staged_owns_nothing h hr hp)]
        simp [shape, hp]
      | some l =>
        have hroot : s.rootHost ≠ x := Ne.symm hx
        simp only [dirty, host, Heap.host_removeFromHierarchy (h.member_of hr hp), h.rootScheduler_owner]
        simp [shape, hp, scheduler, hroot]
  | attach id r l hr hstaged hl hroom hmatch =>
    rw [shape_addHost h hl]
    refine .attach id r l _ hr hstaged hl (fun x hx => ?_)
    have hroot : s.rootHost ≠ x := Ne.symm hx
    simp only [dirty, host, Heap.host_addHost (h.under hl), h.rootScheduler_owner]
    simp [shape, scheduler, hroot]
  | addLeaf hroom =>
    rw [shape_addLeaf h]
    refine .addLeaf _ (fun x hx => ?_)
    have hroot : s.rootHost ≠ x := Ne.symm hx
    simp [dirty, host_addLeaf h, hroot]
  | own l r hl hr =>
    rw [shape_setOwner h hl]
    refine .own l r _ hl hr (fun x hx => ?_)
    have hroot : s.rootHost ≠ x := Ne.symm hx
    simp only [dirty, host, Heap.host_setOwner_some (h.under hl), h.rootScheduler_owner]
    simp [shape, scheduler, hroot, @eq_comm _ r x]
  | dropLeaf l hl =>
    rw [shape_dropLeaf h hl]
    refine .dropLeaf l _ hl (fun x hx => ?_)
    have hroot : s.rootHost ≠ x := Ne.symm hx
    simp [dirty, host_dropLeaf h hl, hroot]
  | retag id r ds hr =>
    cases hp : (s.host r).parentScheduler with
    | none =>
      rw [s.updateHostTags_of_staged hp]
      exact .stay _ (fun x _ => by simp)
    | some l =>
      rw [shape_updateHostTags h hr hp, s.updateHostTags_of_parent hp]
      refine .reattach id r l _ hr hp (fun x hx => ?_)
      have hroot : s.rootHost ≠ x := Ne.symm hx
      simp only [dirty, host, Heap.host_retag (h.member_of hr hp), h.rootScheduler_owner]
      simp [shape, scheduler, hroot]
  | keepSet l => rw [shape_keepSet]; exact .stay _ (fun x _ => by simp [dirty, host])
  | setFlags r c m =>
    rw [shape_setFlags]
    refine .stay _ (fun x _ => ?_)
    simp only [dirty, host_setFlags]
    split <;> simp
  | setRootAddress address port =>
    rw [shape_setRootAddress]
    refine .stay _ (fun x hx => ?_)
    have hroot : x ≠ s.rootHost := hx
    simp [dirty, host_setRootAddress, hroot]

end Hierarchy
end Photon.Chairman
