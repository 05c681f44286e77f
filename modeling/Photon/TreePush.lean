import Photon.TreeRequest
/-!
# TreePush — no reconfiguration is lost

A push sends a host its request and marks it configured; `scan` does not push to a configured host again.  So every
change of what a request reads has to lower the flag of the host the request is for.  Here each step is shown to do
one or the other, and runs are taken with the pushes in between: each push is computed at one moment and may fail at a
later one.
-/
namespace Photon.Chairman

open Keyed (KeyedList LinkedMap)

namespace Hierarchy

variable {u : Uuid} {s s' : Hierarchy} {b : Bool}

/-- The hosts the hierarchy manages: those registered, and the root host. -/
def Current (s : Hierarchy) (r : HostRef) : Prop := r = s.rootHost ∨ ∃ i, s.hosts.get i = some r

theorem Step.rootHost (hstep : Step u s s') : s'.rootHost = s.rootHost := by
  cases hstep with
  | forget id => unfold removeHost; split <;> rfl
  | retag id r ds hr => unfold updateHostTags; split <;> rfl
  | _ => rfl

theorem Steps.rootHost (hsteps : Steps u s s') : s'.rootHost = s.rootHost := by
  induction hsteps with
  | refl => rfl
  | tail _ hstep ih => exact hstep.rootHost.trans ih

theorem alike_setFlags (s : Hierarchy) (r : HostRef) (configured missing : Bool) :
    s.heap.Alike (s.setFlags r configured missing).heap :=
  Heap.Alike.modifyHost s.heap r (fun k => { k with configured := k.configured && configured, missing := missing })
    (fun k => ⟨k.dirty, k.configured && configured, missing, rfl⟩)

theorem Step.flags (hstep : Step u s s') (h : s.Wf u) (x : HostRef) (hc : (s'.host x).configured = true) :
    (s.host x).configured = true ∧ (s'.host x).dirty = (s.host x).dirty := by
  rcases hstep.remains h x with hremains | ⟨-, hnew⟩
  · exact hremains.flags hc
  · rw [hnew] at hc
    cases hc

/-- **The root host stays configured only through steps its request does not notice.** -/
theorem Step.request_root (hstep : Step u s s') (h : s.Wf u) (hc : (s'.host s.rootHost).configured = true) :
    s'.heap.getConfigureRequest s.rootHost b = s.heap.getConfigureRequest s.rootHost b := by
  have howner := h.rootScheduler_owner
  cases hstep with
  | register id az ds nets mgmt address port hfree =>
    have hhost : ∀ x, x ≠ s.heap.nextHost →
        (s.registerHost (Host.new id az ds nets mgmt address port)).host x = s.host x := fun x hx => if_neg hx
    have hne : s.rootHost ≠ s.heap.nextHost := Shape.Wf.rootHost_ne_next h
    refine Hierarchy.request_root h (by rw [hhost _ hne]) (by rw [hhost _ hne]) (fun y => ⟨rfl, rfl, rfl, rfl, rfl⟩) ?_
    intro l o ho
    rw [hhost o (Shape.Wf.owner_ne_next h ho)]
    exact ⟨rfl, rfl, rfl⟩
  | forget id =>
    cases hr : s.hosts.get id with
    | none => rw [s.removeHost_of_unknown hr]
    | some r =>
      rw [s.removeHost_of_registered hr] at hc ⊢
      cases hp : (s.host r).parentScheduler with
      | none => rw [Heap.removeFromHierarchy_staged hp (Shape.Wf.staged_owns_nothing h hr hp)]
      | some l => simp [host, Heap.host_removeFromHierarchy (h.member_of hr hp), howner] at hc
  | attach id r l hr hstaged hl hroom hmatch => simp [host, Heap.host_addHost (h.under hl), howner] at hc
  | addLeaf hroom => simp [host_addLeaf h] at hc
  | own l r hl hr => simp [host, Heap.host_setOwner_some (h.under hl), howner] at hc
  | dropLeaf l hl => simp [host_dropLeaf h hl] at hc
  | retag id r ds hr =>
    cases hp : (s.host r).parentScheduler with
    | none => rw [s.updateHostTags_of_staged hp]
    | some l =>
      rw [s.updateHostTags_of_parent hp] at hc
      simp [host, Heap.host_retag (h.member_of hr hp), howner] at hc
  | keepSet l => exact (Heap.Alike.getConstraintSet s.heap l).getConfigureRequest _ _
  | setFlags r c m => exact (s.alike_setFlags r c m).getConfigureRequest _ _
  | setRootAddress address port => simp [host_setRootAddress, Host.setDirty] at hc

/-! ## A registered host -/

/-- The leaves of `s` and the root scheduler have the same ids in `s'`. -/
def SameIds (s s' : Hierarchy) : Prop :=
  ∀ l, s.IsLeaf l ∨ l = s.rootScheduler → (s'.scheduler l).id = (s.scheduler l).id

theorem Step.sameIds (hstep : Step u s s') (h : s.Wf u) : SameIds s s' := by
  refine fun l hl => (hstep.move h).id_eq ?_
  rintro rfl
  exact hl.elim (fun hl => Nat.lt_irrefl _ (h.leaf_alloc _ hl)) h.nextScheduler_ne_root

/-- The host was registered under the id before, and its request does not tell `s'` from `s`. -/
structure Unnoticed (b : Bool) (s s' : Hierarchy) (i : String) (r : HostRef) : Prop where
  registered : s.hosts.get i = some r
  parent : (s'.host r).parentScheduler = (s.host r).parentScheduler
  request : s'.heap.getConfigureRequest r b = s.heap.getConfigureRequest r b

theorem Unnoticed.refl {i : String} {r : HostRef} (hr : s.hosts.get i = some r) : Unnoticed b s s i r := ⟨hr, rfl, rfl⟩

section

variable {i : String} {r x : HostRef} {l₀ : SchedulerRef}

/-- A change in a leaf that is not the host's. -/
theorem unnoticed_elsewhere (h : s.Wf u) (hr : s.hosts.get i = some r)
    (hl₀ : (s.scheduler l₀).owner ≠ some r)
    (hhost : (s'.host r).id = (s.host r).id ∧ (s'.host r).parentScheduler = (s.host r).parentScheduler ∧
      (s'.host r).schedulers = (s.host r).schedulers)
    (hids : SameIds s s')
    (hsch : ∀ l, l ≠ l₀ → l ≠ s.rootScheduler → s'.scheduler l = s.scheduler l)
    (hmember : ∀ l j x, s.IsLeaf l → l ≠ l₀ → (s.scheduler l).hosts.get j = some x →
      s'.heap.hostChild b x = s.heap.hostChild b x) : Unnoticed b s s' i r := by
  refine ⟨hr, hhost.2.1, request_registered h hr hhost.1 hhost.2.1 hhost.2.2 hids (fun l hl ho => ?_)⟩
  have hne : l ≠ l₀ := by
    rintro rfl
    exact hl₀ ho
  rw [hsch l hne (h.leaf_ne_rootScheduler hl)]
  exact ⟨rfl, rfl, rfl, fun j x hx => hmember l j x hl hne hx⟩

theorem unnoticed_registerHost (h : s.Wf u) {k : Host} (hk : k.configured = false)
    (hr : (s.registerHost k).hosts.get i = some r) (hc : ((s.registerHost k).host r).configured = true) :
    Unnoticed b s (s.registerHost k) i r := by
  have hhost : ∀ x, x ≠ s.heap.nextHost → (s.registerHost k).host x = s.host x := fun x hx => if_neg hx
  have hr' : s.hosts.get i = some r := by
    simp only [registerHost, LinkedMap.get_put] at hr
    split at hr
    · -- the new host itself is not configured
      cases hr
      simp [registerHost, host, hk] at hc
    · exact hr
  have hne := Shape.Wf.registered_ne_next h hr'
  refine ⟨hr', by rw [hhost r hne], request_registered h hr' (by rw [hhost r hne]) (by rw [hhost r hne])
    (by rw [hhost r hne]) (fun _ _ => rfl) (fun l _ _ => ⟨rfl, rfl, rfl, fun j x hx => ?_⟩)⟩
  unfold Heap.hostChild
  rw [show (s.registerHost k).heap.host x = s.heap.host x from hhost x (Shape.Wf.member_ne_next h hx)]

theorem unnoticed_removeHost (h : s.Wf u) {id : String} (hids : SameIds s (s.removeHost id))
    (hr : (s.removeHost id).hosts.get i = some r) (hc : ((s.removeHost id).host r).configured = true) :
    Unnoticed b s (s.removeHost id) i r := by
  cases hk : s.hosts.get id with
  | none =>
    rw [s.removeHost_of_unknown hk] at hr ⊢
    exact .refl hr
  | some x =>
    rw [s.removeHost_of_registered hk] at hr hc hids ⊢
    simp only [LinkedMap.get_remove] at hr
    split at hr
    · cases hr
    · rename_i hne
      have hrx : r ≠ x := by
        rintro rfl
        exact hne ((h.registered i r hr).1.symm.trans (h.registered id r hk).1)
      cases hp : (s.host x).parentScheduler with
      | none =>
        rw [Heap.removeFromHierarchy_staged hp (Shape.Wf.staged_owns_nothing h hk hp)]
        exact ⟨hr, rfl, rfl⟩
      | some l₀ =>
        have hm := h.member_of hk hp
        simp only [host, Heap.host_removeFromHierarchy hm, if_neg hrx, Host.configured_dirtyWhen,
          Bool.and_eq_true, Bool.not_eq_true', Bool.or_eq_false_iff, decide_eq_false_iff_not] at hc
        refine unnoticed_elsewhere h hr hc.2.1 ?_ hids ?_ ?_
        · simp [host, Heap.host_removeFromHierarchy hm, hrx]
        · intro l hl hlr
          simp [scheduler, Heap.scheduler_removeFromHierarchy hm, hl, hlr]
        · intro l j y _ _ _
          simp only [Heap.hostChild, Heap.host_removeFromHierarchy hm]
          rfl

theorem unnoticed_addHost (h : s.Wf u) (hl₀ : s.IsLeaf l₀) (hrx : r ≠ x)
    (hids : SameIds s { s with heap := s.heap.addHost l₀ x }) (hr : s.hosts.get i = some r)
    (hc : ((s.heap.addHost l₀ x).host r).configured = true) :
      Unnoticed b s { s with heap := s.heap.addHost l₀ x } i r := by
  have hu := h.under hl₀
  simp only [Heap.host_addHost hu, if_neg hrx, Host.configured_dirtyWhen,
    Bool.and_eq_true, Bool.not_eq_true', Bool.or_eq_false_iff, decide_eq_false_iff_not] at hc
  refine unnoticed_elsewhere h hr hc.2.1 ?_ hids ?_ ?_
  · simp [host, Heap.host_addHost hu, hrx]
  · intro l hl hlr
    simp [scheduler, Heap.scheduler_addHost hu, hl, hlr]
  · intro l j y _ _ _
    simp only [Heap.hostChild, Heap.host_addHost hu]
    rfl

theorem unnoticed_addLeaf (h : s.Wf u) (hids : SameIds s (s.addLeaf u)) (hr : s.hosts.get i = some r) :
    Unnoticed b s (s.addLeaf u) i r := by
  have hroot : r ≠ s.rootHost := (h.registered i r hr).2.2
  have hhost : (s.addLeaf u).host r = s.host r := by
    rw [host_addLeaf h, decide_eq_false (Ne.symm hroot), Host.dirtyWhen_false]
  have hfresh : (s.scheduler s.heap.nextScheduler).owner ≠ some r := by
    rw [show (s.scheduler s.heap.nextScheduler).owner = none from (h.fresh_scheduler _ (le_refl _)).2]
    simp
  refine unnoticed_elsewhere h hr hfresh (by rw [hhost]; exact ⟨rfl, rfl, rfl⟩) hids ?_ ?_
  · intro l hl hlr
    rw [scheduler_addLeaf h, if_neg hl, if_neg hlr]
  · intro l j y _ _ _
    unfold Heap.hostChild
    rw [show (s.addLeaf u).heap.host y = _ from host_addLeaf h y]
    rfl

theorem unnoticed_setOwner (h : s.Wf u) (hl₀ : s.IsLeaf l₀)
    (hids : SameIds s { s with heap := s.heap.setOwner l₀ (some x) }) (hr : s.hosts.get i = some r)
    (hc : ((s.heap.setOwner l₀ (some x)).host r).configured = true) :
    Unnoticed b s { s with heap := s.heap.setOwner l₀ (some x) } i r := by
  have hu := h.under hl₀
  simp only [Heap.host_setOwner_some hu, Host.configured_dirtyWhen, Bool.and_eq_true,
    Bool.not_eq_true', Bool.or_eq_false_iff, decide_eq_false_iff_not] at hc
  have howned : s.heap.ownedAfter l₀ (some x) r = (s.heap.host r).schedulers := by
    simp [Heap.ownedAfter, hc.2.1.1, hc.2.1.2]
  refine unnoticed_elsewhere h hr hc.2.1.1 ?_ hids ?_ ?_
  · simp [host, Heap.host_setOwner_some hu, howned]
  · intro l hl hlr
    simp [scheduler, Heap.scheduler_setOwner_some hu, hl]
  · intro l j y _ _ _
    simp only [Heap.hostChild, Heap.host_setOwner_some hu]
    rfl

theorem unnoticed_dropLeaf (h : s.Wf u) (hl₀ : s.IsLeaf l₀) (hids : SameIds s (s.dropLeaf l₀))
    (hr : (s.dropLeaf l₀).hosts.get i = some r) : Unnoticed b s (s.dropLeaf l₀) i r := by
  simp only [Hierarchy.dropLeaf, LinkedMap.get_removeAll] at hr
  split at hr
  · cases hr
  · rename_i hkeys
    have hroot : r ≠ s.rootHost := (h.registered i r hr).2.2
    have hhost : (s.dropLeaf l₀).host r = s.host r := by
      rw [host_dropLeaf h hl₀, decide_eq_false (Ne.symm hroot), Host.dirtyWhen_false]
    -- the owner of the leaf that goes was one of its hosts, which are no longer registered
    have hown : (s.scheduler l₀).owner ≠ some r := by
      intro ho
      refine hkeys (LinkedMap.mem_keys_iff.2 ⟨r, ?_⟩)
      have hlisted := h.listed (h.owner_parent l₀ r hl₀ ho)
      rwa [show (s.heap.host r).id = i from (h.registered i r hr).1] at hlisted
    refine unnoticed_elsewhere h hr hown (by rw [hhost]; exact ⟨rfl, rfl, rfl⟩) hids ?_ ?_
    · intro l hl hlr
      rw [scheduler_dropLeaf h hl₀, if_neg hl, if_neg hlr]
    · intro l j y _ _ _
      unfold Heap.hostChild
      rw [show (s.dropLeaf l₀).heap.host y = _ from host_dropLeaf h hl₀ y]
      rfl

theorem unnoticed_updateHostTags (h : s.Wf u) {id : String} {ds : DatastoreSet} (hx : s.hosts.get id = some x)
    (hids : SameIds s (s.updateHostTags x ds)) (hr : (s.updateHostTags x ds).hosts.get i = some r)
    (hc : ((s.updateHostTags x ds).host r).configured = true) : Unnoticed b s (s.updateHostTags x ds) i r := by
  cases hp : (s.host x).parentScheduler with
  | none =>
    rw [s.updateHostTags_of_staged hp] at hr ⊢
    exact .refl hr
  | some l₀ =>
    rw [s.updateHostTags_of_parent hp] at hr hc hids ⊢
    have hm := h.member_of hx hp
    simp only [host, Heap.host_retag hm, Host.configured_dirtyWhen, Bool.and_eq_true,
      Bool.not_eq_true', Bool.or_eq_false_iff, decide_eq_false_iff_not] at hc
    refine unnoticed_elsewhere h hr hc.2.1 ?_ hids ?_ ?_
    · simp [host, Heap.host_retag hm]
    · intro l hl hlr
      simp [scheduler, Heap.scheduler_retag hm, hl, hlr]
    · intro l j y _ hl hy
      have hyx : y ≠ x := by
        rintro rfl
        have hparent := (h.member l j y hy).2
        rw [show s.shape.parentScheduler y = some l₀ from hp] at hparent
        exact hl (Option.some.inj hparent).symm
      simp only [Heap.hostChild, Heap.host_retag hm, if_neg hyx]
      rfl

theorem unnoticed_setRootAddress (h : s.Wf u) (address : Option String) (port : Int)
    (hids : SameIds s (s.setRootAddress address port)) (hr : s.hosts.get i = some r) :
    Unnoticed b s (s.setRootAddress address port) i r := by
  have hroot : r ≠ s.rootHost := (h.registered i r hr).2.2
  have hhost : ∀ y, y ≠ s.rootHost → (s.setRootAddress address port).host y = s.host y := fun y hy => if_neg hy
  refine ⟨hr, by rw [hhost r hroot], request_registered h hr (by rw [hhost r hroot]) (by rw [hhost r hroot])
    (by rw [hhost r hroot]) hids (fun l hl _ => ⟨rfl, rfl, rfl, fun j y hy => ?_⟩)⟩
  have hyr : y ≠ s.rootHost := (h.registered j y (h.member_registered l j y hl hy)).2.2
  unfold Heap.hostChild
  rw [show (s.setRootAddress address port).heap.host y = s.heap.host y from hhost y hyr]

/-- **A registered host stays configured only through steps its request does not notice.** -/
theorem Step.unnoticed (hstep : Step u s s') (h : s.Wf u)
    (htree : ∀ i x, s.hosts.get i = some x → (s.host x).configured = true → (s.host x).parentScheduler ≠ none)
    (hr : s'.hosts.get i = some r) (hc : (s'.host r).configured = true) : Unnoticed b s s' i r := by
  have hids := hstep.sameIds h
  have hbefore := (hstep.flags h r hc).1
  cases hstep with
  | register id az ds nets mgmt address port hfree => exact unnoticed_registerHost h rfl hr hc
  | forget id => exact unnoticed_removeHost h hids hr hc
  | attach id x l₀ hx hstaged hl₀ hroom hmatch =>
    have hrx : r ≠ x := by
      rintro rfl
      exact htree i r hr hbefore hstaged
    exact unnoticed_addHost h hl₀ hrx hids hr hc
  | addLeaf hroom => exact unnoticed_addLeaf h hids hr
  | own l₀ x hl₀ hx => exact unnoticed_setOwner h hl₀ hids hr hc
  | dropLeaf l₀ hl₀ => exact unnoticed_dropLeaf h hl₀ hids hr
  | retag id x ds hx => exact unnoticed_updateHostTags h hx hids hr hc
  | keepSet l => exact ⟨hr, rfl, (Heap.Alike.getConstraintSet s.heap l).getConfigureRequest _ _⟩
  | setFlags x c m =>
    refine ⟨hr, ?_, (s.alike_setFlags x c m).getConfigureRequest _ _⟩
    exact congrArg (fun t => t.parentScheduler r) (s.shape_setFlags x c m)
  | setRootAddress address port => exact unnoticed_setRootAddress h address port hids hr

end

/-! ## Pushes -/

structure Push where
  host : HostRef
  request : ConfigureRequest
  failed : Bool

structure Pushing where
  tree : Hierarchy
  pushes : List Push

def lastRequest (pushes : List Push) (r : HostRef) : Option ConfigureRequest :=
  (pushes.find? (fun p => decide (p.host = r) && !p.failed)).map Push.request

def configure (s : Hierarchy) (r : HostRef) : Hierarchy :=
  { s with heap := (s.heap.afterRequest r).modifyHost r (fun k => (k.setConfigured true).getD k) }

def configureFailed (s : Hierarchy) (r : HostRef) : Hierarchy :=
  { s with heap := s.heap.modifyHost r (fun k => (k.setConfigured false).getD k) }

/-- **What can happen between a hierarchy and the hosts it configures**: the operations, the hosts being clean after a
persist, a push to a host in the tree that is not dirty, and the failure of a push made before. -/
inductive Pushing.Step (u : Uuid) (p : Pushing) : Pushing → Prop
  | op (o : Op) : Step u p { p with tree := o.apply u p.tree }
  | persisted : Step u p { p with tree := p.tree.setAllHostsDirty false }
  | push (r : HostRef) (request : ConfigureRequest) (hcurrent : p.tree.Current r)
      (hintree : r = p.tree.rootHost ∨ (p.tree.host r).parentScheduler ≠ none) (hclean : (p.tree.host r).dirty = false)
      (hrequest : p.tree.heap.getConfigureRequest r true = some request) :
      Step u p ⟨p.tree.configure r, ⟨r, request, false⟩ :: p.pushes⟩
  | fail (n : Nat) (push : Push) (hpush : p.pushes[n]? = some push) :
      Step u p ⟨p.tree.configureFailed push.host, p.pushes.set n { push with failed := true }⟩

/-- Every configured host is configured with its present request, and is clean. -/
structure Pushing.Current (u : Uuid) (p : Pushing) : Prop where
  wf : p.tree.Wf u
  leafFanout : 1 ≤ p.tree.leafFanout
  intree : ∀ i r, p.tree.hosts.get i = some r → (p.tree.host r).configured = true →
    (p.tree.host r).parentScheduler ≠ none
  request : ∀ r, p.tree.Current r → (p.tree.host r).configured = true → ∃ request,
    lastRequest p.pushes r = some request ∧ p.tree.heap.getConfigureRequest r true = some request
  clean : ∀ r, (p.tree.host r).configured = true → (p.tree.host r).dirty = false

namespace Pushing

variable {p : Pushing}

/-- **A step of the hierarchy leaves the configured hosts current.** -/
theorem Current.step (h : p.Current u) (hstep : Hierarchy.Step u p.tree s') :
    Pushing.Current u { p with tree := s' } where
  wf := hstep.wf h.wf
  leafFanout := by rw [hstep.fanouts.2]; exact h.leafFanout
  intree := by
    intro i r hr hc
    have hunnoticed := hstep.unnoticed (b := true) h.wf h.intree hr hc
    rw [hunnoticed.parent]
    exact h.intree i r hunnoticed.registered (hstep.flags h.wf r hc).1
  request := by
    rintro r (rfl | ⟨i, hr⟩) hc
    · simp only [hstep.rootHost] at hc ⊢
      rw [hstep.request_root (b := true) h.wf hc]
      exact h.request _ (.inl rfl) (hstep.flags h.wf _ hc).1
    · have hunnoticed := hstep.unnoticed (b := true) h.wf h.intree hr hc
      simp only [hunnoticed.request]
      exact h.request r (.inr ⟨i, hunnoticed.registered⟩) (hstep.flags h.wf r hc).1
  clean := by
    intro r hc
    obtain ⟨hc', hd⟩ := hstep.flags h.wf r hc
    rw [hd]
    exact h.clean r hc'

theorem Current.steps (h : p.Current u) (hsteps : Steps u p.tree s') : Pushing.Current u { p with tree := s' } := by
  induction hsteps with
  | refl => exact h
  | tail _ hstep ih => exact ih.step hstep

/-- A change of flags that raises no configured flag and dirties no configured host leaves them current, too. -/
theorem Current.alike (h : p.Current u) {H : Heap} (ha : p.tree.heap.Alike H)
    (hflags : ∀ x, (H.host x).configured = true → (p.tree.host x).configured = true ∧
      ((p.tree.host x).dirty = false → (H.host x).dirty = false)) :
    Pushing.Current u { p with tree := { p.tree with heap := H } } where
  wf := by
    unfold Wf
    rw [shape_of_alike ha]
    exact h.wf
  leafFanout := h.leafFanout
  intree := by
    intro i r hr hc
    rw [show (Hierarchy.host _ r).parentScheduler = _ from congrArg (fun t => t.parentScheduler r) (shape_of_alike ha)]
    exact h.intree i r hr (hflags r hc).1
  request := by
    intro r hr hc
    rw [ha.getConfigureRequest]
    exact h.request r hr (hflags r hc).1
  clean := fun r hc => (hflags r hc).2 (h.clean r (hflags r hc).1)

/-! ### The events -/

theorem Current.persisted (h : p.Current u) : Pushing.Current u { p with tree := p.tree.setAllHostsDirty false } := by
  refine h.alike (H := (p.tree.setAllHostsDirty false).heap) (Heap.Alike.setDirty _ _ _) (fun x hc => ?_)
  rw [show Heap.host _ x = _ from host_setAllHostsDirty p.tree x] at hc ⊢
  by_cases hx : x ∈ p.tree.getAllHosts.values
  · rw [if_pos hx] at hc ⊢
    exact ⟨hc, fun _ => rfl⟩
  · rw [if_neg hx] at hc ⊢
    exact ⟨hc, id⟩

theorem host_configure (s : Hierarchy) (r x : HostRef) (hd : (s.host r).dirty = false) :
    (s.configure r).host x = if x = r then { s.host x with configured := true } else s.host x := by
  simp only [configure, host, Heap.host_modifyHost, Heap.host_afterRequest]
  split
  · rename_i hx
    subst hx
    simp [Host.setConfigured, show (s.heap.host x).dirty = false from hd]
  · rfl

theorem lastRequest_cons (ps : List Push) (r x : HostRef) (request : ConfigureRequest) :
    lastRequest (⟨r, request, false⟩ :: ps) x = if x = r then some request else lastRequest ps x := by
  unfold lastRequest
  by_cases hx : x = r
  · subst hx; simp
  · rw [List.find?_cons_of_neg (by simp [Ne.symm hx]), if_neg hx]

theorem lastRequest_set : ∀ (ps : List Push) (n : Nat) (push : Push) (x : HostRef), ps[n]? = some push →
    x ≠ push.host → lastRequest (ps.set n { push with failed := true }) x = lastRequest ps x
  | [], _, _, _, h, _ => by cases h
  | q :: ps, 0, push, x, h, hx => by
    cases h
    unfold lastRequest
    rw [List.set_cons_zero, List.find?_cons_of_neg (by simp), List.find?_cons_of_neg (by simp [Ne.symm hx])]
  | q :: ps, n + 1, push, x, h, hx => by
    have ih := lastRequest_set ps n push x h hx
    unfold lastRequest at ih ⊢
    rw [List.set_cons_succ, List.find?_cons, List.find?_cons]
    split
    · rfl
    · exact ih

theorem Current.push (h : p.Current u) {r : HostRef} {request : ConfigureRequest}
    (hintree : r = p.tree.rootHost ∨ (p.tree.host r).parentScheduler ≠ none) (hclean : (p.tree.host r).dirty = false)
    (hrequest : p.tree.heap.getConfigureRequest r true = some request) :
    Pushing.Current u ⟨p.tree.configure r, ⟨r, request, false⟩ :: p.pushes⟩ := by
  have ha : p.tree.heap.Alike (p.tree.configure r).heap := by
    refine (Heap.Alike.afterRequest _ r).trans (Heap.Alike.modifyHost _ r (fun k => (k.setConfigured true).getD k) ?_)
    intro k
    unfold Host.setConfigured
    split <;> exact ⟨_, _, _, rfl⟩
  have hhost := fun x => host_configure p.tree r x hclean
  refine ⟨?_, h.leafFanout, ?_, ?_, ?_⟩
  · have hshape : (p.tree.configure r).shape = p.tree.shape := shape_of_alike ha
    show (p.tree.configure r).shape.Wf u
    rw [hshape]
    exact h.wf
  · intro i x hx hc
    simp only [hhost] at hc ⊢
    split at hc
    · rename_i hxr
      rw [if_pos hxr]
      subst hxr
      exact hintree.resolve_left (h.wf.registered i x hx).2.2
    · rename_i hxr
      rw [if_neg hxr]
      exact h.intree i x hx hc
  · intro x hx hc
    simp only [hhost] at hc
    simp only [lastRequest_cons, ha.getConfigureRequest]
    split at hc
    · rename_i hxr
      subst hxr
      exact ⟨request, if_pos rfl, hrequest⟩
    · rename_i hxr
      rw [if_neg hxr]
      exact h.request x hx hc
  · intro x hc
    simp only [hhost] at hc ⊢
    split at hc
    · rename_i hxr
      subst hxr
      rw [if_pos rfl]
      exact hclean
    · rename_i hxr
      rw [if_neg hxr]
      exact h.clean x hc

theorem Current.fail (h : p.Current u) {n : Nat} {push : Push} (hpush : p.pushes[n]? = some push) :
    Pushing.Current u ⟨p.tree.configureFailed push.host, p.pushes.set n { push with failed := true }⟩ := by
  have ha : p.tree.heap.Alike (p.tree.configureFailed push.host).heap :=
    Heap.Alike.modifyHost _ _ _ (fun k => ⟨_, _, _, rfl⟩)
  have hhost : ∀ x, ((p.tree.configureFailed push.host).host x).configured = true →
      x ≠ push.host ∧ (p.tree.configureFailed push.host).host x = p.tree.host x := by
    intro x hc
    simp only [configureFailed, host, Heap.host_modifyHost] at hc ⊢
    split at hc
    · simp [Host.setConfigured] at hc
    · rename_i hx
      exact ⟨hx, if_neg hx⟩
  have hbase := h.alike ha (fun x hc => by
    obtain ⟨-, hx⟩ := hhost x hc
    rw [show (Heap.host _ x) = p.tree.host x from hx] at hc ⊢
    exact ⟨hc, id⟩)
  refine { hbase with request := fun x hx hc => ?_ }
  rw [lastRequest_set _ _ _ _ hpush (hhost x hc).1]
  exact hbase.request x hx hc

/-- **Every event leaves the configured hosts current.** -/
theorem Step.current {q : Pushing} (hstep : Step u p q) (h : p.Current u) : q.Current u := by
  cases hstep with
  | op o => exact h.steps (o.steps h.wf h.leafFanout)
  | persisted => exact h.persisted
  | push r request hcurrent hintree hclean hrequest => exact h.push hintree hclean hrequest
  | fail n push hpush => exact h.fail hpush

theorem current_new (u : Uuid) (rootFanout leafFanout : Nat) (hlf : 1 ≤ leafFanout) :
    Pushing.Current u ⟨new rootFanout leafFanout, []⟩ := by
  have hno : ∀ r, ((new rootFanout leafFanout).host r).configured = false := by
    intro r
    rw [host_new]
    split <;> rfl
  refine ⟨wf_new u rootFanout leafFanout, hlf, nofun, ?_, ?_⟩
  · intro r _ hc
    rw [hno] at hc
    cases hc
  · intro r hc
    rw [hno] at hc
    cases hc

end Pushing

/-- **No reconfiguration is lost.**  Whatever operations, persists, pushes and failures follow each other, a host that
is marked configured, the root host included, has the request of the last push to it that has not failed, and is
clean. -/
theorem configured_current_run (u : Uuid) (rootFanout leafFanout : Nat) (hlf : 1 ≤ leafFanout) (p : Pushing)
    (hrun : Relation.ReflTransGen (Pushing.Step u) ⟨new rootFanout leafFanout, []⟩ p) :
    (∀ r, p.tree.Current r → (p.tree.host r).configured = true →
      ∃ request, p.tree.heap.getConfigureRequest r true = some request ∧ lastRequest p.pushes r = some request) ∧
    ∀ r, ¬ ((p.tree.host r).configured = true ∧ (p.tree.host r).dirty = true) := by
  have h : p.Current u := by
    induction hrun with
    | refl => exact Pushing.current_new u rootFanout leafFanout hlf
    | tail _ hstep ih => exact hstep.current ih
  refine ⟨fun r hr hc => ?_, fun r hc => ?_⟩
  · obtain ⟨request, h1, h2⟩ := h.request r hr hc
    exact ⟨request, h2, h1⟩
  · have := h.clean r hc.1
    rw [hc.2] at this
    cases this

def persistedHost : Hierarchy :=
  ((new 1 1).run Uuid.unary [.addHost "h" ⟨"a"⟩ KeyedList.empty KeyedList.empty false "x" 1,
    .scan Chance.first]).setAllHostsDirty false

theorem configured_current_run_one_host :
    ∃ p, Relation.ReflTransGen (Pushing.Step Uuid.unary) ⟨new 1 1, []⟩ p ∧ p.tree.Current ⟨1⟩ ∧
      (p.tree.host ⟨1⟩).configured = true ∧
      ∃ request, p.tree.heap.getConfigureRequest ⟨1⟩ true = some request ∧ lastRequest p.pushes ⟨1⟩ = some request := by
  have hsome : (persistedHost.heap.getConfigureRequest ⟨1⟩ true).isSome = true := by decide
  have hrun : Relation.ReflTransGen (Pushing.Step Uuid.unary) ⟨new 1 1, []⟩
      ⟨persistedHost.configure ⟨1⟩, [⟨⟨1⟩, (persistedHost.heap.getConfigureRequest ⟨1⟩ true).get hsome, false⟩]⟩ := by
    refine ((((Relation.ReflTransGen.refl).tail
      (.op (.addHost "h" ⟨"a"⟩ KeyedList.empty KeyedList.empty false "x" 1))).tail
      (.op (.scan Chance.first))).tail .persisted).tail (.push ⟨1⟩ _ (.inr ⟨"h", ?_⟩) (.inr ?_) ?_ ?_)
    · rfl
    · decide
    · rfl
    · exact (Option.some_get hsome).symm
  exact ⟨_, hrun, .inr ⟨"h", rfl⟩, rfl,
    (configured_current_run Uuid.unary 1 1 (by decide) _ hrun).1 ⟨1⟩ (.inr ⟨"h", rfl⟩) rfl⟩

end Hierarchy
end Photon.Chairman
