import Photon.ManagerRestore
/-!
# ManagerMirror — `/roles` and the hierarchy, along a run

A scan that writes leaves a snapshot of the leaves in `/roles`, if it could list the keys there are.  A scan that does
not write leaves what was there: all of the leaves are stored then, but a leaf that went away together with its hosts
may have left its role behind, since nobody who is still registered was dirtied by that; and so may the former owner of
a leaf, in a scan that could not list the keys.
-/
namespace Photon.Chairman

open Keyed (LinkedMap)

namespace Hierarchy

variable {u : Uuid} {s s' : Hierarchy} {roles : LinkedMap String Roles}

theorem Steps.saved (hsteps : Steps u s s') (h : s.Wf u) (hs : s.shape.Saved s.dirty roles) :
    s'.shape.Saved s'.dirty roles := by
  induction hsteps with
  | refl => exact hs
  | tail hsteps hstep ih => exact (hstep.marks (Steps.wf hsteps h)).saved (Steps.wf hsteps h) ih

theorem stored_of_clean (h : s.Wf u) (howned : ∀ l, s.IsLeaf l → (s.scheduler l).owner ≠ none)
    (hs : s.shape.Saved s.dirty roles) {keys : List String} (hclean : s.isHierarchyDirty keys = false)
    {l : SchedulerRef}
    (hl : s.IsLeaf l) : ∃ o role children, s.shape.Stored (fun _ => false) roles l o role children := by
  have hflag : ∀ i r, s.hosts.get i = some r → s.dirty r = false := by
    intro i r hr
    by_contra hd
    rw [isHierarchyDirty_of_dirty hr (Bool.not_eq_false _ ▸ hd)] at hclean
    cases hclean
  rcases hs l hl with (ho | ⟨i, r, hr, hd⟩) | ⟨o, role, children, hst⟩
  · exact absurd ho (howned l hl)
  · rw [hflag i r (h.member_registered l i r hl hr)] at hd
    cases hd
  · exact ⟨o, role, children, hst.mono (fun i r hr _ => hflag i r hr)⟩

/-- **After a scan that got through, every leaf is stored.**  What is there besides was there before, and not even that
when the scan wrote and the keys could be listed. -/
theorem persisted_stored (h : s.Wf u) (howned : ∀ l, s.IsLeaf l → (s.scheduler l).owner ≠ none)
    (hs : s.shape.Saved s.dirty roles) (hd : Legible roles) {zk : Zk} {roles' : LinkedMap String Roles}
    (hp : s.persistDirtyHosts zk roles = some roles') :
    Legible roles' ∧ (∀ l, s.IsLeaf l → ∃ o role children, s.shape.Stored (fun _ => false) roles' l o role children) ∧
      (s.isHierarchyDirty (listedKeys zk roles) = false → roles' = roles) ∧
      (s.isHierarchyDirty (listedKeys zk roles) = true → zk ≠ .unlisted → s.shape.Snapshot roles') := by
  rcases persistDirtyHosts_cases h howned hp with ⟨hclean, rfl⟩ | ⟨hdirty, hrecorded, hkeys⟩
  · refine ⟨hd, fun l hl => stored_of_clean h howned hs hclean hl, fun _ => rfl, fun hdirty => ?_⟩
    rw [hclean] at hdirty
    cases hdirty
  · refine ⟨fun key value hv => ?_, fun l hl => ?_, fun hclean => ?_, fun _ hzk => ⟨hrecorded, fun key value hv => ?_⟩⟩
    · rcases hkeys key value hv with ⟨l, o, hl, ho, rfl⟩ | ⟨-, hold⟩
      · obtain ⟨role, hentry, -, hhosts⟩ := hrecorded l o hl ho
        exact ⟨role, _, Option.some.inj (hv.symm.trans hentry), hhosts⟩
      · exact hd key value hold
    · obtain ⟨o, ho⟩ := Option.ne_none_iff_exists'.1 (howned l hl)
      exact ⟨o, hrecorded.stored h _ hl ho⟩
    · rw [hdirty] at hclean
      cases hclean
    · exact (hkeys key value hv).resolve_right (fun hold => hzk hold.1)

theorem ofLeaves_of_snapshot (h : s.Wf u) (hs : s.shape.Snapshot roles) : s.OfLeaves roles where
  once := by
    intro p hp q hq hid
    by_contra hne
    exact ((hs.storable h).apart p hp q hq hne).1 hid
  live := by
    intro p hp
    obtain ⟨l, o, hl, -, -, hid, -⟩ := hs.of_mem hp
    have hget : s.leafSchedulers.get (s.shape.id l) = some l := (h.leaf_iff l).1 hl
    rw [hid, hget]
    exact Option.some_ne_none l

end Hierarchy

namespace Manager

open Hierarchy

variable {u : Uuid} {c : Chance} {zk : Zk} {answers : HostRef → Bool} {m m' : Manager}

/-! ## The invariant -/

/-- The links fit together, and every leaf is stored or may differ from what is. -/
structure Follows (u : Uuid) (m : Manager) : Prop where
  wf : m.tree.Wf u
  leafFanout : 1 ≤ m.tree.leafFanout
  saved : m.tree.shape.Saved m.tree.dirty m.roles
  legible : Legible m.roles

theorem Follows.steps (h : m.Follows u) (hsteps : Steps u m.tree m'.tree) (hroles : m'.roles = m.roles) :
    m'.Follows u where
  wf := Steps.wf hsteps h.wf
  leafFanout := by
    rw [(Steps.fanouts hsteps).2]
    exact h.leafFanout
  saved := by
    rw [hroles]
    exact hsteps.saved h.wf h.saved
  legible := by
    rw [hroles]
    exact h.legible

theorem scan_persisted {roles : LinkedMap String Roles}
    (hp : (m.tree.scan u c).persistDirtyHosts zk m.roles = some roles) (hm : m.scan u c zk answers = some m') :
    m'.roles = roles ∧ m'.tree.shape = (m.tree.scan u c).shape ∧ m'.tree.leafFanout = (m.tree.scan u c).leafFanout := by
  rw [scan_of_persisted hp, Option.map_eq_some_iff] at hm
  obtain ⟨s', hs', rfl⟩ := hm
  generalize m.tree.scan u c = s at hs'
  obtain ⟨heq, halike, -⟩ := configureHosts_keeps answers _ _ s' hs'
  refine ⟨rfl, ?_, ?_⟩
  · show s'.shape = s.shape
    rw [heq, shape_of_alike halike, shape_setAllHostsDirty]
  · show s'.leafFanout = s.leafFanout
    rw [heq]
    rfl

/-- **A scan keeps the leaves stored.** -/
theorem Follows.scan (h : m.Follows u) (hm : m.scan u c zk answers = some m') : m'.Follows u := by
  have hs : Follows u { m with tree := m.tree.scan u c } := h.steps (scan_steps h.wf h.leafFanout) rfl
  rcases scan_cases hm with ⟨-, rfl⟩ | ⟨roles, -, hp, -, -⟩
  · exact hs
  · obtain ⟨hlegible, hstored, -⟩ := persisted_stored hs.wf (fun l hl => owner_scan h.wf h.leafFanout hl) hs.saved
      hs.legible hp
    obtain ⟨rfl, hshape, hfanout⟩ := scan_persisted hp hm
    refine ⟨?_, hfanout ▸ hs.leafFanout, ?_, hlegible⟩
    · rw [Hierarchy.Wf, hshape]
      exact hs.wf
    · rw [hshape]
      intro l hleaf
      obtain ⟨o, role, children, hst⟩ := hstored l hleaf
      exact .inr ⟨o, role, children, hst.mono (fun _ _ _ _ => rfl)⟩

theorem Follows.handle (h : m.Follows u) {e : Event} (hm : m.handle u e = some m') : m'.Follows u := by
  rcases handle_steps h.wf h.leafFanout hm with ⟨c, zk, answers, rfl⟩ | ⟨hsteps, hroles⟩
  · exact h.scan hm
  · exact h.steps hsteps hroles

theorem Follows.run : ∀ {events : List Event} {m : Manager}, m.Follows u → m.run u events = some m' → m'.Follows u
  | [], m, h, hm => by
    cases hm
    exact h
  | e :: events, m, h, hm => by
    rw [Manager.run, List.foldlM_cons] at hm
    obtain ⟨m₁, h₁, hm⟩ := Option.bind_eq_some_iff.1 hm
    exact Follows.run (h.handle h₁) hm

/-! ## What a scan leaves -/

/-- **A scan leaves a mirror of the leaves in `/roles` exactly when it writes, or the roles there are of different
leaves, none of which is gone.** -/
theorem Follows.mirrors_scan (h : m.Follows u) (hm : m.scan u c .ok answers = some m') :
    m'.tree.Mirrors m'.roles ↔
      (m.tree.scan u c).isHierarchyDirty m.roles.keys = true ∨ (m.tree.scan u c).OfLeaves m.roles := by
  have hs : Follows u { m with tree := m.tree.scan u c } := h.steps (scan_steps h.wf h.leafFanout) rfl
  have howned : ∀ l, (m.tree.scan u c).IsLeaf l → ((m.tree.scan u c).scheduler l).owner ≠ none :=
    fun l hl => owner_scan h.wf h.leafFanout hl
  obtain ⟨roles, hp⟩ : ∃ roles, (m.tree.scan u c).persistDirtyHosts .ok m.roles = some roles := by
    refine Option.ne_none_iff_exists'.1 (fun hnone => ?_)
    have hfailed := ((persistDirtyHosts_eq_none_iff hs.wf howned .ok m.roles).1 hnone).1
    cases hfailed
  obtain ⟨hlegible, hstored, hclean, hdirty⟩ := persisted_stored hs.wf howned hs.saved hs.legible hp
  obtain ⟨rfl, hshape, -⟩ := scan_persisted hp hm
  have hleaves : m'.tree.leafSchedulers = (m.tree.scan u c).leafSchedulers := congrArg Shape.leafSchedulers hshape
  have hiff : m'.tree.Mirrors m'.roles ↔ _ := mirrors_iff (h.scan hm).wf hlegible (fun l hl => by
    rw [hshape]
    exact hstored l (by rw [IsLeaf, ← hleaves]; exact hl))
  have hof : ∀ dict, m'.tree.OfLeaves dict ↔ (m.tree.scan u c).OfLeaves dict := by
    intro dict
    constructor
    · exact fun hdict => ⟨hdict.once, hleaves ▸ hdict.live⟩
    · exact fun hdict => ⟨hdict.once, hleaves.symm ▸ hdict.live⟩
  rw [hiff, hof]
  change ((m.tree.scan u c).isHierarchyDirty m.roles.keys = false → m'.roles = m.roles) at hclean
  cases hd : (m.tree.scan u c).isHierarchyDirty m.roles.keys with
  | false => simp [hclean hd]
  | true => simpa using ofLeaves_of_snapshot hs.wf (hdirty hd nofun)

/-- **Along every run from a started manager, a scan that meets no ZooKeeper error leaves a mirror of the leaves in
`/roles` exactly when it writes, or the roles there are of different leaves, none of which is gone.** -/
theorem scan_mirrors_iff (u : Uuid) (rootFanout leafFanout : Nat) (hlf : 1 ≤ leafFanout)
    (zkHosts : LinkedMap String HostConfig) (zkRoles : LinkedMap String Roles) (hstored : Storable zkRoles)
    (hfresh : ∀ p ∈ storedRoles zkRoles, ∀ n, p.2.id ≠ u.gen n) (answers₀ : HostRef → Bool) (m₀ m m' : Manager)
    (hinit : init (new rootFanout leafFanout) zkHosts zkRoles answers₀ = some m₀) (events : List Event)
    (hrun : m₀.run u events = some m) (c : Chance) (answers : HostRef → Bool)
    (hscan : m.scan u c .ok answers = some m') :
    m'.tree.Mirrors m'.roles ↔
      (m.tree.scan u c).isHierarchyDirty m.roles.keys = true ∨ (m.tree.scan u c).OfLeaves m.roles := by
  obtain ⟨hwf, hfanout, hsaved, hroles⟩ := init_saved (wf_new u rootFanout leafFanout) hstored hfresh hinit
  have hstart : m₀.Follows u := by
    refine ⟨hwf, ?_, ?_, ?_⟩
    · rw [hfanout]
      exact hlf
    · rw [hroles]
      exact hsaved
    · rw [hroles]
      exact hstored.legible
  exact (hstart.run hrun).mirrors_scan hscan

/-- A manager that starts with one leaf, is told of a second host and scans. -/
def grown : Option Manager := do
  let m₀ ← init (new 2 1) (LinkedMap.empty.put "h" (HostConfig.plain "zone" "x")) oneLeafRoles (fun _ => true)
  let m ← m₀.run Uuid.unary [.onHostAdded "b" (HostConfig.plain "zone" "y")]
  m.scan Uuid.unary Chance.first .ok (fun _ => true)

theorem storedRoles_oneLeafRoles : storedRoles oneLeafRoles = [("h", ⟨"leaf", "ROOT", none, [], some ["h"],
    [⟨"h", some "x", 8835, none, none, none⟩]⟩)] := by decide +kernel

theorem storable_oneLeafRoles : Storable oneLeafRoles where
  single := by
    intro key value hv
    simp only [oneLeafRoles, LinkedMap.get_put, LinkedMap.get_empty] at hv
    split at hv
    · rename_i hkey
      cases hv
      exact ⟨_, ["h"], rfl, rfl, by simp, by simp [hkey]⟩
    · cases hv
  apart := by
    intro p hp q hq hne
    rw [storedRoles_oneLeafRoles] at hp hq
    rw [List.mem_singleton.1 hp, List.mem_singleton.1 hq] at hne
    exact absurd rfl hne

theorem scan_mirrors_grown : ∃ m, grown = some m ∧ m.tree.leafSchedulers.size = 2 ∧ m.tree.Mirrors m.roles := by
  refine ⟨_, rfl, by decide +kernel, ?_⟩
  refine (scan_mirrors_iff Uuid.unary 2 1 (le_refl _) (LinkedMap.empty.put "h" (HostConfig.plain "zone" "x"))
    oneLeafRoles storable_oneLeafRoles (fun p hp n => ?_) (fun _ => true) _ _ _ rfl
    [.onHostAdded "b" (HostConfig.plain "zone" "y")] rfl Chance.first (fun _ => true) rfl).2 (.inl (by decide +kernel))
  rw [storedRoles_oneLeafRoles, List.mem_singleton] at hp
  intro heq
  rw [hp] at heq
  have hchars := congrArg String.toList heq
  simp [Uuid.unary, List.replicate_succ] at hchars

/-- Two hosts in a leaf each; one is removed, and its leaf with it. -/
def shrunk : Option Manager := do
  let m₀ ← init (new 2 1) LinkedMap.empty LinkedMap.empty (fun _ => true)
  let m ← m₀.run Uuid.unary [.onHostAdded "a" (HostConfig.plain "zone" "x"),
    .onHostAdded "b" (HostConfig.plain "zone" "y"), .scan Chance.first .ok (fun _ => true), .onHostRemoved "b"]
  m.scan Uuid.unary Chance.first .ok (fun _ => true)

/-- **The role of the leaf that went away with its host stays in `/roles`**, and the leaf is rebuilt from it. -/
theorem role_outlives_leaf : ∃ m, shrunk = some m ∧ m.tree.leafSchedulers.keys = [Uuid.unary.gen 1] ∧
    m.roles.keys = ["a", "b"] ∧
    (m.tree.heap.readSchedulersFromZk m.tree.hosts m.roles).map (fun read => read.1.keys) =
      some [Uuid.unary.gen 1, Uuid.unary.gen 2] ∧ ¬ m.tree.Mirrors m.roles := by
  have hkept : shrunk.map (fun m => (m.tree.leafSchedulers.keys, m.roles.keys,
      (m.tree.heap.readSchedulersFromZk m.tree.hosts m.roles).map (fun read => read.1.keys))) =
      some ([Uuid.unary.gen 1], ["a", "b"], some [Uuid.unary.gen 1, Uuid.unary.gen 2]) := by decide +kernel
  have hviews : shrunk.map (fun m => ((m.tree.heap.readSchedulersFromZk m.tree.hosts m.roles).map
      (fun read => (read.2.leafView read.1 (Uuid.unary.gen 2)).isSome), (m.tree.leafView (Uuid.unary.gen 2)).isSome)) =
      some (some true, false) := by decide +kernel
  obtain ⟨m, hm, hkept⟩ := Option.map_eq_some_iff.1 hkept
  obtain ⟨hleaves, hkept⟩ := Prod.mk.inj hkept
  obtain ⟨hkeys, hrebuilt⟩ := Prod.mk.inj hkept
  rw [hm, Option.map_some, Option.some.injEq, Prod.mk.injEq] at hviews
  obtain ⟨hread, hlive⟩ := hviews
  refine ⟨m, hm, hleaves, hkeys, hrebuilt, fun hmirrors => ?_⟩
  obtain ⟨leaves, H, heq, hview⟩ := hmirrors m.roles (fun _ => rfl)
  rw [heq, Option.map_some, hview, hlive] at hread
  cases hread

end Manager
end Photon.Chairman
