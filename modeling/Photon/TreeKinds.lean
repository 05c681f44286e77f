import Photon.TreeSums
/-!
# TreeKinds — a leaf holds hosts of one kind

The kind of a host is its zone, or that it is for management only.  `findLeafScheduler` never compares kinds: it
compares sets of constraints, one derived from everything a leaf counts.  Since the counts are exact, the sets can only
correspond when the kinds agree, or when the leaf is empty.
-/
namespace Photon.Chairman

open Keyed (KeyedList LinkedMap)
open ResourceConstraint (mk of)

/-- What hosts of one leaf have in common: none for a management host, else the zone. -/
def Host.kind (h : Host) : Option AvailabilityZone := if h.managementOnly then none else some h.availabilityZone

@[simp] theorem Host.kind_dirtyWhen (h : Host) (b : Bool) : (h.dirtyWhen b).kind = h.kind := rfl

theorem Host.isNone_kind (h : Host) : h.kind.isNone = h.managementOnly := by
  unfold kind
  cases h.managementOnly <;> rfl

def zoneConst (az : AvailabilityZone) : ResourceConstraint := ResourceConstraint.of .availabilityZone [az.id]

theorem mem_datastoreConstraints {ds : DatastoreSet} {c : ResourceConstraint} (h : c ∈ ds.sum datastoreConstraints) :
    c.type = .datastore ∨ c.type = .datastoreTag := by
  obtain ⟨d, -, hd⟩ := (ds.mem_sum _ c).1 h
  simp only [datastoreConstraints, Multiset.mem_cons, Multiset.mem_map] at hd
  rcases hd with rfl | ⟨tag, _, rfl⟩
  · exact .inl rfl
  · exact .inr rfl

theorem mem_networkConstraints {nets : NetworkSet} {c : ResourceConstraint}
    (h : c ∈ nets.sum (fun net => ({of .network [net.id]} : Multiset ResourceConstraint))) : c.type = .network := by
  obtain ⟨net, -, hn⟩ := (nets.mem_sum _ c).1 h
  rw [Multiset.mem_singleton] at hn
  rw [hn]
  rfl

theorem mgmtConst_mem_iff (h : Host) : mgmtConst ∈ getHostConstraints h ↔ h.managementOnly = true := by
  unfold getHostConstraints
  simp only [Multiset.mem_add, Multiset.mem_singleton]
  constructor
  · rintro ((((hc | hc) | hc) | hc) | hc)
    · cases hc
    · cases hc
    · rcases mem_datastoreConstraints hc with ht | ht <;> cases ht
    · cases mem_networkConstraints hc
    · by_contra hm
      rw [if_neg hm] at hc
      simp at hc
  · intro hm
    rw [if_pos hm]
    simp

theorem zoneConst_mem_iff (h : Host) (az : AvailabilityZone) :
    zoneConst az ∈ getHostConstraints h ↔ h.availabilityZone = az := by
  unfold getHostConstraints
  simp only [Multiset.mem_add, Multiset.mem_singleton]
  constructor
  · rintro ((((hc | hc) | hc) | hc) | hc)
    · cases hc
    · simp only [zoneConst, of, mk.injEq, List.cons.injEq, and_true, true_and] at hc
      obtain ⟨id⟩ := az
      cases h with | mk => simp_all
    · rcases mem_datastoreConstraints hc with ht | ht <;> cases ht
    · cases mem_networkConstraints hc
    · split at hc
      · rw [Multiset.mem_singleton] at hc
        cases hc
      · simp at hc
  · rintro rfl
    exact .inl (.inl (.inl (.inr rfl)))

/-! ## Constraints that tell the kinds apart -/

/-- The constraint that a host of a kind offers and a host of another kind does not. -/
def kindConst : Option AvailabilityZone → ResourceConstraint
  | none => mgmtConst
  | some az => zoneConst az

theorem kindConst_mem_strip_iff (k : Option AvailabilityZone) (set : Finset ResourceConstraint) :
    kindConst k ∈ stripConstraintSet set strip ↔ kindConst k ∈ set := by
  unfold stripConstraintSet
  rw [Finset.mem_filter]
  cases k <;> simp [kindConst, mgmtConst, zoneConst, of, strip]

theorem kindConst_mem_mgmt_iff (k : Option AvailabilityZone) :
    kindConst k ∈ ({mgmtConst} : Finset ResourceConstraint) ↔ k = none := by
  cases k <;> simp [kindConst, mgmtConst, zoneConst, of]

/-- **A host is matched by its kind**, whatever else it offers. -/
theorem kindConst_mem_host_iff (h : Host) (k : Option AvailabilityZone) :
    kindConst k ∈ hostConstraintsToMatch h ↔ h.kind = k := by
  unfold hostConstraintsToMatch Host.kind
  rw [kindConst_mem_strip_iff]
  by_cases hm : h.managementOnly = true
  · rw [if_pos hm, if_pos hm, kindConst_mem_mgmt_iff, eq_comm]
  · rw [if_neg hm, if_neg hm, getHostConstraintsSet, Multiset.mem_toFinset]
    cases k with
    | none => simp [kindConst, mgmtConst_mem_iff, hm]
    | some az => simp [kindConst, zoneConst_mem_iff]

/-- **So is a leaf**, when its constraints are those of hosts of one kind and it has a host. -/
theorem kindConst_mem_sch_iff (set : Finset ResourceConstraint) (hosts : Host → Prop) (m : Host) (hm : hosts m)
    (hset : ∀ c, c ∈ set ↔ ∃ h, hosts h ∧ c ∈ getHostConstraints h) (hkind : ∀ h, hosts h → h.kind = m.kind)
    (k : Option AvailabilityZone) : kindConst k ∈ schConstraintsToMatch set ↔ m.kind = k := by
  have hmgmt : ∀ h, hosts h → h.managementOnly = m.managementOnly := by
    intro h hh
    rw [← Host.isNone_kind, hkind h hh, Host.isNone_kind]
  have hmem : mgmtConst ∈ set ↔ m.managementOnly = true := by
    rw [hset]
    constructor
    · rintro ⟨h, hh, hc⟩
      rw [← hmgmt h hh]
      exact (mgmtConst_mem_iff h).1 hc
    · intro hmo
      exact ⟨m, hm, (mgmtConst_mem_iff m).2 hmo⟩
  unfold schConstraintsToMatch
  rw [kindConst_mem_strip_iff]
  by_cases hmo : m.managementOnly = true
  · rw [if_pos (hmem.2 hmo), kindConst_mem_mgmt_iff, Host.kind, if_pos hmo, eq_comm]
  · rw [if_neg (fun hc => hmo (hmem.1 hc)), hset]
    constructor
    · rintro ⟨h, hh, hc⟩
      rw [← hkind h hh]
      cases k with
      | none => exact absurd ((hmgmt h hh).symm.trans ((mgmtConst_mem_iff h).1 hc)) hmo
      | some az =>
        rw [Host.kind, if_neg (by rw [hmgmt h hh]; exact hmo), (zoneConst_mem_iff h az).1 hc]
    · rintro rfl
      refine ⟨m, hm, ?_⟩
      rw [Host.kind, if_neg hmo]
      exact (zoneConst_mem_iff m _).2 rfl

/-- **Corresponding sets are of one kind.** -/
theorem kind_eq_of_corresponding {sch host : Finset ResourceConstraint} {k j : Option AvailabilityZone}
    (hc : correspondingSet sch host = true) (hsch : ∀ i, kindConst i ∈ sch ↔ k = i)
    (hhost : ∀ i, kindConst i ∈ host ↔ j = i) : j = k := by
  unfold correspondingSet at hc
  split at hc
  · have hsub := of_decide_eq_true hc
    exact ((hsch j).1 (hsub ((hhost j).2 rfl))).symm
  · have hsub := of_decide_eq_true hc
    exact (hhost k).1 (hsub ((hsch k).2 rfl))

namespace Hierarchy

variable {u : Uuid} {s s' : Hierarchy}

def Homogeneous (s : Hierarchy) : Prop :=
  ∀ l, s.IsLeaf l → ∀ i j r x, (s.scheduler l).hosts.get i = some r → (s.scheduler l).hosts.get j = some x →
    (s.host r).kind = (s.host x).kind

/-- **A host that a leaf is matched with is of the kind of its hosts.** -/
theorem kind_of_matches (ha : s.Accounted) (hk : s.Homogeneous) {l : SchedulerRef} {r x : HostRef} {j : String}
    (hl : s.IsLeaf l) (hm : s.Matches l r) (hx : (s.scheduler l).hosts.get j = some x) :
    (s.host r).kind = (s.host x).kind := by
  refine kind_eq_of_corresponding hm (kindConst_mem_sch_iff _
    (fun h => ∃ y ∈ (s.scheduler l).hosts.values, s.host y = h) (s.host x) ⟨x, ?_, rfl⟩ ?_ ?_)
    (kindConst_mem_host_iff (s.host r))
  · exact LinkedMap.mem_values_iff.2 ⟨j, hx⟩
  · intro c
    rw [ha.constraintSet_eq, Multiset.mem_toFinset, ha.leaf l hl, LinkedMap.mem_sum]
    constructor
    · rintro ⟨y, hy, hc⟩
      exact ⟨s.host y, ⟨y, hy, rfl⟩, hc⟩
    · rintro ⟨_, ⟨y, hy, rfl⟩, hc⟩
      exact ⟨y, hy, hc⟩
  · rintro _ ⟨y, hy, rfl⟩
    obtain ⟨i, hi⟩ := LinkedMap.mem_values_iff.1 hy
    exact hk l hl i j y x hi hx

theorem Step.kind (hstep : Step u s s') (h : s.Wf u) (x : HostRef) (hx : x ≠ s.heap.nextHost) :
    (s'.host x).kind = (s.host x).kind := by
  obtain ⟨hzone, hsort, -⟩ := (hstep.remains h x).resolve_right fun hnew => hx hnew.1
  simp only [Host.kind, hzone, hsort]

/-- **Every step keeps the leaves homogeneous.** -/
theorem Step.homogeneous (hstep : Step u s s') (h : s.Wf u) (ha : s.Accounted) (hk : s.Homogeneous) :
    s'.Homogeneous := by
  obtain ⟨r₀, horigin⟩ := (hstep.move h).member_origin h
  have hkind : ∀ l i r, s'.IsLeaf l → (s'.scheduler l).hosts.get i = some r → (s'.host r).kind = (s.host r).kind := by
    intro l i r hl hm
    obtain ⟨-, hold | ⟨rfl, hne, -⟩⟩ := horigin l i r hl hm
    · exact hstep.kind h r (Shape.Wf.member_ne_next h hold)
    · exact hstep.kind h r hne
  intro l hl i j r x hr hx
  rw [hkind l i r hl hr, hkind l j x hl hx]
  obtain ⟨hleaf, hr' | ⟨hr', -, hmr⟩⟩ := horigin l i r hl hr
  · obtain ⟨-, hx' | ⟨hx', -, hmx⟩⟩ := horigin l j x hl hx
    · exact hk l hleaf i j r x hr' hx'
    · rw [hx']
      exact (kind_of_matches ha hk hleaf hmx hr').symm
  · obtain ⟨-, hx' | ⟨hx', -, -⟩⟩ := horigin l j x hl hx
    · rw [hr']
      exact kind_of_matches ha hk hleaf hmr hx'
    · rw [hr', hx']

theorem Steps.homogeneous (hsteps : Steps u s s') (h : s.Wf u) (ha : s.Accounted) (hk : s.Homogeneous) :
    s'.Homogeneous := by
  induction hsteps with
  | refl => exact hk
  | tail hsteps hstep ih => exact hstep.homogeneous (Steps.wf hsteps h) (Steps.accounted hsteps h ha) ih

/-- **After every run of operations on a new hierarchy a leaf has management hosts only, or no management host and hosts
of one zone only.** -/
theorem leaf_hosts_alike_run (u : Uuid) (rootFanout leafFanout : Nat) (hlf : 1 ≤ leafFanout) (ops : List Op) :
    let s := run u (new rootFanout leafFanout) ops
    ∀ l ∈ s.leafSchedulers.values,
      (∀ r ∈ (s.scheduler l).hosts.values, (s.host r).managementOnly = true) ∨
      (∃ az, ∀ r ∈ (s.scheduler l).hosts.values, (s.host r).managementOnly = false ∧
        (s.host r).availabilityZone = az) := by
  intro s l hl
  have hk : s.Homogeneous := (run_steps ops _ (wf_new u rootFanout leafFanout) hlf).homogeneous
    (wf_new u rootFanout leafFanout) (accounted_new rootFanout leafFanout) (by rintro m ⟨i, hi⟩; cases hi)
  have hkind : ∀ r ∈ (s.scheduler l).hosts.values, ∀ x ∈ (s.scheduler l).hosts.values,
      (s.host r).kind = (s.host x).kind := by
    intro r hr x hx
    obtain ⟨i, hi⟩ := LinkedMap.mem_values_iff.1 hr
    obtain ⟨j, hj⟩ := LinkedMap.mem_values_iff.1 hx
    exact hk l (LinkedMap.mem_values_iff.1 hl) i j r x hi hj
  by_cases hex : ∃ r ∈ (s.scheduler l).hosts.values, (s.host r).managementOnly = false
  · obtain ⟨r, hr, hm⟩ := hex
    refine .inr ⟨(s.host r).availabilityZone, fun x hx => ?_⟩
    have hxr := hkind x hx r hr
    have hmx : (s.host x).managementOnly = false := by rw [← Host.isNone_kind, hxr, Host.isNone_kind, hm]
    simp only [Host.kind, hm, hmx, Bool.false_eq_true, if_false, Option.some.injEq] at hxr
    exact ⟨hmx, hxr⟩
  · refine .inl (fun r hr => ?_)
    by_contra hm
    exact hex ⟨r, hr, by simpa using hm⟩

/-- A management host and a host of a zone do not share a leaf with room for both. -/
theorem leaf_hosts_alike_run_two_kinds :
    let s := run Uuid.unary (new 2 2) [.addHost "m" ⟨"a"⟩ KeyedList.empty KeyedList.empty true "x" 1,
      .addHost "h" ⟨"a"⟩ KeyedList.empty KeyedList.empty false "y" 1, .scan Chance.first]
    ∀ l ∈ s.leafSchedulers.values,
      (∀ r ∈ (s.scheduler l).hosts.values, (s.host r).managementOnly = true) ∨
      (∃ az, ∀ r ∈ (s.scheduler l).hosts.values, (s.host r).managementOnly = false ∧
        (s.host r).availabilityZone = az) :=
  leaf_hosts_alike_run Uuid.unary 2 2 (by decide) _

end Hierarchy
end Photon.Chairman
