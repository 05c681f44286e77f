import Photon.Strategy
import Photon.TreeHeap
/-!
# StrategyLeaf — what the summary of a leaf says about its hosts

The chairman reports for a leaf the constraints of all its hosts, as one set (`fillHostConstraints`).  The root
scheduler passes a request on to a leaf if `validateConstraints` finds the summary good enough.  Here that is compared
with the hosts themselves: `Host.offers` and `satisfies` say what a host has and what a request asks of one host.

The summary forgets which host has what, and nothing is reported for a host that has no resource of a type.
`pruning_exact_iff` says when no usable leaf is left out, and when the count for negative `HOST` constraints is right.
-/
namespace Photon

open List
open Keyed (KeyedList)
open Chairman (Host getHostConstraints getHostConstraintsSet datastoreConstraints mgmtConst)
open RootScheduler (integerMaxValue setResources validateSingleConstraint validateEach validateConstraints)
open ResourceConstraint (isNegative mk of)

def Chairman.Host.offers (h : Host) (v : String) : ResourceConstraintType → Prop
  | .host => v = h.id
  | .availabilityZone => v = h.availabilityZone.id
  | .datastore => ∃ ds ∈ h.datastores.elems, ds.id = v
  | .datastoreTag => ∃ ds ∈ h.datastores.elems, v ∈ ds.tags
  | .network => ∃ net ∈ h.networks.elems, net.id = v
  | .managementOnly => h.managementOnly = true ∧ v = ""

/-- What a constraint asks of a host: one of the values, or none of them. -/
def satisfies (h : Host) (c : ResourceConstraint) : Prop :=
  if c.isNegative then ∀ v ∈ c.values, ¬ h.offers v c.type else ∃ v ∈ c.values, h.offers v c.type

structure Leaf where
  hosts : KeyedList Host.id
  bounded : hosts.size ≤ integerMaxValue

/-- What the chairman reports for a leaf: the set of the constraints of its hosts, in some order. -/
structure Reported (leaf : Leaf) where
  constraints : List ResourceConstraint
  nodup : constraints.Nodup
  mem : ∀ c, c ∈ constraints ↔ ∃ h ∈ leaf.hosts.elems, c ∈ getHostConstraintsSet h

def unnamed (leaf : Leaf) (c : ResourceConstraint) : Nat := leaf.hosts.elems.countP (fun h => decide (h.id ∉ c.values))

def unnamedByAll (leaf : Leaf) (request : List ResourceConstraint) : Nat :=
  leaf.hosts.elems.countP (fun h => decide (∀ c ∈ request, h.id ∉ c.values))

theorem unnamed_le_size (leaf : Leaf) (c : ResourceConstraint) : unnamed leaf c ≤ leaf.hosts.size := countP_le_length

/-! ## The reported values -/

theorem mem_datastoreConstraints_iff (ds : Datastore) (c : ResourceConstraint) : c ∈ datastoreConstraints ds ↔
    c = .of .datastore [ds.id] ∨ ∃ tag ∈ ds.tags, c = .of .datastoreTag [tag] := by
  simp only [datastoreConstraints, Multiset.mem_cons, Multiset.mem_map, Finset.mem_val, @eq_comm _ c]

/-- **A host reports one constraint for each resource it has.** -/
theorem mem_getHostConstraints_iff (h : Host) (c : ResourceConstraint) : c ∈ getHostConstraints h ↔
    ∃ v, c = .of c.type [v] ∧ h.offers v c.type := by
  have hmgmt : c ∈ (if h.managementOnly then {mgmtConst} else 0 : Multiset ResourceConstraint) ↔
      h.managementOnly = true ∧ c = mgmtConst := by
    cases h.managementOnly <;> simp
  unfold getHostConstraints
  simp only [Multiset.mem_add, Multiset.mem_singleton, KeyedList.mem_sum, mem_datastoreConstraints_iff, hmgmt]
  obtain ⟨type, values, negative⟩ := c
  cases type with
  | host | availabilityZone => simp [of, Host.offers, mgmtConst]
  | datastore =>
    simp only [of, Host.offers, mgmtConst]
    simp [and_comm]
  | datastoreTag =>
    simp only [of, Host.offers, mgmtConst, mk.injEq, reduceCtorEq, false_and,
      and_false, exists_false, or_false, false_or, true_and]
    constructor
    · rintro ⟨ds, hds, tag, htag, hv⟩
      exact ⟨tag, hv, ds, hds, htag⟩
    · rintro ⟨tag, hv, ds, hds, htag⟩
      exact ⟨ds, hds, tag, htag, hv⟩
  | network | managementOnly =>
    simp only [of, Host.offers, mgmtConst]
    simp [and_comm]

section

variable {leaf : Leaf} (reported : Reported leaf)

theorem mem_valuesOf_reported (type : ResourceConstraintType) (v : String) :
    v ∈ valuesOf reported.constraints type ↔ ∃ h ∈ leaf.hosts.elems, h.offers v type := by
  simp only [mem_valuesOf, reported.mem, getHostConstraintsSet, Multiset.mem_toFinset, mem_getHostConstraints_iff]
  constructor
  · rintro ⟨c, ⟨h, hh, w, hc, hoffers⟩, rfl, hv⟩
    rw [hc] at hv
    obtain rfl := mem_singleton.1 hv
    exact ⟨h, hh, hoffers⟩
  · rintro ⟨h, hh, hoffers⟩
    exact ⟨.of type [v], ⟨h, hh, v, rfl, hoffers⟩, rfl, mem_singleton_self v⟩

/-- **A positive constraint that some host satisfies is admitted**; a negative one is admitted only if some host has a
resource of the type that is not to be avoided. -/
theorem admits_reported_iff (c : ResourceConstraint) : Admits reported.constraints c ↔
    if c.isNegative then ∃ h ∈ leaf.hosts.elems, ∃ v, h.offers v c.type ∧ v ∉ c.values
    else ∃ h ∈ leaf.hosts.elems, ∃ v ∈ c.values, h.offers v c.type := by
  unfold Admits
  simp only [mem_valuesOf_reported]
  split
  · constructor
    · rintro ⟨v, ⟨h, hh, hoffers⟩, hv⟩
      exact ⟨h, hh, v, hoffers, hv⟩
    · rintro ⟨h, hh, v, hoffers, hv⟩
      exact ⟨v, ⟨h, hh, hoffers⟩, hv⟩
  · constructor
    · rintro ⟨v, hv, h, hh, hoffers⟩
      exact ⟨h, hh, v, hv, hoffers⟩
    · rintro ⟨h, hh, v, hv, hoffers⟩
      exact ⟨v, hv, h, hh, hoffers⟩

theorem valuesOf_host_perm : (valuesOf reported.constraints .host).Perm (leaf.hosts.elems.map Host.id) := by
  have hsingle : ∀ c ∈ reported.constraints.filter (fun c => decide (c.type = .host)), ∃ v, c = .of .host [v] := by
    intro c hc
    obtain ⟨hc, ht⟩ := mem_filter.1 hc
    obtain ⟨h, _, hmem⟩ := (reported.mem c).1 hc
    obtain ⟨v, hv, _⟩ := (mem_getHostConstraints_iff h c).1 (Multiset.mem_toFinset.1 hmem)
    rw [of_decide_eq_true ht] at hv
    exact ⟨v, hv⟩
  have hnodup : (valuesOf reported.constraints .host).Nodup := by
    unfold valuesOf
    rw [nodup_flatMap]
    refine ⟨fun c hc => ?_, (reported.nodup.filter _).pairwise_of_forall_ne (fun c hc d hd hne => ?_)⟩
    · obtain ⟨v, rfl⟩ := hsingle c hc
      exact nodup_singleton v
    · obtain ⟨v, rfl⟩ := hsingle c hc
      obtain ⟨w, rfl⟩ := hsingle d hd
      simp only [Function.onFun, of, disjoint_singleton, mem_singleton]
      rintro rfl
      exact hne rfl
  rw [perm_ext_iff_of_nodup hnodup leaf.hosts.nodup]
  intro v
  rw [mem_valuesOf_reported, mem_map]
  exact exists_congr (fun h => and_congr_right (fun _ => eq_comm))

/-! ## The count -/

def OnlyAvoidsHosts (request : List ResourceConstraint) : Prop := ∀ c ∈ request, c.type = .host ∧ c.isNegative = true

variable {c : ResourceConstraint}

theorem validateSingleConstraint_avoidsHosts (ht : c.type = .host) (hn : c.isNegative = true) :
    validateSingleConstraint c (setResources reported.constraints) = unnamed leaf c := by
  have hcount := (valuesOf_host_perm reported).countP_eq (fun v => decide (v ∉ c.values))
  rw [countP_map] at hcount
  unfold validateSingleConstraint
  rw [RootScheduler.get_setResources, ht]
  by_cases hreported : ∃ x ∈ reported.constraints, x.type = .host
  · simp only [if_pos hreported, hn, Bool.not_true, Bool.false_eq_true, if_false]
    exact hcount
  · -- without a host nothing is reported
    simp only [if_neg hreported]
    have hnone : leaf.hosts.elems = [] := by
      rw [eq_nil_iff_forall_not_mem]
      intro h hh
      have hv := (mem_valuesOf_reported reported .host h.id).2 ⟨h, hh, rfl⟩
      obtain ⟨x, hx, hxt, _⟩ := (mem_valuesOf _ _ _).1 hv
      exact hreported ⟨x, hx, hxt⟩
    unfold unnamed
    rw [hnone]
    rfl

/-- **For negative constraints on hosts the loop computes the least of the counts**, and no more than it starts with. -/
theorem validateEach_avoidsHosts : ∀ {request : List ResourceConstraint}, OnlyAvoidsHosts request → ∀ total : Nat,
    let result := validateEach (setResources reported.constraints) request total
    (result ≤ total ∧ ∀ c ∈ request, result ≤ unnamed leaf c) ∧
      (result = total ∨ ∃ c ∈ request, result = unnamed leaf c)
  | [], _, total => by simp [validateEach]
  | c :: request, honly, total => by
    obtain ⟨⟨ht, hn⟩, hrest⟩ := forall_mem_cons.1 honly
    have hcount := validateSingleConstraint_avoidsHosts reported ht hn
    simp only [validateEach, hcount, ht, hn, ne_eq, not_true_eq_false, Bool.true_eq_false, or_self, if_false]
    by_cases hzero : unnamed leaf c = 0
    · simp only [if_pos hzero]
      exact ⟨⟨Nat.zero_le _, fun _ _ => Nat.zero_le _⟩, .inr ⟨c, mem_cons_self, hzero.symm⟩⟩
    · simp only [if_neg hzero]
      obtain ⟨⟨hle, hall⟩, hor⟩ := validateEach_avoidsHosts hrest (min (unnamed leaf c) total)
      refine ⟨⟨hle.trans (min_le_right _ _), ?_⟩, ?_⟩
      · rw [forall_mem_cons]
        exact ⟨hle.trans (min_le_left _ _), hall⟩
      · rcases hor with heq | ⟨d, hd, heq⟩
        · rcases min_choice (unnamed leaf c) total with hmin | hmin
          · exact .inr ⟨c, mem_cons_self, heq.trans hmin⟩
          · exact .inl (heq.trans hmin)
        · exact .inr ⟨d, mem_cons_of_mem _ hd, heq⟩

variable {request : List ResourceConstraint}

theorem unnamed_eq_iff (hc : c ∈ request) : unnamed leaf c = unnamedByAll leaf request ↔
      ∀ h ∈ leaf.hosts.elems, (∃ d ∈ request, h.id ∈ d.values) → h.id ∈ c.values := by
  have hfilter : unnamedByAll leaf request = (leaf.hosts.elems.filter (fun h => decide (h.id ∉ c.values))).countP
      (fun h => decide (∀ d ∈ request, h.id ∉ d.values)) := by
    rw [countP_filter]
    refine countP_congr (fun h _ => ?_)
    simp only [Bool.and_eq_true, decide_eq_true_eq]
    exact ⟨fun hall => ⟨hall, hall c hc⟩, fun hall => hall.1⟩
  rw [unnamed, countP_eq_length_filter, hfilter, eq_comm, countP_eq_length]
  simp only [mem_filter, decide_eq_true_eq]
  constructor
  · intro hall h hh hd
    obtain ⟨d, hd, hmem⟩ := hd
    by_contra hnot
    exact hall h ⟨hh, hnot⟩ d hd hmem
  · intro hall h hh d hd hmem
    exact hh.2 (hall h hh.1 ⟨d, hd, hmem⟩)

/-! ## When the summary is good enough -/

/-- For every negative constraint some host has a resource of its type that is not to be avoided. -/
def LeavesResource (leaf : Leaf) (request : List ResourceConstraint) : Prop :=
  ∀ c ∈ request, c.isNegative = true → ∃ h ∈ leaf.hosts.elems, ∃ v, h.offers v c.type ∧ v ∉ c.values

/-- One constraint names every host that any of them names.  (Without a constraint the count is `Integer.MAX_VALUE`.) -/
def NamedByOne (leaf : Leaf) (request : List ResourceConstraint) : Prop :=
  (request = [] ∧ leaf.hosts.size = integerMaxValue) ∨
    ∃ c ∈ request, ∀ h ∈ leaf.hosts.elems, (∃ d ∈ request, h.id ∈ d.values) → h.id ∈ c.values

def HasUsableHost (leaf : Leaf) (request : List ResourceConstraint) : Prop :=
  ∃ h ∈ leaf.hosts.elems, ∀ c ∈ request, satisfies h c

theorem validate_pos_iff_of_usable (husable : HasUsableHost leaf request) :
    0 < validateConstraints (setResources reported.constraints) request ↔ LeavesResource leaf request := by
  obtain ⟨h, hh, hall⟩ := husable
  rw [RootScheduler.validateConstraints_pos_iff]
  refine forall₂_congr (fun c hc => ?_)
  rw [admits_reported_iff]
  have hsat := hall c hc
  unfold satisfies at hsat
  cases hn : c.isNegative with
  | true => simp
  | false =>
    simp only [hn, Bool.false_eq_true, if_false, false_imp_iff, iff_true] at hsat ⊢
    exact ⟨h, hh, hsat⟩

theorem validate_eq_unnamedByAll_iff (honly : OnlyAvoidsHosts request) :
    validateConstraints (setResources reported.constraints) request = unnamedByAll leaf request ↔
    NamedByOne leaf request := by
  obtain ⟨⟨hle, hall⟩, hor⟩ := validateEach_avoidsHosts reported honly integerMaxValue
  have hbound := leaf.bounded
  unfold NamedByOne validateConstraints
  cases request with
  | nil =>
    have hnil : unnamedByAll leaf [] = leaf.hosts.size := by simp [unnamedByAll, KeyedList.size]
    simp [validateEach, hnil, eq_comm]
  | cons d request =>
    simp only [reduceCtorEq, false_and, false_or]
    generalize validateEach (setResources reported.constraints) (d :: request) integerMaxValue = result at hle hall hor
    constructor
    · intro heq
      -- the least count is that of some constraint, also where it is the start value
      have hattained : ∃ c ∈ d :: request, result = unnamed leaf c := by
        rcases hor with hmax | hattained
        · refine ⟨d, mem_cons_self, le_antisymm (hall d mem_cons_self) ?_⟩
          have := unnamed_le_size leaf d
          omega
        · exact hattained
      obtain ⟨c, hc, hcount⟩ := hattained
      exact ⟨c, hc, (unnamed_eq_iff hc).1 (hcount.symm.trans heq)⟩
    · intro hone
      obtain ⟨c, hc, hnames⟩ := hone
      have hcount := (unnamed_eq_iff hc).2 hnames
      refine le_antisymm (hcount ▸ hall c hc) ?_
      rcases hor with hmax | ⟨e, he, heq⟩
      · have := unnamed_le_size leaf c
        omega
      · rw [heq]
        refine countP_mono_left (fun h _ hall => ?_)
        rw [decide_eq_true_eq] at hall ⊢
        exact hall e he

end

/-- **A usable leaf is passed on to and the count of hosts is right, exactly if** every negative constraint of a request
that some host satisfies leaves a resource of its type, and, where the request only avoids hosts, one constraint names
every host that any names. -/
theorem pruning_exact_iff (leaf : Leaf) (reported : Reported leaf) (request : List ResourceConstraint) :
    ((HasUsableHost leaf request → validateConstraints (setResources reported.constraints) request > 0) ∧
      (OnlyAvoidsHosts request →
        validateConstraints (setResources reported.constraints) request = unnamedByAll leaf request)) ↔
    ((HasUsableHost leaf request → LeavesResource leaf request) ∧
      (OnlyAvoidsHosts request → NamedByOne leaf request)) :=
  and_congr (forall_congr' (fun husable => validate_pos_iff_of_usable reported husable))
    (forall_congr' (fun honly => validate_eq_unnamedByAll_iff reported honly))

def storageOnly : Host := Host.new "a" ⟨"zone"⟩ ⟨[⟨"ds", ∅⟩], by decide⟩ .empty false none 0

def diskless (id : String) : Host := Host.new id ⟨"zone"⟩ .empty .empty false none 0

def threeHosts : Leaf := ⟨⟨[storageOnly, diskless "b", diskless "c"], by decide⟩, by decide⟩

def threeReported : Reported threeHosts where
  constraints := [.of .host ["a"], .of .host ["b"], .of .host ["c"], .of .availabilityZone ["zone"],
    .of .datastore ["ds"]]
  nodup := by decide
  mem := by
    intro c
    simp [threeHosts, storageOnly, diskless, Host.new, getHostConstraintsSet, getHostConstraints, KeyedList.sum,
      datastoreConstraints]
    tauto

/-- **A leaf with a usable host is left out**, since the only datastore reported is the one to be avoided; and of two
negative `HOST` constraints only the smaller count is kept. -/
theorem usable_leaf_pruned : HasUsableHost threeHosts [⟨.datastore, ["ds"], some true⟩] ∧
    validateConstraints (setResources threeReported.constraints) [⟨.datastore, ["ds"], some true⟩] = 0 ∧
    unnamedByAll threeHosts [⟨.host, ["a"], some true⟩, ⟨.host, ["b"], some true⟩] = 1 ∧
    validateConstraints (setResources threeReported.constraints)
      [⟨.host, ["a"], some true⟩, ⟨.host, ["b"], some true⟩] = 2 := by
  refine ⟨⟨diskless "b", by simp [threeHosts], ?_⟩, by decide, by decide, by decide⟩
  simp [satisfies, isNegative, Host.offers, diskless, Host.new]

end Photon
