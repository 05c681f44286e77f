import Photon.CheckerCandidates
import Photon.Multimap
/-!
# CheckerIndex — the in-memory checker and the query

`InMemoryConstraintChecker` reads all the host and datastore documents once, keeps for each resource the hosts that have
it, and answers a list of constraints by intersecting these sets.  `mem_of` says which hosts are in the sets.

The query honours the sign of every constraint; the in-memory checker looks at the sign of a constraint on a zone or on
a host only.  `checkers_agree_iff` says when they match the same hosts nevertheless.
-/
namespace Photon.RootScheduler

open List
open Keyed (KeyedList LinkedMap Multimap)

abbrev Hosts : Type := KeyedList (fun h : HostService.State => h.documentId.name)

structure InMemoryConstraintChecker where
  hosts : LinkedMap String ServerAddress
  managementHosts : Finset String
  networks : Multimap String String
  datastores : Multimap String String
  datastoreTags : Multimap String String
  availabilityZones : Multimap String String

namespace InMemoryConstraintChecker

/-- `documentSelfLink.substring(trimLength)`. -/
def hostIdOf (h : HostService.State) : String :=
  String.ofList (h.documentSelfLink.toList.drop (hostFactorySelfLink ++ "/").toList.length)

def empty : InMemoryConstraintChecker := ⟨.empty, ∅, .empty, .empty, .empty, .empty⟩

def tagsOf (datastores : Datastores) (reported : Finset String) : Finset String :=
  reported.biUnion (fun id => ((datastores.find id).bind DatastoreService.State.tags).getD ∅)

/-- One round of the loop over the hosts; a host with a null field is ignored. -/
def addHost (datastores : Datastores) (checker : InMemoryConstraintChecker) (h : HostService.State) :
    InMemoryConstraintChecker :=
  match h.reportedDatastores, h.reportedNetworks with
  | some reportedDatastores, some reportedNetworks =>
    { hosts := checker.hosts.put (hostIdOf h) ⟨h.hostAddress, h.agentPort⟩
      managementHosts :=
        if mgmt ∈ h.usageTags then insert (hostIdOf h) checker.managementHosts else checker.managementHosts
      networks := checker.networks.addEach reportedNetworks (hostIdOf h)
      datastores := checker.datastores.addEach reportedDatastores (hostIdOf h)
      datastoreTags := checker.datastoreTags.addEach (tagsOf datastores reportedDatastores) (hostIdOf h)
      availabilityZones :=
        match h.availabilityZoneId with
        | some zone => checker.availabilityZones.addOrUpdate zone (hostIdOf h)
        | none => checker.availabilityZones }
  | _, _ => checker

def of (hosts : Hosts) (datastores : Datastores) : InMemoryConstraintChecker :=
  hosts.elems.foldl (addHost datastores) empty

variable (checker : InMemoryConstraintChecker)

def getHosts : Finset String := checker.hosts.keys.toFinset

def getHostsInAvailabilityZone (availabilityZone : String) : Finset String :=
  checker.availabilityZones.values availabilityZone

def getHostsNotInAvailabilityZone (availabilityZone : String) : Finset String :=
  checker.getHosts \ checker.availabilityZones.values availabilityZone

def getHostsWithDatastore (datastoreId : String) : Finset String := checker.datastores.values datastoreId

def getHostsWithDatastoreTag (datastoreTag : String) : Finset String := checker.datastoreTags.values datastoreTag

def getHostsWithNetwork (networkId : String) : Finset String := checker.networks.values networkId

def getHostsExceptFor (host : String) : Finset String := checker.getHosts \ {host}

def getManagementHosts : Finset String := checker.managementHosts

def checkConstraint (constraint : ResourceConstraint) : Except CheckerError (Finset String) :=
  match constraint.values with
  | [value] =>
    .ok (match constraint.type with
      | .availabilityZone =>
        if constraint.isNegative then checker.getHostsNotInAvailabilityZone value
        else checker.getHostsInAvailabilityZone value
      | .datastore => checker.getHostsWithDatastore value
      | .datastoreTag => checker.getHostsWithDatastoreTag value
      | .host =>
        if constraint.isNegative then checker.getHostsExceptFor value
        else if value ∈ checker.getHosts then {value} else ∅
      | .managementOnly => checker.getManagementHosts
      | .network => checker.getHostsWithNetwork value)
  | _ => .error (.invalidConstraint "Invalid constraint with multiple values: " constraint)

/-- The loop that intersects the hosts of the constraints that are left. -/
def intersect : List ResourceConstraint → Finset String → Except CheckerError (Finset String)
  | [], found => .ok found
  | c :: cs, found =>
    match checker.checkConstraint c with
    | .ok more => intersect cs (found ∩ more)
    | .error e => .error e

def matchingHosts : List ResourceConstraint → Except CheckerError (Finset String)
  | [] => .ok checker.getHosts
  | c :: cs =>
    match checker.checkConstraint c with
    | .ok found => checker.intersect cs found
    | .error e => .error e

end InMemoryConstraintChecker

/-! ## What the sets hold -/

open InMemoryConstraintChecker (hostIdOf tagsOf addHost of)

theorem hostIdOf_eq (h : HostService.State) : hostIdOf h = h.documentId.name := by
  have hlink : h.documentSelfLink.toList = (hostFactorySelfLink ++ "/").toList ++ h.documentId.name.toList :=
    String.toList_append
  rw [hostIdOf, hlink, drop_left, String.ofList_toList]

structure Usable (h : HostService.State) : Prop where
  ready : h.state = .ready
  active : h.agentState = some .active
  datastores : h.reportedDatastores.isSome = true
  networks : h.reportedNetworks.isSome = true
  zone : h.availabilityZoneId.isSome = true

structure Indexes (known : Datastores) (docs : List HostService.State) (checker : InMemoryConstraintChecker) :
    Prop where
  hosts : ∀ id, id ∈ checker.getHosts ↔ ∃ h ∈ docs, h.documentId.name = id
  management : ∀ id, id ∈ checker.managementHosts ↔ ∃ h ∈ docs, h.documentId.name = id ∧ mgmt ∈ h.usageTags
  networks : ∀ v id, (v, id) ∈ checker.networks.pairs ↔
    ∃ h ∈ docs, h.documentId.name = id ∧ v ∈ h.reportedNetworks.getD ∅
  datastores : ∀ v id, (v, id) ∈ checker.datastores.pairs ↔
    ∃ h ∈ docs, h.documentId.name = id ∧ v ∈ h.reportedDatastores.getD ∅
  tags : ∀ v id, (v, id) ∈ checker.datastoreTags.pairs ↔
    ∃ h ∈ docs, h.documentId.name = id ∧ v ∈ tagsOf known (h.reportedDatastores.getD ∅)
  zones : ∀ v id, (v, id) ∈ checker.availabilityZones.pairs ↔
    ∃ h ∈ docs, h.documentId.name = id ∧ h.availabilityZoneId = some v

theorem mem_getHosts (checker : InMemoryConstraintChecker) (id : String) :
    id ∈ checker.getHosts ↔ ∃ address, checker.hosts.get id = some address := by
  rw [InMemoryConstraintChecker.getHosts, mem_toFinset, LinkedMap.mem_keys_iff]

theorem exists_append_singleton {p : HostService.State → Prop} (hosts : List HostService.State)
    (h : HostService.State) : (∃ x ∈ hosts ++ [h], p x) ↔ (∃ x ∈ hosts, p x) ∨ p h := by
  simp only [mem_append, mem_singleton, or_and_right, exists_or, exists_eq_left]

theorem Indexes.addHost {datastores : Datastores} {hosts : List HostService.State} {checker : InMemoryConstraintChecker}
    {h : HostService.State} (hi : Indexes datastores hosts checker) (hu : Usable h) :
    Indexes datastores (hosts ++ [h]) (addHost datastores checker h) := by
  obtain ⟨ds, hds⟩ := Option.isSome_iff_exists.1 hu.datastores
  obtain ⟨nets, hnets⟩ := Option.isSome_iff_exists.1 hu.networks
  obtain ⟨zone, hzone⟩ := Option.isSome_iff_exists.1 hu.zone
  simp only [InMemoryConstraintChecker.addHost, hds, hnets, hzone, hostIdOf_eq]
  constructor
  · intro id
    rw [exists_append_singleton, ← hi.hosts, mem_getHosts, mem_getHosts, LinkedMap.get_put]
    by_cases he : id = h.documentId.name
    · simp [he]
    · simp [he, Ne.symm he]
  · intro id
    rw [exists_append_singleton, ← hi.management]
    by_cases hm : mgmt ∈ h.usageTags
    · simp [hm, or_comm, @eq_comm _ id]
    · simp [hm]
  · intro v id
    rw [exists_append_singleton, ← hi.networks, Multimap.mem_pairs_addEach]
    simp [hnets, and_comm, @eq_comm _ id]
  · intro v id
    rw [exists_append_singleton, ← hi.datastores, Multimap.mem_pairs_addEach]
    simp [hds, and_comm, @eq_comm _ id]
  · intro v id
    rw [exists_append_singleton, ← hi.tags, Multimap.mem_pairs_addEach]
    simp [hds, and_comm, @eq_comm _ id]
  · intro v id
    rw [exists_append_singleton, ← hi.zones, Multimap.mem_pairs_addOrUpdate]
    simp [hzone, and_comm, @eq_comm _ id, @eq_comm _ v]

theorem Indexes.foldl_addHost {datastores : Datastores} : ∀ {hosts done : List HostService.State}
    {checker : InMemoryConstraintChecker}, Indexes datastores done checker → (∀ h ∈ hosts, Usable h) →
      Indexes datastores (done ++ hosts) (hosts.foldl (InMemoryConstraintChecker.addHost datastores) checker)
  | [], done, checker, hi, _ => by simpa using hi
  | h :: hosts, done, checker, hi, hu => by
    have hrest := (hi.addHost (hu h (by simp))).foldl_addHost (fun x hx => hu x (mem_cons_of_mem _ hx))
    rw [append_assoc] at hrest
    exact hrest

variable {datastores : Datastores}

/-- **After the constructor the sets hold every host.** -/
theorem indexes_of {hosts : Hosts} (hu : ∀ h ∈ hosts.elems, Usable h) :
    Indexes datastores hosts.elems (of hosts datastores) := by
  have hempty : Indexes datastores [] InMemoryConstraintChecker.empty := by
    constructor <;> simp [InMemoryConstraintChecker.empty, InMemoryConstraintChecker.getHosts, LinkedMap.keys,
      LinkedMap.entries, LinkedMap.empty]
  exact hempty.foldl_addHost hu

/-! ## What a constraint keeps -/

/-- A negative constraint the in-memory checker treats as a positive one. -/
def ignoresSign (c : ResourceConstraint) : Bool :=
  c.isNegative && !(decide (c.type = .availabilityZone) || decide (c.type = .host))

def keeps (datastores : Datastores) (c : ResourceConstraint) (h : HostService.State) : Bool :=
  if ignoresSign c then offers datastores c h else allows datastores c h

theorem mem_tagsOf (datastores : Datastores) (reported : Finset String) (t : String) :
    t ∈ tagsOf datastores reported ↔ ∃ d ∈ datastores.elems, d.documentId.name ∈ reported ∧ t ∈ d.tags.getD ∅ := by
  simp only [tagsOf, Finset.mem_biUnion]
  constructor
  · rintro ⟨id, hid, ht⟩
    cases hd : datastores.find id with
    | none => simp [hd] at ht
    | some d =>
      obtain ⟨hmem, rfl⟩ := (datastores.find_eq_some_iff id d).1 hd
      exact ⟨d, hmem, hid, by simpa [hd] using ht⟩
  · rintro ⟨d, hd, hid, ht⟩
    have hfind := (datastores.find_eq_some_iff d.documentId.name d).2 ⟨hd, rfl⟩
    exact ⟨d.documentId.name, hid, by simpa [hfind] using ht⟩

variable {c : ResourceConstraint} {v : String}

theorem names_of_single (hv : c.values = [v]) : names c = true := by
  simp [names, hv]

theorem keeps_of_unsigned (hv : c.values = [v])
    (hz : c.type ≠ .availabilityZone) (hh : c.type ≠ .host) (h : HostService.State) :
    keeps datastores c h = offers datastores c h := by
  unfold keeps ignoresSign allows
  rw [names_of_single hv]
  cases c.isNegative <;> simp [hz, hh]

theorem keeps_of_signed (hv : c.values = [v]) (ht : c.type = .availabilityZone ∨ c.type = .host)
    (h : HostService.State) : keeps datastores c h = (offers datastores c h != c.isNegative) := by
  unfold keeps ignoresSign allows
  rw [names_of_single hv]
  rcases ht with ht | ht <;> simp [ht]

section

variable {hosts : Hosts} {datastores : Datastores} {checker : InMemoryConstraintChecker}

theorem mem_sdiff_iff {found rest : Finset String} {p : HostService.State → Prop}
    (hall : ∀ id, id ∈ found ↔ ∃ h ∈ hosts.elems, h.documentId.name = id)
    (hrest : ∀ id, id ∈ rest ↔ ∃ h ∈ hosts.elems, h.documentId.name = id ∧ p h) (id : String) :
    id ∈ found \ rest ↔ ∃ h ∈ hosts.elems, h.documentId.name = id ∧ ¬ p h := by
  rw [Finset.mem_sdiff, hall, hrest]
  constructor
  · rintro ⟨⟨h, hh, hid⟩, hnot⟩
    exact ⟨h, hh, hid, fun hp => hnot ⟨h, hh, hid, hp⟩⟩
  · rintro ⟨h, hh, hid, hnot⟩
    refine ⟨⟨h, hh, hid⟩, ?_⟩
    rintro ⟨x, hx, hxid, hp⟩
    exact hnot (hosts.eq_of_key_eq hx hh (hxid.trans hid.symm) ▸ hp)

/-- **The hosts a constraint keeps**: all that it allows, or, where its sign is ignored, all that offer the resource. -/
theorem mem_checkConstraint (hi : Indexes datastores hosts.elems checker) {c : ResourceConstraint} {v : String}
    (hv : c.values = [v]) : ∃ found, checker.checkConstraint c = .ok found ∧
      ∀ id, id ∈ found ↔ ∃ h ∈ hosts.elems, h.documentId.name = id ∧ keeps datastores c h = true := by
  simp only [InMemoryConstraintChecker.checkConstraint, hv]
  refine ⟨_, rfl, fun id => ?_⟩
  cases ht : c.type with
  | availabilityZone =>
    simp only [keeps_of_signed hv (.inl ht), offers, ht, hv]
    cases hn : c.isNegative with
    | true =>
      rw [if_pos rfl, InMemoryConstraintChecker.getHostsNotInAvailabilityZone,
        mem_sdiff_iff hi.hosts (fun id => by rw [Multimap.mem_values, hi.zones])]
      simp
    | false => simp [InMemoryConstraintChecker.getHostsInAvailabilityZone, hi.zones]
  | host =>
    simp only [keeps_of_signed hv (.inr ht), offers, ht, hv]
    cases hn : c.isNegative with
    | true =>
      simp only [if_true, InMemoryConstraintChecker.getHostsExceptFor, Finset.mem_sdiff, Finset.mem_singleton, hi.hosts]
      constructor
      · rintro ⟨⟨h, hh, rfl⟩, hne⟩
        exact ⟨h, hh, rfl, by simpa using hne⟩
      · rintro ⟨h, hh, rfl, hne⟩
        exact ⟨⟨h, hh, rfl⟩, by simpa using hne⟩
    | false =>
      by_cases hmem : v ∈ checker.getHosts
      · obtain ⟨h, hh, rfl⟩ := (hi.hosts v).1 hmem
        simp only [Bool.false_eq_true, if_false, if_pos hmem, Finset.mem_singleton]
        constructor
        · rintro rfl
          exact ⟨h, hh, rfl, by simp⟩
        · rintro ⟨x, _, rfl, hx⟩
          simpa using hx
      · simp only [Bool.false_eq_true, if_false, if_neg hmem, Finset.notMem_empty, false_iff]
        rintro ⟨x, hx, rfl, hxv⟩
        refine hmem ((hi.hosts v).2 ⟨x, hx, ?_⟩)
        simpa using hxv
  | datastore =>
    simp [keeps_of_unsigned hv, offers, ht, hv, InMemoryConstraintChecker.getHostsWithDatastore, hi.datastores]
  | datastoreTag =>
    simp [keeps_of_unsigned hv, offers, ht, hv, InMemoryConstraintChecker.getHostsWithDatastoreTag, hi.tags, mem_tagsOf]
  | managementOnly =>
    simp [keeps_of_unsigned hv, offers, ht, InMemoryConstraintChecker.getManagementHosts, hi.management]
  | network =>
    simp [keeps_of_unsigned hv, offers, ht, hv, InMemoryConstraintChecker.getHostsWithNetwork, hi.networks]

theorem mem_intersect (hi : Indexes datastores hosts.elems checker) : ∀ {cs : List ResourceConstraint}
    {found : Finset String} {p : HostService.State → Prop}, (∀ c ∈ cs, c.values.length = 1) →
    (∀ id, id ∈ found ↔ ∃ h ∈ hosts.elems, h.documentId.name = id ∧ p h) → ∃ left,
      checker.intersect cs found = .ok left ∧
      ∀ id, id ∈ left ↔ ∃ h ∈ hosts.elems, h.documentId.name = id ∧ p h ∧ ∀ c ∈ cs, keeps datastores c h = true
  | [], found, p, _, hfound => ⟨found, rfl, by simpa using hfound⟩
  | c :: cs, found, p, hcs, hfound => by
    obtain ⟨v, hv⟩ := length_eq_one_iff.1 (hcs c (by simp))
    obtain ⟨more, hc, hmore⟩ := mem_checkConstraint hi hv
    have hboth : ∀ id, id ∈ found ∩ more ↔
        ∃ h ∈ hosts.elems, h.documentId.name = id ∧ p h ∧ keeps datastores c h = true := by
      intro id
      rw [Finset.mem_inter, hfound, hmore]
      constructor
      · rintro ⟨⟨h, hh, hid, hp⟩, x, hx, hxid, hk⟩
        obtain rfl := hosts.eq_of_key_eq hx hh (hxid.trans hid.symm)
        exact ⟨x, hh, hid, hp, hk⟩
      · rintro ⟨h, hh, hid, hp, hk⟩
        exact ⟨⟨h, hh, hid, hp⟩, h, hh, hid, hk⟩
    obtain ⟨left, hleft, hmem⟩ := mem_intersect hi (fun d hd => hcs d (mem_cons_of_mem _ hd)) hboth
    refine ⟨left, by simp only [InMemoryConstraintChecker.intersect, hc, hleft], fun id => ?_⟩
    rw [hmem]
    simp only [and_assoc, forall_mem_cons]

/-- **The in-memory checker matches the hosts that every constraint keeps.** -/
theorem mem_matchingHosts (hi : Indexes datastores hosts.elems checker) {cs : List ResourceConstraint}
    (hcs : ∀ c ∈ cs, c.values.length = 1) : ∃ found, checker.matchingHosts cs = .ok found ∧
      ∀ id, id ∈ found ↔ ∃ h ∈ hosts.elems, h.documentId.name = id ∧ ∀ c ∈ cs, keeps datastores c h = true := by
  cases cs with
  | nil => exact ⟨_, rfl, fun id => by simpa using hi.hosts id⟩
  | cons c cs =>
    obtain ⟨v, hv⟩ := length_eq_one_iff.1 (hcs c (by simp))
    obtain ⟨found, hc, hfound⟩ := mem_checkConstraint hi hv
    obtain ⟨left, hleft, hmem⟩ := mem_intersect hi (fun d hd => hcs d (mem_cons_of_mem _ hd)) hfound
    refine ⟨left, by simp only [InMemoryConstraintChecker.matchingHosts, hc, hleft], fun id => ?_⟩
    rw [hmem]
    simp only [forall_mem_cons]

end

/-! ## The query -/

/-- The host matches the query that is built for the constraints, in one of the two halves that are searched.  Where no
query is built no host is matched. -/
def queryMatches (datastores : Datastores) (cs : List ResourceConstraint) (draw : Draw)
    (h : HostService.State) : Bool :=
  match buildQuery datastores (some (cs.map some)) draw.upper.lowerBound draw.upper.upperBound with
  | .ok q => Query.matches q h || Query.matches (updateQueryRange draw.lower.lowerBound draw.lower.upperBound q) h
  | .error _ => false

theorem constraintsOf_map_some (cs : List ResourceConstraint) : constraintsOf (some (cs.map some)) = cs := by
  simp [constraintsOf, filterMap_map]

theorem queryMatches_iff {cs : List ResourceConstraint} {draw : Draw} {h : HostService.State}
    (hu : Usable h) : queryMatches datastores cs draw h = true ↔
      (∀ c ∈ cs, Resolvable datastores c) ∧ ∀ c ∈ cs, allows datastores c h = true := by
  unfold queryMatches
  by_cases hcs : ∀ c ∈ constraintsOf (some (cs.map some)), Resolvable datastores c
  · obtain ⟨q, hq, hmatch, hupdate⟩ := buildQuery_of_resolvable hcs draw.upper.lowerBound draw.upper.upperBound
    obtain ⟨q', hq', hmatch', _⟩ := buildQuery_of_resolvable hcs draw.lower.lowerBound draw.lower.upperBound
    rw [hupdate draw.lower.lowerBound draw.lower.upperBound] at hq'
    obtain rfl := Except.ok.inj hq'
    have hsplit := draw.splits_upper h.schedulingConstant.val h.schedulingConstant.isLt
    rw [constraintsOf_map_some] at hcs hmatch hmatch'
    simp only [hq, hmatch, hmatch', eligible, hu.ready, hu.active, decide_true, Bool.true_and, Bool.or_eq_true,
      Bool.and_eq_true, decide_eq_true_eq, all_eq_true]
    tauto
  · obtain ⟨message, he⟩ := buildQuery_of_not_resolvable hcs draw.upper.lowerBound draw.upper.upperBound
    rw [constraintsOf_map_some] at hcs
    simp [he, hcs]

/-! ## When the two agree -/

section

variable {datastores : Datastores} {cs : List ResourceConstraint} {h : HostService.State} {c : ResourceConstraint}

theorem allows_eq_of_ignoresSign (hc : c.values.length = 1) (hi : ignoresSign c = true) :
    allows datastores c h = !offers datastores c h := by
  obtain ⟨v, hv⟩ := length_eq_one_iff.1 hc
  have hneg : c.isNegative = true := by
    simp only [ignoresSign, Bool.and_eq_true] at hi
    exact hi.1
  simp [allows, names_of_single hv, hneg]

theorem resolvable_of_allows (hi : ignoresSign c = false) (hc : allows datastores c h = true) :
    Resolvable datastores c := by
  by_contra hres
  have ht : c.type = .datastoreTag := by
    by_contra hne
    exact hres (fun he => absurd he hne)
  have hneg : c.isNegative = false := by simpa [ignoresSign, ht] using hi
  rw [allows_eq_false_of_not_resolvable hres hneg] at hc
  cases hc

def Passes (datastores : Datastores) (cs : List ResourceConstraint) (h : HostService.State) : Prop :=
  ∀ c ∈ cs, ignoresSign c = false → allows datastores c h = true

/-- A host on which a list with an ignored sign is treated alike: both checkers leave it out.  The in-memory checker
does so when it lacks one of the resources that were to be avoided, the query when it has one, or when there is no
query. -/
def LeftOut (datastores : Datastores) (cs : List ResourceConstraint) (h : HostService.State) : Prop :=
  (∃ c ∈ cs, ignoresSign c = true ∧ offers datastores c h = false) ∧
    ((∃ c ∈ cs, ignoresSign c = true ∧ offers datastores c h = true) ∨ ∃ c ∈ cs, ¬ Resolvable datastores c)

theorem forall_keeps_iff (h : HostService.State) : (∀ c ∈ cs, keeps datastores c h = true) ↔
    Passes datastores cs h ∧ ∀ c ∈ cs, ignoresSign c = true → offers datastores c h = true := by
  unfold Passes keeps
  rw [← forall₂_and]
  refine forall₂_congr (fun c _ => ?_)
  cases ignoresSign c <;> simp

theorem forall_allows_iff (hcs : ∀ c ∈ cs, c.values.length = 1) (h : HostService.State) :
    (∀ c ∈ cs, allows datastores c h = true) ↔
      Passes datastores cs h ∧ ∀ c ∈ cs, ignoresSign c = true → offers datastores c h = false := by
  unfold Passes
  rw [← forall₂_and]
  refine forall₂_congr (fun c hc => ?_)
  cases hi : ignoresSign c with
  | false => simp
  | true => simp [allows_eq_of_ignoresSign (hcs c hc) hi]

theorem alike_iff (hcs : ∀ c ∈ cs, c.values.length = 1) (h : HostService.State) :
      ((∀ c ∈ cs, keeps datastores c h = true) ↔
      (∀ c ∈ cs, Resolvable datastores c) ∧ ∀ c ∈ cs, allows datastores c h = true) ↔
    ((∀ c ∈ cs, ignoresSign c = false) ∨ (Passes datastores cs h → LeftOut datastores cs h)) := by
  rw [forall_keeps_iff, forall_allows_iff hcs]
  by_cases hsigned : ∀ c ∈ cs, ignoresSign c = false
  · have hres : Passes datastores cs h → ∀ c ∈ cs, Resolvable datastores c :=
      fun hp c hc => resolvable_of_allows (hsigned c hc) (hp c hc (hsigned c hc))
    have hvac : ∀ b, ∀ c ∈ cs, ignoresSign c = true → offers datastores c h = b := by
      intro b c hc hi
      rw [hsigned c hc] at hi
      cases hi
    exact iff_of_true ⟨fun hl => ⟨hres hl.1, hl.1, hvac false⟩, fun hr => ⟨hr.2.1, hvac true⟩⟩ (.inl hsigned)
  · -- with an ignored sign no host is matched by both, so they agree where neither matches
    simp only [hsigned, false_or]
    simp only [not_forall, Bool.not_eq_false] at hsigned
    obtain ⟨c, hc, hi⟩ := hsigned
    unfold LeftOut
    constructor
    · intro hiff hp
      refine ⟨?_, ?_⟩
      · by_contra hno
        simp only [not_exists, not_and, Bool.not_eq_false] at hno
        have := (hiff.1 ⟨hp, fun d hd hdi => hno d hd hdi⟩).2.2 c hc hi
        rw [hno c hc hi] at this
        cases this
      · by_contra hno
        simp only [not_or, not_exists, not_and, not_not, Bool.not_eq_true] at hno
        have := (hiff.2 ⟨hno.2, hp, hno.1⟩).2 c hc hi
        rw [hno.1 c hc hi] at this
        cases this
    · intro hout
      constructor
      · rintro ⟨hp, hall⟩
        obtain ⟨⟨d, hd, hdi, hoff⟩, _⟩ := hout hp
        rw [hall d hd hdi] at hoff
        cases hoff
      · rintro ⟨hres, hp, hall⟩
        obtain ⟨_, ⟨d, hd, hdi, hoff⟩ | ⟨d, hd, hno⟩⟩ := hout hp
        · rw [hall d hd hdi] at hoff
          cases hoff
        · exact absurd (hres d hd) hno

end

def queriedHosts (hosts : Hosts) (datastores : Datastores) (cs : List ResourceConstraint) (draw : Draw) :
    Finset String :=
  ((hosts.elems.filter (queryMatches datastores cs draw)).map (fun h => h.documentId.name)).toFinset

/-- **The in-memory checker matches the hosts the query matches**, whatever the halves searched, exactly if no sign is
ignored or every host that satisfies the other constraints is left out by both. -/
theorem checkers_agree_iff (hosts : Hosts) (datastores : Datastores) (cs : List ResourceConstraint) (draw : Draw)
    (hu : ∀ h ∈ hosts.elems, Usable h) (hcs : ∀ c ∈ cs, c.values.length = 1) :
    (of hosts datastores).matchingHosts cs = .ok (queriedHosts hosts datastores cs draw) ↔
      (∀ c ∈ cs, ignoresSign c = false) ∨
        ∀ h ∈ hosts.elems, Passes datastores cs h → LeftOut datastores cs h := by
  obtain ⟨found, hfound, hmem⟩ := mem_matchingHosts (indexes_of hu) hcs
  have hqueried : ∀ id, id ∈ queriedHosts hosts datastores cs draw ↔
      ∃ h ∈ hosts.elems, h.documentId.name = id ∧ queryMatches datastores cs draw h = true := by
    intro id
    simp only [queriedHosts, mem_toFinset, mem_map, mem_filter]
    constructor
    · rintro ⟨h, ⟨hh, hq⟩, hid⟩
      exact ⟨h, hh, hid, hq⟩
    · rintro ⟨h, hh, hid, hq⟩
      exact ⟨h, ⟨hh, hq⟩, hid⟩
  have hsets : found = queriedHosts hosts datastores cs draw ↔ ∀ h ∈ hosts.elems,
      ((∀ c ∈ cs, keeps datastores c h = true) ↔ queryMatches datastores cs draw h = true) := by
    rw [Finset.ext_iff]
    simp only [hmem, hqueried]
    constructor
    · intro heq h hh
      have := heq h.documentId.name
      constructor
      · intro hk
        obtain ⟨x, hx, hid, hq⟩ := this.1 ⟨h, hh, rfl, hk⟩
        exact hosts.eq_of_key_eq hx hh hid ▸ hq
      · intro hq
        obtain ⟨x, hx, hid, hk⟩ := this.2 ⟨h, hh, rfl, hq⟩
        exact hosts.eq_of_key_eq hx hh hid ▸ hk
    · intro hall id
      exact exists_congr (fun h => and_congr_right (fun hh => and_congr_right (fun _ => hall h hh)))
  have halike : found = queriedHosts hosts datastores cs draw ↔ ∀ h ∈ hosts.elems,
      ((∀ c ∈ cs, ignoresSign c = false) ∨ (Passes datastores cs h → LeftOut datastores cs h)) := by
    rw [hsets]
    refine forall₂_congr (fun h hh => ?_)
    rw [queryMatches_iff (hu h hh), alike_iff hcs]
  rw [hfound, Except.ok.injEq, halike]
  by_cases hsigned : ∀ c ∈ cs, ignoresSign c = false
  · exact iff_of_true (fun _ _ => .inl hsigned) (.inl hsigned)
  · simp only [hsigned, false_or]

def storageHost : HostService.State :=
  { hostA with availabilityZoneId := some "zone", reportedDatastores := some {"ds"} }

def oneHost : Hosts := ⟨[storageHost], by decide⟩

def avoid (id : String) : ResourceConstraint := ⟨.datastore, [id], some true⟩

theorem usable_storageHost : Usable storageHost := ⟨rfl, rfl, rfl, rfl, rfl⟩

theorem checkers_agree_elsewhere : (of oneHost .empty).matchingHosts [⟨.datastore, ["ds"], none⟩] =
    .ok (queriedHosts oneHost .empty [⟨.datastore, ["ds"], none⟩] middleDraw) := by
  refine (checkers_agree_iff oneHost .empty [⟨.datastore, ["ds"], none⟩] middleDraw ?_ (by decide)).2 (.inl (by decide))
  intro h hh
  obtain rfl : h = storageHost := by simpa [oneHost] using hh
  exact usable_storageHost

/-- A host with the datastore that is to be avoided: the in-memory checker matches it, the query does not. -/
theorem avoided_datastore_matched : (of oneHost .empty).matchingHosts [avoid "ds"] = .ok {"a"} ∧
    queriedHosts oneHost .empty [avoid "ds"] middleDraw = ∅ ∧
    (of oneHost .empty).matchingHosts [avoid "ds"] ≠ .ok (queriedHosts oneHost .empty [avoid "ds"] middleDraw) := by
  have hmatched : (of oneHost .empty).matchingHosts [avoid "ds"] = .ok {"a"} := by decide
  have hqueried : queriedHosts oneHost .empty [avoid "ds"] middleDraw = ∅ := by decide
  refine ⟨hmatched, hqueried, ?_⟩
  rw [hmatched, hqueried]
  intro he
  exact absurd (Except.ok.inj he) (by decide)

end Photon.RootScheduler
