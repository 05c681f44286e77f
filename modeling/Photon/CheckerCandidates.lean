import Photon.CheckerSelect
/-!
# CheckerCandidates — the candidates are eligible, and as many as can be

The two queries of a call cover the scheduling constants without overlap, so what the first one leaves out the second
one finds: a call whose query can be built selects eligible hosts only, and as many as are asked for or all of them
(`Selects`), on the simple and on the broadcast path.  A broadcast selects what one node with all the documents would
(`unionNode`).

`getCandidates_selects_iff` says when this holds for every list of constraints.  A constraint on tags that no datastore
carries has no query, and the call selects nothing; that is right for a positive constraint, which no host satisfies,
and wrong for a negative one, which excludes no host.
-/
namespace Photon.RootScheduler

open Keyed (KeyedList LinkedMap)
open Ranked (FirstOf)

section

variable (store : CloudStore) (cs : List ResourceConstraint)

/-- The hosts of Cloudstore that are ready and active and that every constraint allows. -/
def eligibleHosts : Finset HostService.State := store.hosts.filter (fun h => eligible store.datastores cs h = true)

/-- The result has eligible hosts only, each under its id with its address, and `n` of them or all. -/
structure Selects (n : Nat) (result : LinkedMap String ServerAddress) : Prop where
  sound : ∀ id address, result.get id = some address → ∃ h ∈ eligibleHosts store cs, entryOf h = (id, address)
  complete : result.size = min n (eligibleHosts store cs).card

variable {store cs}

theorem selects_of_entries {n : Nat} {result : LinkedMap String ServerAddress} {hosts : List HostService.State}
    (hentries : result.entries = hosts.map entryOf) (hsub : ∀ h ∈ hosts, h ∈ eligibleHosts store cs)
    (hlen : hosts.length = min n (eligibleHosts store cs).card) : Selects store cs n result := by
  constructor
  · intro id address hget
    rw [← LinkedMap.mem_entries_iff, hentries] at hget
    obtain ⟨h, hh, he⟩ := List.mem_map.1 hget
    exact ⟨h, hsub h hh, he⟩
  · rw [← hlen, LinkedMap.size, hentries, List.length_map]

end

/-! ## The two halves -/

def Splits (first second : Half) : Prop :=
  ∀ c < maxSchedulingConstant, (second.lowerBound ≤ c ∧ c < second.upperBound) ↔
    ¬ (first.lowerBound ≤ c ∧ c < first.upperBound)

theorem Draw.splits_upper (draw : Draw) : Splits draw.upper draw.lower := by
  intro c hc
  simp only [upper, lower]
  omega

theorem Draw.splits_lower (draw : Draw) : Splits draw.lower draw.upper := by
  intro c hc
  simp only [upper, lower]
  omega

def Half.has (half : Half) (h : HostService.State) : Bool :=
  decide (half.lowerBound ≤ h.schedulingConstant.val) && decide (h.schedulingConstant.val < half.upperBound)

section

variable {store : CloudStore} {resourceConstraints : Option (List (Option ResourceConstraint))}

def Asks (store : CloudStore) (cs : List ResourceConstraint) (half : Half) (q : Query) : Prop :=
  ∀ h, Query.matches q h = (half.has h && eligible store.datastores cs h)

variable {cs : List ResourceConstraint} {first second : Half} {q q' : Query} {n : Nat}

variable {h : HostService.State}

theorem Asks.matching_subset (hq : Asks store cs first q) (hh : h ∈ matching store q) : h ∈ eligibleHosts store cs := by
  obtain ⟨hh, hm⟩ := Finset.mem_filter.1 hh
  rw [hq h, Bool.and_eq_true] at hm
  exact Finset.mem_filter.2 ⟨hh, hm.2⟩

theorem Splits.has_iff (hsplit : Splits first second) (h : HostService.State) :
    second.has h = true ↔ ¬ first.has h = true := by
  simpa [Half.has] using hsplit h.schedulingConstant.val h.schedulingConstant.isLt

theorem Splits.disjoint (hsplit : Splits first second) (hq : Asks store cs first q) (hq' : Asks store cs second q') :
    Disjoint (matching store q) (matching store q') := by
  rw [Finset.disjoint_left]
  intro h hh hh'
  have hm := (Finset.mem_filter.1 hh).2
  have hm' := (Finset.mem_filter.1 hh').2
  rw [hq h, Bool.and_eq_true] at hm
  rw [hq' h, Bool.and_eq_true] at hm'
  exact (hsplit.has_iff h).1 hm'.1 hm.1

theorem Splits.card (hsplit : Splits first second) (hq : Asks store cs first q) (hq' : Asks store cs second q') :
    (eligibleHosts store cs).card = (matching store q).card + (matching store q').card := by
  rw [← Finset.card_union_of_disjoint (hsplit.disjoint hq hq')]
  congr 1
  ext h
  simp only [eligibleHosts, matching, Finset.mem_union, Finset.mem_filter, hq h, hq' h, Bool.and_eq_true]
  have := hsplit.has_iff h
  tauto

theorem nodup_names {hosts : List HostService.State} (hnd : hosts.Nodup) (hsub : ∀ h ∈ hosts, h ∈ store.hosts) :
    (hosts.map (fun h => h.documentId.name)).Nodup :=
  List.Nodup.map_on (fun x hx y hy he => store.same x (hsub x hx) y (hsub y hy) he) hnd

theorem mem_hosts_of_matching (hh : h ∈ matching store q) : h ∈ store.hosts :=
  (Finset.mem_filter.1 hh).1

theorem entries_submit_empty (hn : 1 ≤ n) (order : SortOrder) (k : Nat) :
    (submit store k q n order .empty).entries = ((answer store q order n k).take n).map entryOf := by
  rw [submit_eq, entries_addCandidates]
  · rw [LinkedMap.size_empty, Nat.sub_zero]
    rfl
  · exact nodup_names (nodup_answer store q order n k)
      (fun h hh => mem_hosts_of_matching (mem_answer store q order n hh))
  · exact fun _ _ => rfl
  · exact hn

theorem nodup_names_answer (order : SortOrder) (k : Nat) :
    ((answer store q order n k).map (fun h => h.documentId.name)).Nodup :=
  nodup_names (nodup_answer store q order n k) (fun _ hh => mem_hosts_of_matching (mem_answer store q order n hh))

theorem get_submit_empty (hn : 1 ≤ n) (hsplit : Splits first second) (hq : Asks store cs first q)
    (hq' : Asks store cs second q') (order order' : SortOrder) (hh : h ∈ answer store q' order' n 1) :
    (submit store 0 q n order .empty).get h.documentId.name = none := by
  by_contra hget
  obtain ⟨address, hget⟩ := Option.ne_none_iff_exists'.1 hget
  rw [← LinkedMap.mem_entries_iff, entries_submit_empty hn] at hget
  obtain ⟨x, hx, he⟩ := List.mem_map.1 hget
  have hh := mem_answer store q' order' n hh
  have hx := (first_answer store q order n 0).subset x hx
  obtain rfl := store.same x (mem_hosts_of_matching hx) h (mem_hosts_of_matching hh) (congrArg Prod.fst he)
  exact Finset.disjoint_left.1 (hsplit.disjoint hq hq') hx hh

/-- **The two queries of a call select `n` eligible hosts, or all.** -/
theorem selects_submit (hn : 1 ≤ n) (hsplit : Splits first second) (hq : Asks store cs first q)
    (hq' : Asks store cs second q') (order order' : SortOrder) : let result := submit store 0 q n order .empty
    Selects store cs n (if result.size < n then submit store 1 q' n order' result else result) := by
  intro result
  have hentries : result.entries = ((answer store q order n 0).take n).map entryOf := entries_submit_empty hn order 0
  have hfirst := first_answer store q order n 0
  have hcard := hsplit.card hq hq'
  have hsize : result.size = ((answer store q order n 0).take n).length := by
    rw [LinkedMap.size, hentries, List.length_map]
  have hlen := hfirst.length
  have hsub : ∀ h ∈ (answer store q order n 0).take n, h ∈ eligibleHosts store cs :=
    fun h hh => hq.matching_subset (hfirst.subset h hh)
  by_cases hmore : result.size < n
  · rw [if_pos hmore, submit_eq]
    have hadd := entries_addCandidates (answer store q' order' n 1) result (nodup_names_answer order' 1)
      (fun h hh => get_submit_empty hn hsplit hq hq' order order' hh) hmore
    rw [hentries, ← List.map_append] at hadd
    refine selects_of_entries hadd (fun h hh => ?_) ?_
    · rcases List.mem_append.1 hh with hh | hh
      · exact hsub h hh
      · exact hq'.matching_subset (mem_answer store q' order' n (List.mem_of_mem_take hh))
    · have hlen' := (first_answer store q' order' n 1).length
      rw [List.length_take] at hlen'
      rw [List.length_append, hlen, List.length_take]
      omega
  · rw [if_neg hmore]
    refine selects_of_entries hentries hsub ?_
    omega

theorem asks_of_resolvable (hcs : ∀ c ∈ constraintsOf resourceConstraints, Resolvable store.datastores c)
    (first second : Half) : ∃ q,
      buildQuery store.datastores resourceConstraints first.lowerBound first.upperBound = .ok q ∧
      Asks store (constraintsOf resourceConstraints) first q ∧
      Asks store (constraintsOf resourceConstraints) second
        (updateQueryRange second.lowerBound second.upperBound q) := by
  obtain ⟨q, hq, hmatch, hupdate⟩ := buildQuery_of_resolvable hcs first.lowerBound first.upperBound
  obtain ⟨q', hq', hmatch', _⟩ := buildQuery_of_resolvable hcs second.lowerBound second.upperBound
  rw [hupdate second.lowerBound second.upperBound] at hq'
  obtain rfl := Except.ok.inj hq'
  exact ⟨q, hq, hmatch, hmatch'⟩

theorem searchHalves_of_resolvable (hn : 1 ≤ n) (hsplit : Splits first second)
    (hcs : ∀ c ∈ constraintsOf resourceConstraints, Resolvable store.datastores c) :
    ∃ result, searchHalves store resourceConstraints n first second = .ok result ∧
      Selects store (constraintsOf resourceConstraints) n result := by
  obtain ⟨q, hq, hasks, hasks'⟩ := asks_of_resolvable hcs first second
  have hsel := selects_submit hn hsplit hasks hasks' first.sortOrder second.sortOrder
  refine ⟨_, ?_, hsel⟩
  simp only [searchHalves, hq]
  split <;> rfl

theorem searchHalves_of_not_resolvable (hcs : ¬ ∀ c ∈ constraintsOf resourceConstraints,
    Resolvable store.datastores c) : searchHalves store resourceConstraints n first second = .ok .empty := by
  obtain ⟨message, he⟩ := buildQuery_of_not_resolvable hcs first.lowerBound first.upperBound
  simp only [searchHalves, he]

end

/-! ## One node in the place of all -/

/-- A node with all the host documents, which answers what the answers of the nodes come to when put together. -/
def unionNode (store : CloudStore) : CloudStoreNode where
  documents := store.hosts
  query q order limit := (collate store.nodes q limit order).take limit
  first q order limit := first_collate store q order limit

def CloudStore.single (store : CloudStore) (node : CloudStoreNode) (hnode : node.documents = store.hosts) :
    CloudStore where
  serverSetSize := 1
  nodes := [node]
  contacted _ := node
  datastores := store.datastores
  same := by
    intro h hh h' hh'
    rw [mem_documentsOf] at hh hh'
    simp only [List.mem_singleton, exists_eq_left, hnode] at hh hh'
    exact store.same h hh h' hh'
  replicated _ _ := by simp [documentsOf]

def CloudStoreNode.Sorted (node : CloudStoreNode) : Prop :=
  ∀ q order limit, (node.query q order limit).Pairwise (fun a b => order.rank a ≤ order.rank b)

section

variable {store : CloudStore} {resourceConstraints : Option (List (Option ResourceConstraint))}
  {first second : Half} {n : Nat}

theorem addCandidates_take (hosts : List HostService.State) (result : LinkedMap String ServerAddress)
    (hnd : (hosts.map (fun h => h.documentId.name)).Nodup) (hfree : ∀ h ∈ hosts, result.get h.documentId.name = none)
    (hroom : result.size < n) : addCandidates n (hosts.take n) result = addCandidates n hosts result := by
  have hnd' : ((hosts.take n).map (fun h => h.documentId.name)).Nodup :=
    hnd.sublist ((List.take_sublist n hosts).map _)
  apply LinkedMap.ext_entries
  rw [entries_addCandidates _ _ hnd hfree hroom,
    entries_addCandidates _ _ hnd' (fun h hh => hfree h (List.mem_of_mem_take hh)) hroom, List.take_take,
    Nat.min_eq_left (Nat.sub_le n result.size)]

theorem documents_unionNode (store : CloudStore) : (unionNode store).documents = store.hosts := rfl

theorem answer_single (hb : shouldUseBroadcastQuery store = true) (q : Query) (order : SortOrder) (k : Nat) :
    answer (store.single (unionNode store) (documents_unionNode store)) q order n k =
    (answer store q order n k).take n := by
  unfold answer
  rw [if_pos hb]
  rfl

/-- **A broadcast selects what the node with all the documents would.** -/
theorem searchHalves_single (hb : shouldUseBroadcastQuery store = true) (hn : 1 ≤ n) (hsplit : Splits first second) :
    searchHalves (store.single (unionNode store) (documents_unionNode store)) resourceConstraints n first second =
      searchHalves store resourceConstraints n first second := by
  by_cases hcs : ∀ c ∈ constraintsOf resourceConstraints, Resolvable store.datastores c
  · obtain ⟨q, hq, hasks, hasks'⟩ := asks_of_resolvable hcs first second
    have hfirst : submit (store.single (unionNode store) (documents_unionNode store)) 0 q n first.sortOrder .empty =
        submit store 0 q n first.sortOrder .empty := by
      rw [submit_eq, submit_eq, answer_single hb]
      exact addCandidates_take _ _ (nodup_names_answer first.sortOrder 0) (fun _ _ => rfl) hn
    have hq1 : buildQuery (store.single (unionNode store)
      (documents_unionNode store)).datastores resourceConstraints first.lowerBound
      first.upperBound = .ok q := hq
    simp only [searchHalves, hq, hq1, hfirst]
    split
    · rename_i hmore
      rw [submit_eq _ _ second.sortOrder, submit_eq _ _ second.sortOrder, answer_single hb]
      rw [addCandidates_take _ _ (nodup_names_answer second.sortOrder 1) ?_ hmore]
      exact fun h hh => get_submit_empty hn hsplit hasks hasks' first.sortOrder second.sortOrder hh
    · rfl
  · have hempty : searchHalves store resourceConstraints n first second = .ok .empty :=
      searchHalves_of_not_resolvable hcs
    rw [hempty]
    exact searchHalves_of_not_resolvable hcs

end

/-! ## Stores -/

def CloudStoreNode.holding (docs : List HostService.State) (hnd : docs.Nodup) : CloudStoreNode where
  documents := docs.toFinset
  query q order limit :=
    ((docs.filter (fun h => Query.matches q h)).insertionSort (fun a b => order.rank a ≤ order.rank b)).take limit
  first q order limit := by
    refine FirstOf.of_sorted (fun h => ?_) ?_ (order.pairwise_sort _)
    · rw [List.mem_insertionSort, List.mem_filter, Finset.mem_filter, List.mem_toFinset]
    · exact (List.perm_insertionSort _ _).nodup_iff.2 (hnd.filter _)

def plainHost (id : DocumentId) (schedulingConstant : Fin maxSchedulingConstant) : HostService.State where
  documentId := id
  state := .ready
  agentState := some .active
  hostAddress := "10.0.0.1"
  agentPort := 8835
  availabilityZoneId := none
  reportedDatastores := some ∅
  reportedNetworks := some ∅
  usageTags := {"CLOUD"}
  schedulingConstant := schedulingConstant

def idA : DocumentId := ⟨"a", by decide⟩

def hostA : HostService.State := plainHost idA 17

def hostB : HostService.State := plainHost ⟨"b", by decide⟩ 4711

def fourNodes : CloudStore where
  serverSetSize := 4
  nodes := [.holding [hostA] (by decide), .holding [hostA, hostB] (by decide), .holding [hostB] (by decide),
    .holding [] (by decide)]
  contacted _ := .holding [] (by decide)
  datastores := .empty
  same := by decide
  replicated h := absurd h (by decide)

def middleDraw : Draw := ⟨5000, by decide, by decide, true⟩

def oneNode : CloudStore where
  serverSetSize := 1
  nodes := [.holding [hostA] (by decide)]
  contacted _ := .holding [hostA] (by decide)
  datastores := .empty
  same := by decide
  replicated _ _ := by decide

def noSsd : ResourceConstraint := ⟨.datastoreTag, ["ssd"], some true⟩

/-! ## A call -/

section

variable (store : CloudStore) (resourceConstraints : Option (List (Option ResourceConstraint))) (numCandidates : Int)
  (draw : Draw)

theorem getCandidates_eq (hn : 1 ≤ numCandidates) : ∃ first second, Splits first second ∧
    ∀ store : CloudStore, getCandidates store resourceConstraints numCandidates draw =
      searchHalves store resourceConstraints numCandidates.toNat first second := by
  have hpos : ¬ numCandidates ≤ 0 := by omega
  cases hd : draw.upperFirst with
  | true => exact ⟨_, _, draw.splits_upper, fun store => by simp [getCandidates, hpos, hd]⟩
  | false => exact ⟨_, _, draw.splits_lower, fun store => by simp [getCandidates, hpos, hd]⟩

theorem eligibleHosts_eq_empty {store : CloudStore} {cs : List ResourceConstraint} {c : ResourceConstraint}
    (hc : c ∈ cs)
    (hres : ¬ Resolvable store.datastores c) (hpos : c.isNegative = false) : eligibleHosts store cs = ∅ := by
  rw [eligibleHosts, Finset.filter_eq_empty_iff]
  intro h _ he
  simp only [eligible, Bool.and_eq_true, List.all_eq_true] at he
  have hall := he.2 c hc
  rw [allows_eq_false_of_not_resolvable hres hpos] at hall
  cases hall

/-- **The candidates are eligible hosts, as many as asked for or all, and a broadcast selects what one node with all the
documents could**, for any midpoint and whichever half is searched first.  This fails where a negative constraint names
tags that no datastore carries while there is an eligible host, and nowhere else. -/
theorem getCandidates_selects_iff (hn : 1 ≤ numCandidates) :
    (∃ result, getCandidates store resourceConstraints numCandidates draw = .ok result ∧
      Selects store (constraintsOf resourceConstraints) numCandidates.toNat result ∧
      (shouldUseBroadcastQuery store = true → ∃ (node : CloudStoreNode) (hnode : node.documents = store.hosts),
        node.Sorted ∧ getCandidates (store.single node hnode) resourceConstraints numCandidates draw = .ok result)) ↔
    ((∃ c ∈ constraintsOf resourceConstraints, c.isNegative = true ∧ ¬ Resolvable store.datastores c) →
      eligibleHosts store (constraintsOf resourceConstraints) = ∅) := by
  obtain ⟨first, second, hsplit, hcall⟩ := getCandidates_eq resourceConstraints numCandidates draw hn
  have hn' : 1 ≤ numCandidates.toNat := by omega
  have hsingle : ∀ result, searchHalves store resourceConstraints numCandidates.toNat first second = .ok result →
      shouldUseBroadcastQuery store = true → ∃ (node : CloudStoreNode) (hnode : node.documents = store.hosts),
        node.Sorted ∧ searchHalves (store.single node hnode) resourceConstraints numCandidates.toNat first second =
          .ok result :=
    fun result hr hb => ⟨unionNode store, documents_unionNode store, 
      fun q order limit => (pairwise_collate store q order limit).sublist (List.take_sublist _ _),
      by rw [searchHalves_single hb hn' hsplit, hr]⟩
  simp only [hcall]
  by_cases hcs : ∀ c ∈ constraintsOf resourceConstraints, Resolvable store.datastores c
  · obtain ⟨result, hr, hsel⟩ := searchHalves_of_resolvable hn' hsplit hcs
    exact ⟨fun _ ⟨c, hc, _, hres⟩ => absurd (hcs c hc) hres, fun _ => ⟨result, hr, hsel, hsingle result hr⟩⟩
  · -- nothing is selected, which is right when no host is eligible
    have hr : searchHalves store resourceConstraints numCandidates.toNat first second = .ok .empty :=
      searchHalves_of_not_resolvable hcs
    constructor
    · rintro ⟨result, hr', hsel, _⟩ _
      rw [hr] at hr'
      obtain rfl := Except.ok.inj hr'
      have hsize := hsel.complete
      rw [LinkedMap.size_empty] at hsize
      exact Finset.card_eq_zero.1 (by omega)
    · intro hnone
      have hempty : eligibleHosts store (constraintsOf resourceConstraints) = ∅ := by
        simp only [not_forall] at hcs
        obtain ⟨c, hc, hres⟩ := hcs
        cases hneg : c.isNegative with
        | true => exact hnone ⟨c, hc, hneg, hres⟩
        | false => exact eligibleHosts_eq_empty hc hres hneg
      refine ⟨.empty, hr, ⟨fun id address hget => ?_, ?_⟩, hsingle _ hr⟩
      · exact absurd hget (by simp)
      · rw [hempty]
        simp

end

theorem getCandidates_selects_fourNodes : shouldUseBroadcastQuery fourNodes = true ∧
    ∃ result, getCandidates fourNodes none 2 middleDraw = .ok result ∧ Selects fourNodes [] 2 result := by
  obtain ⟨result, hr, hsel, _⟩ := (getCandidates_selects_iff fourNodes none 2 middleDraw (by decide)).2
    (fun ⟨c, hc, _⟩ => absurd hc (by simp [constraintsOf]))
  exact ⟨by decide, result, hr, hsel⟩

/-- No datastore is tagged, so the host satisfies the constraint; still it is not selected. -/
theorem unknown_tag_excludes_all : hostA ∈ eligibleHosts oneNode [noSsd] ∧
    getCandidates oneNode (some [some noSsd]) 1 middleDraw = .ok .empty ∧ ¬ Selects oneNode [noSsd] 1 .empty := by
  have hmem : hostA ∈ eligibleHosts oneNode [noSsd] := by decide
  refine ⟨hmem, by rfl, fun hsel => ?_⟩
  have hpos := Finset.card_pos.2 ⟨hostA, hmem⟩
  have hsize := hsel.complete
  rw [LinkedMap.size_empty] at hsize
  omega

end Photon.RootScheduler
