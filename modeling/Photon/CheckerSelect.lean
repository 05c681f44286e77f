import Photon.CheckerQuery
import Photon.Ranked
import Mathlib.Data.List.Sort
/-!
# CheckerSelect — drawing candidates from Cloudstore

`CloudStoreConstraintChecker.getCandidates` cuts the hosts at a random midpoint of their scheduling constants and asks
for one part and then, if it has too few, for the other.  With few Cloudstore nodes each query goes to one of them; with
more than the replication factor it goes to all, and the answers are put together, sorted again and cut.

A node's answer to a query is its first documents that match (`CloudStoreNode.first`): nothing is assumed about the
order within the answer, or about which of two documents with one scheduling constant comes first.
-/
namespace Photon.RootScheduler

open List
open Keyed (KeyedList LinkedMap)
open Ranked (FirstOf)

/-! ## Cloudstore -/

inductive SortOrder where
  | asc | desc
  deriving DecidableEq

def SortOrder.rank : SortOrder → HostService.State → Int
  | .asc, h => h.schedulingConstant.val
  | .desc, h => -h.schedulingConstant.val

/-- A node of Cloudstore: the host documents it holds, and its answers to a query with a sort order and a limit. -/
structure CloudStoreNode where
  documents : Finset HostService.State
  query : Query → SortOrder → Nat → List HostService.State
  first : ∀ q order limit,
    FirstOf order.rank limit (documents.filter (fun h => Query.matches q h = true)) (query q order limit)

def documentsOf (nodes : List CloudStoreNode) : Finset HostService.State :=
  nodes.foldr (fun node s => node.documents ∪ s) ∅

def replicationFactor : Nat := 3

/-- Cloudstore as the checker sees it: the size of its server set, its nodes, the node the `k`-th simple query of a call
reaches, and the datastores.  A document is the same on all the nodes that hold it, and with no more servers than the
replication factor every node holds all of them. -/
structure CloudStore where
  serverSetSize : Nat
  nodes : List CloudStoreNode
  contacted : Nat → CloudStoreNode
  datastores : Datastores
  same : ∀ h ∈ documentsOf nodes, ∀ h' ∈ documentsOf nodes, h.documentId.name = h'.documentId.name → h = h'
  replicated : serverSetSize ≤ replicationFactor → ∀ k, (contacted k).documents = documentsOf nodes

def CloudStore.hosts (store : CloudStore) : Finset HostService.State := documentsOf store.nodes

def shouldUseBroadcastQuery (store : CloudStore) : Bool := decide (replicationFactor < store.serverSetSize)

/-! ## Selecting candidates -/

structure ServerAddress where
  host : String
  port : Int
  deriving DecidableEq

/-- The loop both queries end in: puts the hosts into the result until there are enough. -/
def addCandidates (numCandidates : Nat) : List HostService.State → LinkedMap String ServerAddress →
    LinkedMap String ServerAddress
  | [], result => result
  | h :: hosts, result =>
    let result := result.put (getIDFromDocumentSelfLink h.documentSelfLink) ⟨h.hostAddress, h.agentPort⟩
    if numCandidates ≤ result.size then result else addCandidates numCandidates hosts result

def doSimpleQuery (node : CloudStoreNode) (query : Query) (numCandidates : Nat) (sortOrder : SortOrder)
    (result : LinkedMap String ServerAddress) : LinkedMap String ServerAddress :=
  addCandidates numCandidates (node.query query sortOrder numCandidates) result

def distinctHosts (answers : List HostService.State) : KeyedList HostService.State.documentSelfLink :=
  answers.foldl KeyedList.add KeyedList.empty

def collate (nodes : List CloudStoreNode) (query : Query) (numCandidates : Nat) (sortOrder : SortOrder) :
    List HostService.State :=
  (distinctHosts (nodes.flatMap (fun node => node.query query sortOrder numCandidates))).elems.insertionSort
    (fun host1 host2 => sortOrder.rank host1 ≤ sortOrder.rank host2)

def doBroadcastQuery (nodes : List CloudStoreNode) (query : Query) (numCandidates : Nat) (sortOrder : SortOrder)
    (result : LinkedMap String ServerAddress) : LinkedMap String ServerAddress :=
  addCandidates numCandidates (collate nodes query numCandidates sortOrder) result

/-- The private `getCandidates`: the `k`-th query of a call. -/
def submit (store : CloudStore) (k : Nat) (query : Query) (numCandidates : Nat) (sortOrder : SortOrder)
    (result : LinkedMap String ServerAddress) : LinkedMap String ServerAddress :=
  if shouldUseBroadcastQuery store then doBroadcastQuery store.nodes query numCandidates sortOrder result
  else doSimpleQuery (store.contacted k) query numCandidates sortOrder result

structure Half where
  lowerBound : Nat
  upperBound : Nat
  sortOrder : SortOrder

/-- What the two calls of `Random` give: the midpoint and which half is searched first. -/
structure Draw where
  randomMidpoint : Nat
  pos : 1 ≤ randomMidpoint
  lt : randomMidpoint < maxSchedulingConstant
  upperFirst : Bool

def Draw.upper (draw : Draw) : Half := ⟨draw.randomMidpoint, maxSchedulingConstant, .asc⟩

def Draw.lower (draw : Draw) : Half := ⟨0, draw.randomMidpoint, .desc⟩

/-- The two queries of a call; a list without a query has no candidates. -/
def searchHalves (store : CloudStore) (resourceConstraints : Option (List (Option ResourceConstraint)))
    (numCandidates : Nat) (first second : Half) : Except CheckerError (LinkedMap String ServerAddress) :=
  match buildQuery store.datastores resourceConstraints first.lowerBound first.upperBound with
  | .ok query =>
    let result := submit store 0 query numCandidates first.sortOrder .empty
    if result.size < numCandidates then
      .ok (submit store 1 (updateQueryRange second.lowerBound second.upperBound query) numCandidates
        second.sortOrder result)
    else .ok result
  | .error (.noSuchResource _) => .ok .empty
  | .error e => .error e

def getCandidates (store : CloudStore) (resourceConstraints : Option (List (Option ResourceConstraint)))
    (numCandidates : Int) (draw : Draw) : Except CheckerError (LinkedMap String ServerAddress) :=
  if numCandidates ≤ 0 then
    .error (.illegalArgument ("getCandidates called with invalid numCandidates: " ++ toString numCandidates))
  else if draw.upperFirst then
    searchHalves store resourceConstraints numCandidates.toNat draw.upper draw.lower
  else searchHalves store resourceConstraints numCandidates.toNat draw.lower draw.upper

/-! ## The loop over an answer -/

def entryOf (h : HostService.State) : String × ServerAddress := (h.documentId.name, ⟨h.hostAddress, h.agentPort⟩)

/-- **The loop takes as many hosts from the front of the answer as there is room for.** -/
theorem entries_addCandidates {n : Nat} : ∀ (hosts : List HostService.State) (result : LinkedMap String ServerAddress),
    (hosts.map (fun h => h.documentId.name)).Nodup → (∀ h ∈ hosts, result.get h.documentId.name = none) →
    result.size < n →
    (addCandidates n hosts result).entries = result.entries ++ (hosts.take (n - result.size)).map entryOf
  | [], result, _, _, _ => by simp [addCandidates]
  | h :: hosts, result, hnd, hfree, hroom => by
    rw [map_cons, nodup_cons] at hnd
    have hh := hfree h (by simp)
    have hsize : (result.put h.documentId.name ⟨h.hostAddress, h.agentPort⟩).size = result.size + 1 := by
      rw [LinkedMap.size_put, hh]
      rfl
    have hput := result.entries_put_of_absent h.documentId.name ⟨h.hostAddress, h.agentPort⟩ hh
    simp only [addCandidates, HostService.State.getID_documentSelfLink, hsize]
    by_cases hfull : n ≤ result.size + 1
    · have hone : n - result.size = 1 := by omega
      rw [if_pos hfull, hput, hone]
      simp [entryOf]
    · have hmore : n - result.size = (n - (result.size + 1)) + 1 := by omega
      rw [if_neg hfull, entries_addCandidates hosts _ hnd.2 ?_ (by omega), hput, hsize, hmore, take_succ_cons]
      · simp [entryOf]
      · intro h' hh'
        rw [LinkedMap.get_put, if_neg, hfree h' (by simp [hh'])]
        intro he
        exact hnd.1 (mem_map.2 ⟨h', hh', he⟩)

/-! ## What a query answers -/

theorem mem_documentsOf (nodes : List CloudStoreNode) (h : HostService.State) :
    h ∈ documentsOf nodes ↔ ∃ node ∈ nodes, h ∈ node.documents := by
  induction nodes with
  | nil => simp [documentsOf]
  | cons node nodes ih =>
    rw [show documentsOf (node :: nodes) = node.documents ∪ documentsOf nodes from rfl, Finset.mem_union, ih]
    simp

theorem SortOrder.pairwise_sort (order : SortOrder) (hosts : List HostService.State) :
    (hosts.insertionSort (fun a b => order.rank a ≤ order.rank b)).Pairwise (fun a b => order.rank a ≤
    order.rank b) := by
  have : Std.Total (fun a b : HostService.State => order.rank a ≤ order.rank b) := ⟨fun a b => le_total _ _⟩
  have : IsTrans HostService.State (fun a b => order.rank a ≤ order.rank b) := ⟨fun _ _ _ => le_trans⟩
  exact pairwise_insertionSort _ _

theorem mem_foldl_add : ∀ (answers : List HostService.State) (hosts : KeyedList HostService.State.documentSelfLink),
    (∀ h ∈ answers ++ hosts.elems, ∀ h' ∈ answers ++ hosts.elems, h.documentSelfLink = h'.documentSelfLink → h = h') →
    ∀ h, h ∈ (answers.foldl KeyedList.add hosts).elems ↔ h ∈ hosts.elems ∨ h ∈ answers
  | [], hosts, _, h => by simp
  | a :: answers, hosts, hsame, h => by
    have hadd : ∀ x, x ∈ (hosts.add a).elems ↔ x ∈ hosts.elems ∨ x = a := by
      intro x
      rw [KeyedList.mem_add]
      constructor
      · exact fun hx => hx.imp_right And.left
      · rintro (hx | rfl)
        · exact .inl hx
        · by_cases hx : x ∈ hosts.elems
          · exact .inl hx
          · refine .inr ⟨rfl, fun b hb he => hx ?_⟩
            rwa [hsame b (by simp [hb]) x (by simp) he] at hb
    rw [foldl_cons, mem_foldl_add answers (hosts.add a) ?_ h, hadd, mem_cons, or_assoc]
    intro x hx y hy
    simp only [mem_append, hadd] at hx hy
    refine hsame x ?_ y ?_
    · simp only [mem_append, mem_cons]
      tauto
    · simp only [mem_append, mem_cons]
      tauto

section

variable (store : CloudStore) (q : Query) (order : SortOrder) (n : Nat)

def matching : Finset HostService.State := store.hosts.filter (fun h => Query.matches q h = true)

theorem mem_answers_subset {h : HostService.State}
    (hh : h ∈ store.nodes.flatMap (fun node => node.query q order n)) : h ∈ matching store q := by
  obtain ⟨node, hnode, hh⟩ := mem_flatMap.1 hh
  obtain ⟨hdoc, hmatch⟩ := Finset.mem_filter.1 ((node.first q order n).subset h hh)
  exact Finset.mem_filter.2 ⟨(mem_documentsOf _ _).2 ⟨node, hnode, hdoc⟩, hmatch⟩

theorem mem_collate (h : HostService.State) :
    h ∈ collate store.nodes q n order ↔ ∃ node ∈ store.nodes, h ∈ node.query q order n := by
  unfold collate distinctHosts
  rw [mem_insertionSort, mem_foldl_add, mem_flatMap]
  · simp
  · intro x hx y hy he
    rw [KeyedList.elems_empty, append_nil] at hx hy
    exact store.same x (Finset.mem_filter.1 (mem_answers_subset store q order n hx)).1 y
      (Finset.mem_filter.1 (mem_answers_subset store q order n hy)).1 
      (by rw [← x.getID_documentSelfLink, he, y.getID_documentSelfLink])

theorem nodup_collate : (collate store.nodes q n order).Nodup :=
  (perm_insertionSort _ _).nodup_iff.2 (KeyedList.nodup_elems _)

theorem pairwise_collate : (collate store.nodes q n order).Pairwise (fun a b => order.rank a ≤ order.rank b) :=
  order.pairwise_sort _

/-- **The answers of the nodes put together, cut at the limit, are an answer of a node that holds all their
documents.** -/
theorem first_collate : FirstOf order.rank n (matching store q) ((collate store.nodes q n order).take n) := by
  refine FirstOf.merge (ι := { node // node ∈ store.nodes }) (fun node => node.1.first q order n) (fun h => ?_)
    (fun h => ?_) (nodup_collate store q order n) (pairwise_collate store q order n)
  · unfold matching CloudStore.hosts
    rw [Finset.mem_filter, mem_documentsOf]
    constructor
    · rintro ⟨⟨node, hnode, hh⟩, hm⟩
      exact ⟨⟨node, hnode⟩, Finset.mem_filter.2 ⟨hh, hm⟩⟩
    · rintro ⟨⟨node, hnode⟩, hh⟩
      obtain ⟨hh, hm⟩ := Finset.mem_filter.1 hh
      exact ⟨⟨node, hnode, hh⟩, hm⟩
  · rw [mem_collate]
    constructor
    · rintro ⟨node, hnode, hh⟩
      exact ⟨⟨node, hnode⟩, hh⟩
    · rintro ⟨⟨node, hnode⟩, hh⟩
      exact ⟨node, hnode, hh⟩

def answer (k : Nat) : List HostService.State :=
  if shouldUseBroadcastQuery store then collate store.nodes q n order else (store.contacted k).query q order n

theorem submit_eq (k : Nat) (result : LinkedMap String ServerAddress) :
    submit store k q n order result = addCandidates n (answer store q order n k) result := by
  unfold submit answer doBroadcastQuery doSimpleQuery
  split <;> rfl

/-- **On either path the hosts a query goes through start with the first ones of all that match.** -/
theorem first_answer (k : Nat) : FirstOf order.rank n (matching store q) ((answer store q order n k).take n) := by
  unfold answer
  by_cases hb : shouldUseBroadcastQuery store = true
  · rw [if_pos hb]
    exact first_collate store q order n
  · rw [if_neg hb]
    have hsmall : store.serverSetSize ≤ replicationFactor := by
      simpa [shouldUseBroadcastQuery] using hb
    have hfirst := (store.contacted k).first q order n
    rw [store.replicated hsmall k] at hfirst
    rwa [take_of_length_le (by rw [hfirst.length]; exact Nat.min_le_left _ _)]

theorem mem_answer {k : Nat} {h : HostService.State} (hh : h ∈ answer store q order n k) : h ∈ matching store q := by
  unfold answer at hh
  by_cases hb : shouldUseBroadcastQuery store = true
  · rw [if_pos hb, mem_collate] at hh
    exact mem_answers_subset store q order n (mem_flatMap.2 hh)
  · rw [if_neg hb] at hh
    have hsmall : store.serverSetSize ≤ replicationFactor := by
      simpa [shouldUseBroadcastQuery] using hb
    have hfirst := (store.contacted k).first q order n
    rw [store.replicated hsmall k] at hfirst
    exact hfirst.subset h hh

theorem nodup_answer (k : Nat) : (answer store q order n k).Nodup := by
  unfold answer
  split
  · exact nodup_collate store q order n
  · exact ((store.contacted k).first q order n).nodup

end
end Photon.RootScheduler
