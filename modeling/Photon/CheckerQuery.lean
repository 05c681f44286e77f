import Photon.Resource
/-!
# CheckerQuery — from resource constraints to a query over host documents

The flat scheduler selects hosts with a query to Cloudstore (`CloudStoreConstraintChecker`).  Each constraint becomes a
clause; a constraint on datastore tags first looks up the datastores that carry one of the tags and then asks for these.
A query is read as its boolean clauses over the documents.

What a constraint means is stated apart from the clauses (`offers`, `allows`): a positive constraint asks for a host
where one of the resources is available, a negative one for a host where none is.  `matches_buildQuery` says that the
query means this, and `buildQuery_ok_iff` for which lists there is a query at all.
-/
namespace Photon.RootScheduler

open List
open Keyed (KeyedList)

/-! ## Documents -/

abbrev maxSchedulingConstant : Nat := 10000

inductive HostState where
  | creating | notProvisioned | ready | maintenance | suspended | error | deleted
  deriving DecidableEq

inductive AgentState where
  | active | missing
  deriving DecidableEq

def mgmt : String := "MGMT"

/-- `ServiceUtils.getIDFromDocumentSelfLink`: what follows the last slash. -/
def getIDFromDocumentSelfLink (documentSelfLink : String) : String :=
  String.ofList (documentSelfLink.toList.reverse.takeWhile (fun c => decide (c ≠ '/'))).reverse

/-- The name a document has within its factory: one segment of a link. -/
structure DocumentId where
  name : String
  plain : '/' ∉ name.toList
  deriving DecidableEq

def hostFactorySelfLink : String := "/photon/cloudstore/hosts"

def datastoreFactorySelfLink : String := "/photon/cloudstore/datastores"

def hostSelfLinkPrefix : String := hostFactorySelfLink ++ "/"

/-- `HostService.State`: the fields the checkers read.  The usage tags are never null (`@NotEmpty`), and the scheduling
constant is one that `handleStart` draws. -/
structure HostService.State where
  documentId : DocumentId
  state : HostState
  agentState : Option AgentState
  hostAddress : String
  agentPort : Int
  availabilityZoneId : Option String
  reportedDatastores : Option (Finset String)
  reportedNetworks : Option (Finset String)
  usageTags : Finset String
  schedulingConstant : Fin maxSchedulingConstant
  deriving DecidableEq

def HostService.State.documentSelfLink (h : HostService.State) : String := hostSelfLinkPrefix ++ h.documentId.name

structure DatastoreService.State where
  documentId : DocumentId
  tags : Option (Finset String)
  deriving DecidableEq

def DatastoreService.State.documentSelfLink (d : DatastoreService.State) : String :=
  datastoreFactorySelfLink ++ "/" ++ d.documentId.name

abbrev Datastores : Type := KeyedList (fun d : DatastoreService.State => d.documentId.name)

theorem getIDFromDocumentSelfLink_append (factory : String) (id : DocumentId) :
    getIDFromDocumentSelfLink (factory ++ "/" ++ id.name) = id.name := by
  have hall : ∀ c ∈ id.name.toList.reverse, decide (c ≠ '/') = true := by
    intro c hc
    rw [mem_reverse] at hc
    exact decide_eq_true (fun he => id.plain (he ▸ hc))
  unfold getIDFromDocumentSelfLink
  rw [String.toList_append, reverse_append, takeWhile_append_of_pos hall, String.toList_append]
  simp

@[simp] theorem HostService.State.getID_documentSelfLink (h : HostService.State) :
    getIDFromDocumentSelfLink h.documentSelfLink = h.documentId.name :=
  getIDFromDocumentSelfLink_append hostFactorySelfLink h.documentId

@[simp] theorem DatastoreService.State.getID_documentSelfLink (d : DatastoreService.State) :
    getIDFromDocumentSelfLink d.documentSelfLink = d.documentId.name :=
  getIDFromDocumentSelfLink_append datastoreFactorySelfLink d.documentId

/-! ## Queries -/

inductive Field where
  | availabilityZoneId | reportedDatastores | reportedNetworks | usageTags | documentSelfLink
  deriving DecidableEq

inductive Occurance where
  | mustOccur | mustNotOccur
  deriving DecidableEq

/-- One term of a query.  The kind of a host document is always that of the query; a range holds its lower bound and not
its upper one. -/
inductive QueryTerm where
  | kind
  | schedulingConstant (lowerBound upperBound : Nat)
  | state (s : HostState)
  | agentState (s : AgentState)
  | field (f : Field) (value : String)
  deriving DecidableEq

/-- A clause of a query: a term, or an inner query of terms one of which has to occur. -/
inductive Clause where
  | term (occurance : Occurance) (t : QueryTerm)
  | inner (occurance : Occurance) (should : List QueryTerm)
  deriving DecidableEq

abbrev Query : Type := List Clause

def Field.has (h : HostService.State) (value : String) : Field → Bool
  | .availabilityZoneId => decide (h.availabilityZoneId = some value)
  | .reportedDatastores => decide (value ∈ h.reportedDatastores.getD ∅)
  | .reportedNetworks => decide (value ∈ h.reportedNetworks.getD ∅)
  | .usageTags => decide (value ∈ h.usageTags)
  | .documentSelfLink => decide (h.documentSelfLink = value)

def QueryTerm.matches (h : HostService.State) : QueryTerm → Bool
  | .kind => true
  | .schedulingConstant lo hi => decide (lo ≤ h.schedulingConstant.val) && decide (h.schedulingConstant.val < hi)
  | .state s => decide (h.state = s)
  | .agentState s => decide (h.agentState = some s)
  | .field f value => f.has h value

def Occurance.admits : Occurance → Bool → Bool
  | .mustOccur, b => b
  | .mustNotOccur, b => !b

def Clause.matches (h : HostService.State) : Clause → Bool
  | .term o t => o.admits (t.matches h)
  | .inner o should => o.admits (should.any (fun t => t.matches h))

def Query.matches (q : Query) (h : HostService.State) : Bool := q.all (fun c => c.matches h)

/-! ## Building the query -/

inductive CheckerError where
  | illegalArgument (message : String)
  | invalidConstraint (message : String) (constraint : ResourceConstraint)
  | noSuchResource (message : String)
  deriving DecidableEq

def valueClause (f : Field) (values : List String) (occurance : Occurance) : Query :=
  match values with
  | [] => []
  | [value] => [.term occurance (.field f value)]
  | values => [.inner occurance (values.map (.field f))]

def occuranceOf (constraint : ResourceConstraint) : Occurance :=
  if constraint.isNegative then .mustNotOccur else .mustOccur

def addFieldClause (builder : Query) (fieldName : Field) (valuePrefix : Option String)
    (constraint : ResourceConstraint) : Query :=
  builder ++ valueClause fieldName (constraint.values.map (fun v => valuePrefix.getD "" ++ v)) (occuranceOf constraint)

def addCollectionItemClause (builder : Query) (fieldName : Field) (constraint : ResourceConstraint) : Query :=
  builder ++ valueClause fieldName constraint.values (occuranceOf constraint)

def datastoresWithTags (datastores : Datastores) (tags : List String) : List String :=
  (datastores.elems.filter (fun d => tags.any (fun t => decide (t ∈ d.tags.getD ∅)))).map
    (fun d => getIDFromDocumentSelfLink d.documentSelfLink)

def addDatastoreTagClause (datastores : Datastores) (builder : Query) (constraint : ResourceConstraint) :
    Except CheckerError Query :=
  if constraint.values = [] then .ok builder
  else
    let documentLinks := datastoresWithTags datastores constraint.values
    if documentLinks = [] then
      .error (.noSuchResource ("Cannot satisfy datastore tag constraint no datastores with tag(s) " ++
        toString constraint.values ++ " found"))
    else
      let datastoreConstraint := { ResourceConstraint.of .datastore documentLinks with
        negative := if constraint.isNegative then some true else none }
      .ok (addCollectionItemClause builder .reportedDatastores datastoreConstraint)

/-- The `switch` of `buildQuery`. -/
def addConstraint (datastores : Datastores) (builder : Query) (constraint : ResourceConstraint) :
    Except CheckerError Query :=
  match constraint.type with
  | .availabilityZone => .ok (addFieldClause builder .availabilityZoneId none constraint)
  | .datastore => .ok (addCollectionItemClause builder .reportedDatastores constraint)
  | .datastoreTag => addDatastoreTagClause datastores builder constraint
  | .host => .ok (addFieldClause builder .documentSelfLink (some hostSelfLinkPrefix) constraint)
  | .managementOnly => .ok (addCollectionItemClause builder .usageTags { constraint with values := [mgmt] })
  | .network => .ok (addCollectionItemClause builder .reportedNetworks constraint)

def addConstraints (datastores : Datastores) : List ResourceConstraint → Query → Except CheckerError Query
  | [], builder => .ok builder
  | c :: cs, builder =>
    match addConstraint datastores builder c with
    | .ok builder => addConstraints datastores cs builder
    | .error e => .error e

def baseQuery (lowerBound upperBound : Nat) : Query :=
  [.term .mustOccur .kind, .term .mustOccur (.schedulingConstant lowerBound upperBound),
    .term .mustOccur (.state .ready), .term .mustOccur (.agentState .active)]

def constraintsOf (resourceConstraints : Option (List (Option ResourceConstraint))) : List ResourceConstraint :=
  (resourceConstraints.getD []).filterMap id

def buildQuery (datastores : Datastores) (resourceConstraints : Option (List (Option ResourceConstraint)))
    (lowerBound upperBound : Nat) : Except CheckerError Query :=
  addConstraints datastores (constraintsOf resourceConstraints) (baseQuery lowerBound upperBound)

/-- Replaces the range of the first term on the scheduling constant. -/
def updateQueryRange (lowerBound upperBound : Nat) : Query → Query
  | [] => []
  | .term o (.schedulingConstant _ _) :: q => .term o (.schedulingConstant lowerBound upperBound) :: q
  | c :: q => c :: updateQueryRange lowerBound upperBound q

/-! ## What a constraint asks for -/

def offers (datastores : Datastores) (c : ResourceConstraint) (h : HostService.State) : Bool :=
  match c.type with
  | .availabilityZone => c.values.any (fun v => decide (h.availabilityZoneId = some v))
  | .datastore => c.values.any (fun v => decide (v ∈ h.reportedDatastores.getD ∅))
  | .datastoreTag => datastores.elems.any (fun d =>
      decide (d.documentId.name ∈ h.reportedDatastores.getD ∅) && c.values.any (fun t => decide (t ∈ d.tags.getD ∅)))
  | .host => c.values.any (fun v => decide (h.documentId.name = v))
  | .managementOnly => decide (mgmt ∈ h.usageTags)
  | .network => c.values.any (fun v => decide (v ∈ h.reportedNetworks.getD ∅))

def names (c : ResourceConstraint) : Bool := decide (c.type = .managementOnly) || !c.values.isEmpty

/-- The host may be used under the constraint: where it names a resource, the resource is available there if the
constraint is positive, and is not if it is negative. -/
def allows (datastores : Datastores) (c : ResourceConstraint) (h : HostService.State) : Bool :=
  !names c || (offers datastores c h != c.isNegative)

/-- A constraint on tags for which there is a datastore to look for, and any other constraint. -/
def Resolvable (datastores : Datastores) (c : ResourceConstraint) : Prop :=
  c.type = .datastoreTag → c.values ≠ [] → datastoresWithTags datastores c.values ≠ []

instance (datastores : Datastores) (c : ResourceConstraint) : Decidable (Resolvable datastores c) := by
  unfold Resolvable; infer_instance

/-! ## The query means what its constraints ask for -/

theorem Query.matches_append (q q' : Query) (h : HostService.State) :
    Query.matches (q ++ q') h = (Query.matches q h && Query.matches q' h) := by
  simp [Query.matches]

theorem admits_occuranceOf (c : ResourceConstraint) (b : Bool) : (occuranceOf c).admits b = (b != c.isNegative) := by
  unfold occuranceOf
  cases c.isNegative <;> cases b <;> rfl

theorem matches_valueClause (f : Field) (o : Occurance) (h : HostService.State) : ∀ values : List String,
    Query.matches (valueClause f values o) h = (values.isEmpty || o.admits (values.any (fun v => f.has h v)))
  | [] => rfl
  | [v] => by simp [valueClause, Query.matches, Clause.matches, QueryTerm.matches]
  | v :: w :: vs => by simp [valueClause, Query.matches, Clause.matches, QueryTerm.matches, Function.comp_def]

theorem mem_datastoresWithTags (datastores : Datastores) (tags : List String) (id : String) :
    id ∈ datastoresWithTags datastores tags ↔
      ∃ d ∈ datastores.elems, d.documentId.name = id ∧ tags.any (fun t => decide (t ∈ d.tags.getD ∅)) = true := by
  simp only [datastoresWithTags, mem_map, mem_filter, DatastoreService.State.getID_documentSelfLink]
  constructor
  · rintro ⟨d, ⟨hd, ht⟩, rfl⟩
    exact ⟨d, hd, rfl, ht⟩
  · rintro ⟨d, hd, rfl, ht⟩
    exact ⟨d, ⟨hd, ht⟩, rfl⟩

theorem any_datastoresWithTags (datastores : Datastores) (tags : List String) (h : HostService.State) :
    (datastoresWithTags datastores tags).any (fun v => Field.reportedDatastores.has h v) =
      datastores.elems.any (fun d => decide (d.documentId.name ∈ h.reportedDatastores.getD ∅) &&
        tags.any (fun t => decide (t ∈ d.tags.getD ∅))) := by
  rw [Bool.eq_iff_iff, any_eq_true, any_eq_true]
  simp only [Field.has, mem_datastoresWithTags, Bool.and_eq_true, decide_eq_true_eq]
  constructor
  · rintro ⟨_, ⟨d, hd, rfl, ht⟩, hr⟩
    exact ⟨d, hd, hr, ht⟩
  · rintro ⟨d, hd, hr, ht⟩
    exact ⟨_, ⟨d, hd, rfl, ht⟩, hr⟩

theorem has_hostSelfLink (h : HostService.State) (v : String) :
    Field.documentSelfLink.has h (hostSelfLinkPrefix ++ v) = decide (h.documentId.name = v) := by
  unfold Field.has HostService.State.documentSelfLink
  rw [decide_eq_decide]
  constructor
  · intro he
    have hl := congrArg String.toList he
    rw [String.toList_append, String.toList_append] at hl
    exact String.ext (append_cancel_left hl)
  · rintro rfl
    rfl

/-- The clauses a constraint adds do not depend on those that are there. -/
def constraintClause (datastores : Datastores) (c : ResourceConstraint) : Query :=
  match c.type with
  | .availabilityZone => valueClause .availabilityZoneId c.values (occuranceOf c)
  | .datastore => valueClause .reportedDatastores c.values (occuranceOf c)
  | .datastoreTag =>
    if c.values = [] then [] else valueClause .reportedDatastores (datastoresWithTags datastores c.values)
      (occuranceOf c)
  | .host => valueClause .documentSelfLink (c.values.map (fun v => hostSelfLinkPrefix ++ v)) (occuranceOf c)
  | .managementOnly => valueClause .usageTags [mgmt] (occuranceOf c)
  | .network => valueClause .reportedNetworks c.values (occuranceOf c)

theorem occuranceOf_lookup (c : ResourceConstraint) (found : List String) :
    occuranceOf { ResourceConstraint.of .datastore found with negative := if c.isNegative then some true else none } =
      occuranceOf c := by
  unfold occuranceOf
  cases hn : c.isNegative <;> simp [ResourceConstraint.isNegative]

variable {datastores : Datastores} {c : ResourceConstraint}

theorem addConstraint_of_resolvable (hc : Resolvable datastores c)
    (builder : Query) : addConstraint datastores builder c = .ok (builder ++ constraintClause datastores c) := by
  unfold addConstraint constraintClause
  cases ht : c.type with
  | datastoreTag =>
    simp only
    unfold addDatastoreTagClause
    by_cases hv : c.values = []
    · rw [if_pos hv, if_pos hv, append_nil]
    · rw [if_neg hv, if_neg hv]
      simp only [if_neg (hc ht hv), addCollectionItemClause, occuranceOf_lookup]
      rfl
  | availabilityZone => simp [addFieldClause]
  | datastore | host | managementOnly | network => rfl

theorem addConstraint_of_not_resolvable (hc : ¬ Resolvable datastores c) (builder : Query) :
    ∃ message, addConstraint datastores builder c = .error (.noSuchResource message) := by
  simp only [Resolvable, Classical.not_imp, not_not] at hc
  obtain ⟨ht, hv, hnone⟩ := hc
  simp [addConstraint, ht, addDatastoreTagClause, hv, hnone]

/-- **The clauses of a resolvable constraint match the hosts the constraint allows.** -/
theorem matches_constraintClause (hc : Resolvable datastores c)
    (h : HostService.State) : Query.matches (constraintClause datastores c) h = allows datastores c h := by
  unfold constraintClause allows names offers
  cases ht : c.type with
  | datastoreTag =>
    by_cases hv : c.values = []
    · simp [hv, Query.matches]
    · have hfound := isEmpty_eq_false_iff.2 (hc ht hv)
      have hnamed := isEmpty_eq_false_iff.2 hv
      simp [hv, hnamed, hfound, matches_valueClause, admits_occuranceOf, any_datastoresWithTags]
  | availabilityZone | datastore => simp [matches_valueClause, admits_occuranceOf, Field.has]
  | host => simp [matches_valueClause, admits_occuranceOf, has_hostSelfLink, Function.comp_def]
  | managementOnly | network => simp [matches_valueClause, admits_occuranceOf, Field.has]

variable {datastores : Datastores}

theorem addConstraints_of_resolvable :
      ∀ {cs : List ResourceConstraint} (builder : Query), (∀ c ∈ cs, Resolvable datastores c) →
      addConstraints datastores cs builder = .ok (builder ++ cs.flatMap (constraintClause datastores))
  | [], builder, _ => by simp [addConstraints]
  | c :: cs, builder, hcs => by
    simp only [addConstraints, addConstraint_of_resolvable (hcs c (by simp))]
    rw [addConstraints_of_resolvable _ (fun d hd => hcs d (by simp [hd])), flatMap_cons, append_assoc]

theorem addConstraints_of_not_resolvable : ∀ {cs : List ResourceConstraint} (builder : Query),
    (¬ ∀ c ∈ cs, Resolvable datastores c) → ∃ message, addConstraints datastores cs builder =
    .error (.noSuchResource message)
  | [], _, hcs => absurd (by simp) hcs
  | c :: cs, builder, hcs => by
    unfold addConstraints
    by_cases hc : Resolvable datastores c
    · rw [addConstraint_of_resolvable hc]
      refine addConstraints_of_not_resolvable _ (fun hall => hcs (fun d hd => ?_))
      rcases mem_cons.1 hd with rfl | hd
      · exact hc
      · exact hall d hd
    · obtain ⟨message, he⟩ := addConstraint_of_not_resolvable hc builder
      rw [he]
      exact ⟨message, rfl⟩

def eligible (datastores : Datastores) (cs : List ResourceConstraint) (h : HostService.State) : Bool :=
  decide (h.state = .ready) && decide (h.agentState = some .active) && cs.all (fun c => allows datastores c h)

theorem matches_flatMap {h : HostService.State} :
      ∀ {cs : List ResourceConstraint}, (∀ c ∈ cs, Resolvable datastores c) →
      Query.matches (cs.flatMap (constraintClause datastores)) h = cs.all (fun c => allows datastores c h)
  | [], _ => rfl
  | c :: cs, hcs => by
    rw [flatMap_cons, Query.matches_append, matches_constraintClause (hcs c (by simp)),
      matches_flatMap (fun d hd => hcs d (by simp [hd])), all_cons]

section

variable {datastores : Datastores} {resourceConstraints : Option (List (Option ResourceConstraint))}

/-- **The query of a list of resolvable constraints, in any range, matches the eligible hosts of the range**; the same
query is got for another range by `updateQueryRange`. -/
theorem buildQuery_of_resolvable (hcs : ∀ c ∈ constraintsOf resourceConstraints, Resolvable datastores c)
    (lo hi : Nat) : ∃ q, buildQuery datastores resourceConstraints lo hi = .ok q ∧
      (∀ h, q.matches h = (decide (lo ≤ h.schedulingConstant.val) && decide (h.schedulingConstant.val < hi) &&
        eligible datastores (constraintsOf resourceConstraints) h)) ∧
      ∀ lo' hi', buildQuery datastores resourceConstraints lo' hi' = .ok (updateQueryRange lo' hi' q) := by
  refine ⟨_, addConstraints_of_resolvable _ hcs, fun h => ?_, fun lo' hi' => ?_⟩
  · rw [Query.matches_append, matches_flatMap hcs, eligible]
    simp [baseQuery, Query.matches, Clause.matches, QueryTerm.matches, Occurance.admits, Bool.and_assoc]
  · exact addConstraints_of_resolvable _ hcs

theorem buildQuery_of_not_resolvable (hcs : ¬ ∀ c ∈ constraintsOf resourceConstraints, Resolvable datastores c)
    (lo hi : Nat) : ∃ message, buildQuery datastores resourceConstraints lo hi = .error (.noSuchResource message) :=
  addConstraints_of_not_resolvable _ hcs

theorem allows_eq_false_of_not_resolvable {c : ResourceConstraint} (hc : ¬ Resolvable datastores c)
    (hpos : c.isNegative = false) (h : HostService.State) : allows datastores c h = false := by
  simp only [Resolvable, Classical.not_imp, not_not] at hc
  obtain ⟨ht, hv, hnone⟩ := hc
  have hoff : offers datastores c h = false := by
    unfold offers
    rw [ht]
    simp only
    rw [← any_datastoresWithTags, hnone]
    rfl
  simp [allows, names, ht, hv, hoff, hpos]

end
end Photon.RootScheduler
