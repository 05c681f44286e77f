import Mathlib.Data.List.Nodup
import Photon.XenonTask
/-!
# ZoneCleaner — availability zones that are no longer used are deleted

`AvailabilityZoneCleanerService` queries all nodes for the hosts of every stale zone, creates a tombstone for the zones
without hosts and deletes those with a tombstone.  The queries are joined, and so are the tombstones and the deletes.  A
joined request hands over all its operations, those that have failed with an error response as their body.  The error
response is read like an answer of the nodes: it has no failures of nodes and no hosts, and the zone is taken to be
unused.
-/
namespace Photon.CloudStore.AvailabilityZoneCleaner

open List
open Xenon (TaskStage)

structure NodeGroupBroadcastResponse where
  failures : List String
  jsonResponses : List (Option (List String))
  deriving DecidableEq

inductive HostQuery where
  | failed
  | answered (response : NodeGroupBroadcastResponse)
  deriving DecidableEq

/-- The body of the operation; of an error response no field is one of the answer. -/
def HostQuery.body : HostQuery → NodeGroupBroadcastResponse
  | .failed => ⟨[], []⟩
  | .answered response => response

/-- The links that were found, by `QueryTaskUtils`, which throws if a node has failed. -/
def getBroadcastQueryDocumentLinks (response : NodeGroupBroadcastResponse) : Option (List String) :=
  if !response.failures.isEmpty then none else some (response.jsonResponses.flatMap fun links => links.getD [])

structure Delete where
  arrives : Bool
  answered : Bool
  deriving DecidableEq

def Delete.succeeds (delete : Delete) : Bool := delete.arrives && delete.answered

/-- What comes of every request for a zone.  A tombstone is created with status 200; with 409 there is one already. -/
structure Outcomes where
  hostQuery : String → HostQuery
  tombstone : String → Nat
  delete : String → Delete

def statusCodeOk : Nat := 200

def statusCodeConflict : Nat := 409

def statusCodeFailureThreshold : Nat := 400

inductive Failure where
  | query (zone : String)
  | tombstone (zone : String)
  | delete (zone : String)
  deriving DecidableEq

structure State where
  stage : TaskStage
  staleAvailabilityZones : Nat
  deletedAvailabilityZones : Nat
  deriving DecidableEq

/-- The document of the task at the end of the run, and the zones whose documents are deleted. -/
structure Cleaned where
  state : State
  deleted : List String
  deriving DecidableEq

def endTask (state : State) (exceptions : List Failure) : State :=
  { state with stage := if exceptions.isEmpty then .finished else .failed }

def deleteAvailabilityZones (outcomes : Outcomes) (zones : List String) (state : State)
    (exceptions : List Failure) : Cleaned :=
  let failures := (zones.filter fun zone => !(outcomes.delete zone).succeeds).map Failure.delete
  ⟨endTask { state with deletedAvailabilityZones := zones.length } (exceptions ++ failures),
    zones.filter fun zone => (outcomes.delete zone).arrives⟩

def hasTombstone (outcomes : Outcomes) (zone : String) : Bool :=
  outcomes.tombstone zone = statusCodeOk || outcomes.tombstone zone = statusCodeConflict

def tombStoneAvailabilityZones (outcomes : Outcomes) (zones : List String) (state : State) (exceptions : List Failure) :
    Cleaned :=
  let failures := (zones.filter fun zone => statusCodeFailureThreshold ≤ outcomes.tombstone zone).map Failure.tombstone
  let deleteZones := zones.filter (hasTombstone outcomes)
  if deleteZones.isEmpty then ⟨endTask state (exceptions ++ failures), []⟩
  else deleteAvailabilityZones outcomes deleteZones state (exceptions ++ failures)

/-- The zones for which the queries have found no host; `none` if one of them throws. -/
def unusedZones (outcomes : Outcomes) : List String → Option (List String)
  | [] => some []
  | zone :: zones =>
    match getBroadcastQueryDocumentLinks (outcomes.hostQuery zone).body, unusedZones outcomes zones with
    | some links, some unused => some (if links.isEmpty then zone :: unused else unused)
    | _, _ => none

/-- What is thrown in the handler of a joined request is not caught: the task goes no further. -/
def processStaleAvailabilityZones (outcomes : Outcomes) (zones : List String) (state : State) : Cleaned :=
  let state := { state with staleAvailabilityZones := zones.length }
  let failures := (zones.filter fun zone => outcomes.hostQuery zone = .failed).map Failure.query
  match unusedZones outcomes zones with
  | none => ⟨state, []⟩
  | some unused =>
    if unused.isEmpty then ⟨endTask state failures, []⟩ else tombStoneAvailabilityZones outcomes unused state failures

/-- A run of a task that has been started, with the stale zones or the failure of their query. -/
def queryStaleAvailabilityZones (outcomes : Outcomes) (zones : Option (List String)) : Cleaned :=
  match zones with
  | none => ⟨⟨.failed, 0, 0⟩, []⟩
  | some [] => ⟨⟨.finished, 0, 0⟩, []⟩
  | some (zone :: zones) => processStaleAvailabilityZones outcomes (zone :: zones) ⟨.started, 0, 0⟩

/-! ## A truthful run -/

def FoundNoHost (query : HostQuery) : Prop :=
  ∃ response, query = .answered response ∧ response.failures = [] ∧ ∀ links ∈ response.jsonResponses, links.getD [] = []

/-- **Only unused zones are deleted, the number is right, and the run ends.** -/
structure Truthful (outcomes : Outcomes) (cleaned : Cleaned) : Prop where
  unused : ∀ zone ∈ cleaned.deleted, FoundNoHost (outcomes.hostQuery zone) ∧ hasTombstone outcomes zone = true
  count : cleaned.state.stage = .finished → cleaned.state.deletedAvailabilityZones = cleaned.deleted.length
  once : cleaned.deleted.Nodup
  ends : cleaned.state.stage = .finished ∨ cleaned.state.stage = .failed

def NodesAnswer (outcomes : Outcomes) (zone : String) : Prop := (outcomes.hostQuery zone).body.failures = []

/-- Where the host query has failed, the zone gets no tombstone, or its delete does not arrive. -/
def Spared (outcomes : Outcomes) (zone : String) : Prop :=
  outcomes.hostQuery zone = .failed → hasTombstone outcomes zone = false ∨ (outcomes.delete zone).arrives = false

/-! ## The zones without hosts -/

section

variable {outcomes : Outcomes}

theorem getBroadcastQueryDocumentLinks_eq_some_iff {response : NodeGroupBroadcastResponse} {links : List String} :
    getBroadcastQueryDocumentLinks response = some links ↔
      response.failures = [] ∧ (response.jsonResponses.flatMap fun links => links.getD []) = links := by
  rw [getBroadcastQueryDocumentLinks]
  cases response.failures <;> simp

def noHost (outcomes : Outcomes) (zone : String) : Bool :=
  ((outcomes.hostQuery zone).body.jsonResponses.flatMap fun links => links.getD []).isEmpty

theorem unusedZones_eq_some_iff : ∀ {zones unused : List String}, unusedZones outcomes zones = some unused ↔
    (∀ zone ∈ zones, NodesAnswer outcomes zone) ∧ zones.filter (noHost outcomes) = unused
  | [], unused => by simp [unusedZones]
  | zone :: zones, unused => by
    rw [forall_mem_cons, filter_cons, unusedZones]
    constructor
    · intro h
      split at h
      · rename_i links rest hlinks hrest
        obtain ⟨hanswer, rfl⟩ := getBroadcastQueryDocumentLinks_eq_some_iff.1 hlinks
        obtain ⟨hanswers, rfl⟩ := unusedZones_eq_some_iff.1 hrest
        exact ⟨⟨hanswer, hanswers⟩, Option.some.inj h⟩
      · cases h
    · rintro ⟨⟨hanswer, hanswers⟩, rfl⟩
      rw [getBroadcastQueryDocumentLinks_eq_some_iff.2 ⟨hanswer, rfl⟩, unusedZones_eq_some_iff.2 ⟨hanswers, rfl⟩]
      rfl

/-! ## The run -/

variable {state : State} {exceptions : List Failure} {zones : List String}

/-- Of the zones those are deleted whose delete arrives, and the run ends, with their number if it succeeds. -/
structure Ended (outcomes : Outcomes) (zones : List String) (cleaned : Cleaned) : Prop where
  deleted : cleaned.deleted = zones.filter fun zone => (outcomes.delete zone).arrives
  ends : cleaned.state.stage = .finished ∨ cleaned.state.stage = .failed
  count : cleaned.state.stage = .finished → cleaned.state.deletedAvailabilityZones = cleaned.deleted.length

theorem endTask_ends (state : State) (exceptions : List Failure) :
    (endTask state exceptions).stage = .finished ∨ (endTask state exceptions).stage = .failed := by
  cases exceptions with
  | nil => exact .inl rfl
  | cons failure exceptions => exact .inr rfl

theorem of_endTask_finished (h : (endTask state exceptions).stage = .finished) : exceptions = [] := by
  cases exceptions with
  | nil => rfl
  | cons failure exceptions => cases h

theorem endTask_ended (hstate : state.deletedAvailabilityZones = 0) :
    Ended outcomes [] ⟨endTask state exceptions, []⟩ :=
  ⟨rfl, endTask_ends state exceptions, fun _ => hstate⟩

theorem delete_ended : Ended outcomes zones (deleteAvailabilityZones outcomes zones state exceptions) := by
  refine ⟨rfl, endTask_ends _ _, fun h => ?_⟩
  have hnone := (append_eq_nil_iff.1 (of_endTask_finished h)).2
  have hall : (zones.filter fun zone => (outcomes.delete zone).arrives) = zones := by
    rw [filter_eq_self]
    intro zone hzone
    have hsucceeds := filter_eq_nil_iff.1 (map_eq_nil_iff.1 hnone) zone hzone
    rw [Bool.not_eq_true', Bool.not_eq_false, Delete.succeeds, Bool.and_eq_true] at hsucceeds
    exact hsucceeds.1
  exact (congrArg length hall).symm

theorem tombStone_ended (hstate : state.deletedAvailabilityZones = 0) :
    Ended outcomes (zones.filter (hasTombstone outcomes))
    (tombStoneAvailabilityZones outcomes zones state exceptions) := by
  simp only [tombStoneAvailabilityZones]
  split
  · rename_i hempty
    rw [isEmpty_iff.1 hempty]
    exact endTask_ended hstate
  · exact delete_ended

theorem process_ended {unused : List String} (hunused : unusedZones outcomes zones = some unused)
    (hstate : state.deletedAvailabilityZones = 0) :
    Ended outcomes (unused.filter (hasTombstone outcomes)) (processStaleAvailabilityZones outcomes zones state) := by
  simp only [processStaleAvailabilityZones, hunused]
  split
  · rename_i hempty
    rw [isEmpty_iff.1 hempty]
    exact endTask_ended hstate
  · exact tombStone_ended hstate

theorem foundNoHost_of_noHost {zone : String} (hanswer : NodesAnswer outcomes zone)
    (hquery : outcomes.hostQuery zone ≠ .failed)
    (h : noHost outcomes zone = true) : FoundNoHost (outcomes.hostQuery zone) := by
  rw [NodesAnswer] at hanswer
  rw [noHost, List.isEmpty_iff, List.flatMap_eq_nil_iff] at h
  cases heq : outcomes.hostQuery zone with
  | failed => exact absurd heq hquery
  | answered response =>
    rw [heq] at hanswer h
    exact ⟨response, rfl, hanswer, h⟩

/-- **The run of processing is truthful exactly if all nodes answer and the zones whose query has failed are
spared.** -/
theorem process_truthful_iff (hnodup : zones.Nodup) (hstage : state.stage = .started)
    (hstate : state.deletedAvailabilityZones = 0) :
      Truthful outcomes (processStaleAvailabilityZones outcomes zones state) ↔
      ∀ zone ∈ zones, NodesAnswer outcomes zone ∧ Spared outcomes zone := by
  cases hunused : unusedZones outcomes zones with
  | none =>
    -- the task stays where it is
    constructor
    · intro h
      have hends := h.ends
      simp only [processStaleAvailabilityZones, hunused, hstage] at hends
      rcases hends with heq | heq <;> cases heq
    · intro h
      rw [unusedZones_eq_some_iff.2 ⟨fun zone hzone => (h zone hzone).1, rfl⟩] at hunused
      cases hunused
  | some unused =>
    obtain ⟨hanswer, rfl⟩ := unusedZones_eq_some_iff.1 hunused
    obtain ⟨hdeleted, hends, hcount⟩ := process_ended hunused hstate
    have hmem : ∀ zone, zone ∈ (processStaleAvailabilityZones outcomes zones state).deleted ↔
        ((zone ∈ zones ∧ noHost outcomes zone = true) ∧ hasTombstone outcomes zone = true) ∧
          (outcomes.delete zone).arrives = true := by
      intro zone
      rw [hdeleted, mem_filter, mem_filter, mem_filter]
    constructor
    · intro h zone hzone
      refine ⟨hanswer zone hzone, fun hfailed => ?_⟩
      have hnone : noHost outcomes zone = true := by
        rw [noHost, hfailed]
        rfl
      by_contra hboth
      rw [not_or, Bool.not_eq_false, Bool.not_eq_false] at hboth
      obtain ⟨⟨response, hresponse, -⟩, -⟩ := h.unused zone ((hmem zone).2 ⟨⟨⟨hzone, hnone⟩, hboth.1⟩, hboth.2⟩)
      rw [hfailed] at hresponse
      cases hresponse
    · intro h
      refine ⟨fun zone hzone => ?_, hcount, ?_, hends⟩
      · obtain ⟨⟨⟨hin, hnone⟩, htombstone⟩, harrives⟩ := (hmem zone).1 hzone
        refine ⟨foundNoHost_of_noHost (hanswer zone hin) (fun hfailed => ?_) hnone, htombstone⟩
        rcases (h zone hin).2 hfailed with hnot | hnot
        · rw [htombstone] at hnot
          cases hnot
        · rw [harrives] at hnot
          cases hnot
      · rw [hdeleted]
        exact ((hnodup.filter _).filter _).filter _

end

/-- **A run deletes only unused zones, reports their number and ends, exactly if no node fails in a host query that is
answered, and every zone whose host query fails gets no tombstone or no delete.** -/
theorem zoneCleaner_truthful_iff (outcomes : Outcomes) (zones : Option (List String)) (hset : (zones.getD []).Nodup) :
    Truthful outcomes (queryStaleAvailabilityZones outcomes zones) ↔
      ∀ zone ∈ zones.getD [], NodesAnswer outcomes zone ∧ Spared outcomes zone := by
  cases zones with
  | none => exact ⟨nofun, fun _ => ⟨nofun, nofun, nodup_nil, .inr rfl⟩⟩
  | some zones =>
    cases zones with
    | nil => exact ⟨nofun, fun _ => ⟨nofun, fun _ => rfl, nodup_nil, .inl rfl⟩⟩
    | cons zone zones => exact process_truthful_iff hset rfl rfl

def oneUnused : Outcomes where
  hostQuery zone := if zone = "/zones/a" then .answered ⟨[], [some [], none]⟩
    else .answered ⟨[], [some [], some ["/hosts/1"]]⟩
  tombstone _ := 200
  delete _ := ⟨true, true⟩

theorem zoneCleaner_truthful_oneUnused :
    queryStaleAvailabilityZones oneUnused (some ["/zones/a", "/zones/b"]) = ⟨⟨.finished, 2, 1⟩, ["/zones/a"]⟩ ∧
    Truthful oneUnused (queryStaleAvailabilityZones oneUnused (some ["/zones/a", "/zones/b"])) := by
  refine ⟨by decide, (zoneCleaner_truthful_iff oneUnused (some ["/zones/a", "/zones/b"]) (by decide)).2 ?_⟩
  intro zone hzone
  rcases mem_cons.1 hzone with rfl | hzone
  · exact ⟨rfl, fun hfailed => nomatch hfailed⟩
  · rw [mem_singleton.1 hzone]
    exact ⟨rfl, fun hfailed => nomatch hfailed⟩

def queryFails : Outcomes := ⟨fun _ => .failed, fun _ => 200, fun _ => ⟨true, true⟩⟩

def nodeFails : Outcomes := ⟨fun _ => .answered ⟨["node-2"], [some []]⟩, fun _ => 200, fun _ => ⟨true, true⟩⟩

/-- The zone is deleted though its query has failed; the run stops where a node has failed. -/
theorem zoneCleaner_untruthful :
    queryStaleAvailabilityZones queryFails (some ["/zones/a"]) = ⟨⟨.failed, 1, 1⟩, ["/zones/a"]⟩ ∧
    ¬ Truthful queryFails (queryStaleAvailabilityZones queryFails (some ["/zones/a"])) ∧
    queryStaleAvailabilityZones nodeFails (some ["/zones/a"]) = ⟨⟨.started, 1, 0⟩, []⟩ ∧
    ¬ Truthful nodeFails (queryStaleAvailabilityZones nodeFails (some ["/zones/a"])) := by
  refine ⟨by decide, fun h => ?_, by decide, fun h => ?_⟩
  · obtain ⟨⟨response, hresponse, -⟩, -⟩ := h.unused "/zones/a" (by decide)
    cases hresponse
  · have hends := h.ends
    revert hends
    decide

end Photon.CloudStore.AvailabilityZoneCleaner
