import Photon.ClusterMaintenance
/-!
# ClusterGarbage — which VMs the garbage collection of a cluster deletes

A run of `ClusterMaintenanceTaskService` starts a `GarbageInspectionTaskService`, which writes an `InactiveVmService`
document for every slave that the master does not report, and then a `GarbageCollectionTaskService`, which deletes the
VMs of all the documents that there are.  A document outlives a collection that fails.  The tasks of several runs may be
at work together, as a run that loses track of its child task is retried.
-/
namespace Photon.ClusterManager

open List

inductive VmResult
  | done | failedAfter | failedBefore
  deriving DecidableEq

def VmResult.hasEffect : VmResult → Bool
  | .failedBefore => false
  | _ => true

def VmResult.isFailure : VmResult → Bool
  | .done => false
  | _ => true

namespace Garbage

open Xenon (TaskStage)
open Runs (Always Meets)

inductive NodeType
  | kubernetesMaster | kubernetesSlave | mesosMaster | mesosSlave | swarmMaster | swarmSlave
  deriving DecidableEq

def NodeType.toString : NodeType → String
  | .kubernetesMaster => "KubernetesMaster"
  | .kubernetesSlave => "KubernetesSlave"
  | .mesosMaster => "MesosMaster"
  | .mesosSlave => "MesosSlave"
  | .swarmMaster => "SwarmMaster"
  | .swarmSlave => "SwarmSlave"

def createClusterNodeTag (clusterId : String) (nodeType : NodeType) :
    String := "cluster:" ++ clusterId ++ ":" ++ nodeType.toString

inductive ClusterType
  | kubernetes | mesos | swarm
  deriving DecidableEq

def masterNodeTag (clusterId : String) : ClusterType → String
  | .kubernetes => createClusterNodeTag clusterId .kubernetesMaster
  | .mesos => createClusterNodeTag clusterId .mesosMaster
  | .swarm => createClusterNodeTag clusterId .swarmMaster

def slaveNodeTag (clusterId : String) : ClusterType → String
  | .kubernetes => createClusterNodeTag clusterId .kubernetesSlave
  | .mesos => createClusterNodeTag clusterId .mesosSlave
  | .swarm => createClusterNodeTag clusterId .swarmSlave

structure Vm where
  id : String
  name : String
  tags : List String
  deriving DecidableEq

def inactiveVms (slaves : List Vm) (activeNodes : List String) : List String :=
  (slaves.filter fun vm => vm.name ∉ activeNodes).map Vm.id

/-! ## The tasks of a run -/

inductive Inspection
  | getClusterState
  | getVmsFromApi (type : ClusterType)
  | getMasterIp (type : ClusterType) (slaves : List Vm)
  | getSlavesFromMaster (type : ClusterType) (slaves : List Vm)
  | createInactiveVmEntities (vmIds : List String) (failed : Bool)
  | ended (stage : TaskStage)
  deriving DecidableEq

/-- The next call of a garbage collection: the VMs that are being deprovisioned, and the documents that are being
deleted. -/
inductive Collection
  | getInactiveVms
  | deleteInactiveVms (vmIds entities : List String) (failed : Bool)
  | ended (stage : TaskStage)
  deriving DecidableEq

structure Found where
  type : ClusterType
  slaves : List Vm
  activeNodes : List String
  deriving DecidableEq

structure Run where
  inspection : Inspection
  found : Option Found
  collection : Option Collection
  deprovisioned : List String
  deriving DecidableEq

structure System where
  clusterId : String
  entities : List String
  runs : List Run

inductive InspectionAnswer
  | failed
  | cancelled
  | cluster (type : ClusterType)
  | vms (items : List Vm)
  | masterIp
  | activeNodes (names : List String)
  | entity (id : String) (result : VmResult)

inductive CollectionAnswer
  | failed
  | query
  | vm (id : String) (result : VmResult)
  | entity (id : String) (result : VmResult)

def endOf (failed : Bool) : TaskStage := if failed then .failed else .finished

def nextEntities (vmIds : List String) (failed : Bool) : Inspection :=
  if vmIds = [] then .ended (endOf failed) else .createInactiveVmEntities vmIds failed

def nextDeletion (vmIds entities : List String) (failed : Bool) : Collection :=
  if vmIds = [] ∧ entities = [] then .ended (endOf failed) else .deleteInactiveVms vmIds entities failed

/-- An `InactiveVmService` document is created, or is there; the factory has `IDEMPOTENT_POST`. -/
def createEntity (entities : List String) (id : String) (result : VmResult) : List String :=
  if result.hasEffect ∧ id ∉ entities then entities ++ [id] else entities

def deleteEntity (entities : List String) (id : String) (result : VmResult) : List String :=
  if result.hasEffect then entities.filter (· ≠ id) else entities

def inspect (s : System) (run : Run) (answer : InspectionAnswer) : List String × Run :=
  match run.inspection, answer with
  | .getClusterState, .cluster type => (s.entities, { run with inspection := .getVmsFromApi type })
  | .getVmsFromApi type, .vms items =>
    let slaves := items.filter fun vm => slaveNodeTag s.clusterId type ∈ vm.tags
    if items.any fun vm => slaveNodeTag s.clusterId type ∉ vm.tags ∧ masterNodeTag s.clusterId type ∈ vm.tags then
      (s.entities, { run with inspection := .getMasterIp type slaves })
    else (s.entities, { run with inspection := .ended .failed })
  | .getMasterIp type slaves, .masterIp => (s.entities, { run with inspection := .getSlavesFromMaster type slaves })
  | .getMasterIp _ _, .cancelled => (s.entities, { run with inspection := .ended .cancelled })
  | .getSlavesFromMaster type slaves, .activeNodes names =>
    (s.entities, { run with
      inspection := nextEntities (inactiveVms slaves names) false
      found := some ⟨type, slaves, names⟩ })
  | .createInactiveVmEntities vmIds failed, .entity id result =>
    if id ∈ vmIds then
      (createEntity s.entities id result,
        { run with inspection := nextEntities (vmIds.filter (· ≠ id)) (failed || result.isFailure) })
    else (s.entities, run)
  | .createInactiveVmEntities _ _, _ => (s.entities, run)
  | .ended _, _ => (s.entities, run)
  | _, .failed => (s.entities, { run with inspection := .ended .failed })
  | _, _ => (s.entities, run)

def collect (s : System) (run : Run) (collection : Collection) (answer : CollectionAnswer) : List String × Run :=
  match collection, answer with
  | .getInactiveVms, .query =>
    (s.entities, { run with collection := some (nextDeletion s.entities [] false), deprovisioned := s.entities })
  | .getInactiveVms, .failed => (s.entities, { run with collection := some (.ended .failed) })
  | .deleteInactiveVms vmIds entities failed, .vm id result =>
    if id ∈ vmIds then
      (s.entities, { run with collection := some (nextDeletion (vmIds.filter (· ≠ id))
        (if result.isFailure then entities else entities ++ [id]) (failed || result.isFailure)) })
    else (s.entities, run)
  | .deleteInactiveVms vmIds entities failed, .entity id result =>
    if id ∈ entities then
      (deleteEntity s.entities id result,
        { run with collection := some (nextDeletion vmIds (entities.filter (· ≠ id)) (failed || result.isFailure)) })
    else (s.entities, run)
  | _, _ => (s.entities, run)

/-! ## Runs -/

inductive Event
  | startRun
  | inspection (i : Nat) (answer : InspectionAnswer)
  /-- `performGarbageCollection`, when the inspection is finished. -/
  | startCollection (i : Nat)
  | collection (i : Nat) (answer : CollectionAnswer)

namespace System

def setRun (s : System) (i : Nat) (r : List String × Run) : System :=
    { s with entities := r.1, runs := s.runs.set i r.2 }

def step (s : System) : Event → System
  | .startRun => { s with runs := s.runs ++ [⟨.getClusterState, none, none, []⟩] }
  | .inspection i answer =>
    match s.runs[i]? with
    | none => s
    | some run => s.setRun i (inspect s run answer)
  | .startCollection i =>
    match s.runs[i]? with
    | some ⟨.ended .finished, found, none, vmIds⟩ =>
      s.setRun i (s.entities, ⟨.ended .finished, found, some .getInactiveVms, vmIds⟩)
    | _ => s
  | .collection i answer =>
    match s.runs[i]? with
    | some run =>
      match run.collection with
      | some collection => s.setRun i (collect s run collection answer)
      | none => s
    | none => s

def start (clusterId : String) (entities : List String) : System := ⟨clusterId, entities, []⟩

end System

/-- The inspection has found the VM inactive: it is tagged as a slave of the cluster, and its name is not among the
active nodes. -/
def FoundInactive (clusterId : String) (found : Option Found) (id : String) : Prop :=
  ∃ f, found = some f ∧ ∃ vm ∈ f.slaves, vm.id = id ∧ slaveNodeTag clusterId f.type ∈ vm.tags ∧ vm.name ∉ f.activeNodes

/-- Every VM that a run has started to deprovision was found inactive by the inspection of the same run. -/
def OnlyInactive (s : System) : Prop := ∀ run ∈ s.runs, ∀ id ∈ run.deprovisioned, FoundInactive s.clusterId run.found id

/-! ## The condition -/

def Inspection.awaitsNodes : Inspection → Option (List Vm)
  | .getSlavesFromMaster _ slaves => some slaves
  | _ => none

/-- Only the last run asks for nodes, creates documents or lists them, and when the nodes are reported, the VMs of all
documents that are left are inactive again. -/
def Careful (s : System) : Event → Prop
  | .inspection i (.activeNodes names) => i + 1 = s.runs.length ∧
    ∀ run ∈ s.runs[i]?, ∀ slaves ∈ run.inspection.awaitsNodes, ∀ id ∈ s.entities, id ∈ inactiveVms slaves names
  | .inspection i (.entity _ _) => i + 1 = s.runs.length
  | .collection i .query => i + 1 = s.runs.length
  | _ => True

instance (s : System) : ∀ event, Decidable (Careful s event)
  | .inspection _ (.activeNodes _) => inferInstanceAs (Decidable (_ ∧ ∀ run ∈ _, ∀ slaves ∈ _, ∀ id ∈ _, _))
  | .inspection _ (.entity _ _) => inferInstanceAs (Decidable (_ = _))
  | .collection _ .query => inferInstanceAs (Decidable (_ = _))
  | .startRun | .startCollection _ | .inspection _ .failed | .inspection _ .cancelled | .inspection _ (.cluster _)
  | .inspection _ (.vms _) | .inspection _ .masterIp | .collection _ .failed | .collection _ (.vm _ _)
  | .collection _ (.entity _ _) =>
    .isTrue trivial

/-! ## The invariant -/

def Inspection.Tagged (clusterId : String) : Inspection → Prop
  | .getMasterIp type slaves | .getSlavesFromMaster type slaves => ∀ vm ∈ slaves, slaveNodeTag clusterId type ∈ vm.tags
  | _ => True

def Inspection.isEarly : Inspection → Bool
  | .createInactiveVmEntities _ _ | .ended _ => false
  | _ => true

structure Run.Ok (clusterId : String) (run : Run) : Prop where
  tagged : run.inspection.Tagged clusterId
  early : run.inspection.isEarly = true → run.found = none
  creating : ∀ vmIds failed, run.inspection = .createInactiveVmEntities vmIds failed → ∀ id ∈ vmIds,
    FoundInactive clusterId run.found id
  finished : run.inspection = .ended .finished → run.found.isSome = true
  collecting : run.collection.isSome = true → run.found.isSome = true
  deprovisioned : ∀ id ∈ run.deprovisioned, FoundInactive clusterId run.found id

structure Inv (s : System) : Prop where
  runs : ∀ run ∈ s.runs, run.Ok s.clusterId
  last : ∀ run, s.runs.getLast? = some run → run.found.isSome = true → ∀ id ∈ s.entities,
    FoundInactive s.clusterId run.found id

namespace Inv

variable {s : System} {i : Nat} {run : Run}

theorem start (clusterId : String) (entities : List String) : Inv (.start clusterId entities) :=
  ⟨fun _ h => absurd h not_mem_nil, fun _ h => by cases h⟩

/-- A run goes on; a document that is new, or was there when the nodes were reported, is one of the last run. -/
theorem setRun (h : Inv s) (hi : s.runs[i]? = some run) {r : List String × Run} (hok : r.2.Ok s.clusterId)
    (hentities : ∀ id ∈ r.1, (i + 1 = s.runs.length ∧ FoundInactive s.clusterId r.2.found id) ∨
      (id ∈ s.entities ∧ r.2.found = run.found)) : Inv (s.setRun i r) where
  runs run' hrun' := by
    rcases mem_or_eq_of_mem_set hrun' with hmem | heq
    · exact h.runs run' hmem
    · exact heq ▸ hok
  last run' hlast hfound id hid := by
    have hlt := (List.getElem?_eq_some_iff.1 hi).1
    have hget : (s.runs.set i r.2)[s.runs.length - 1]? = some run' := by
      rw [← hlast]
      show _ = (s.runs.set i r.2).getLast?
      rw [getLast?_eq_getElem?, length_set]
    rw [getElem?_set] at hget
    split at hget
    · rename_i hlen
      cases hget
      rcases hentities id hid with ⟨-, hnew⟩ | ⟨hold, hsame⟩
      · exact hnew
      · rw [hsame] at hfound ⊢
        refine h.last run ?_ hfound id hold
        rw [getLast?_eq_getElem?, ← hlen, hi]
    · rename_i hlen
      rcases hentities id hid with ⟨hlength, -⟩ | ⟨hold, -⟩
      · omega
      · refine h.last run' ?_ hfound id hold
        rw [getLast?_eq_getElem?, hget]

theorem inspecting (h : Inv s) (hi : s.runs[i]? = some run) {inspection : Inspection}
    (htagged : inspection.Tagged s.clusterId) (hearly : inspection.isEarly = true → run.inspection.isEarly = true)
    (hcreating : ∀ vmIds failed, inspection ≠ .createInactiveVmEntities vmIds failed)
      (hfinished : inspection ≠ .ended .finished) :
      Inv (s.setRun i (s.entities, { run with inspection := inspection })) :=
  have hrun := h.runs run (mem_of_getElem? hi)
  h.setRun hi ⟨htagged, fun h' => hrun.early (hearly h'), fun vmIds failed h' => absurd h' (hcreating vmIds failed),
    fun h' => absurd h' hfinished, hrun.collecting, hrun.deprovisioned⟩ fun _ hid => .inr ⟨hid, rfl⟩

theorem nextEntities_ok {clusterId : String} {found : Option Found} {collection : Option Collection}
    {vmIds deprovisioned : List String}
    {failed : Bool} (hfound : found.isSome = true) (hcreating : ∀ id ∈ vmIds, FoundInactive clusterId found id)
    (hdeprovisioned : ∀ id ∈ deprovisioned, FoundInactive clusterId found id) :
    Run.Ok clusterId ⟨nextEntities vmIds failed, found, collection, deprovisioned⟩ := by
  unfold nextEntities
  split
  · exact ⟨trivial, nofun, nofun, fun _ => hfound, fun _ => hfound, hdeprovisioned⟩
  · refine ⟨trivial, nofun, fun vmIds' failed' heq => ?_, nofun, fun _ => hfound, hdeprovisioned⟩
    cases heq
    exact hcreating

theorem inspect (h : Inv s) (hi : s.runs[i]? = some run) {answer : InspectionAnswer}
    (hcareful : Careful s (.inspection i answer)) : Inv (s.setRun i (inspect s run answer)) := by
  have hrun := h.runs run (mem_of_getElem? hi)
  have hsame : Inv (s.setRun i (s.entities, run)) := h.setRun hi hrun fun _ hid => .inr ⟨hid, rfl⟩
  unfold Garbage.inspect
  split
  · rename_i heq
    exact h.inspecting hi trivial (fun _ => by rw [heq]; rfl) nofun nofun
  · rename_i heq
    dsimp only
    split
    · exact h.inspecting hi (fun vm hvm => of_decide_eq_true (mem_filter.1 hvm).2)
        (fun _ => by rw [heq]; rfl) nofun nofun
    · exact h.inspecting hi trivial nofun nofun nofun
  · rename_i type slaves heq
    have htagged := hrun.tagged
    rw [heq] at htagged
    exact h.inspecting hi htagged (fun _ => by rw [heq]; rfl) nofun nofun
  · exact h.inspecting hi trivial nofun nofun nofun
  · rename_i type slaves names heq
    obtain ⟨hlast, hagain⟩ := hcareful
    have htagged := hrun.tagged
    have hnone : run.found = none := hrun.early (by rw [heq]; rfl)
    rw [heq] at htagged
    have hfound : ∀ id ∈ inactiveVms slaves names, FoundInactive s.clusterId (some ⟨type, slaves, names⟩) id := by
      intro id hid
      obtain ⟨vm, hvm, rfl⟩ := mem_map.1 hid
      obtain ⟨hmem, hname⟩ := mem_filter.1 hvm
      exact ⟨_, rfl, vm, hmem, rfl, htagged vm hmem, of_decide_eq_true hname⟩
    refine h.setRun hi (nextEntities_ok rfl hfound fun id hid => ?_) fun id hid => .inl ⟨hlast, hfound id ?_⟩
    · obtain ⟨f, hf, -⟩ := hrun.deprovisioned id hid
      rw [hnone] at hf
      cases hf
    · exact hagain run hi slaves (by rw [heq]; rfl) id hid
  · rename_i vmIds failed id result heq
    have hcreating := hrun.creating vmIds failed heq
    split
    · rename_i hmem
      obtain ⟨f, hf, -⟩ := hcreating id hmem
      refine h.setRun hi (nextEntities_ok (by rw [hf]; rfl) (fun id' hid' => hcreating id' (mem_filter.1 hid').1)
        hrun.deprovisioned) fun id' hid' => ?_
      have hmem' : id' ∈ createEntity s.entities id result := hid'
      unfold createEntity at hmem'
      split at hmem'
      · rcases mem_append.1 hmem' with hold | hnew
        · exact .inr ⟨hold, rfl⟩
        · exact .inl ⟨hcareful, mem_singleton.1 hnew ▸ hcreating id hmem⟩
      · exact .inr ⟨hmem', rfl⟩
    · exact hsame
  all_goals first | exact hsame | exact h.inspecting hi trivial nofun nofun nofun

theorem collecting (h : Inv s) (hi : s.runs[i]? = some run) (hsome : run.collection.isSome = true)
    (collection : Option Collection) {entities : List String} (hfewer : ∀ id ∈ entities, id ∈ s.entities) :
    Inv (s.setRun i (entities, { run with collection := collection })) :=
  have hrun := h.runs run (mem_of_getElem? hi)
  h.setRun hi { hrun with collecting := fun _ => hrun.collecting hsome }
    fun id hid => .inr ⟨hfewer id hid, rfl⟩

theorem collect (h : Inv s) (hi : s.runs[i]? = some run) {collection : Collection}
    (hcollection : run.collection = some collection) {answer : CollectionAnswer}
      (hcareful : Careful s (.collection i answer)) : Inv (s.setRun i (collect s run collection answer)) := by
  have hrun := h.runs run (mem_of_getElem? hi)
  have hsome : run.collection.isSome = true := by rw [hcollection]; rfl
  have hsame : Inv (s.setRun i (s.entities, run)) := h.setRun hi hrun fun _ hid => .inr ⟨hid, rfl⟩
  unfold Garbage.collect
  split
  · -- The collection of the last run finds documents of that run alone.
    have hlast : s.runs.getLast? = some run := by
      rw [getLast?_eq_getElem?, ← hi, show s.runs.length - 1 = i from Nat.sub_eq_of_eq_add hcareful.symm]
    have hfound := hrun.collecting hsome
    exact h.setRun hi { hrun with collecting := fun _ => hfound, deprovisioned := h.last run hlast hfound }
      fun _ hid => .inr ⟨hid, rfl⟩
  · exact h.collecting hi hsome _ fun _ hid => hid
  · split
    · exact h.collecting hi hsome _ fun _ hid => hid
    · exact hsame
  · split
    · refine h.collecting hi hsome _ fun id hid => ?_
      unfold deleteEntity at hid
      split at hid
      · exact (mem_filter.1 hid).1
      · exact hid
    · exact hsame
  · exact hsame

theorem step (h : Inv s) {event : Event} (hcareful : Careful s event) : Inv (s.step event) := by
  cases event with
  | startRun =>
    refine ⟨fun run hrun => ?_, fun run hlast hfound => ?_⟩
    · rcases mem_append.1 hrun with hold | hnew
      · exact h.runs run hold
      · rw [mem_singleton.1 hnew]
        exact ⟨trivial, fun _ => rfl, nofun, nofun, nofun, nofun⟩
    · have hnew : (s.runs ++ [(⟨.getClusterState, none, none, []⟩ : Run)]).getLast? = some run := hlast
      rw [getLast?_append] at hnew
      cases hnew
      cases hfound
  | inspection i answer =>
    rw [System.step]
    split
    · exact h
    · rename_i run hi
      exact h.inspect hi hcareful
  | startCollection i =>
    rw [System.step]
    split
    · rename_i found vmIds hi
      have hrun := h.runs _ (mem_of_getElem? hi)
      exact h.setRun hi ⟨trivial, nofun, nofun, fun _ => hrun.finished rfl, fun _ => hrun.finished rfl,
        hrun.deprovisioned⟩ fun _ hid => .inr ⟨hid, rfl⟩
    · exact h
  | collection i answer =>
    rw [System.step]
    split
    · rename_i run hi
      split
      · rename_i collection hcollection
        exact h.collect hi hcollection hcareful
      · exact h
    · exact h

end Inv

/-- **Garbage collection deletes only inactive nodes**, if no document of an earlier run is about a node that is active
again. -/
theorem collection_only_inactive (clusterId : String) (entities : List String) (events : List Event)
    (hcareful : Meets System.step Careful (.start clusterId entities) events) :
    Always System.step OnlyInactive (.start clusterId entities) events :=
  (Runs.always_of_meets (P := Inv) (fun _ _ h hc => h.step hc) (Inv.start clusterId entities) hcareful).mono
    fun _ h run hrun => (h.runs run hrun).deprovisioned

def oneSlave : List Vm := [⟨"m", "master", ["cluster:c:MesosMaster"]⟩, ⟨"v", "node", ["cluster:c:MesosSlave"]⟩]

def runReporting (i : Nat) (names : List String) : List Event :=
  [.startRun, .inspection i (.cluster .mesos), .inspection i (.vms oneSlave), .inspection i .masterIp,
    .inspection i (.activeNodes names), .inspection i (.entity "v" .done), .startCollection i, .collection i .query]

theorem collection_only_inactive_node :
    Always System.step OnlyInactive (.start "c" []) (runReporting 0 []) :=
  collection_only_inactive _ _ _ (by decide +kernel)

/-- The slave is deprovisioned although it is active again: the first attempt has failed and left its document. -/
theorem collection_active_node : ¬ Always System.step OnlyInactive (.start "c" [])
    (runReporting 0 [] ++ [.collection 0 (.vm "v" .failedBefore)] ++ runReporting 1 ["node"]) := by
  intro h
  have hend : (Runs.run System.step (.start "c" [])
      (runReporting 0 [] ++ [.collection 0 (.vm "v" .failedBefore)] ++ runReporting 1 ["node"])).runs[1]? =
        some ⟨.ended .finished, some ⟨.mesos, [⟨"v", "node", ["cluster:c:MesosSlave"]⟩], ["node"]⟩,
          some (.deleteInactiveVms ["v"] [] false), ["v"]⟩ := by decide +kernel
  obtain ⟨f, hf, vm, hvm, -, -, hname⟩ := h.run _ (mem_of_getElem? hend) "v" mem_cons_self
  cases hf
  rw [mem_singleton.1 hvm] at hname
  exact hname mem_cons_self

end Garbage
end Photon.ClusterManager
