import Mathlib.Data.Finset.Option
import Photon.CheckerIndex
import Photon.Index
import Photon.Runs
/-!
# HostCache — the scheduler's cache of the host and datastore documents

`HostCache` is told of every change to a host or datastore document and keeps addresses, sets and multimaps from it.
The model follows the two notification targets.  Beside the cache it keeps the documents themselves as the notifications
describe them (`Documents`), so that the cache can be compared with them: `Projects`.

A datastore is taken out of the tag map before it is put back under its tags, a host is only ever added to the maps.
`hostCache_faithful_iff` says for which notifications the cache is right nevertheless, and when the hosts with a tag can
be asked for.
-/
namespace Photon.RootScheduler

open Keyed (KeyedList LinkedMap Multimap SelectionOf)
open Keyed.Multimap (IndexOf)
open Runs (Always Meets)

inductive Action where
  | get | post | patch | put | delete | options
  deriving DecidableEq

def Action.updates : Action → Bool
  | .post | .put | .patch => true
  | _ => false

inductive Notification where
  | host (documentUpdateAction : Action) (state : HostService.State)
  | datastore (documentUpdateAction : Action) (state : DatastoreService.State)

structure HostCache where
  hostAddresses : LinkedMap String ServerAddress
  managementHostIds : Finset String
  networksToHosts : Multimap String String
  datastoresToHosts : Multimap String String
  datastoreIds : Finset String
  datastoreTagsToDatastores : Multimap String String
  availabilityZonesToHosts : Multimap String String

namespace HostCache

def initializeCache : HostCache := ⟨.empty, ∅, .empty, .empty, ∅, .empty, .empty⟩

variable (cache : HostCache)

/-- The null checks of `addOrUpdateHost`: nothing is added for a null set. -/
def addReported (m : Multimap String String) (reported : Option (Finset String)) (hostId : String) :
    Multimap String String :=
  match reported with
  | some values => m.addEach values hostId
  | none => m

def addOrUpdateHost (host : HostService.State) : HostCache :=
  let hostId := getIDFromDocumentSelfLink host.documentSelfLink
  { cache with
    hostAddresses := cache.hostAddresses.put hostId ⟨host.hostAddress, host.agentPort⟩
    managementHostIds :=
      if mgmt ∈ host.usageTags then insert hostId cache.managementHostIds else cache.managementHostIds
    networksToHosts := addReported cache.networksToHosts host.reportedNetworks hostId
    datastoresToHosts := addReported cache.datastoresToHosts host.reportedDatastores hostId
    availabilityZonesToHosts :=
      match host.availabilityZoneId with
      | some zone => cache.availabilityZonesToHosts.addOrUpdate zone hostId
      | none => cache.availabilityZonesToHosts }

def addOrUpdateDatastore (datastore : DatastoreService.State) : HostCache :=
  let datastoreId := getIDFromDocumentSelfLink datastore.documentSelfLink
  { cache with
    datastoreIds := insert datastoreId cache.datastoreIds
    datastoreTagsToDatastores :=
      match datastore.tags with
      | some tags => (cache.datastoreTagsToDatastores.removeFromAll datastoreId).addEach tags datastoreId
      | none => cache.datastoreTagsToDatastores.removeFromAll datastoreId }

def deleteHost (host : HostService.State) : HostCache :=
  let hostId := getIDFromDocumentSelfLink host.documentSelfLink
  { cache with
    hostAddresses := cache.hostAddresses.remove hostId
    managementHostIds := cache.managementHostIds.erase hostId
    networksToHosts := cache.networksToHosts.removeFromAll hostId
    datastoresToHosts := cache.datastoresToHosts.removeFromAll hostId
    availabilityZonesToHosts := cache.availabilityZonesToHosts.removeFromAll hostId }

def deleteDatastore (datastore : DatastoreService.State) : HostCache :=
  let datastoreId := getIDFromDocumentSelfLink datastore.documentSelfLink
  { cache with
    datastoreIds := cache.datastoreIds.erase datastoreId
    datastoreTagsToDatastores := cache.datastoreTagsToDatastores.removeFromAll datastoreId }

def notify : Notification → HostCache
  | .host action host =>
    if action.updates then cache.addOrUpdateHost host
    else if action = .delete then cache.deleteHost host
    else cache
  | .datastore action datastore =>
    if action.updates then cache.addOrUpdateDatastore datastore
    else if action = .delete then cache.deleteDatastore datastore
    else cache

def getHostsWithDatastore (datastoreId : String) : Option (Finset String) :=
  cache.datastoresToHosts.getValues datastoreId

/-- The loop reads the set of the tag and then the set of each of its datastores; a set that is not there is null and
the loop fails. -/
def getHostsWithDatastoreTag (datastoreTag : String) : Option (Finset String) :=
  match cache.datastoreTagsToDatastores.getValues datastoreTag with
  | none => none
  | some datastoreIds =>
    if ∀ id ∈ datastoreIds, (cache.getHostsWithDatastore id).isSome = true then
      some (datastoreIds.biUnion (fun id => (cache.getHostsWithDatastore id).getD ∅))
    else none

end HostCache

/-! ## The documents -/

/-- The latest state of every document that is not deleted. -/
structure Documents where
  hosts : Hosts
  datastores : Datastores

namespace Documents

def empty : Documents := ⟨.empty, .empty⟩

def notify (docs : Documents) : Notification → Documents
  | .host action host =>
    if action.updates then { docs with hosts := docs.hosts.put host }
    else if action = .delete then { docs with hosts := docs.hosts.erase host.documentId.name }
    else docs
  | .datastore action datastore =>
    if action.updates then { docs with datastores := docs.datastores.put datastore }
    else if action = .delete then { docs with datastores := docs.datastores.erase datastore.documentId.name }
    else docs

end Documents

/-- The cache holds what the documents say. -/
structure Projects (docs : Documents) (cache : HostCache) : Prop where
  addresses : ∀ id, cache.hostAddresses.get id = (docs.hosts.find id).map (fun h => ⟨h.hostAddress, h.agentPort⟩)
  management : SelectionOf docs.hosts (fun h => mgmt ∈ h.usageTags) cache.managementHostIds
  networks : IndexOf docs.hosts (fun h => h.reportedNetworks.getD ∅) cache.networksToHosts
  datastores : IndexOf docs.hosts (fun h => h.reportedDatastores.getD ∅) cache.datastoresToHosts
  zones : IndexOf docs.hosts (fun h => h.availabilityZoneId.toFinset) cache.availabilityZonesToHosts
  datastoreIds : SelectionOf docs.datastores (fun _ => True) cache.datastoreIds
  tags : IndexOf docs.datastores (fun d => d.tags.getD ∅) cache.datastoreTagsToDatastores

/-- The cache answers the hosts whose documents report a datastore whose document has the tag. -/
def Answers (tag : String) (docs : Documents) (cache : HostCache) : Prop :=
  ∃ found, cache.getHostsWithDatastoreTag tag = some found ∧ ∀ id, id ∈ found ↔
    ∃ h, docs.hosts.find id = some h ∧ ∃ d ∈ h.reportedDatastores.getD ∅,
      ∃ datastore, docs.datastores.find d = some datastore ∧ tag ∈ datastore.tags.getD ∅

/-! ## One notification -/

/-- A host still has all that its document before had: the new one retracts nothing. -/
structure Retains (old new : HostService.State) : Prop where
  management : mgmt ∈ old.usageTags → mgmt ∈ new.usageTags
  networks : old.reportedNetworks.getD ∅ ⊆ new.reportedNetworks.getD ∅
  datastores : old.reportedDatastores.getD ∅ ⊆ new.reportedDatastores.getD ∅
  zone : old.availabilityZoneId.toFinset ⊆ new.availabilityZoneId.toFinset

def Documents.Grows (docs : Documents) : Notification → Prop
  | .host action host =>
    action.updates = true → ∀ old, docs.hosts.find host.documentId.name = some old → Retains old host
  | .datastore _ _ => True

theorem addReported_eq (m : Multimap String String) (reported : Option (Finset String)) (hostId : String) :
    HostCache.addReported m reported hostId = m.addEach (reported.getD ∅) hostId := by
  cases reported with
  | none => exact (m.addEach_empty hostId).symm
  | some values => rfl

theorem addZone_eq (m : Multimap String String) (zone : Option String) (hostId : String) : (match zone with
      | some z => m.addOrUpdate z hostId
      | none => m) = m.addEach zone.toFinset hostId := by
  cases zone with
  | none => exact (m.addEach_empty hostId).symm
  | some z => rfl

theorem addTags_eq (m : Multimap String String) (tags : Option (Finset String)) (id : String) : (match tags with
      | some values => m.addEach values id
      | none => m) = m.addEach (tags.getD ∅) id := addReported_eq m tags id

namespace Projects

variable {docs : Documents} {cache : HostCache}

theorem empty : Projects .empty .initializeCache :=
  ⟨fun _ => rfl, .empty, .empty, .empty, .empty, .empty, .empty⟩

variable (h : Projects docs cache)
include h

/-- **A host update is followed exactly if the new document retracts nothing.** -/
theorem addOrUpdateHost_iff (host : HostService.State) :
    Projects { docs with hosts := docs.hosts.put host } (cache.addOrUpdateHost host) ↔
      ∀ old, docs.hosts.find host.documentId.name = some old → Retains old host := by
  have hmanagement := h.management.insert_iff host
  have hnetworks := h.networks.addEach_iff host
  have hdatastores := h.datastores.addEach_iff host
  have hzones := h.zones.addEach_iff host
  simp only [HostCache.addOrUpdateHost, HostService.State.getID_documentSelfLink, addReported_eq, addZone_eq]
  constructor
  · intro h' old hold
    exact ⟨hmanagement.1 h'.management old hold, hnetworks.1 h'.networks old hold, hdatastores.1 h'.datastores old hold,
      hzones.1 h'.zones old hold⟩
  · intro hretains
    refine ⟨fun id => ?_, hmanagement.2 fun old hold => (hretains old hold).management,
      hnetworks.2 fun old hold => (hretains old hold).networks,
      hdatastores.2 fun old hold => (hretains old hold).datastores,
      hzones.2 fun old hold => (hretains old hold).zone, h.datastoreIds, h.tags⟩
    simp only [LinkedMap.get_put, docs.hosts.find_put]
    by_cases hid : id = host.documentId.name
    · simp [hid]
    · simp [hid, h.addresses id]

theorem deleteHost (host : HostService.State) :
    Projects { docs with hosts := docs.hosts.erase host.documentId.name } (cache.deleteHost host) := by
  unfold HostCache.deleteHost
  simp only [HostService.State.getID_documentSelfLink]
  refine ⟨fun id => ?_, h.management.erase _, h.networks.erase _, h.datastores.erase _, h.zones.erase _,
    h.datastoreIds, h.tags⟩
  simp only [LinkedMap.get_remove, docs.hosts.find_erase, h.addresses id]
  by_cases hid : id = host.documentId.name
  · simp [hid]
  · simp [hid]

theorem addOrUpdateDatastore (datastore : DatastoreService.State) :
    Projects { docs with datastores := docs.datastores.put datastore } (cache.addOrUpdateDatastore datastore) := by
  unfold HostCache.addOrUpdateDatastore
  simp only [DatastoreService.State.getID_documentSelfLink, addTags_eq]
  refine { h with datastoreIds := ?_, tags := h.tags.replace datastore }
  have hinsert := (h.datastoreIds.insert_iff datastore).2 (fun _ _ _ => trivial)
  rwa [if_pos trivial] at hinsert

theorem deleteDatastore (datastore : DatastoreService.State) :
    Projects { docs with datastores := docs.datastores.erase datastore.documentId.name }
    (cache.deleteDatastore datastore) := by
  unfold HostCache.deleteDatastore
  simp only [DatastoreService.State.getID_documentSelfLink]
  exact { h with datastoreIds := h.datastoreIds.erase _, tags := h.tags.erase _ }

/-- **A notification is followed exactly if it retracts nothing.** -/
theorem notify_iff (n : Notification) : Projects (docs.notify n) (cache.notify n) ↔ docs.Grows n := by
  cases n with
  | host action host =>
    unfold Documents.notify HostCache.notify Documents.Grows
    by_cases hu : action.updates = true
    · simp only [hu, if_true, forall_const]
      exact h.addOrUpdateHost_iff host
    · simp only [hu, Bool.false_eq_true, if_false, false_imp_iff, iff_true]
      split
      · exact h.deleteHost host
      · exact h
  | datastore action datastore =>
    unfold Documents.notify HostCache.notify Documents.Grows
    simp only [iff_true]
    split
    · exact h.addOrUpdateDatastore datastore
    · split
      · exact h.deleteDatastore datastore
      · exact h

end Projects

/-! ## The hosts with a tag -/

def Documents.Tagged (docs : Documents) (tag id : String) : Prop :=
  ∃ datastore, docs.datastores.find id = some datastore ∧ tag ∈ datastore.tags.getD ∅

/-- **The hosts with a tag are answered exactly if no set is missing**: neither that of the tag nor that of a datastore
that carries it. -/
theorem Projects.answers_iff {docs : Documents} {cache : HostCache} (h : Projects docs cache) (tag : String) :
    Answers tag docs cache ↔ tag ∈ cache.datastoreTagsToDatastores.keys ∧
      ∀ id, docs.Tagged tag id → id ∈ cache.datastoresToHosts.keys := by
  have hvalues : ∀ id, id ∈ cache.datastoreTagsToDatastores.values tag ↔ docs.Tagged tag id := by
    intro id
    rw [Multimap.mem_values]
    exact h.tags tag id
  have hhosts : ∀ d id, id ∈ (cache.getHostsWithDatastore d).getD ∅ ↔ (d, id) ∈ cache.datastoresToHosts.pairs := by
    intro d id
    unfold HostCache.getHostsWithDatastore Multimap.getValues
    split
    · simp
    · rename_i hkey
      simp only [Option.getD_none, Finset.notMem_empty, false_iff]
      exact fun hpair => hkey (cache.datastoresToHosts.keyed _ hpair)
  have hall : (∀ id ∈ cache.datastoreTagsToDatastores.values tag, (cache.getHostsWithDatastore id).isSome = true) ↔
      ∀ id, docs.Tagged tag id → id ∈ cache.datastoresToHosts.keys := by
    refine forall_congr' (fun id => ?_)
    rw [hvalues, HostCache.getHostsWithDatastore, Multimap.isSome_getValues]
  unfold Answers HostCache.getHostsWithDatastoreTag Multimap.getValues
  by_cases hkey : tag ∈ cache.datastoreTagsToDatastores.keys
  · simp only [if_pos hkey]
    rw [← hall, and_iff_right hkey]
    constructor
    · intro hfound
      by_contra hnot
      obtain ⟨found, hfound, _⟩ := hfound
      rw [if_neg hnot] at hfound
      cases hfound
    · intro hsets
      refine ⟨_, if_pos hsets, fun id => ?_⟩
      simp only [Finset.mem_biUnion, hvalues, hhosts, h.datastores _ id]
      constructor
      · intro hid
        obtain ⟨d, htagged, host, hhost, hd⟩ := hid
        exact ⟨host, hhost, d, hd, htagged⟩
      · intro hid
        obtain ⟨host, hhost, d, hd, htagged⟩ := hid
        exact ⟨d, htagged, host, hhost, hd⟩
  · simp [hkey]

/-! ## Runs of notifications -/

def Notification.tags : Notification → Finset String
  | .datastore action doc => if action.updates then doc.tags.getD ∅ else ∅
  | .host _ _ => ∅

def Notification.reportedDatastores : Notification → Finset String
  | .host action doc => if action.updates then doc.reportedDatastores.getD ∅ else ∅
  | .datastore _ _ => ∅

theorem mem_tagKeys_notify (cache : HostCache) (n : Notification) (tag : String) :
    tag ∈ (cache.notify n).datastoreTagsToDatastores.keys ↔ tag ∈ cache.datastoreTagsToDatastores.keys ∨
    tag ∈ n.tags := by
  cases n with
  | host action host =>
    have hsame : (cache.notify (.host action host)).datastoreTagsToDatastores = cache.datastoreTagsToDatastores := by
      simp only [HostCache.notify]
      split
      · rfl
      · split <;> rfl
    simp [hsame, Notification.tags]
  | datastore action datastore =>
    simp only [HostCache.notify, Notification.tags]
    split
    · simp [HostCache.addOrUpdateDatastore, addTags_eq]
    · split <;> simp [HostCache.deleteDatastore]

theorem mem_datastoreKeys_notify (cache : HostCache) (n : Notification) (id : String) :
    id ∈ (cache.notify n).datastoresToHosts.keys ↔ id ∈ cache.datastoresToHosts.keys ∨ id ∈ n.reportedDatastores := by
  cases n with
  | host action host =>
    simp only [HostCache.notify, Notification.reportedDatastores]
    split
    · simp [HostCache.addOrUpdateHost, addReported_eq]
    · split <;> simp [HostCache.deleteHost]
  | datastore action datastore =>
    have hsame : (cache.notify (.datastore action datastore)).datastoresToHosts = cache.datastoresToHosts := by
      simp only [HostCache.notify]
      split
      · rfl
      · split <;> rfl
    simp [hsame, Notification.reportedDatastores]

structure Notified where
  docs : Documents
  cache : HostCache

namespace Notified

def start : Notified := ⟨.empty, .initializeCache⟩

def notify (s : Notified) (n : Notification) : Notified := ⟨s.docs.notify n, s.cache.notify n⟩

def after (ns : List Notification) : Notified := Runs.run notify start ns

theorem mem_after {keys : Notified → Finset String} {reported : Notification → Finset String} {x : String}
    (hstart : x ∉ keys start) (hstep : ∀ s n, x ∈ keys (s.notify n) ↔ x ∈ keys s ∨ x ∈ reported n)
    (ns : List Notification) :
    x ∈ keys (after ns) ↔ ∃ n ∈ ns, x ∈ reported n := by
  have hrun := Runs.run_iff_exists (P := fun s => x ∈ keys s) hstep ns start
  rwa [or_iff_right hstart] at hrun

theorem mem_tagKeys_after (ns : List Notification) (tag : String) :
    tag ∈ (after ns).cache.datastoreTagsToDatastores.keys ↔ ∃ n ∈ ns, tag ∈ n.tags :=
  @mem_after (fun s => s.cache.datastoreTagsToDatastores.keys) _ tag (Finset.notMem_empty tag)
    (fun s n => mem_tagKeys_notify s.cache n tag) ns

theorem mem_datastoreKeys_after (ns : List Notification) (id : String) :
    id ∈ (after ns).cache.datastoresToHosts.keys ↔ ∃ n ∈ ns, id ∈ n.reportedDatastores :=
  @mem_after (fun s => s.cache.datastoresToHosts.keys) _ id (Finset.notMem_empty id)
    (fun s n => mem_datastoreKeys_notify s.cache n id) ns

end Notified

open Notified (after)

/-- **The cache is the projection of the documents after each notification, and answers for a tag in the end, exactly
if** no update of a host retracts what the host had, some notification has brought the tag, and every datastore that now
carries it has been reported by some host. -/
theorem hostCache_faithful_iff (ns : List Notification) (tag : String) :
    Always Notified.notify (fun s => Projects s.docs s.cache) .start ns ∧ Answers tag (after ns).docs (after ns).cache ↔
      Meets Notified.notify (fun s n => s.docs.Grows n) .start ns ∧ (∃ n ∈ ns, tag ∈ n.tags) ∧
        ∀ id, (after ns).docs.Tagged tag id → ∃ n ∈ ns, id ∈ n.reportedDatastores := by
  have hiff : Always Notified.notify (fun s => Projects s.docs s.cache) .start ns ↔
      Meets Notified.notify (fun s n => s.docs.Grows n) .start ns :=
    Runs.always_iff_meets_of_inv (fun s n hs => (hs.notify_iff n).2) (fun _ hs => hs)
      (fun s n hs => (hs.notify_iff n).1) Projects.empty
  rw [← hiff]
  refine and_congr_right (fun halways => ?_)
  have hprojects : Projects (after ns).docs (after ns).cache := halways.run
  simp only [hprojects.answers_iff tag, Notified.mem_tagKeys_after, Notified.mem_datastoreKeys_after]

/-! ## What stays of a host -/

/-- The documents of each host since it was last deleted, the newest first. -/
abbrev Reports : Type := String → List HostService.State

def Reports.notify (reports : Reports) : Notification → Reports
  | .host action host =>
    if action.updates then Function.update reports host.documentId.name (host :: reports host.documentId.name)
    else if action = .delete then Function.update reports host.documentId.name []
    else reports
  | .datastore _ _ => reports

/-- The cache has of a host its last address, and all that any of its documents says. -/
structure Remembers (reports : Reports) (cache : HostCache) : Prop where
  addresses : ∀ id, cache.hostAddresses.get id = (reports id).head?.map (fun h => ⟨h.hostAddress, h.agentPort⟩)
  management : ∀ id, id ∈ cache.managementHostIds ↔ ∃ h ∈ reports id, mgmt ∈ h.usageTags
  networks : ∀ v id, (v, id) ∈ cache.networksToHosts.pairs ↔ ∃ h ∈ reports id, v ∈ h.reportedNetworks.getD ∅
  datastores : ∀ v id, (v, id) ∈ cache.datastoresToHosts.pairs ↔ ∃ h ∈ reports id, v ∈ h.reportedDatastores.getD ∅
  zones : ∀ v id, (v, id) ∈ cache.availabilityZonesToHosts.pairs ↔ ∃ h ∈ reports id, v ∈ h.availabilityZoneId.toFinset

theorem Remembers.notify {reports : Reports} {cache : HostCache} (h : Remembers reports cache) (n : Notification) :
    Remembers (reports.notify n) (cache.notify n) := by
  cases n with
  | host action host =>
    simp only [Reports.notify, HostCache.notify]
    by_cases hu : action.updates = true
    · simp only [hu, if_true, HostCache.addOrUpdateHost, HostService.State.getID_documentSelfLink,
        addReported_eq, addZone_eq]
      refine ⟨fun id => ?_, fun id => ?_, fun v id => ?_, fun v id => ?_, fun v id => ?_⟩
      -- an update leaves the other hosts alone and adds to what there is of its own
      · by_cases hid : id = host.documentId.name <;> simp [hid, h.addresses id]
      · by_cases hid : id = host.documentId.name
        · split <;> simp_all [h.management]
        · split <;> simp [hid, h.management id]
      all_goals by_cases hid : id = host.documentId.name
      all_goals simp [hid, h.networks, h.datastores, h.zones, or_comm]
    · simp only [hu, if_false, Bool.false_eq_true]
      split
      · simp only [HostCache.deleteHost, HostService.State.getID_documentSelfLink]
        refine ⟨fun id => ?_, fun id => ?_, fun v id => ?_, fun v id => ?_, fun v id => ?_⟩
        all_goals by_cases hid : id = host.documentId.name
        all_goals simp [hid, h.addresses, h.management, h.networks, h.datastores, h.zones]
      · exact h
  | datastore action datastore =>
    simp only [Reports.notify, HostCache.notify]
    split
    · exact { h with }
    · split
      · exact { h with }
      · exact h

/-- **The cache has of each host all that it reported since it was last deleted, and nothing else**, with the last of
its addresses: a host that was deleted is nowhere in it. -/
theorem hostCache_remembers (ns : List Notification) :
    Remembers (Runs.run Reports.notify (fun _ => []) ns) (after ns).cache := by
  have hrun : ∀ (ns : List Notification) (reports : Reports) (s : Notified), Remembers reports s.cache →
      Remembers (Runs.run Reports.notify reports ns) (Runs.run Notified.notify s ns).cache := by
    intro ns
    induction ns with
    | nil => exact fun _ _ h => h
    | cons n ns ih => exact fun reports s h => ih _ _ (h.notify n)
  refine hrun ns _ _ ⟨fun _ => rfl, ?_, ?_, ?_, ?_⟩ <;> simp [Notified.start, HostCache.initializeCache]

def onNetwork : HostService.State := { hostA with reportedNetworks := some {"net"} }

def offNetwork : HostService.State := { hostA with reportedNetworks := some ∅ }

def taggedDatastore : DatastoreService.State := ⟨idA, some {"ssd"}⟩

/-- **A host that has left a network is still cached on it, and the hosts with a tag cannot be asked for** before the
tag has been seen, nor before a host has reported the datastore. -/
theorem left_network_cached : let s := after [.host .post onNetwork, .host .put offNetwork]
    s.docs.hosts.find "a" = some offNetwork ∧ ("net", "a") ∈ s.cache.networksToHosts.pairs ∧
    ¬ Projects s.docs s.cache ∧
    (after []).cache.getHostsWithDatastoreTag "ssd" = none ∧
    (after [.datastore .post taggedDatastore]).cache.getHostsWithDatastoreTag "ssd" = none := by
  have hfind : (after [.host .post onNetwork, .host .put offNetwork]).docs.hosts.find "a" = some offNetwork := by decide
  have hpair : ("net", "a") ∈ (after [.host .post onNetwork, .host .put offNetwork]).cache.networksToHosts.pairs := by
    decide
  refine ⟨hfind, hpair, fun h => ?_, by decide, by decide⟩
  obtain ⟨host, hhost, hnet⟩ := (h.networks "net" "a").1 hpair
  rw [hfind] at hhost
  cases hhost
  revert hnet
  decide

end Photon.RootScheduler
