import Mathlib.Algebra.Order.Ring.Int
import Photon.CopyState
import Photon.LockStep
import Photon.Runs
/-!
# CopyStateComplete — a copy of documents is complete, or fails

What has been posted after `r` rounds is, up to its order, what the servers own on their first `r` pages; the time that
is handed on is the latest of it.  A copy that is `FINISHED` has read all pages.  A joined request that fails ends the
task, but for the read of the next pages, whose check for failures is the wrong way round.
-/
namespace Photon.Deployer.CopyState

open List
open LockStep (find?_of_mem filter_eq_find? flatMap_of_key read read_all read_succ read_zero round)
open Runs (run Always Meets)
open Xenon (TaskStage)
open Option (any_some bind_some getD_some map_none map_some some)

variable {β : Type}

/-! ## The versions of the owners -/

def Cluster.ownerVersion (cluster : Cluster β) (documentSelfLink : String) : Option (Document β) :=
  (cluster.servers.find? fun server => server.hostId = cluster.ownerOf documentSelfLink).bind fun server =>
    server.documents.find? fun document => document.documentSelfLink = documentSelfLink

def Server.select (server : Server β) (documents : List (Document β)) : List (Document β) :=
  documents.filter fun document => document.documentOwner = none ∨ document.documentOwner = some server.hostId

def Server.ownedPages (server : Server β) : List (List (Document β)) := server.pages.map server.select

def Cluster.ownerVersions (cluster : Cluster β) : List (Document β) :=
  cluster.servers.flatMap fun server => server.ownedPages.flatten

def Cluster.replicas (cluster : Cluster β) : List (Document β) := cluster.servers.flatMap Server.documents

/-- No replica is newer than the version of the owner. -/
def Cluster.UpToDate (cluster : Cluster β) : Prop :=
  ∀ document ∈ cluster.replicas, ∃ version, cluster.ownerVersion document.documentSelfLink = some version ∧
    document.documentUpdateTimeMicros ≤ version.documentUpdateTimeMicros

def latest (time : Int) (documents : List (Document β)) : Int :=
  (documents.map Document.documentUpdateTimeMicros).foldl max time

structure Migrated (request : Request β) (task : Task β) : Prop where
  once : ∀ link, (task.posted.map Post.document).filter (fun document => document.documentSelfLink = link) =
    (request.sourceServers.ownerVersion link).toList
  body : ∀ post ∈ task.posted, request.buildPostOperation post.document = some post
  time : task.lastDocumentUpdateTimeEpoc =
    some (latest request.queryDocumentsChangedSinceEpoc request.sourceServers.ownerVersions)
  timeOfAll : request.sourceServers.UpToDate → task.lastDocumentUpdateTimeEpoc =
    some (latest request.queryDocumentsChangedSinceEpoc request.sourceServers.replicas)

def EndsFailed (request : Request β) (task : Task β) : Prop :=
  task.stage = .failed ∨ (task.step request .deliver).stage = .failed

/-- **The migration is complete or fails.** -/
structure Faithful (request : Request β) (task : Task β) : Prop where
  finished : task.stage = .finished → Migrated request task
  failed : task.failed = true → EndsFailed request task

def PagesRead (task : Task β) : Event → Prop
  | .completed outcomes =>
    match task.join with
    | .pages nextPageLinks _ => outcomes.length = nextPageLinks.length → someFailed outcomes = false
    | _ => True
  | .deliver => True

/-! ## Times -/

theorem latest_append (time : Int) (a b : List (Document β)) : latest time (a ++ b) = latest (latest time a) b := by
  rw [latest, map_append, foldl_append]
  rfl

theorem latest_le_iff (bound : Int) : ∀ (documents : List (Document β)) (time : Int),
    latest time documents ≤ bound ↔ time ≤ bound ∧ ∀ document ∈ documents, document.documentUpdateTimeMicros ≤ bound
  | [], time => by simp only [latest, map_nil, foldl_nil, not_mem_nil, false_implies, implies_true, and_true]
  | document :: documents, time => by
    have hcons : latest time (document :: documents) = latest (max time document.documentUpdateTimeMicros)
      documents := rfl
    rw [hcons, latest_le_iff bound documents, max_le_iff, forall_mem_cons, and_assoc]

theorem le_latest (time : Int) (documents : List (Document β)) : time ≤ latest time documents :=
  ((latest_le_iff _ documents time).1 (le_refl _)).1

theorem time_le_latest (time : Int) {documents : List (Document β)} {document : Document β} (h : document ∈ documents) :
    document.documentUpdateTimeMicros ≤ latest time documents :=
  ((latest_le_iff _ documents time).1 (le_refl _)).2 document h

theorem max_lastUpdateTimeOnPage {time : Int} (h : 0 ≤ time) (documents : List (Document β)) :
    max time (lastUpdateTimeOnPage documents) = latest time documents := by
  cases documents with
  | nil => exact max_eq_left h
  | cons document documents =>
    rw [lastUpdateTimeOnPage, map_cons, max?_cons', getD_some]
    exact (foldl_assoc).symm

/-! ## Owners -/

section

variable (cluster : Cluster β)

theorem Server.flatten_ownedPages (server : Server β) : server.ownedPages.flatten = server.select server.documents := by
  rw [Server.ownedPages, Server.select, Server.documents, filter_flatten]
  rfl

theorem Cluster.filter_select {server : Server β} (hserver : server ∈ cluster.servers) (link : String) :
    (server.select server.documents).filter (fun document => document.documentSelfLink = link) =
      if server.hostId = cluster.ownerOf link then (server.documents.find? fun document =>
        document.documentSelfLink = link).toList else [] := by
  split
  · rename_i howner
    rw [← filter_eq_find? link (cluster.links_nodup server hserver), Server.select, filter_filter]
    refine filter_congr fun document hdocument => ?_
    by_cases hlink : document.documentSelfLink = link
    · have heq := cluster.owner_eq server hserver document hdocument
      rw [hlink, ← howner] at heq
      simp only [hlink, heq, decide_true, Bool.true_and, reduceCtorEq, false_or]
    · simp only [hlink, decide_false, Bool.false_and]
  · rename_i howner
    rw [Server.select, filter_filter, filter_eq_nil_iff]
    intro document hdocument hselect
    simp only [Bool.and_eq_true, decide_eq_true_eq] at hselect
    obtain ⟨hlink, hselect⟩ := hselect
    have heq := cluster.owner_eq server hserver document hdocument
    rw [hlink] at heq
    rcases hselect with hnone | hsome
    · rw [heq] at hnone
      cases hnone
    · rw [heq] at hsome
      exact howner (some.inj hsome).symm

/-- **Of every document the version of the owner is selected, once.** -/
theorem Cluster.filter_ownerVersions (link : String) :
    cluster.ownerVersions.filter (fun document => document.documentSelfLink = link) =
    (cluster.ownerVersion link).toList := by
  have hfilter : ∀ server ∈ cluster.servers,
      server.ownedPages.flatten.filter (fun document => document.documentSelfLink = link) =
        if server.hostId = cluster.ownerOf link then (server.documents.find? fun document =>
          document.documentSelfLink = link).toList
        else [] := by
    intro server hserver
    rw [Server.flatten_ownedPages, cluster.filter_select hserver]
  rw [Cluster.ownerVersions, filter_flatMap, flatMap_congr hfilter,
    flatMap_of_key (cluster.ownerOf link) cluster.hostIds_nodup fun server _ hne => if_neg hne, Cluster.ownerVersion]
  cases hfind : cluster.servers.find? fun server => server.hostId = cluster.ownerOf link with
  | none => rfl
  | some server =>
    have howner := find?_some hfind
    rw [decide_eq_true_eq] at howner
    simp only [map_some, getD_some, if_pos howner, bind_some]

theorem Cluster.mem_replicas_of_mem_ownerVersions {document : Document β} (h : document ∈ cluster.ownerVersions) :
    document ∈ cluster.replicas := by
  obtain ⟨server, hserver, hmem⟩ := mem_flatMap.1 h
  rw [Server.flatten_ownedPages] at hmem
  exact mem_flatMap.2 ⟨server, hserver, (mem_filter.1 hmem).1⟩

theorem Cluster.latest_replicas (h : cluster.UpToDate) (time : Int) :
    latest time cluster.replicas = latest time cluster.ownerVersions := by
  refine le_antisymm ((latest_le_iff _ _ _).2 ⟨le_latest _ _, ?_⟩) ((latest_le_iff _ _ _).2 ⟨le_latest _ _, ?_⟩)
  · intro document hdocument
    obtain ⟨version, hversion, hle⟩ := h document hdocument
    have hmem : version ∈ cluster.ownerVersions := by
      have hfilter : version ∈ (cluster.ownerVersion document.documentSelfLink).toList := by
        rw [hversion]
        exact mem_singleton.2 rfl
      rw [← cluster.filter_ownerVersions] at hfilter
      exact (mem_filter.1 hfilter).1
    exact le_trans hle (time_le_latest _ hmem)
  · intro document hdocument
    exact time_le_latest _ (cluster.mem_replicas_of_mem_ownerVersions hdocument)

end

/-! ## Rounds -/

section

variable (request : Request β)

def Cluster.linksAt (cluster : Cluster β) (r : Nat) : PageLinks :=
  cluster.servers.filterMap fun server => if r < server.pages.length then some (server.address, r) else none

def Cluster.resultsAt (cluster : Cluster β) (r : Nat) : List ((String × Nat) × ServiceDocumentQueryResult β) :=
  cluster.servers.filterMap fun server => (server.page r).map fun result => (server.address, result)

variable {server : Server β} {r : Nat}

theorem Server.page_of_lt (h : r < server.pages.length) : ∃ documents, server.pages[r]? = some documents ∧
    server.page r = some ⟨documents, if r + 1 < server.pages.length then some (r + 1) else none, server.hostId⟩ := by
  have hget : server.pages[r]? = some (server.pages.get ⟨r, h⟩) := getElem?_eq_getElem h
  exact ⟨_, hget, by rw [Server.page, hget]; rfl⟩

theorem Server.page_of_le (h : ¬ r < server.pages.length) : server.pages[r]? = none ∧ server.page r = none := by
  have hget : server.pages[r]? = none := getElem?_eq_none (Nat.le_of_not_lt h)
  exact ⟨hget, by rw [Server.page, hget]; rfl⟩

theorem Request.readPage_address (h : server ∈ request.sourceServers.servers) (r : Nat) :
    request.readPage (server.address, r) = (server.page r).map fun result => (server.address, result) := by
  rw [Request.readPage, find?_of_mem request.sourceServers.addresses_nodup h]
  rfl

theorem Request.mapM_readPage (r : Nat) : (request.sourceServers.linksAt r).mapM request.readPage =
    some (request.sourceServers.resultsAt r) := by
  have hread : ∀ servers : List (Server β), (∀ server ∈ servers, server ∈ request.sourceServers.servers) →
      (servers.filterMap fun server => if r < server.pages.length then some (server.address, r) else none).mapM
        request.readPage =
        some (servers.filterMap fun server => (server.page r).map fun result => (server.address, result)) := by
    intro servers
    induction servers with
    | nil => exact fun _ => rfl
    | cons server servers ih =>
      intro hmem
      have hrest := ih fun server hserver => hmem server (mem_cons_of_mem _ hserver)
      by_cases hr : r < server.pages.length
      · obtain ⟨documents, -, hpage⟩ := Server.page_of_lt hr
        have haddress := request.readPage_address (hmem server mem_cons_self) r
        rw [hpage] at haddress
        simp only [filterMap_cons, if_pos hr, hpage, map_some, mapM_cons, haddress, hrest]
        rfl
      · simp only [filterMap_cons, if_neg hr, (Server.page_of_le hr).2, map_none]
        exact hrest
  exact hread _ fun _ h => h

theorem Cluster.pageLinks_resultsAt (cluster : Cluster β) (r : Nat) :
    pageLinks (cluster.resultsAt r) = cluster.linksAt (r + 1) := by
  rw [pageLinks, Cluster.resultsAt, Cluster.linksAt, filterMap_filterMap]
  refine filterMap_congr fun server _ => ?_
  by_cases hr : r < server.pages.length
  · obtain ⟨documents, -, hpage⟩ := Server.page_of_lt hr
    rw [hpage]
    by_cases hnext : r + 1 < server.pages.length
    · simp only [map_some, bind_some, if_pos hnext]
    · simp only [map_some, bind_some, if_neg hnext, map_none]
  · rw [(Server.page_of_le hr).2, if_neg fun hnext => hr (Nat.lt_of_succ_lt hnext)]
    rfl

theorem Cluster.select_resultsAt (cluster : Cluster β) (r : Nat) :
    ((cluster.resultsAt r).flatMap fun entry => selectOwned entry.2) = round cluster.servers Server.ownedPages r := by
  have hselect : ∀ servers : List (Server β),
      (servers.filterMap fun server => (server.page r).map fun result => (server.address, result)).flatMap
        (fun entry => selectOwned entry.2) = servers.flatMap fun server => (server.ownedPages[r]?).getD [] := by
    intro servers
    induction servers with
    | nil => rfl
    | cons server servers ih =>
      rw [flatMap_cons, ← ih, Server.ownedPages, getElem?_map]
      by_cases hr : r < server.pages.length
      · obtain ⟨documents, hget, hpage⟩ := Server.page_of_lt hr
        simp only [filterMap_cons, hpage, hget, map_some, flatMap_cons]
        rfl
      · obtain ⟨hget, hpage⟩ := Server.page_of_le hr
        simp only [filterMap_cons, hpage, hget, map_none]
        rfl
  exact hselect cluster.servers

theorem Cluster.linksAt_eq_nil {cluster : Cluster β} (h : cluster.linksAt r = []) :
    read cluster.servers Server.ownedPages r = cluster.ownerVersions := by
  refine read_all fun server hserver => ?_
  rw [Server.ownedPages, length_map]
  by_contra hlt
  have hnone := filterMap_eq_nil_iff.1 h server hserver
  rw [if_pos (Nat.lt_of_not_le hlt)] at hnone
  cases hnone

theorem Cluster.resultsAt_ne_nil {cluster : Cluster β} (h : cluster.linksAt r ≠ []) : cluster.resultsAt r ≠ [] := by
  intro hnil
  refine h (filterMap_eq_nil_iff.2 fun server hserver => if_neg fun hr => ?_)
  have hnone := filterMap_eq_nil_iff.1 hnil server hserver
  obtain ⟨documents, -, hpage⟩ := Server.page_of_lt hr
  rw [hpage] at hnone
  cases hnone

/-! ## Joined requests -/

theorem failures_ok {outcomes : List Bool} (h : someFailed outcomes = false) : failures outcomes = none := by
  refine if_pos ?_
  rw [someFailed, any_eq_false] at h
  rw [all_eq_true]
  intro ok hok
  cases ok with
  | true => rfl
  | false => exact absurd rfl (h false hok)

theorem failures_failed {outcomes : List Bool} (h : someFailed outcomes = true) :
    ∃ ts, failures outcomes = some ts ∧ ts.isEmpty = false := by
  obtain ⟨ok, hok, hnot⟩ := any_eq_true.1 h
  cases ok with
  | true => cases hnot
  | false =>
    have hall : ¬ outcomes.all id = true := by
      intro hall
      have hid := all_eq_true.1 hall false hok
      cases hid
    refine ⟨_, if_neg hall, ?_⟩
    rw [isEmpty_eq_false_iff_exists_mem]
    exact ⟨false, mem_filter.2 ⟨hok, rfl⟩⟩

theorem any_failures (outcomes : List Bool) :
    ((failures outcomes).any fun ts => !ts.isEmpty) = someFailed outcomes := by
  cases hfailed : someFailed outcomes with
  | false => rw [failures_ok hfailed]; rfl
  | true =>
    obtain ⟨ts, hts, hempty⟩ := failures_failed hfailed
    rw [hts, any_some, hempty]
    rfl

theorem not_any_failures_isEmpty (outcomes : List Bool) : ((failures outcomes).any fun ts => ts.isEmpty) = false := by
  cases hfailed : someFailed outcomes with
  | false => rw [failures_ok hfailed]; rfl
  | true =>
    obtain ⟨ts, hts, hempty⟩ := failures_failed hfailed
    rw [hts, any_some, hempty]

theorem mapM_zip_ok {γ δ : Type} (f : γ → Option δ) :
    ∀ {links : List γ} {outcomes : List Bool}, outcomes.length = links.length →
    someFailed outcomes = false → (links.zip outcomes).mapM (fun entry => if entry.2 then f entry.1 else none) =
      links.mapM f
  | [], [], _, _ => rfl
  | link :: links, ok :: outcomes, hlen, hok => by
    obtain ⟨hfirst, hrest⟩ := Bool.or_eq_false_iff.1 hok
    have htrue : ok = true := by cases ok <;> first | rfl | cases hfirst
    rw [zip_cons_cons, mapM_cons, mapM_cons, mapM_zip_ok f (Nat.succ.inj hlen) hrest, htrue]
    rfl

theorem mapM_zip_failed {γ δ : Type} (f : γ → Option δ) :
    ∀ {links : List γ} {outcomes : List Bool}, outcomes.length = links.length →
    someFailed outcomes = true → (links.zip outcomes).mapM (fun entry => if entry.2 then f entry.1 else none) = none
  | [], [], _, hfailed => nomatch hfailed
  | link :: links, ok :: outcomes, hlen, hfailed => by
    rw [zip_cons_cons, mapM_cons]
    cases ok with
    | false => rfl
    | true =>
      have hrest : someFailed outcomes = true := hfailed
      rw [mapM_zip_failed f (Nat.succ.inj hlen) hrest]
      cases f link <;> rfl

end

/-! ## The invariant -/

section

variable {request : Request β}

def Fits (request : Request β) (posted : List (Post β)) (r : Nat) : Prop :=
  (posted.map Post.document).Perm (read request.sourceServers.servers Server.ownedPages r)

def timeAt (request : Request β) (r : Nat) : Int :=
  latest request.queryDocumentsChangedSinceEpoc (read request.sourceServers.servers Server.ownedPages r)

/-- How far the task is, by what it waits for. -/
def Progress (request : Request β) (posted : List (Post β)) : Join β → Prop
  | .queries => posted = []
  | .pages links last => ∃ r, links = request.sourceServers.linksAt r ∧ Fits request posted r ∧ last = timeAt request r
  | .deletes selected links last => ∃ r, selected = round request.sourceServers.servers Server.ownedPages r ∧
      links = request.sourceServers.linksAt (r + 1) ∧ Fits request posted r ∧ last = timeAt request (r + 1)
  | .posts _ links last =>
    ∃ r, links = request.sourceServers.linksAt r ∧ Fits request posted r ∧ last = timeAt request r
  | .patch stage last => stage = .failed ∧ last = none ∨ stage = .finished ∧
      (posted.map Post.document).Perm request.sourceServers.ownerVersions ∧
      last = some (latest request.queryDocumentsChangedSinceEpoc request.sourceServers.ownerVersions)
  | .nothing => False

theorem progress_continue {posted : List (Post β)} {r : Nat} (hfits : Fits request posted r) :
    Progress request posted (continueWithNextPage (request.sourceServers.linksAt r) (timeAt request r)) := by
  rw [continueWithNextPage]
  split
  · rename_i hempty
    have hall := Cluster.linksAt_eq_nil (isEmpty_iff.1 hempty)
    rw [Fits, hall] at hfits
    exact .inr ⟨rfl, hfits, by rw [timeAt, hall]⟩
  · exact ⟨r, rfl, hfits, rfl⟩

theorem progress_store (htime : 0 ≤ request.queryDocumentsChangedSinceEpoc) {posted : List (Post β)} {r : Nat}
    (hfits : Fits request posted r) :
    Progress request posted (storeDocuments (request.sourceServers.resultsAt r) (timeAt request r)) := by
  have hmax : max (timeAt request r) (lastUpdateTimeOnPage (round request.sourceServers.servers Server.ownedPages r)) =
      timeAt request (r + 1) := by
    have hnonneg : 0 ≤ timeAt request r := le_trans htime (le_latest _ _)
    rw [max_lastUpdateTimeOnPage hnonneg, timeAt, ← latest_append]
    exact ((read_succ _ _ _).map _).foldl_op_eq
  simp only [storeDocuments, Cluster.select_resultsAt, Cluster.pageLinks_resultsAt, hmax]
  split
  · rename_i hempty
    by_cases hlinks : request.sourceServers.linksAt r = []
    · rw [← hlinks]
      exact progress_continue hfits
    · exact absurd (isEmpty_iff.1 hempty) (Cluster.resultsAt_ne_nil hlinks)
  · split
    · rename_i hnone
      refine progress_continue ?_
      -- nothing has been selected, so the round adds nothing
      have hsucc := read_succ request.sourceServers.servers Server.ownedPages r
      rw [isEmpty_iff.1 hnone, append_nil] at hsucc
      exact hfits.trans hsucc
    · exact ⟨r, rfl, rfl, hfits, rfl⟩

theorem mapM_buildPostOperation : ∀ {documents : List (Document β)} {posts : List (Post β)},
    documents.mapM request.buildPostOperation = some posts →
    posts.map Post.document = documents ∧ ∀ post ∈ posts, request.buildPostOperation post.document = some post
  | [], posts, h => by
    obtain rfl : [] = posts := some.inj h
    exact ⟨rfl, nofun⟩
  | document :: documents, posts, h => by
    rw [mapM_cons] at h
    obtain ⟨post, hpost, h⟩ := Option.bind_eq_some_iff.1 h
    obtain ⟨rest, hrest, h⟩ := Option.bind_eq_some_iff.1 h
    obtain rfl : post :: rest = posts := some.inj h
    obtain ⟨hdocuments, hbodies⟩ := mapM_buildPostOperation hrest
    have hdocument : post.document = document := by
      obtain ⟨body, -, rfl⟩ := Option.map_eq_some_iff.1 hpost
      rfl
    refine ⟨by rw [map_cons, hdocument, hdocuments], ?_⟩
    intro p hp
    rcases mem_cons.1 hp with rfl | hp
    · rw [hdocument]
      exact hpost
    · exact hbodies p hp

inductive Stands (request : Request β) (task : Task β) : Prop
  | running (stage : task.stage = .started) (progress : Progress request task.posted task.join)
    (failed : task.failed = true → task.join = failTask)
  | failed (stage : task.stage = .failed) (join : task.join = .nothing)
  | finished (stage : task.stage = .finished) (join : task.join = .nothing) (failed : task.failed = false)
    (posted : (task.posted.map Post.document).Perm request.sourceServers.ownerVersions)
    (last : task.lastDocumentUpdateTimeEpoc =
      some (latest request.queryDocumentsChangedSinceEpoc request.sourceServers.ownerVersions))
  | stopped (stage : task.stage = .started) (join : task.join = .nothing) (failed : task.failed = false)

structure Inv (request : Request β) (task : Task β) : Prop where
  body : ∀ post ∈ task.posted, request.buildPostOperation post.document = some post
  stands : Stands request task

theorem inv_start (request : Request β) (last : Option Int) : Inv request (.start request last) := by
  refine ⟨nofun, ?_⟩
  by_cases hempty : request.sourceServers.servers.isEmpty = true
  · exact .stopped rfl (if_pos hempty) rfl
  · refine .running rfl ?_ nofun
    have hjoin : (Task.start request last).join = .queries := if_neg hempty
    rw [hjoin]
    exact rfl

variable {task : Task β}

theorem Stands.completed {join next : Join β} {outcomes : List Bool} (hstage : task.stage = .started)
    (hfailed : task.failed = false) (hnext : Progress request task.posted next)
    (hjoin : join = if someFailed outcomes then failTask else next) :
    Stands request { task with join := join, failed := task.failed || someFailed outcomes } := by
  subst hjoin
  cases hsome : someFailed outcomes with
  | true => exact .running hstage (.inl ⟨rfl, rfl⟩) fun _ => rfl
  | false =>
    rw [hfailed]
    exact .running hstage hnext nofun

/-- A task that waits for something is running, and a failure is followed by the patch that fails it. -/
theorem Stands.waiting {join : Join β} (h : Stands request task) (hjoin : task.join = join) (hsome : join ≠ .nothing) :
    task.stage = .started ∧ Progress request task.posted join ∧ (join ≠ failTask → task.failed = false) := by
  subst hjoin
  cases h with
  | running hstage hprogress hfailed =>
    exact ⟨hstage, hprogress, fun hne => Bool.eq_false_iff.2 fun htrue => hne (hfailed htrue)⟩
  | failed _ hjoin | finished _ hjoin _ _ _ | stopped _ hjoin _ => exact absurd hjoin hsome

theorem linksAt_zero :
    (request.sourceServers.servers.filterMap fun server => server.firstPage.map fun page => (server.address, page)) =
    request.sourceServers.linksAt 0 := by
  refine filterMap_congr fun server _ => ?_
  rw [Server.firstPage]
  split
  · rfl
  · rfl

theorem timeAt_zero : timeAt request 0 = request.queryDocumentsChangedSinceEpoc := by
  rw [timeAt, read_zero]
  rfl

/-- **A step keeps the invariant**, if the reads of next pages succeed. -/
theorem Inv.step (htime : 0 ≤ request.queryDocumentsChangedSinceEpoc) {task : Task β} (h : Inv request task)
    {event : Event} (hread : PagesRead task event) : Inv request (task.step request event) := by
  cases event with
  | deliver =>
    simp only [Task.step]
    split
    · rename_i stage last hjoin
      obtain ⟨hstage, hprogress, hfailed⟩ := h.stands.waiting hjoin (by simp)
      rw [Task.handlePatch, hstage]
      rcases hprogress with ⟨rfl, rfl⟩ | ⟨rfl, hposted, rfl⟩
      · rw [if_pos ⟨rfl, .inr rfl⟩]
        exact ⟨h.body, .failed rfl rfl⟩
      · split
        · exact ⟨h.body, .finished rfl rfl (hfailed (by simp [failTask])) hposted rfl⟩
        · exact ⟨h.body, .stopped rfl rfl (hfailed (by simp [failTask]))⟩
    · exact h
  | completed outcomes =>
    simp only [PagesRead] at hread
    simp only [Task.step]
    cases hjoin : task.join with
    | nothing | patch stage last => exact h
    | queries =>
      obtain ⟨hstage, hprogress, hfailed⟩ := h.stands.waiting hjoin (by simp)
      dsimp only
      split
      · refine ⟨h.body, Stands.completed hstage (hfailed (by simp [failTask])) ?_
          (by rw [Request.documentsRetrieved, any_failures])⟩
        rw [linksAt_zero, ← timeAt_zero]
        refine progress_continue ?_
        rw [Fits, show task.posted = [] from hprogress, read_zero]
        exact List.Perm.nil
      · exact h
    | pages links last =>
      obtain ⟨hstage, ⟨r, rfl, hfits, rfl⟩, hfailed⟩ := h.stands.waiting hjoin (by simp)
      rw [hjoin] at hread
      dsimp only
      split
      · rename_i hlength
        have hok := hread hlength
        refine ⟨h.body, Stands.completed hstage (hfailed (by simp [failTask])) (progress_store htime hfits) ?_⟩
        rw [hok, Request.nextPageRetrieved, not_any_failures_isEmpty, mapM_zip_ok _ hlength hok, request.mapM_readPage]
      · exact h
    | deletes selected links last =>
      obtain ⟨hstage, ⟨r, rfl, rfl, hfits, rfl⟩, hfailed⟩ := h.stands.waiting hjoin (by simp)
      simp only [Request.documentsDeleted]
      split
      · exact ⟨by rw [append_nil]; exact h.body, .running hstage (.inl ⟨rfl, rfl⟩) fun _ => rfl⟩
      · rename_i posts hposts
        obtain ⟨hdocuments, hbodies⟩ := mapM_buildPostOperation hposts
        refine ⟨?_, .running hstage ⟨r + 1, rfl, ?_, rfl⟩ fun htrue => ?_⟩
        · intro post hpost
          rcases mem_append.1 hpost with hold | hnew
          · exact h.body post hold
          · exact hbodies post hnew
        · rw [Fits, map_append, hdocuments]
          exact (hfits.append_right _).trans (read_succ _ _ _)
        · exact absurd ((hfailed (by simp [failTask])).symm.trans htrue) Bool.false_ne_true
    | posts count links last =>
      obtain ⟨hstage, ⟨r, rfl, hfits, rfl⟩, hfailed⟩ := h.stands.waiting hjoin (by simp)
      dsimp only
      split
      · exact ⟨h.body, Stands.completed hstage (hfailed (by simp [failTask])) (progress_continue hfits)
          (by rw [documentsPosted, any_failures])⟩
      · exact h

theorem Inv.faithful (h : Inv request task) : Faithful request task := by
  obtain ⟨hbody, hstands⟩ := h
  constructor
  · intro hfinished
    cases hstands with
    | running hstage _ _ | failed hstage _ | stopped hstage _ _ => rw [hstage] at hfinished; cases hfinished
    | finished _ _ _ hposted hlast =>
      refine ⟨fun link => ?_, hbody, hlast, fun hfresh => ?_⟩
      · have hfilter := hposted.filter fun document => document.documentSelfLink = link
        rw [Cluster.filter_ownerVersions] at hfilter
        cases hversion : request.sourceServers.ownerVersion link with
        | none =>
          rw [hversion] at hfilter
          exact hfilter.eq_nil
        | some version =>
          rw [hversion] at hfilter
          exact perm_singleton.1 hfilter
      · rw [Cluster.latest_replicas _ hfresh]
        exact hlast
  · intro hfailed
    cases hstands with
    | running hstage _ hjoin =>
      refine .inr ?_
      simp only [Task.step, hjoin hfailed, failTask, Task.handlePatch, hstage]
      rw [if_pos ⟨rfl, .inr trivial⟩]
    | failed hstage _ => exact .inl hstage
    | stopped _ _ hnot | finished _ _ hnot _ _ => rw [hnot] at hfailed; cases hfailed

theorem Inv.pagesRead (h : Inv request task) {event : Event} (hnext : Faithful request (task.step request event)) :
    PagesRead task event := by
  cases event with
  | deliver => trivial
  | completed outcomes =>
    rw [PagesRead]
    split
    · rename_i links last hjoin
      intro hlength
      cases hsome : someFailed outcomes with
      | false => rfl
      | true =>
        exfalso
        have hstep : task.step request (.completed outcomes) = { task with join := .nothing, failed := true } := by
          simp only [Task.step, hjoin, if_pos hlength, Request.nextPageRetrieved, not_any_failures_isEmpty,
            mapM_zip_failed _ hlength hsome, hsome, Bool.or_true, Bool.false_eq_true, if_false]
        rw [hstep] at hnext
        have hne : task.stage ≠ .failed := by
          rw [(h.stands.waiting hjoin (by simp)).1]
          decide
        rcases hnext.failed rfl with hfailed | hfailed
        · exact hne hfailed
        · exact hne hfailed
    · trivial

end

/-- **A copy of documents is complete, or fails, exactly if the reads of next pages succeed.** -/
theorem copyState_faithful_iff (request : Request β) (htime : 0 ≤ request.queryDocumentsChangedSinceEpoc)
    (last : Option Int) (events : List Event) :
    Always (Task.step request) (Faithful request) (.start request last) events ↔
      Meets (Task.step request) PagesRead (.start request last) events :=
  Runs.always_iff_meets_of_inv (fun _ _ h hread => h.step htime hread) (fun _ h => h.faithful) (fun _ _ h hnext =>
    h.pagesRead hnext) (inv_start request last)

def twoServers : Request String where
  sourceServers := {
    servers := [
      ⟨("10.0.0.1", 19000), "node-1", [[⟨"/hosts/a", some "node-1", 7, "a2"⟩, ⟨"/hosts/b", some "node-2", 4, "b1"⟩]]⟩,
      ⟨("10.0.0.2", 19000), "node-2", [[⟨"/hosts/b", some "node-2", 5, "b2"⟩], [⟨"/hosts/a", some "node-1", 6, "a1"⟩]]⟩]
    ownerOf := fun link => if link = "/hosts/a" then "node-1" else "node-2"
    addresses_nodup := by decide
    hostIds_nodup := by decide
    links_nodup := by decide
    owner_eq := by decide
    owner_mem := by decide }
  sourceFactoryLink := "/hosts/"
  queryDocumentsChangedSinceEpoc := 3
  performHostTransformation := false
  transform := some

/-- The queries, a round of both servers with its deletes and posts, and a round of the second server, which selects
nothing. -/
def allRead : List Event :=
  [.completed [true, true], .completed [true, true], .completed [false, false], .completed [true, true],
    .completed [true], .deliver]

theorem copyState_faithful_twoServers :
    (run (Task.step twoServers) (.start twoServers none) allRead).stage = .finished ∧
    (run (Task.step twoServers) (.start twoServers none) allRead).posted.map (fun post => post.body.content) =
      ["a2", "b2"] ∧
    Always (Task.step twoServers) (Faithful twoServers) (.start twoServers none) allRead := by
  refine ⟨by decide, by decide, (copyState_faithful_iff twoServers (by decide) none allRead).2 ?_⟩
  exact ⟨trivial, fun _ => rfl, trivial, trivial, fun _ => rfl, trivial, trivial⟩

def emptyPage : Request String where
  sourceServers := {
    servers := [⟨("10.0.0.1", 19000), "node-1", [[]]⟩]
    ownerOf := fun _ => "node-1"
    addresses_nodup := by decide
    hostIds_nodup := by decide
    links_nodup := by decide
    owner_eq := by decide
    owner_mem := by decide }
  sourceFactoryLink := "/hosts/"
  queryDocumentsChangedSinceEpoc := -1
  performHostTransformation := false
  transform := some

/-- The read of a next page fails: the task is `STARTED`, and nothing that happens changes that.  A page on which
nothing is selected raises a time before the epoch to it. -/
theorem copyState_stopped :
    (run (Task.step twoServers) (.start twoServers none) [.completed [true, true],
    .completed [false, true]]).failed = true ∧
    (∀ events, (run (Task.step twoServers) (.start twoServers none)
      (.completed [true, true] :: .completed [false, true] :: events)).stage = .started) ∧
    ¬ Faithful twoServers (run (Task.step twoServers) (.start twoServers none) [.completed [true, true],
      .completed [false, true]]) ∧
    (run (Task.step emptyPage) (.start emptyPage none) [.completed [true], .completed [true],
      .deliver]).lastDocumentUpdateTimeEpoc =
      some 0 ∧
    ¬ Faithful emptyPage (run (Task.step emptyPage) (.start emptyPage none) [.completed [true], .completed [true],
      .deliver]) := by
  have hsame : ∀ (task : Task String) (event : Event), task.join = .nothing → task.step twoServers event = task := by
    intro task event hjoin
    cases event <;> simp only [Task.step, hjoin]
  refine ⟨by decide, fun events => ?_, fun h => ?_, by decide, fun h => ?_⟩
  · rw [Runs.run_cons, Runs.run_cons]
    induction events with
    | nil => rfl
    | cons event events ih =>
      rw [Runs.run_cons, hsame _ event rfl]
      exact ih
  · rcases h.failed (by decide) with hfailed | hfailed
    · revert hfailed
      decide
    · revert hfailed
      decide
  · have htime := (h.finished (by decide)).time
    revert htime
    decide

end Photon.Deployer.CopyState
