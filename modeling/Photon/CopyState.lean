import Photon.XenonTask
/-!
# CopyState — the copy of documents from one cluster to another

`CopyStateTaskService` queries every source server for the documents of a factory, reads the pages of the results, a
page of every server at a time, and posts to the destination the documents that the server they were read from owns.
Every round is a chain of joined requests: the reads, the deletes, the posts.  A joined request completes with the
failures of its requests, or with none.
-/
namespace Photon.Deployer.CopyState

open Xenon (TaskStage)

variable {β : Type}

structure Document (β : Type) where
  documentSelfLink : String
  documentOwner : Option String
  documentUpdateTimeMicros : Int
  content : β
  deriving DecidableEq

structure Server (β : Type) where
  address : String × Nat
  hostId : String
  pages : List (List (Document β))

def Server.documents (server : Server β) : List (Document β) := server.pages.flatten

/-- The source servers.  A document is on any of them, in any version, and has one owner. -/
structure Cluster (β : Type) where
  servers : List (Server β)
  ownerOf : String → String
  addresses_nodup : (servers.map Server.address).Nodup
  hostIds_nodup : (servers.map Server.hostId).Nodup
  links_nodup : ∀ server ∈ servers, (server.documents.map Document.documentSelfLink).Nodup
  owner_eq : ∀ server ∈ servers, ∀ document ∈ server.documents,
    document.documentOwner = some (ownerOf document.documentSelfLink)
  owner_mem : ∀ server ∈ servers, ∀ document ∈ server.documents,
    ownerOf document.documentSelfLink ∈ servers.map Server.hostId

structure Request (β : Type) where
  sourceServers : Cluster β
  sourceFactoryLink : String
  queryDocumentsChangedSinceEpoc : Int
  performHostTransformation : Bool
  transform : Document β → Option (Document β)

structure ServiceDocumentQueryResult (β : Type) where
  documents : List (Document β)
  nextPageLink : Option Nat
  documentOwner : String

/-- The links to next pages, each with the server it is for. -/
abbrev PageLinks := List ((String × Nat) × Nat)

structure Post (β : Type) where
  document : Document β
  body : Document β
  deriving DecidableEq

inductive Join (β : Type) where
  | queries
  | pages (nextPageLinks : PageLinks) (lastUpdateQueryTime : Int)
  | deletes (ownerSelectedResults : List (Document β)) (pageLinks : PageLinks) (newLastUpdateTime : Int)
  | posts (count : Nat) (pageLinks : PageLinks) (newLastUpdateTime : Int)
  | patch (stage : TaskStage) (lastDocumentUpdateTimeEpoc : Option Int)
  | nothing

/-- The task, with what it has posted and whether a query, a read of a page or a post has failed. -/
structure Task (β : Type) where
  stage : TaskStage
  lastDocumentUpdateTimeEpoc : Option Int
  join : Join β
  posted : List (Post β)
  failed : Bool

/-- The failures with which a joined request completes; `none` if there are none. -/
def failures (outcomes : List Bool) : Option (List Bool) :=
  if outcomes.all id then none else some (outcomes.filter fun ok => !ok)

def failTask : Join β := .patch .failed none

/-! ## The source servers -/

def Server.firstPage (server : Server β) : Option Nat := if 0 < server.pages.length then some 0 else none

def Server.page (server : Server β) (k : Nat) : Option (ServiceDocumentQueryResult β) :=
  server.pages[k]?.map fun documents =>
    ⟨documents, if k + 1 < server.pages.length then some (k + 1) else none, server.hostId⟩

def Request.readPage (request : Request β) (link : (String × Nat) × Nat) :
    Option ((String × Nat) × ServiceDocumentQueryResult β) :=
  ((request.sourceServers.servers.find? fun server => server.address = link.1).bind
    fun server => server.page link.2).map fun result => (link.1, result)

/-! ## The task -/

def extractId (documentSelfLink factoryPath : String) : String :=
  if factoryPath.toList.isPrefixOf documentSelfLink.toList then
    String.ofList (documentSelfLink.toList.drop factoryPath.toList.length)
  else documentSelfLink

def removeFactoryPathFromSelfLink (document : Document β) (factoryPath : String) : Document β :=
  { document with documentSelfLink := extractId document.documentSelfLink factoryPath }

def Request.handleRenamedFields (request : Request β) (document : Document β) : Option (Document β) :=
  if request.performHostTransformation then request.transform document else some document

def Request.buildPostOperation (request : Request β) (document : Document β) : Option (Post β) :=
  (request.handleRenamedFields (removeFactoryPathFromSelfLink document request.sourceFactoryLink)).map fun body =>
    ⟨document, body⟩

def continueWithNextPage (nextPageLinks : PageLinks) (lastUpdateQueryTime : Int) : Join β :=
  if nextPageLinks.isEmpty then .patch .finished (some lastUpdateQueryTime)
  else .pages nextPageLinks lastUpdateQueryTime

/-- The completion of `retrieveDocuments`. -/
def Request.documentsRetrieved (request : Request β) (outcomes : List Bool) : Join β :=
  if (failures outcomes).any fun ts => !ts.isEmpty then failTask
  else continueWithNextPage
    (request.sourceServers.servers.filterMap fun server => server.firstPage.map fun page => (server.address, page))
    request.queryDocumentsChangedSinceEpoc

def selectOwned (result : ServiceDocumentQueryResult β) : List (Document β) :=
  result.documents.filter fun document =>
    document.documentOwner = none ∨ document.documentOwner = some result.documentOwner

def pageLinks (results : List ((String × Nat) × ServiceDocumentQueryResult β)) : PageLinks :=
  results.filterMap fun entry => entry.2.nextPageLink.map fun page => (entry.1, page)

def lastUpdateTimeOnPage (documents : List (Document β)) : Int :=
  (documents.map Document.documentUpdateTimeMicros).max?.getD 0

def storeDocuments (results : List ((String × Nat) × ServiceDocumentQueryResult β))
    (lastUpdateQueryTime : Int) : Join β :=
  if results.isEmpty then continueWithNextPage [] lastUpdateQueryTime
  else
    let ownerSelectedResults := results.flatMap fun entry => selectOwned entry.2
    let newLastUpdateTime := max lastUpdateQueryTime (lastUpdateTimeOnPage ownerSelectedResults)
    if ownerSelectedResults.isEmpty then continueWithNextPage (pageLinks results) newLastUpdateTime
    else .deletes ownerSelectedResults (pageLinks results) newLastUpdateTime

/-- The completion of `retrieveNextPage`, which fails the task if there are failures and their map is empty.  The body
of a request that has failed has no results; that throws, and nothing follows. -/
def Request.nextPageRetrieved (request : Request β) (nextPageLinks : PageLinks) (outcomes : List Bool)
    (lastUpdateQueryTime : Int) : Join β :=
  if (failures outcomes).any fun ts => ts.isEmpty then failTask
  else
    match (nextPageLinks.zip outcomes).mapM fun entry => if entry.2 then request.readPage entry.1 else none with
    | none => .nothing
    | some results => storeDocuments results lastUpdateQueryTime

/-- The completion of the deletes, whose failures are ignored.  A document that cannot be converted fails the task. -/
def Request.documentsDeleted (request : Request β) (ownerSelectedResults : List (Document β)) (pageLinks : PageLinks)
    (newLastUpdateTime : Int) : Join β × List (Post β) :=
  match ownerSelectedResults.mapM request.buildPostOperation with
  | none => (failTask, [])
  | some posts => (.posts posts.length pageLinks newLastUpdateTime, posts)

def documentsPosted (outcomes : List Bool) (pageLinks : PageLinks) (newLastUpdateTime : Int) : Join β :=
  if (failures outcomes).any fun ts => !ts.isEmpty then failTask else continueWithNextPage pageLinks newLastUpdateTime

/-- A patch of the task to itself; `lastDocumentUpdateTimeEpoc` is written once. -/
def Task.handlePatch (task : Task β) (stage : TaskStage) (lastDocumentUpdateTimeEpoc : Option Int) : Task β :=
  if task.stage.mayMove stage ∧ (task.lastDocumentUpdateTimeEpoc = none ∨ lastDocumentUpdateTimeEpoc = none) then
    { task with
      stage := stage
      lastDocumentUpdateTimeEpoc := lastDocumentUpdateTimeEpoc.or task.lastDocumentUpdateTimeEpoc
      join := .nothing }
  else { task with join := .nothing }

inductive Event where
  /-- The joined request completes, with an outcome for each of its requests. -/
  | completed (outcomes : List Bool)
  | deliver

def someFailed (outcomes : List Bool) : Bool := outcomes.any fun ok => !ok

def Task.step (request : Request β) (task : Task β) : Event → Task β
  | .completed outcomes =>
    match task.join with
    | .queries =>
      if outcomes.length = request.sourceServers.servers.length then
        { task with join := request.documentsRetrieved outcomes, failed := task.failed || someFailed outcomes }
      else task
    | .pages nextPageLinks last =>
      if outcomes.length = nextPageLinks.length then
        { task with
          join := request.nextPageRetrieved nextPageLinks outcomes last
          failed := task.failed || someFailed outcomes }
      else task
    | .deletes selected links last =>
      let deleted := request.documentsDeleted selected links last
      { task with join := deleted.1, posted := task.posted ++ deleted.2 }
    | .posts count links last =>
      if outcomes.length = count then
        { task with join := documentsPosted outcomes links last, failed := task.failed || someFailed outcomes }
      else task
    | .patch _ _ | .nothing => task
  | .deliver =>
    match task.join with
    | .patch stage last => task.handlePatch stage last
    | _ => task

/-- The task has been started.  A joined request of nothing throws. -/
def Task.start (request : Request β) (lastDocumentUpdateTimeEpoc : Option Int) : Task β where
  stage := .started
  lastDocumentUpdateTimeEpoc := lastDocumentUpdateTimeEpoc
  join := if request.sourceServers.servers.isEmpty then .nothing else .queries
  posted := []
  failed := false

end Photon.Deployer.CopyState
