import Mathlib.Logic.Function.Basic
import Photon.Programs
/-!
# SecurityGroups — security groups that are handed down

The security groups of the deployment are inherited by its tenants, and all groups of a tenant by its projects.  A step
of the task that updates the deployment writes the groups of every tenant, further steps those of the projects.  Tenants
and projects are listed in pages; a page has its documents as they are in the store when it is read.
-/
namespace Photon.ApiFrontend.SecurityGroups

open Programs (Prog seq skip raise update forEach)

structure SecurityGroup where
  name : String
  inherited : Bool
  deriving DecidableEq

structure Deployment where
  oauthSecurityGroups : Option (List String)
  deriving DecidableEq

structure Tenant where
  securityGroups : Option (List SecurityGroup)
  deriving DecidableEq

structure Project where
  tenantId : String
  securityGroups : Option (List SecurityGroup)
  deriving DecidableEq

/-- The documents that the steps of a task write, and the names in the warnings of the steps. -/
structure Task where
  tenants : String → Option Tenant
  projects : String → Option Project
  warnings : List (List String)

inductive Failure where
  | illegalArgument
  | nullPointer
  | pageExpired (pageLink : String)
  | tenantNotFound (id : String)
  | projectNotFound (id : String)
  deriving DecidableEq

/-! ## The merge -/

def mergeSelf (parents : List String) (merged : List SecurityGroup × List String) (g : SecurityGroup) :
    List SecurityGroup × List String :=
  if g.name ∈ parents then (merged.1, merged.2 ++ [g.name]) else (merged.1 ++ [g], merged.2)

def merge (existing : List SecurityGroup) (parents : List String) : List SecurityGroup × List String :=
  (existing.filter fun g => !g.inherited).foldl (mergeSelf parents) (parents.map fun g => ⟨g, true⟩, [])

def mergeParentSecurityGroups (existing : Option (List SecurityGroup)) (parents : Option (List String)) :
    Except Failure (List SecurityGroup × List String) :=
  match existing, parents with
  | some existing, some parents => .ok (merge existing parents)
  | _, _ => .error .nullPointer

/-! ## Pages -/

/-- A listing as it is delivered.  The link of a `page` leads to no page any more; that of a `linked` page leads to the
next. -/
inductive Listing where
  | page (items : List String) (nextPageLink : Option String)
  | linked (items : List String) (nextPageLink : String) (next : Listing)
  deriving DecidableEq

def Listing.ids : Listing → List String
  | .page items _ => items
  | .linked items _ next => items ++ next.ids

def Listing.links : Listing → List String
  | .page _ _ => []
  | .linked _ nextPageLink next => nextPageLink :: next.links

def Listing.lastLink : Listing → Option String
  | .page _ nextPageLink => nextPageLink
  | .linked _ _ next => next.lastLink

/-! ## The documents -/

def setSecurityGroups (id : String) (securityGroups : List SecurityGroup) : Prog Task Failure := fun s =>
  match s.tenants id with
  | none => raise (.tenantNotFound id) s
  | some _ => update (fun s => { s with tenants := Function.update s.tenants id (some ⟨some securityGroups⟩) }) s

def replaceSecurityGroups (id : String) (securityGroups : List SecurityGroup) : Prog Task Failure := fun s =>
  match s.projects id with
  | none => raise (.projectNotFound id) s
  | some project =>
    update (fun s => { s with
      projects := Function.update s.projects id (some { project with securityGroups := some securityGroups }) }) s

def Task.listTenants (s : Task) (items : List String) : List (String × Option (List SecurityGroup)) :=
  items.filterMap fun id => (s.tenants id).map fun tenant => (id, tenant.securityGroups)

/-- The projects of a page; the entity of a project has an empty list where the document has none. -/
def Task.listProjects (s : Task) (items : List String) : List (String × Option (List SecurityGroup)) :=
  items.filterMap fun id => (s.projects id).map fun project => (id, some (project.securityGroups.getD []))

def addWarning (names : List String) (s : Task) : Task := { s with warnings := s.warnings ++ [names] }

def push (write : String → List SecurityGroup → Prog Task Failure) (parents : Option (List String))
    (doc : String × Option (List SecurityGroup)) : Prog Task Failure :=
  match mergeParentSecurityGroups doc.2 parents with
  | .error e => raise e
  | .ok result => seq (write doc.1 result.1) (if result.2.isEmpty then skip else update (addWarning result.2))

/-! ## The steps -/

namespace DeploymentPush

def pushTenants (parents : Option (List String)) (items : List String) : Prog Task Failure := fun s =>
  forEach (push setSecurityGroups parents) (s.listTenants items) s

/-- The loop over the pages: it ends with a page whose link is missing or empty. -/
def pushPages (parents : Option (List String)) : Listing → Prog Task Failure
  | .page items nextPageLink =>
    seq (pushTenants parents items)
      (match nextPageLink with
        | none => skip
        | some pageLink => if pageLink.isEmpty then skip else raise (.pageExpired pageLink))
  | .linked items nextPageLink next =>
    seq (pushTenants parents items) (if nextPageLink.isEmpty then skip else pushPages parents next)

def execute (tenants : Listing) (deploymentEntities : List Deployment) : Prog Task Failure :=
  match deploymentEntities with
  | [deploymentEntity] => pushPages deploymentEntity.oauthSecurityGroups tenants
  | _ => raise .illegalArgument

end DeploymentPush

section

variable (isWhitespace : Char → Bool)

def isNotBlank (s : String) : Bool := !s.toList.all isWhitespace

namespace TenantPush

def collect : Listing → Except Failure (List String)
  | .page items nextPageLink =>
    match nextPageLink with
    | none => .ok items
    | some pageLink => if isNotBlank isWhitespace pageLink then .error (.pageExpired pageLink) else .ok items
  | .linked items nextPageLink next =>
    if isNotBlank isWhitespace nextPageLink then (collect next).map (items ++ ·) else .ok items

def pushTenant (projects : String → Listing) (id : String) : Prog Task Failure := fun s =>
  match s.tenants id with
  | none => raise (.tenantNotFound id) s
  | some tenant =>
    match collect isWhitespace (projects id) with
    | .error e => raise e s
    | .ok items =>
      forEach (push replaceSecurityGroups (some ((tenant.securityGroups.getD []).map (·.name))))
        (s.listProjects items) s

def execute (projects : String → Listing) (tenantList : List String) : Prog Task Failure :=
  if tenantList.isEmpty then raise .illegalArgument else forEach (pushTenant isWhitespace projects) tenantList

end TenantPush

/-- What the steps are given: the tenants and projects of the store in pages, and the tenants of every step that follows
the first. -/
structure Delivery (s : Task) where
  tenants : Listing
  projects : String → Listing
  pushes : List (List String)
  linked_tenants : ∀ pageLink ∈ tenants.links, isNotBlank isWhitespace pageLink = true
  nodup_tenants : tenants.ids.Nodup
  mem_tenants : ∀ id, id ∈ tenants.ids ↔ (s.tenants id).isSome
  linked_projects : ∀ tenantId, ∀ pageLink ∈ (projects tenantId).links, isNotBlank isWhitespace pageLink = true
  nodup_projects : ∀ tenantId, (projects tenantId).ids.Nodup
  mem_projects : ∀ tenantId id, id ∈ (projects tenantId).ids ↔ ∃ project, s.projects id = some project ∧
    project.tenantId = tenantId
  nodup_pushes : pushes.flatten.Nodup
  mem_pushes : ∀ id, id ∈ pushes.flatten ↔ (s.tenants id).isSome

variable {isWhitespace} {s : Task}

def propagate (deployment : Deployment) (delivery : Delivery isWhitespace s) : Prog Task Failure :=
  seq (DeploymentPush.execute delivery.tenants [deployment])
    (forEach (TenantPush.execute isWhitespace delivery.projects) delivery.pushes)

end
end Photon.ApiFrontend.SecurityGroups
