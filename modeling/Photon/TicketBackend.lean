import Photon.TicketService
/-!
# TicketBackend — a tenant's ticket and the project tickets made from it

`ResourceTicketDcpBackend` subdivides the ticket of a tenant: it creates a ticket for a project and charges the limits
of that ticket to the tenant's one, by two calls to the store.  When the project is deleted (`ProjectDcpBackend.delete`)
the limits are returned, the tombstone and the document of the project follow, and the ticket is deleted last.  Between
any two store calls other calls to the backend may make theirs.  Amounts and percentages, `double` in the source, are
rationals.

The model is one tenant's ticket with all that is made from it.  A call to the backend that is in progress is the store
call it makes next (`Call`); an event starts a call or lets one make its store call, which the store serves or which
fails. The quota state of a project's ticket and the costs charged directly are kept for the proofs only.
-/
namespace Photon.ApiFrontend

open Keyed (LinkedMap)
open CloudStore (QuotaLineItem Items ResourceTicket QuotaErrorResponse Charge amountOf NonNeg)

/-! ## Store calls -/

/-- How a store call fails without effect: with a `XenonRuntimeException` whose cause is no `BadRequestException`, or
with anything else that is thrown. -/
inductive Failure where
  | xenon | other
  deriving DecidableEq

inductive Answer where
  | served
  | failed (failure : Failure)
  deriving DecidableEq

inductive BackendError where
  | resourceTicketNotFound
  | quota (response : QuotaErrorResponse)
  | failed

/-- `QuotaCost`, and the map of its items: the last item of a key counts. -/
def quotaCost (limits : List QuotaLineItem) : Items := LinkedMap.empty.putAll (limits.map (fun qli => (qli.key, qli)))

def newTicket (parentId : Option String) (limits : List QuotaLineItem) : ResourceTicket where
  parentId := parentId
  limitMap := quotaCost limits
  usageMap := limits.foldl (fun usageMap qli =>
    if (usageMap.get qli.key).isSome then usageMap else usageMap.put qli.key ⟨qli.key, 0, qli.unit⟩) .empty

/-- The limits of the entity a ticket is converted to (`convertToResourceTicketEntity`). -/
def entityLimits (ticket : ResourceTicket) : Items := quotaCost ticket.limitMap.values

/-- `consumeQuota` on a ticket.  A `XenonRuntimeException` that is not due to a bad request is caught and dropped. -/
def consumeQuota (ticket : Option ResourceTicket) (cost : Items) :
    Answer → Option ResourceTicket × Except BackendError Unit
  | .served =>
    match ticket with
    | none => (none, .error .resourceTicketNotFound)
    | some ticket =>
      match ticket.consumeQuota cost with
      | (ticket, none) => (some ticket, .ok ())
      | (ticket, some response) => (some ticket, .error (.quota response))
  | .failed .xenon => (ticket, .ok ())
  | .failed .other => (ticket, .error .failed)

def Accepts (ticket : Option ResourceTicket) (cost : Items) (answer : Answer) : Prop :=
  answer = .served ∧ ∃ t, ticket = some t ∧ (t.consumeQuota cost).2 = none

def returnQuota (ticket : Option ResourceTicket) (cost : Items) :
    Answer → Option ResourceTicket × Except BackendError Unit
  | .served =>
    match ticket with
    | none => (none, .error .resourceTicketNotFound)
    | some ticket =>
      match ticket.returnUsage cost with
      | some ticket => (some ticket, .ok ())
      | none => (some ticket, .error .failed)
  | .failed _ => (ticket, .error .failed)

def rejectsPercent (percentOfLimit : ℚ) : Bool := decide (percentOfLimit < 1) && decide (percentOfLimit > 100)

def shareOf (ticket : ResourceTicket) (percentOfLimit : ℚ) : List QuotaLineItem :=
  (entityLimits ticket).entries.map (fun e => ⟨e.1, e.2.value * (percentOfLimit / 100), e.2.unit⟩)

def isBlank : Option String → Bool
  | none => true
  | some s => s.toList.all Char.isWhitespace

def maySubdivide (ticket : ResourceTicket) (limits : List QuotaLineItem) : Bool :=
  isBlank ticket.parentId && (entityLimits ticket).keys.all (fun key => decide (key ∈ limits.map (fun qli => qli.key)))

/-! ## The system -/

/-- Whether the limits of a project's ticket are charged to the tenant's. -/
inductive QuotaState where
  | pending | charged | returned
  deriving DecidableEq

structure Project where
  ticket : ResourceTicket
  quota : QuotaState

/-- What the deletion of a project does once the quota of its ticket is returned: it creates the tombstone, deletes the
document of the project, reads the ticket and deletes it. -/
inductive Discard where
  | tombstone | document | find | delete
  deriving DecidableEq

inductive Call where
  /-- `subdivide(id, percentOfLimit)`, about to read the ticket. -/
  | subdividePercent (percentOfLimit : ℚ)
  /-- `subdivide(id, limits)`, about to read the ticket. -/
  | subdivide (limits : List QuotaLineItem)
  | post (limits : List QuotaLineItem)
  | charge (limits : List QuotaLineItem) (project : Nat)
  /-- The `delete` with which `subdivide` compensates, about to read the ticket or to delete it. -/
  | compensate (project : Nat) (found : Bool)
  | deleteProject (project : Nat)
  /-- `returnQuota(childTicket)`, in the deletion of the project or by itself. -/
  | returnProject (project : Nat) (cost : Items) (deletes : Bool)
  | discard (project : Nat) (next : Discard)
  | delete (project : Nat) (found : Bool)
  | consume (charge : Charge)
  | giveBack (charge : Charge)
  | deleteTenant (found : Bool)

inductive Request where
  | subdividePercent (percentOfLimit : ℚ)
  | deleteProject (project : Nat)
  | returnProject (project : Nat)
  | delete (project : Nat)
  | consume (charge : Charge)
  | giveBack (charge : Charge)
  | deleteTenant

inductive Event where
  | start (id : Nat) (request : Request)
  | advance (id : Nat) (answer : Answer)

structure Tenancy where
  tenantId : String
  tenant : Option ResourceTicket
  projects : LinkedMap Nat Project
  nextId : Nat
  calls : LinkedMap Nat Call
  accepted : List Charge
  returned : List Charge

/-- `ResourceTicketCreateSpec`: no limit is negative. -/
structure TicketSpec where
  limits : List QuotaLineItem
  nonneg : ∀ qli ∈ limits, 0 ≤ qli.value

namespace Tenancy

def create (tenantId : String) (spec : TicketSpec) : Tenancy where
  tenantId := tenantId
  tenant := some (newTicket none spec.limits)
  projects := .empty
  nextId := 0
  calls := .empty
  accepted := []
  returned := []

variable (s : Tenancy)

def goOn (id : Nat) (call : Call) : Tenancy := { s with calls := s.calls.put id call }

def finish (id : Nat) : Tenancy := { s with calls := s.calls.remove id }

def setQuota (project : Nat) (quota : QuotaState) : Tenancy :=
  match s.projects.get project with
  | none => s
  | some p => { s with projects := s.projects.put project { p with quota := quota } }

def removeProject (project : Nat) : Tenancy := { s with projects := s.projects.remove project }

/-- The entity that `returnQuota(childTicket)` is called with has been read before. -/
def start (id : Nat) : Request → Tenancy
  | .subdividePercent percentOfLimit => s.goOn id (.subdividePercent percentOfLimit)
  | .deleteProject project => s.goOn id (.deleteProject project)
  | .returnProject project =>
    match s.projects.get project with
    | none => s
    | some p => s.goOn id (.returnProject project (quotaCost (entityLimits p.ticket).values) false)
  | .delete project => s.goOn id (.delete project false)
  | .consume charge => s.goOn id (.consume charge)
  | .giveBack charge => s.goOn id (.giveBack charge)
  | .deleteTenant => s.goOn id (.deleteTenant false)

def performCharge (id : Nat) (limits : List QuotaLineItem) (project : Nat) (answer : Answer) : Tenancy :=
  match consumeQuota s.tenant (quotaCost limits) answer with
  | (tenant, .ok ()) =>
    let charged := match answer with
      | .served => s.setQuota project .charged
      | .failed _ => s
    { charged with tenant := tenant }.finish id
  | (tenant, .error _) => { s with tenant := tenant }.goOn id (.compensate project false)

def performConsume (id : Nat) (charge : Charge) (answer : Answer) : Tenancy :=
  match consumeQuota s.tenant charge.cost answer with
  | (tenant, .ok ()) =>
    let accepted := match answer with
      | .served => charge :: s.accepted
      | .failed _ => s.accepted
    { s with tenant := tenant, accepted := accepted }.finish id
  | (tenant, .error _) => { s with tenant := tenant }.finish id

/-- The next store call of a call.  Where it throws, or the store call was its last, the call is over. -/
def perform (id : Nat) : Call → Answer → Tenancy
  | .subdividePercent percentOfLimit, .served =>
    match s.tenant with
    | none => s.finish id
    | some ticket =>
      if rejectsPercent percentOfLimit then s.finish id else s.goOn id (.subdivide (shareOf ticket percentOfLimit))
  | .subdivide limits, .served =>
    match s.tenant with
    | none => s.finish id
    | some ticket => if maySubdivide ticket limits then s.goOn id (.post limits) else s.finish id
  | .post limits, .served =>
    { s with
      projects := s.projects.put s.nextId ⟨newTicket (some s.tenantId) limits, .pending⟩
      nextId := s.nextId + 1 }.goOn id (.charge limits s.nextId)
  | .charge limits project, answer => s.performCharge id limits project answer
  | .compensate project false, .served =>
    match s.projects.get project with
    | none => s.finish id
    | some _ => s.goOn id (.compensate project true)
  | .compensate project true, .served => (s.removeProject project).finish id
  | .deleteProject project, .served =>
    match s.projects.get project with
    | none => s.finish id
    | some p => s.goOn id (.returnProject project (quotaCost (entityLimits p.ticket).values) true)
  | .returnProject project cost deletes, answer =>
    match returnQuota s.tenant cost answer with
    | (tenant, .ok ()) =>
      let returned := { s.setQuota project .returned with tenant := tenant }
      if deletes then returned.goOn id (.discard project .tombstone) else returned.finish id
    | (tenant, .error _) => { s with tenant := tenant }.finish id
  | .discard project .tombstone, .served => s.goOn id (.discard project .document)
  | .discard project .document, .served => s.goOn id (.discard project .find)
  | .discard project .find, .served =>
    match s.projects.get project with
    | none => s.finish id
    | some _ => s.goOn id (.discard project .delete)
  | .discard project .delete, .served => (s.removeProject project).finish id
  | .delete project false, .served =>
    match s.projects.get project with
    | none => s.finish id
    | some _ => s.goOn id (.delete project true)
  | .delete project true, .served => (s.removeProject project).finish id
  | .consume charge, answer => s.performConsume id charge answer
  | .giveBack charge, answer =>
    match returnQuota s.tenant charge.cost answer with
    | (tenant, .ok ()) => { s with tenant := tenant, returned := charge :: s.returned }.finish id
    | (tenant, .error _) => { s with tenant := tenant }.finish id
  | .deleteTenant false, .served =>
    match s.tenant with
    | none => s.finish id
    | some _ => s.goOn id (.deleteTenant true)
  | .deleteTenant true, .served => { s with tenant := none }.finish id
  | _, .failed _ => s.finish id

/-- An id names one call at a time. -/
def step : Event → Tenancy
  | .start id request => if (s.calls.get id).isSome then s else s.start id request
  | .advance id answer =>
    match s.calls.get id with
    | none => s
    | some call => s.perform id call answer

end Tenancy
end Photon.ApiFrontend
