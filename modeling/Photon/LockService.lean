import Photon.Runs
/-!
# LockService — the lock of an entity

`EntityLockService` keeps one document for the lock of an entity: who owns it, and whether it is available.  The factory
is idempotent, so a POST creates the document where there is none and is a PUT where there is one.  A released lock is
kept, and the next owner takes it over.
-/
namespace Photon.CloudStore.EntityLock

open Runs (run)

/-- What the service asks of the platform's characters: how `equalsIgnoreCase` folds them, and which are blank. -/
structure Characters where
  fold : Char → Char
  isWhitespace : Char → Bool

structure State where
  entityId : String
  ownerId : String
  isAvailable : Bool
  deriving DecidableEq

structure Body where
  entityId : Option String
  ownerId : Option String
  isAvailable : Option Bool
  deriving DecidableEq

def State.toBody (state : State) : Body := ⟨some state.entityId, some state.ownerId, some state.isAvailable⟩

inductive LockError where
  | bodyRequired
  | cannotBeNull (field : String)
  | cannotBeBlank (field : String)
  | createAvailable
  | entityIdChanged
  | notOwner (currentOwnerId requestOwnerId entityId : String)
  | lockTaken (currentOwnerId requestOwnerId entityId : String)
  | notFound
  deriving DecidableEq

def lockTakenMessage : String := "Lock already taken"

def LockError.message : LockError → String
  | .bodyRequired => "body is required"
  | .cannotBeNull field => field ++ " cannot be null"
  | .cannotBeBlank field => field ++ " cannot be blank"
  | .createAvailable => "Creating a lock with isAvailable=true is not allowed"
  | .entityIdChanged => "entityId for a lock cannot be changed"
  | .notOwner current request entityId =>
    "Only the current owner can release a lock. Current ownerId: " ++ current ++ ", Request ownerId: " ++ request ++
      ", EntityId: " ++ entityId
  | .lockTaken current request entityId =>
    lockTakenMessage ++ ". Current ownerId: " ++ current ++ ", Request ownerId: " ++ request ++
      ", EntityId: " ++ entityId
  | .notFound => "Service not found"

inductive Response where
  | completed
  | notModified
  | rejected (error : LockError)
  deriving DecidableEq

def Response.accepted : Response → Bool
  | .rejected _ => false
  | _ => true

inductive Request where
  | post (body : Option Body)
  | put (body : Option Body)

def Request.body : Request → Option Body
  | .post body => body
  | .put body => body

section

variable (chars : Characters)

def equalsIgnoreCase (a b : String) : Bool := decide (a.toList.map chars.fold = b.toList.map chars.fold)

def validateNotBlank (field : String) : Option String → Except LockError String
  | none => .error (.cannotBeNull field)
  | some value => if value.toList.all chars.isWhitespace then .error (.cannotBeBlank field) else .ok value

def validateState (body : Body) : Except LockError State := do
  let entityId ← validateNotBlank chars "entityId" body.entityId
  let ownerId ← validateNotBlank chars "ownerId" body.ownerId
  match body.isAvailable with
  | none => .error (.cannotBeNull "isAvailable")
  | some isAvailable => .ok ⟨entityId, ownerId, isAvailable⟩

def handleStart : Option Body → Except LockError State
  | none => .error .bodyRequired
  | some body => do
    let startState ← validateState chars body
    if startState.isAvailable then .error .createAvailable else .ok startState

def handlePut (currentState : State) : Option Body → State × Response
  | none => (currentState, .rejected .bodyRequired)
  | some body =>
    if body = currentState.toBody then (currentState, .notModified)
    else
      match validateState chars body with
      | .error error => (currentState, .rejected error)
      | .ok newState =>
        let sameOwner := equalsIgnoreCase chars currentState.ownerId newState.ownerId
        if !equalsIgnoreCase chars currentState.entityId newState.entityId then
          (currentState, .rejected .entityIdChanged)
        else if !sameOwner && newState.isAvailable then
          (currentState, .rejected (.notOwner currentState.ownerId newState.ownerId currentState.entityId))
        else if !sameOwner && !newState.isAvailable && !currentState.isAvailable then
          (currentState, .rejected (.lockTaken currentState.ownerId newState.ownerId currentState.entityId))
        else (newState, .completed)

def handle : Option State → Request → Option State × Response
  | some currentState, request => ((handlePut chars currentState request.body).map some id)
  | none, .put _ => (none, .rejected .notFound)
  | none, .post body =>
    match handleStart chars body with
    | .error error => (none, .rejected error)
    | .ok startState => (some startState, .completed)

def serve (doc : Option State) (request : Request) : Option State := (handle chars doc request).1

end

/-! ## What a request does -/

variable {chars : Characters}

@[simp] theorem equalsIgnoreCase_iff (a b : String) :
    equalsIgnoreCase chars a b = true ↔ a.toList.map chars.fold = b.toList.map chars.fold := decide_eq_true_iff

variable {state : State}

theorem validateState_ok_iff {body : Body} : validateState chars body = .ok state ↔
    body = state.toBody ∧ state.entityId.toList.all chars.isWhitespace = false ∧
      state.ownerId.toList.all chars.isWhitespace = false := by
  constructor
  · obtain ⟨entityId, ownerId, isAvailable⟩ := body
    intro h
    cases entityId with
    | none => cases h
    | some entityId =>
      simp only [validateState, validateNotBlank] at h
      split at h
      · cases h
      · cases ownerId with
        | none => cases h
        | some ownerId =>
          dsimp only at h
          split at h
          · cases h
          · cases isAvailable with
            | none => cases h
            | some isAvailable =>
              rename_i he ho
              cases h
              exact ⟨rfl, Bool.eq_false_iff.2 he, Bool.eq_false_iff.2 ho⟩
  · rintro ⟨rfl, he, ho⟩
    simp only [validateState, validateNotBlank, State.toBody, he, ho]
    rfl

theorem validateState_ok {body : Body} (h : validateState chars body = .ok state) : body = state.toBody :=
  (validateState_ok_iff.1 h).1

theorem handleStart_ok {body : Option Body} (h : handleStart chars body = .ok state) :
    body = some state.toBody ∧ state.isAvailable = false := by
  cases body with
  | none => cases h
  | some body =>
    simp only [handleStart] at h
    cases hvalid : validateState chars body with
    | error error =>
      rw [hvalid] at h
      cases h
    | ok startState =>
      rw [hvalid] at h
      have hif : (if startState.isAvailable then .error LockError.createAvailable else .ok startState) =
        Except.ok state := h
      split at hif
      · cases hif
      · rename_i havailable
        cases hif
        exact ⟨by rw [validateState_ok hvalid], Bool.eq_false_iff.2 havailable⟩

/-- **What a PUT can do.**  Where it writes, the owner stays, or an available lock is taken. -/
theorem handlePut_cases (chars : Characters) (state : State) (body : Option Body) :
    (∃ error, handlePut chars state body = (state, .rejected error)) ∨
    (body = some state.toBody ∧ handlePut chars state body = (state, .notModified)) ∨
    ∃ newState : State, body = some newState.toBody ∧ handlePut chars state body = (newState, .completed) ∧
      (equalsIgnoreCase chars state.ownerId newState.ownerId = true ∨
        newState.isAvailable = false ∧ state.isAvailable = true) := by
  cases body with
  | none => exact .inl ⟨_, rfl⟩
  | some body =>
    simp only [handlePut]
    split
    · rename_i hsame
      exact .inr (.inl ⟨congrArg some hsame, rfl⟩)
    · cases hvalid : validateState chars body with
      | error error => exact .inl ⟨error, rfl⟩
      | ok newState =>
        dsimp only
        split
        · exact .inl ⟨_, rfl⟩
        · split
          · exact .inl ⟨_, rfl⟩
          · split
            · exact .inl ⟨_, rfl⟩
            · rename_i hrelease htaken
              refine .inr (.inr ⟨newState, congrArg some (validateState_ok hvalid), rfl, ?_⟩)
              cases hown : equalsIgnoreCase chars state.ownerId newState.ownerId with
              | true => exact .inl rfl
              | false =>
                rw [hown] at hrelease htaken
                cases hnew : newState.isAvailable <;> cases hold : state.isAvailable <;> simp_all

theorem handle_some (state : State) (request : Request) : handle chars (some state) request =
      (some (handlePut chars state request.body).1, (handlePut chars state request.body).2) := rfl

variable {doc : Option State} {request : Request}

theorem handle_rejected (h : (handle chars doc request).2.accepted = false) : (handle chars doc request).1 = doc := by
  cases doc with
  | some state =>
    rw [handle_some] at h ⊢
    rcases handlePut_cases chars state request.body with ⟨error, heq⟩ | ⟨_, heq⟩ | ⟨newState, _, heq, _⟩
    · rw [heq]
    · rw [heq]
    · rw [heq] at h
      cases h
  | none =>
    cases request with
    | put body => rfl
    | post body =>
      simp only [handle] at h ⊢
      cases hstart : handleStart chars body with
      | error error => rfl
      | ok state =>
        rw [hstart] at h
        cases h

/-! ## Who holds the lock -/

def HeldBy (chars : Characters) (owner : String) (doc : Option State) : Prop :=
  ∃ state, doc = some state ∧ state.isAvailable = false ∧ equalsIgnoreCase chars state.ownerId owner = true

def Request.ReleaseBy (chars : Characters) (owner : String) (request : Request) : Prop :=
  ∃ state : State, request.body = some state.toBody ∧ state.isAvailable = true ∧
    equalsIgnoreCase chars state.ownerId owner = true

theorem HeldBy.owner_unique {a b : String} (ha : HeldBy chars a doc) (hb : HeldBy chars b doc) :
    equalsIgnoreCase chars a b = true := by
  obtain ⟨state, rfl, _, hown⟩ := ha
  obtain ⟨state', heq, _, hown'⟩ := hb
  cases heq
  rw [equalsIgnoreCase_iff] at hown hown' ⊢
  exact hown.symm.trans hown'

/-- **A lock that is held stays with its owner until the owner releases it.** -/
theorem HeldBy.serve {owner : String} (h : HeldBy chars owner doc) (request : Request) :
    HeldBy chars owner (serve chars doc request) ∨
      request.ReleaseBy chars owner ∧ (handle chars doc request).2 = .completed := by
  obtain ⟨state, rfl, hheld, hown⟩ := h
  rw [EntityLock.serve, handle_some]
  rcases handlePut_cases chars state request.body with ⟨error, heq⟩ | ⟨_, heq⟩ | ⟨newState, hbody, heq, hnew⟩
  · exact .inl ⟨state, by rw [heq], hheld, hown⟩
  · exact .inl ⟨state, by rw [heq], hheld, hown⟩
  · rcases hnew with hsame | ⟨_, havailable⟩
    · have hown' : equalsIgnoreCase chars newState.ownerId owner = true := by
        rw [equalsIgnoreCase_iff] at hown hsame ⊢
        exact hsame.symm.trans hown
      cases havailable : newState.isAvailable with
      | false => exact .inl ⟨newState, by rw [heq], havailable, hown'⟩
      | true => exact .inr ⟨⟨newState, hbody, havailable, hown'⟩, by rw [heq]⟩
    · rw [hheld] at havailable
      cases havailable

theorem HeldBy.serve_other {owner : String} (h : HeldBy chars owner doc) (hbody : request.body = some state.toBody)
    (hother : equalsIgnoreCase chars state.ownerId owner = false) :
    HeldBy chars owner (EntityLock.serve chars doc request) := by
  rcases h.serve request with hkept | ⟨⟨released, hreleased, _, hown⟩, _⟩
  · exact hkept
  · rw [hbody] at hreleased
    have howner : some state.ownerId = some released.ownerId := congrArg Body.ownerId (Option.some.inj hreleased)
    rw [Option.some.inj howner, hown] at hother
    cases hother

theorem State.toBody_injective {state' : State} (h : state.toBody = state'.toBody) : state = state' := by
  obtain ⟨e, o, a⟩ := state
  obtain ⟨e', o', a'⟩ := state'
  simp only [State.toBody, Body.mk.injEq, Option.some.injEq] at h
  obtain ⟨rfl, rfl, rfl⟩ := h
  rfl

theorem serve_cases (chars : Characters) (doc : Option State) (request : Request) :
    serve chars doc request = doc ∨ ∃ state, request.body = some state.toBody ∧ serve chars doc request =
    some state := by
  cases doc with
  | some current =>
    rw [serve, handle_some]
    rcases handlePut_cases chars current request.body with ⟨error, heq⟩ | ⟨-, heq⟩ | ⟨newState, hnew, heq, -⟩
    · exact .inl (by rw [heq])
    · exact .inl (by rw [heq])
    · exact .inr ⟨newState, hnew, by rw [heq]⟩
  | none =>
    cases request with
    | put body => exact .inl rfl
    | post body =>
      simp only [serve, handle]
      cases hstart : handleStart chars body with
      | error error => exact .inl rfl
      | ok started => exact .inr ⟨started, (handleStart_ok hstart).1, rfl⟩

theorem serve_of_accepted (hbody : request.body = some state.toBody)
    (haccepted : (handle chars doc request).2.accepted = true) :
    serve chars doc request = some state ∧ (doc = some state ∨ validateState chars state.toBody = .ok state) := by
  have hvalid : validateState chars state.toBody = .ok state ∨ ∃ error, validateState chars state.toBody =
      .error error := by
    cases h : validateState chars state.toBody with
    | error error => exact .inr ⟨error, rfl⟩
    | ok newState => exact .inl (by rw [State.toBody_injective (validateState_ok h)])
  cases doc with
  | some current =>
    rw [serve, handle_some, hbody] at *
    simp only [handlePut] at haccepted ⊢
    split at haccepted
    · rename_i hsame
      rw [if_pos hsame, State.toBody_injective hsame]
      exact ⟨rfl, .inl rfl⟩
    · rename_i hdiff
      rw [if_neg hdiff]
      rcases hvalid with hvalid | ⟨error, hvalid⟩
      · rw [hvalid] at haccepted ⊢
        dsimp only at haccepted ⊢
        split at haccepted
        · cases haccepted
        · split at haccepted
          · cases haccepted
          · split at haccepted
            · cases haccepted
            · rename_i hentity hrelease htaken
              rw [if_neg hentity, if_neg hrelease, if_neg htaken]
              exact ⟨rfl, .inr rfl⟩
      · rw [hvalid] at haccepted
        cases haccepted
  | none =>
    cases request with
    | put body => cases haccepted
    | post body =>
      obtain rfl : body = some state.toBody := hbody
      simp only [serve, handle] at haccepted ⊢
      cases hstart : handleStart chars (some state.toBody) with
      | error error =>
        rw [hstart] at haccepted
        cases haccepted
      | ok started =>
        have hstarted := State.toBody_injective (Option.some.inj ((handleStart_ok hstart).1))
        subst hstarted
        refine ⟨rfl, .inr (hvalid.resolve_right ?_)⟩
        intro herror
        obtain ⟨error, herror⟩ := herror
        simp only [handleStart, herror] at hstart
        cases hstart

theorem serve_release {owner : String}
    (hvalid : validateState chars (State.toBody ⟨state.entityId, owner, true⟩) = .ok ⟨state.entityId, owner, true⟩)
    (hown : equalsIgnoreCase chars state.ownerId owner = true) :
    serve chars (some state) (.post (some (State.toBody ⟨state.entityId, owner, true⟩))) =
      some ⟨state.entityId, owner, true⟩ := by
  have hfold : equalsIgnoreCase chars state.entityId state.entityId = true := (equalsIgnoreCase_iff _ _).2 rfl
  rw [serve, handle_some]
  simp only [Request.body, handlePut]
  split
  · rename_i hsame
    rw [State.toBody_injective hsame]
  · simp only [hvalid, hown, hfold, Bool.not_true, Bool.false_and, Bool.false_eq_true, if_false]

/-- **The lock passes from one owner to another only through a release by the first.** -/
theorem released_between {a b : String} {requests : List Request} (ha : HeldBy chars a doc)
    (hb : HeldBy chars b (run (serve chars) doc requests)) (hne : equalsIgnoreCase chars a b = false) :
    ∃ before request after, requests = before ++ request :: after ∧ request.ReleaseBy chars a ∧
      (handle chars (run (serve chars) doc before) request).2 = .completed := by
  have hlost : ¬ HeldBy chars a (run (serve chars) doc requests) := by
    intro h
    rw [h.owner_unique hb] at hne
    cases hne
  obtain ⟨before, request, after, rfl, hbefore, hafter⟩ := Runs.exists_lost requests ha hlost
  refine ⟨before, request, after, rfl, ?_⟩
  rcases hbefore.serve request with hkept | hreleased
  · exact absurd hkept hafter
  · exact hreleased

end Photon.CloudStore.EntityLock
