import Photon.Resource
/-!
# Reservation — placing and reserving the resource of a VM

`ResourceReserveStepCmd.loadReservation`: the scheduler is asked for a place, with a constraint for unfinished image
seeding added to those of the VM, and the host for a reservation, until both answer or the attempts are used up.

The constraints of the VM are a list it refers to, or null.  What is added is added to that list, and what is kept to
restore it is a reference to the same list: only null is restored.
-/
namespace Photon.ApiFrontend.Reservation

abbrev Constraints := Option (List ResourceConstraint)

def addToResourceConstraints (constraints : Constraints) (constraint : ResourceConstraint) : Constraints :=
  some (constraints.getD [] ++ [constraint])

/-- `setResource_constraints` with the reference from before, which has what was added since. -/
def restore (original extended : Constraints) : Constraints := original.bind fun _ => extended

inductive Exn
  | noSuchResource | notEnoughCpuResource | notEnoughMemoryResource | notEnoughDatastoreCapacity | resourceConstraint
  | staleGeneration | invalidScheduler | other
  deriving DecidableEq

def Exn.retried (e : Exn) : Bool := e = .staleGeneration ∨ e = .invalidScheduler

inductive ApiError
  | noSuchResource | notEnoughCpuResource | notEnoughMemoryResource | notEnoughDatastoreCapacity
  | unfulfillableAffinities | passed (e : Exn)
  deriving DecidableEq

def Exn.translated : Exn → ApiError
  | .noSuchResource => .noSuchResource
  | .notEnoughCpuResource => .notEnoughCpuResource
  | .notEnoughMemoryResource => .notEnoughMemoryResource
  | .notEnoughDatastoreCapacity => .notEnoughDatastoreCapacity
  | .resourceConstraint => .unfulfillableAffinities
  | e => .passed e

/-- What the two calls of an attempt come to; a reservation can be null. -/
structure Attempt where
  place : Except Exn Unit
  reserve : Except Exn (Option String)

def Attempt.result (a : Attempt) : Except Exn String :=
  a.place.bind fun _ => a.reserve.bind fun reservation => reservation.elim (.error .other) .ok

inductive Request
  | place (constraints : List ResourceConstraint)
  | reserve (constraints : List ResourceConstraint)
  deriving DecidableEq

def createImageSeedingResourceConstraints : Option (List String) → Option ResourceConstraint
  | none | some [] => none
  | some candidates => some (.of .datastore candidates)

/-- One turn of the loop: the constraints it leaves and the requests it sends.  There is no seeding constraint for a
disk or with a target host. -/
def attempt (seeding : Option ResourceConstraint) (constraints : Constraints) (a : Attempt) :
    Constraints × List Request :=
  let placing := seeding.elim constraints (addToResourceConstraints constraints)
  if a.place.isOk then
    let restored := if seeding.isSome then restore constraints placing else placing
    (restored, [.place (placing.getD []), .reserve (restored.getD [])])
  else (placing, [.place (placing.getD [])])

def maxPlacementRetries : Nat := 5

def retry (seeding : Option ResourceConstraint) (left : Nat) (constraints : Constraints) (attempts : Nat → Attempt) :
    List Request × Except ApiError String :=
  let sent := attempt seeding constraints (attempts 0)
  match (attempts 0).result with
  | .ok reservation => (sent.2, .ok reservation)
  | .error e =>
    if e.retried then
      match left with
      | 0 => (sent.2, .error (.passed e))
      | left + 1 =>
        let rest := retry seeding left sent.1 fun n => attempts (n + 1)
        (sent.2 ++ rest.1, rest.2)
    else (sent.2, .error e.translated)

def loadReservation (isVm : Bool) (targetHostIp : Option String) (candidates : Option (List String))
    (original : Constraints) (attempts : Nat → Attempt) : List Request × Except ApiError String :=
  let seeding := if isVm ∧ targetHostIp = none then createImageSeedingResourceConstraints candidates else none
  retry seeding (maxPlacementRetries - 1) original attempts

/-! ## What the requests carry -/

/-- A place request carries the original constraints and the seeding constraint, a reserve request the original ones. -/
def Request.Intact (original : List ResourceConstraint) (seeding : Option ResourceConstraint) : Request → Prop
  | .place constraints => constraints = original ++ seeding.toList
  | .reserve constraints => constraints = original

def Request.isPlace : Request → Bool
  | .place _ => true
  | .reserve _ => false

def isRetried {α : Type} : Except Exn α → Bool
  | .error e => e.retried
  | .ok _ => false

/-- No attempt that is followed by another one fails in the place call. -/
def PlacesBeforeLast : Nat → (Nat → Attempt) → Prop
  | 0, _ => True
  | left + 1, attempts => isRetried (attempts 0).place = false ∧
    (isRetried (attempts 0).result = true → PlacesBeforeLast left fun n => attempts (n + 1))

def AllIntact (original : List ResourceConstraint) (seeding : Option ResourceConstraint)
    (requests : List Request) : Prop :=
  ∀ request ∈ requests, request.Intact original seeding

section

variable (seeding : Option ResourceConstraint) (constraints : Constraints) (attempts : Nat → Attempt)

theorem requests_retry (left : Nat) : (retry seeding left constraints attempts).1 =
    (attempt seeding constraints (attempts 0)).2 ++ if isRetried (attempts 0).result then match left with
      | 0 => []
      | left + 1 =>
        (retry seeding left (attempt seeding constraints (attempts 0)).1 fun n => attempts (n + 1)).1 else [] := by
  rw [retry.eq_def]
  cases (attempts 0).result with
  | ok reservation => simp [isRetried]
  | error e => cases left <;> cases he : e.retried <;> simp [isRetried, he]

theorem attempt_placed {a : Attempt} (h : a.place = .ok ()) : attempt seeding constraints a =
    let restored := if seeding.isSome then restore constraints (some (constraints.getD [] ++ seeding.toList))
      else constraints
    (restored, [.place (constraints.getD [] ++ seeding.toList), .reserve (restored.getD [])]) := by
  unfold attempt
  rw [h]
  cases seeding <;> simp [addToResourceConstraints, Except.isOk, Except.toBool]

theorem attempt_not_placed {a : Attempt} {e : Exn} (h : a.place = .error e) :
    (attempt seeding constraints a).2 = [.place (constraints.getD [] ++ seeding.toList)] ∧
      (attempt seeding constraints a).1.getD [] = constraints.getD [] ++ seeding.toList := by
  unfold attempt
  rw [h]
  cases seeding <;> simp [addToResourceConstraints, Except.isOk, Except.toBool]

theorem place_mem_retry (left : Nat) :
    .place (constraints.getD [] ++ seeding.toList) ∈ (retry seeding left constraints attempts).1 := by
  rw [requests_retry]
  refine List.mem_append_left _ ?_
  cases h : (attempts 0).place with
  | ok => simp [attempt_placed seeding constraints h]
  | error e => simp [attempt_not_placed seeding constraints h]

theorem countP_attempt (a : Attempt) : (attempt seeding constraints a).2.countP Request.isPlace = 1 := by
  cases h : a.place with
  | ok =>
    rw [attempt_placed seeding constraints h]
    rfl
  | error e =>
    rw [(attempt_not_placed seeding constraints h).1]
    rfl

end

section

variable {seeding : Option ResourceConstraint} {constraints : Constraints} {attempts : Nat → Attempt} {left : Nat}

theorem countP_retry : ∀ (left : Nat) {constraints : Constraints} {attempts : Nat → Attempt},
    (retry seeding left constraints attempts).1.countP Request.isPlace ≤ left + 1
  | 0, _, _ => by
    rw [requests_retry, List.countP_append, countP_attempt]
    split <;> exact Nat.le_refl _
  | left + 1, _, _ => by
    rw [requests_retry, List.countP_append, countP_attempt]
    split
    · exact (Nat.add_le_add_left (countP_retry left) 1).trans (by omega)
    · exact Nat.le_add_left _ _

theorem allIntact_without_seeding {original : List ResourceConstraint} : ∀ (left : Nat) {constraints : Constraints}
    {attempts : Nat → Attempt}, constraints.getD [] = original →
    AllIntact original none (retry none left constraints attempts).1
  | left, constraints, attempts, h => by
    have hattempt : AllIntact original none (attempt none constraints (attempts 0)).2 ∧
        (attempt none constraints (attempts 0)).1.getD [] = original := by
      cases hplace : (attempts 0).place with
      | ok => simp [attempt_placed none constraints hplace, AllIntact, Request.Intact, h]
      | error e => simp [attempt_not_placed none constraints hplace, AllIntact, Request.Intact, h]
    rw [requests_retry]
    refine List.forall_mem_append.2 ⟨hattempt.1, ?_⟩
    split
    · cases left with
      | zero => simp
      | succ left => exact allIntact_without_seeding left hattempt.2
    · simp

/-- After a place call that fails the constraint stays, and the next request would carry it twice. -/
theorem allIntact_not_placed {c : ResourceConstraint} {e : Exn} (hplace : (attempts 0).place = .error e) :
    AllIntact (constraints.getD []) (some c) (retry (some c) left constraints attempts).1 ↔ left = 0 ∨
    e.retried = false := by
  obtain ⟨hsent, hleft⟩ := attempt_not_placed (some c) constraints hplace
  have hresult : isRetried (attempts 0).result = e.retried := by
    rw [Attempt.result, hplace]
    rfl
  have hintact : ∀ request ∈ (attempt (some c) constraints (attempts 0)).2,
      request.Intact (constraints.getD []) (some c) := by
    simp [hsent, Request.Intact]
  rw [requests_retry, AllIntact, List.forall_mem_append, hresult]
  cases left with
  | zero => exact ⟨fun _ => .inl rfl, fun _ => ⟨hintact, by split <;> simp⟩⟩
  | succ left =>
    cases e.retried with
    | false => exact ⟨fun _ => .inr rfl, fun _ => ⟨hintact, by simp⟩⟩
    | true =>
      refine ⟨fun h => ?_, by simp⟩
      have hnext : constraints.getD [] ++ [c] ++ [c] = constraints.getD [] ++ [c] := by
        have hplaced := h.2 _ (place_mem_retry _ _ _ left)
        rwa [hleft] at hplaced
      simp at hnext

theorem allIntact_placed {c : ResourceConstraint} (hplace : (attempts 0).place = .ok ()) :
    AllIntact (constraints.getD []) (some c) (retry (some c) left constraints attempts).1 ↔ constraints = none ∧
      ∀ left', left = left' + 1 → isRetried (attempts 0).result = true →
        AllIntact [] (some c) (retry (some c) left' none fun n => attempts (n + 1)).1 := by
  rw [requests_retry, AllIntact, List.forall_mem_append, attempt_placed (some c) constraints hplace]
  cases constraints with
  | some original => simp [restore, Request.Intact]
  | none => cases left <;> cases isRetried (attempts 0).result <;> simp [restore, Request.Intact, AllIntact]

theorem allIntact_null_iff (c : ResourceConstraint) : ∀ (left : Nat) {attempts : Nat → Attempt},
    AllIntact [] (some c) (retry (some c) left none attempts).1 ↔ PlacesBeforeLast left attempts
  | left, attempts => by
    cases hplace : (attempts 0).place with
    | ok =>
      refine (allIntact_placed hplace).trans ?_
      cases left with
      | zero => simp [PlacesBeforeLast]
      | succ left => simp [PlacesBeforeLast, hplace, isRetried, allIntact_null_iff c left]
    | error e =>
      refine (allIntact_not_placed hplace).trans ?_
      have hresult : (attempts 0).result = .error e := by
        rw [Attempt.result, hplace]
        rfl
      cases left with
      | zero => simp [PlacesBeforeLast]
      | succ left =>
        rw [PlacesBeforeLast, hplace, hresult]
        cases he : e.retried <;> simp [isRetried, he]

end

/-- **The requests of `loadReservation` for a VM.**  There are at most five attempts.  Every place request carries the
original constraints with the one for image seeding and every reserve request the original ones, exactly if there are no
candidates, or the constraints of the VM are null and no attempt that is followed by another fails in the place call, or
they are a list and the first place call fails for good. -/
theorem loadReservation_intact_iff (candidates : Option (List String)) (original : Constraints)
    (attempts : Nat → Attempt) : (loadReservation true none candidates original attempts).1.countP Request.isPlace ≤ 5 ∧
    (AllIntact (original.getD []) (createImageSeedingResourceConstraints candidates)
        (loadReservation true none candidates original attempts).1 ↔
      createImageSeedingResourceConstraints candidates = none ∨
      original = none ∧ PlacesBeforeLast 4 attempts ∨
      original ≠ none ∧ ∃ e, (attempts 0).place = .error e ∧ e.retried = false) := by
  refine ⟨countP_retry 4, ?_⟩
  change AllIntact _ _ (retry (createImageSeedingResourceConstraints candidates) 4 original attempts).1 ↔ _
  cases createImageSeedingResourceConstraints candidates with
  | none => exact ⟨fun _ => .inl rfl, fun _ => allIntact_without_seeding 4 rfl⟩
  | some c =>
    cases original with
    | none => simpa using allIntact_null_iff c 4
    | some original =>
      cases hplace : (attempts 0).place with
      | ok => exact (allIntact_placed hplace).trans (by simp)
      | error e => exact (allIntact_not_placed hplace).trans (by simp)

def constrained : List Request × Except ApiError String :=
  loadReservation true none (some ["ds"]) (some [.of .network ["n"]]) fun _ => ⟨.ok (), .ok (some "r")⟩

def retriedPlace : List Request × Except ApiError String :=
  loadReservation true none (some ["ds"]) none fun n =>
    ⟨if n = 0 then .error .invalidScheduler else .ok (), .ok (some "r")⟩

/-- A VM with a constraint and candidates: the reserve request carries the seeding constraint too.  A VM without one,
whose first place call is to be retried: the second carries the seeding constraint twice. -/
theorem loadReservation_piles_up :
    (constrained.1 =
        [.place [.of .network ["n"], .of .datastore ["ds"]], .reserve [.of .network ["n"], .of .datastore ["ds"]]] ∧
      ¬ AllIntact [.of .network ["n"]] (createImageSeedingResourceConstraints (some ["ds"])) constrained.1) ∧
    retriedPlace.1 =
        [.place [.of .datastore ["ds"]], .place [.of .datastore ["ds"], .of .datastore ["ds"]],
          .reserve [.of .datastore ["ds"], .of .datastore ["ds"]]] ∧
      ¬ AllIntact [] (createImageSeedingResourceConstraints (some ["ds"])) retriedPlace.1 := by
  refine ⟨⟨rfl, fun hintact => ?_⟩, rfl, fun hintact => ?_⟩
  · cases hintact (.reserve [.of .network ["n"], .of .datastore ["ds"]]) (by decide)
  · cases hintact (.reserve [.of .datastore ["ds"], .of .datastore ["ds"]]) (by decide)

end Photon.ApiFrontend.Reservation
