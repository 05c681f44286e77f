import Mathlib.Data.Finset.Card
import Photon.Runs
/-!
# LeafDrain — requests in flight when a leaf scheduler is demoted

`LeafScheduler.find` and `place` count a latch up before they look whether the scheduler is configured, and down when
they return.  `cleanup` waits for the latch to be zero, stops the health checker, and only then marks the scheduler as
not configured.  A request can reach a scheduler that is being demoted, since `SchedulerHandler` looks the scheduler up
before it calls it.

`Demotion` is the scheduler with its requests and the one call of `cleanup`.  For the proofs it keeps which requests the
latch has counted, and which have passed the check since `cleanup` saw the latch at zero.
-/
namespace Photon.LeafScheduler

open Runs (run Always Meets)

/-! ## The latch -/

structure CountUpDownLatch where
  count : Nat

namespace CountUpDownLatch

def countUp (latch : CountUpDownLatch) : CountUpDownLatch := ⟨latch.count + 1⟩

/-- There is no result where the count would go below zero, which is a `ValueError`. -/
def countDown (latch : CountUpDownLatch) : Option CountUpDownLatch :=
  if latch.count = 0 then none else some ⟨latch.count - 1⟩

end CountUpDownLatch

/-! ## Requests and the demotion -/

inductive ConfigStates where
  | uninitialized | initialized
  deriving DecidableEq

/-- Where a request is: before it is counted, before and after it looks whether the scheduler is configured, and when it
has returned, with a response or with `InvalidScheduler`. -/
inductive RequestState where
  | new | counted | working | refused | answered | rejected
  | latchError
  deriving DecidableEq

def RequestState.inFlight : RequestState → Bool
  | .counted | .working | .refused => true
  | _ => false

inductive CleanupState where
  | awaiting | stopping | marking | returned
  deriving DecidableEq

inductive DrainEvent where
  | countUp (request : Nat)
  | checkConfigured (request : Nat)
  | countDown (request : Nat)
  | await
  | stopHealthChecker
  | markUninitialized

structure Demotion where
  latch : CountUpDownLatch
  configured : ConfigStates
  healthChecker : Bool
  requests : Nat → RequestState
  cleanup : CleanupState
  pending : Finset Nat
  /-- The requests at work that have passed the check since the latch was seen at zero. -/
  late : Finset Nat

namespace Demotion

def start (configured : ConfigStates) (healthChecker : Bool) : Demotion :=
  ⟨⟨0⟩, configured, healthChecker, fun _ => .new, .awaiting, ∅, ∅⟩

variable (s : Demotion)

def countUp (request : Nat) : Demotion :=
  match s.requests request with
  | .new =>
    { s with
      latch := s.latch.countUp
      requests := Function.update s.requests request .counted
      pending := insert request s.pending }
  | _ => s

def checkConfigured (request : Nat) : Demotion :=
  match s.requests request with
  | .counted =>
    match s.configured with
    | .uninitialized => { s with requests := Function.update s.requests request .refused }
    | .initialized =>
      { s with
        requests := Function.update s.requests request .working
        late := if s.cleanup = .awaiting then s.late else insert request s.late }
  | _ => s

def leave (request : Nat) (outcome : RequestState) : Demotion :=
  match s.latch.countDown with
  | none => { s with requests := Function.update s.requests request .latchError }
  | some latch =>
    { s with
      latch := latch
      requests := Function.update s.requests request outcome
      pending := s.pending.erase request
      late := s.late.erase request }

def countDown (request : Nat) : Demotion :=
  match s.requests request with
  | .working => s.leave request .answered
  | .refused => s.leave request .rejected
  | _ => s

def await : Demotion :=
  match s.cleanup with
  | .awaiting => if s.latch.count = 0 then { s with cleanup := .stopping } else s
  | _ => s

def stopHealthChecker : Demotion :=
  match s.cleanup with
  | .stopping => { s with healthChecker := false, cleanup := .marking }
  | _ => s

def markUninitialized : Demotion :=
  match s.cleanup with
  | .marking => { s with configured := .uninitialized, cleanup := .returned }
  | _ => s

def step (s : Demotion) : DrainEvent → Demotion
  | .countUp request => s.countUp request
  | .checkConfigured request => s.checkConfigured request
  | .countDown request => s.countDown request
  | .await => s.await
  | .stopHealthChecker => s.stopHealthChecker
  | .markUninitialized => s.markUninitialized

/-! ## What is asked of the demotion -/

/-- When `cleanup` has returned, no request that passed the check is in flight. -/
def Drained (s : Demotion) : Prop := s.cleanup = .returned → ∀ request, s.requests request ≠ .working

/-- A request that starts when `cleanup` has returned is refused, whatever follows. -/
def Refuses (s : Demotion) : Prop := s.cleanup = .returned → ∀ request, s.requests request = .new → ∀ later,
  (run step s later).requests request ≠ .working ∧ (run step s later).requests request ≠ .answered

/-- The scheduler is marked when every request that has passed the check since the wait is done. -/
def Careful (s : Demotion) : DrainEvent → Prop
  | .markUninitialized => s.cleanup = .marking → s.late = ∅
  | _ => True

/-! ## What every step keeps -/

/-- How a request stands to the latch: it is counted exactly while it is in flight; only one at work is late, and after
the wait every one at work is. -/
structure Placed (cleanup : CleanupState) (state : RequestState) (isPending isLate : Prop) : Prop where
  pending : isPending ↔ state.inFlight = true
  late : isLate → state = .working
  sinceWait : cleanup ≠ .awaiting → state = .working → isLate

structure Inv (s : Demotion) : Prop where
  count : s.latch.count = s.pending.card
  placed : ∀ request, Placed s.cleanup (s.requests request) (request ∈ s.pending) (request ∈ s.late)
  marked : s.cleanup = .returned → s.configured = .uninitialized

theorem inv_start (configured : ConfigStates) (healthChecker : Bool) : (start configured healthChecker).Inv where
  count := rfl
  placed request := ⟨by simp [start, RequestState.inFlight], by simp [start], by simp [start]⟩
  marked h := nomatch h

variable {s}

section

variable (h : s.Inv)
include h

theorem Inv.placed_update {request : Nat} {state : RequestState} {pending late : Finset Nat}
    (hself : Placed s.cleanup state (request ∈ pending) (request ∈ late))
    (hpending : ∀ other, other ≠ request → (other ∈ pending ↔ other ∈ s.pending))
    (hlate : ∀ other, other ≠ request → (other ∈ late ↔ other ∈ s.late)) (other : Nat) :
    Placed s.cleanup (Function.update s.requests request state other) (other ∈ pending) (other ∈ late) := by
  by_cases heq : other = request
  · subst heq
    rw [Function.update_self]
    exact hself
  · rw [Function.update_of_ne heq, hpending other heq, hlate other heq]
    exact h.placed other

theorem Inv.countUp (request : Nat) : (s.countUp request).Inv := by
  unfold Demotion.countUp
  split
  · rename_i hnew
    have hplaced := h.placed request
    rw [hnew] at hplaced
    have hnot : request ∉ s.pending := fun hmem => Bool.false_ne_true (hplaced.pending.1 hmem)
    refine ⟨?_, h.placed_update ⟨?_, ?_, nofun⟩ ?_ (fun _ _ => Iff.rfl), h.marked⟩
    · show s.latch.count + 1 = _
      rw [Finset.card_insert_of_notMem hnot, h.count]
    · exact iff_of_true (Finset.mem_insert_self _ _) rfl
    · intro hlate
      cases hplaced.late hlate
    · intro other hne
      rw [Finset.mem_insert, or_iff_right hne]
  · exact h

theorem Inv.checkConfigured (request : Nat) : (s.checkConfigured request).Inv := by
  unfold Demotion.checkConfigured
  split
  · rename_i hcounted
    have hplaced := h.placed request
    rw [hcounted] at hplaced
    have hmem : request ∈ s.pending := hplaced.pending.2 rfl
    split
    · refine ⟨h.count, h.placed_update ⟨iff_of_true hmem rfl, ?_, nofun⟩ (fun _ _ => Iff.rfl) (fun _ _ => Iff.rfl),
        h.marked⟩
      intro hlate
      cases hplaced.late hlate
    · refine ⟨h.count, h.placed_update ⟨iff_of_true hmem rfl, fun _ => rfl, ?_⟩ (fun _ _ => Iff.rfl) ?_, h.marked⟩
      · intro hwait _
        rw [if_neg hwait]
        exact Finset.mem_insert_self _ _
      · intro other hne
        split
        · exact Iff.rfl
        · rw [Finset.mem_insert, or_iff_right hne]
  · exact h

theorem Inv.leave {request : Nat} (hflight : (s.requests request).inFlight = true) {outcome : RequestState}
    (hdone : outcome.inFlight = false) : (s.leave request outcome).Inv := by
  have hmem := (h.placed request).pending.2 hflight
  have hpos : 0 < s.latch.count := h.count ▸ Finset.card_pos.2 ⟨request, hmem⟩
  have hdown : s.latch.countDown = some ⟨s.latch.count - 1⟩ := if_neg (Nat.pos_iff_ne_zero.1 hpos)
  unfold Demotion.leave
  rw [hdown]
  refine ⟨?_, h.placed_update ⟨?_, ?_, ?_⟩ ?_ ?_, h.marked⟩
  · show s.latch.count - 1 = _
    rw [Finset.card_erase_of_mem hmem, h.count]
  · rw [hdone]
    exact iff_of_false (Finset.notMem_erase _ _) Bool.false_ne_true
  · intro hlate
    exact absurd hlate (Finset.notMem_erase _ _)
  · intro _ hworking
    rw [hworking] at hdone
    cases hdone
  · intro other hne
    rw [Finset.mem_erase, and_iff_right hne]
  · intro other hne
    rw [Finset.mem_erase, and_iff_right hne]

theorem Inv.countDown (request : Nat) : (s.countDown request).Inv := by
  unfold Demotion.countDown
  split
  · rename_i hworking
    exact h.leave (by rw [hworking]; rfl) rfl
  · rename_i hrefused
    exact h.leave (by rw [hrefused]; rfl) rfl
  · exact h

theorem Inv.await : s.await.Inv := by
  unfold Demotion.await
  split
  · split
    · rename_i hzero
      have hempty : s.pending = ∅ := Finset.card_eq_zero.1 (h.count.symm.trans hzero)
      refine ⟨h.count, fun request => { h.placed request with sinceWait := ?_ }, nofun⟩
      intro _ hworking
      have hmem : request ∈ s.pending := (h.placed request).pending.2 (by rw [hworking]; rfl)
      rw [hempty] at hmem
      exact absurd hmem (Finset.notMem_empty _)
    · exact h
  · exact h

theorem Inv.stopHealthChecker : s.stopHealthChecker.Inv := by
  unfold Demotion.stopHealthChecker
  split
  · rename_i hstopping
    have hwait : s.cleanup ≠ .awaiting := by rw [hstopping]; nofun
    exact ⟨h.count, fun request => { h.placed request with sinceWait := fun _ => (h.placed request).sinceWait hwait },
      nofun⟩
  · exact h

theorem Inv.markUninitialized : s.markUninitialized.Inv := by
  unfold Demotion.markUninitialized
  split
  · rename_i hmarking
    have hwait : s.cleanup ≠ .awaiting := by rw [hmarking]; nofun
    exact ⟨h.count, fun request => { h.placed request with sinceWait := fun _ => (h.placed request).sinceWait hwait },
      fun _ => rfl⟩
  · exact h

end

theorem Inv.step (s : Demotion) (e : DrainEvent) (h : s.Inv) : (s.step e).Inv := by
  cases e with
  | countUp request => exact h.countUp request
  | checkConfigured request => exact h.checkConfigured request
  | countDown request => exact h.countDown request
  | await => exact h.await
  | stopHealthChecker => exact h.stopHealthChecker
  | markUninitialized => exact h.markUninitialized

/-! ## After the demotion -/

section

variable {P : RequestState → Prop} {request k : Nat} {state : RequestState}

theorem holds_update (h : P (s.requests request)) (hstate : k = request → P state) :
    P (Function.update s.requests k state request) := by
  by_cases heq : request = k
  · rw [heq, Function.update_self]
    exact hstate heq.symm
  · rw [Function.update_of_ne heq]
    exact h

theorem holds_leave (h : P (s.requests request)) (herror : P .latchError) (hstate : k = request → P state) :
    P ((s.leave k state).requests request) := by
  unfold Demotion.leave
  split
  · exact holds_update h fun _ => herror
  · exact holds_update h hstate

/-- Once the scheduler is marked no request passes the check: only one at work is answered. -/
theorem holds_step (hP : ∀ state, state ≠ .working → state ≠ .answered → P state) (hanswered : P .working → P .answered)
    (hmarked : s.configured = .uninitialized) (e : DrainEvent) (h : P (s.requests request)) :
    P ((s.step e).requests request) := by
  cases e with
  | countUp k =>
    dsimp only [Demotion.step, Demotion.countUp]
    split
    · exact holds_update h fun _ => hP _ nofun nofun
    · exact h
  | checkConfigured k =>
    dsimp only [Demotion.step, Demotion.checkConfigured]
    rw [hmarked]
    split
    · exact holds_update h fun _ => hP _ nofun nofun
    · exact h
  | countDown k =>
    dsimp only [Demotion.step, Demotion.countDown]
    split
    · rename_i hworking
      refine holds_leave h (hP _ nofun nofun) fun heq => hanswered ?_
      rw [← hworking, heq]
      exact h
    · exact holds_leave h (hP _ nofun nofun) fun _ => hP _ nofun nofun
    · exact h
  | await =>
    dsimp only [Demotion.step, Demotion.await]
    split
    · split <;> exact h
    · exact h
  | stopHealthChecker =>
    dsimp only [Demotion.step, Demotion.stopHealthChecker]
    split <;> exact h
  | markUninitialized =>
    dsimp only [Demotion.step, Demotion.markUninitialized]
    split <;> exact h

end

theorem marked_step (h : s.configured = .uninitialized) (e : DrainEvent) : (s.step e).configured = .uninitialized := by
  cases e <;> dsimp only [Demotion.step, Demotion.countUp, Demotion.checkConfigured, Demotion.countDown, Demotion.leave,
    Demotion.await, Demotion.stopHealthChecker, Demotion.markUninitialized]
  all_goals
    repeat' split
    all_goals first | exact h | rfl

/-- The request has not passed the check, and will not. -/
structure Barred (request : Nat) (s : Demotion) : Prop where
  configured : s.configured = .uninitialized
  notWorking : s.requests request ≠ .working
  notAnswered : s.requests request ≠ .answered

theorem Barred.step {request : Nat} (s : Demotion) (e : DrainEvent) (h : Barred request s) :
    Barred request (s.step e) := by
  have hstate := holds_step (P := fun state => state ≠ .working ∧ state ≠ .answered) (fun _ hw ha => ⟨hw, ha⟩)
    (fun hw => absurd rfl hw.1) h.configured e ⟨h.notWorking, h.notAnswered⟩
  exact ⟨marked_step h.configured e, hstate.1, hstate.2⟩

theorem Inv.refuses (h : s.Inv) : s.Refuses := by
  intro hreturned request hnew later
  have hbarred : Barred request s := ⟨h.marked hreturned, by rw [hnew]; nofun, by rw [hnew]; nofun⟩
  have hlater : Barred request (run Demotion.step s later) := (Runs.always_of_inv Barred.step later hbarred).run
  exact ⟨hlater.notWorking, hlater.notAnswered⟩

theorem Inv.drained_of_late (h : s.Inv) (hwait : s.cleanup ≠ .awaiting) (hlate : s.late = ∅) (request : Nat) :
    s.requests request ≠ .working := by
  intro hworking
  have hmem := (h.placed request).sinceWait hwait hworking
  rw [hlate] at hmem
  exact absurd hmem (Finset.notMem_empty _)

theorem returned_of_step {e : DrainEvent} (he : e ≠ .markUninitialized) (h : (s.step e).cleanup = .returned) :
    s.cleanup = .returned := by
  cases e <;> dsimp only [Demotion.step, Demotion.countUp, Demotion.checkConfigured, Demotion.countDown, Demotion.leave,
    Demotion.await, Demotion.stopHealthChecker] at h
  case markUninitialized => exact absurd rfl he
  all_goals
    repeat' split at h
    all_goals first | exact h | cases h

theorem Drained.step (e : DrainEvent) (h : s.Inv) (hdrained : s.Drained) (hcareful : s.Careful e) :
    (s.step e).Drained := by
  intro hreturned request hworking
  by_cases hwas : s.cleanup = .returned
  · -- no request passes the check any more
    exact holds_step (P := (· ≠ .working)) (fun _ hw _ => hw)
      (fun _ => nofun) (h.marked hwas) e (hdrained hwas request) hworking
  · have he : e = .markUninitialized := by
      by_contra hne
      exact hwas (returned_of_step hne hreturned)
    subst he
    dsimp only [Demotion.step, Demotion.markUninitialized] at hreturned hworking
    split at hworking
    · rename_i hmarking
      exact h.drained_of_late (by rw [hmarking]; nofun) (hcareful hmarking) request hworking
    · rename_i hnot
      split at hreturned
      · rename_i hmarking
        exact hnot hmarking
      · exact hwas hreturned

theorem Inv.careful_of_drained (h : s.Inv) (e : DrainEvent) (hdrained : (s.step e).Drained) : s.Careful e := by
  cases e with
  | markUninitialized =>
    intro hmarking
    dsimp only [Demotion.step, Demotion.markUninitialized] at hdrained
    rw [hmarking] at hdrained
    refine Finset.eq_empty_of_forall_notMem ?_
    intro request hlate
    exact hdrained rfl request ((h.placed request).late hlate)
  | _ => trivial

end Demotion

/-- **A demotion drains the requests exactly if those that pass the check after the wait are done before the mark.**  In
every interleaving with the requests, and in every case, a request that starts when `cleanup` has returned is
refused. -/
theorem cleanup_drains_iff (configured : ConfigStates) (healthChecker : Bool) (events : List DrainEvent) :
    (Always Demotion.step Demotion.Drained (.start configured healthChecker) events ↔
      Meets Demotion.step Demotion.Careful (.start configured healthChecker) events) ∧
    Always Demotion.step Demotion.Refuses (.start configured healthChecker) events := by
  have hinv := Demotion.inv_start configured healthChecker
  have hdrained : (Demotion.start configured healthChecker).Drained := nofun
  have hstep : ∀ s e, (s.Inv ∧ s.Drained) → s.Careful e → ((Demotion.step s e).Inv ∧ (Demotion.step s e).Drained) := by
    intro s e h hcareful
    exact ⟨h.1.step s e, h.2.step e h.1 hcareful⟩
  constructor
  · exact Runs.always_iff_meets_of_inv hstep (fun _ h => h.2) (fun s e h => h.1.careful_of_drained e) ⟨hinv, hdrained⟩
  · exact (Runs.always_of_inv Demotion.Inv.step events hinv).mono (fun _ h => h.refuses)

/-- **The latch counts the requests in flight** after each event of every interleaving, before, during and after the
demotion: so none of them finds it at zero when it leaves. -/
theorem latch_counts_inFlight (configured : ConfigStates) (healthChecker : Bool) (events : List DrainEvent) :
    Always Demotion.step (fun s => ∃ pending : Finset Nat,
      (∀ request, request ∈ pending ↔ (s.requests request).inFlight = true) ∧ s.latch.count = pending.card ∧
      ∀ request, (s.requests request).inFlight = true → s.latch.countDown ≠ none)
        (.start configured healthChecker) events := by
  refine (Runs.always_of_inv Demotion.Inv.step events (Demotion.inv_start configured healthChecker)).mono
    (fun s h => ?_)
  refine ⟨s.pending, fun request => (h.placed request).pending, h.count, fun request hflight => ?_⟩
  have hpos : 0 < s.pending.card := Finset.card_pos.2 ⟨request, (h.placed request).pending.2 hflight⟩
  simp [CountUpDownLatch.countDown, h.count, hpos.ne']

def arrivesAfterWait : List DrainEvent :=
  [.await, .countUp 0, .checkConfigured 0, .stopHealthChecker, .markUninitialized]

/-- It is at work when `cleanup` returns. -/
theorem request_survives_cleanup :
    let s := run Demotion.step (.start .initialized true) arrivesAfterWait
    s.cleanup = .returned ∧ s.requests 0 = .working := by
  decide

end Photon.LeafScheduler
