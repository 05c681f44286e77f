import Photon.Runs
import Photon.TreeRequest
/-!
# RootHealth — the health checker of the root scheduler

`HealthChecker` watches the leaf schedulers.  It reports those that are gone for longer than the timeout as missing, and
those that have come back as resurrected, by asynchronous calls to the chairman; only when a report is answered with
`OK` does it take the reported hosts as known there.

`Watch` is the checker with the requests that are not answered yet.  For the proofs it also keeps when each host that
was active went away, when each host last came online, and of which absent hosts a report has been acknowledged.
-/
namespace Photon.RootScheduler

open Chairman (ChildInfo SchedulerRole)
open Keyed (LinkedMap)
open Runs (run Always Meets)
open Keyed.LinkedMap (get_of_get_remove get_put get_put_cases get_remove mem_entries_iff)

/-! ## The checker -/

abbrev SocketAddress : Type := String × Int

structure HealthCheckConfig where
  timeoutMs : Int

structure HealthChecker where
  /-- The hosts of the children by address; a child without an owner has none. -/
  schedulers : LinkedMap SocketAddress (Option String)
  schedulerUpdates : LinkedMap String Int
  missingSchedulers : Finset String
  resurrectedSchedulers : Finset String
  activeSchedulers : Finset String

namespace HealthChecker

def schedulerEntry (child : ChildInfo) : Option (SocketAddress × Option String) :=
  child.address.map (fun address => ((address, child.port), child.ownerHost))

def getSchedulers (schedulerRole : SchedulerRole) : Option (LinkedMap SocketAddress (Option String)) :=
  (schedulerRole.schedulerChildren.mapM schedulerEntry).map LinkedMap.empty.putAll

def create (schedulerRole : SchedulerRole) : Option HealthChecker :=
  match schedulerRole.hosts with
  | some _ => none
  | none => (getSchedulers schedulerRole).map (fun schedulers => ⟨schedulers, .empty, ∅, ∅, ∅⟩)

variable (config : HealthCheckConfig) (checker : HealthChecker)

/-- The host of an address; for an address without one the listener throws. -/
def hostId (address : SocketAddress) : Option String := (checker.schedulers.get address).join

def hostAdded (hostId : String) : HealthChecker where
  schedulers := checker.schedulers
  missingSchedulers := checker.missingSchedulers.erase hostId
  schedulerUpdates := checker.schedulerUpdates.remove hostId
  resurrectedSchedulers := insert hostId checker.resurrectedSchedulers
  activeSchedulers := insert hostId checker.activeSchedulers

def hostRemoved (now : Int) (hostId : String) : HealthChecker where
  schedulers := checker.schedulers
  missingSchedulers := checker.missingSchedulers
  schedulerUpdates := checker.schedulerUpdates.put hostId now
  resurrectedSchedulers := checker.resurrectedSchedulers.erase hostId
  activeSchedulers := checker.activeSchedulers.erase hostId

def getTimedOutIds (now : Int) : Finset String :=
  ((checker.schedulerUpdates.entries.filter (fun update => decide (now - update.2 ≥ config.timeoutMs))).map
    Prod.fst).toFinset

/-- An `OK` to a resurrected report.  The handler has been given the set of resurrected schedulers itself. -/
def resurrectedReported : HealthChecker :=
  { checker with resurrectedSchedulers := checker.resurrectedSchedulers \ checker.resurrectedSchedulers }

/-- An `OK` to a missing report.  The handler has been given a view: the timed out ids of the report, without the
schedulers that are missing when it is read. -/
def missingReported (timedOutIds : Finset String) : HealthChecker :=
  { checker with missingSchedulers := checker.missingSchedulers ∪ (timedOutIds \ checker.missingSchedulers) }

end HealthChecker

/-! ## The checker and its requests -/

structure MissingReport where
  schedulers : Finset String
  timedOutIds : Finset String
  sentAt : Nat

inductive Reply where
  | ok | notOk | failed
  deriving DecidableEq

inductive HealthEvent where
  | clock (now : Int)
  | onServerAdded (address : SocketAddress)
  | onServerRemoved (address : SocketAddress)
  | reportResurrectedChildren
  | reportMissingChildren
  | resurrectedReply (request : Nat) (reply : Reply)
  | missingReply (request : Nat) (reply : Reply)

structure Watch where
  checker : HealthChecker
  now : Int
  resurrectedReports : LinkedMap Nat (Finset String)
  missingReports : LinkedMap Nat MissingReport
  nextRequest : Nat
  steps : Nat
  /-- When each host went away that was active and has not come back. -/
  awaySince : LinkedMap String Int
  onlineAt : LinkedMap String Nat
  /-- The hosts with an `OK` to a missing report that was sent since they went away. -/
  acknowledged : Finset String

namespace Watch

def start (checker : HealthChecker) : Watch := ⟨checker, 0, .empty, .empty, 0, 0, .empty, .empty, ∅⟩

variable (config : HealthCheckConfig) (s : Watch)

/-- The host has not come online since a step. -/
def offlineSince (step : Nat) (hostId : String) : Bool := (s.onlineAt.get hostId).all (fun n => decide (n < step))

def hostAdded (hostId : String) : Watch :=
  { s with
    checker := s.checker.hostAdded hostId
    awaySince := s.awaySince.remove hostId
    onlineAt := s.onlineAt.put hostId s.steps }

def hostRemoved (hostId : String) : Watch :=
  { s with
    checker := s.checker.hostRemoved s.now hostId
    awaySince := if hostId ∈ s.checker.activeSchedulers then s.awaySince.put hostId s.now else s.awaySince
    acknowledged := if hostId ∈ s.checker.activeSchedulers then s.acknowledged.erase hostId else s.acknowledged }

def reportResurrectedChildren : Watch :=
  if s.checker.resurrectedSchedulers = ∅ then s
  else
    { s with
      resurrectedReports := s.resurrectedReports.put s.nextRequest s.checker.resurrectedSchedulers
      nextRequest := s.nextRequest + 1 }

def missingReport : MissingReport where
  schedulers := s.checker.getTimedOutIds config s.now \ s.checker.missingSchedulers
  timedOutIds := s.checker.getTimedOutIds config s.now
  sentAt := s.steps

def reportMissingChildren : Watch :=
  if (s.missingReport config).schedulers = ∅ then s
  else
    { s with
      missingReports := s.missingReports.put s.nextRequest (s.missingReport config)
      nextRequest := s.nextRequest + 1 }

def resurrectedReply (request : Nat) (reply : Reply) : Watch :=
  match s.resurrectedReports.get request with
  | none => s
  | some _ =>
    { s with
      checker := if reply = .ok then s.checker.resurrectedReported else s.checker
      resurrectedReports := s.resurrectedReports.remove request }

def missingReply (request : Nat) (reply : Reply) : Watch :=
  match s.missingReports.get request with
  | none => s
  | some report =>
    { s with
      checker := if reply = .ok then s.checker.missingReported report.timedOutIds else s.checker
      missingReports := s.missingReports.remove request
      acknowledged := if reply = .ok then s.acknowledged ∪ report.schedulers.filter
        (fun id => s.offlineSince report.sentAt id) else s.acknowledged }

def apply : HealthEvent → Watch
  | .clock now => { s with now := now }
  | .onServerAdded address =>
    match s.checker.hostId address with
    | none => s
    | some hostId => s.hostAdded hostId
  | .onServerRemoved address =>
    match s.checker.hostId address with
    | none => s
    | some hostId => s.hostRemoved hostId
  | .reportResurrectedChildren => s.reportResurrectedChildren
  | .reportMissingChildren => s.reportMissingChildren config
  | .resurrectedReply request reply => s.resurrectedReply request reply
  | .missingReply request reply => s.missingReply request reply

def step (e : HealthEvent) : Watch := { s.apply config e with steps := s.steps + 1 }

/-! ## What is asked of the reports -/

/-- A host leaves the resurrected schedulers by going away, or by an `OK` to a report that had it. -/
def LeavesReported (e : HealthEvent) : Prop :=
  ∀ hostId ∈ s.checker.resurrectedSchedulers, hostId ∉ (s.step config e).checker.resurrectedSchedulers →
    (∃ address, e = .onServerRemoved address ∧ s.checker.hostId address = some hostId) ∨
    ∃ request schedulers, e = .resurrectedReply request .ok ∧ s.resurrectedReports.get request = some schedulers ∧
      hostId ∈ schedulers

/-- A missing report has every host that was active and has been away for the timeout, if none has been acknowledged
since it went away. -/
def ReportsAway (e : HealthEvent) : Prop :=
  e = .reportMissingChildren → ∀ hostId since, s.awaySince.get hostId = some since → s.now - since ≥ config.timeoutMs →
    hostId ∉ s.acknowledged →
    ∃ report, (s.step config e).missingReports.get s.nextRequest = some report ∧ hostId ∈ report.schedulers

def NoneBoth : Prop := ∀ hostId ∈ s.checker.missingSchedulers, hostId ∉ s.checker.activeSchedulers

/-- The step is one the checker copes with: no host is removed that has gone away already; when an `OK` to a resurrected
report arrives, no host is resurrected that the report did not have; and when an `OK` to a missing report arrives, none
of the hosts that had timed out when it was sent has come online since. -/
def Careful (s : Watch) : HealthEvent → Prop
  | .onServerRemoved address => ∀ hostId ∈ s.checker.hostId address, s.awaySince.get hostId = none
  | .resurrectedReply request .ok =>
    ∀ schedulers ∈ s.resurrectedReports.get request, s.checker.resurrectedSchedulers ⊆ schedulers
  | .missingReply request .ok =>
    ∀ report ∈ s.missingReports.get request, ∀ hostId ∈ report.timedOutIds, s.offlineSince report.sentAt hostId = true
  | _ => True

instance decidableCareful (s : Watch) : ∀ e, Decidable (Careful s e)
  | .onServerRemoved address =>
    inferInstanceAs (Decidable (∀ hostId ∈ s.checker.hostId address, s.awaySince.get hostId = none))
  | .resurrectedReply request .ok =>
    inferInstanceAs (Decidable (∀ schedulers ∈ s.resurrectedReports.get request,
      s.checker.resurrectedSchedulers ⊆ schedulers))
  | .missingReply request .ok =>
    inferInstanceAs (Decidable (∀ report ∈ s.missingReports.get request, ∀ hostId ∈ report.timedOutIds,
      s.offlineSince report.sentAt hostId = true))
  | .clock _ | .onServerAdded _ | .reportResurrectedChildren | .reportMissingChildren | .resurrectedReply _ .notOk
  | .resurrectedReply _ .failed | .missingReply _ .notOk | .missingReply _ .failed => .isTrue trivial

/-! ## What every step keeps -/

structure Inv : Prop where
  active : ∀ hostId ∈ s.checker.activeSchedulers, s.checker.schedulerUpdates.get hostId = none
  away : ∀ hostId since, s.awaySince.get hostId = some since → s.checker.schedulerUpdates.get hostId = some since
  noneBoth : NoneBoth s
  known : ∀ hostId since, s.awaySince.get hostId = some since → hostId ∈ s.checker.missingSchedulers →
    hostId ∈ s.acknowledged
  sent : ∀ request report, s.missingReports.get request = some report → report.sentAt ≤ s.steps
  /-- A host of a report that is active has come online since. -/
  online : ∀ request report, s.missingReports.get request = some report → ∀ hostId ∈ report.timedOutIds,
    hostId ∈ s.checker.activeSchedulers → s.offlineSince report.sentAt hostId = false
  /-- A host that was missing when a report was sent, and is not in it, still is. -/
  stillMissing : ∀ request report, s.missingReports.get request = some report → ∀ hostId ∈ report.timedOutIds,
    hostId ∉ report.schedulers → s.offlineSince report.sentAt hostId = true → hostId ∈ s.checker.missingSchedulers

variable {config} {s}

theorem mem_getTimedOutIds (checker : HealthChecker) (now : Int) (hostId : String) :
    hostId ∈ checker.getTimedOutIds config now ↔
      ∃ since, checker.schedulerUpdates.get hostId = some since ∧ now - since ≥ config.timeoutMs := by
  unfold HealthChecker.getTimedOutIds
  rw [List.mem_toFinset, List.mem_map]
  constructor
  · intro h
    obtain ⟨⟨id, since⟩, hmem, rfl⟩ := h
    obtain ⟨hentry, htime⟩ := List.mem_filter.1 hmem
    exact ⟨since, mem_entries_iff.1 hentry, of_decide_eq_true htime⟩
  · intro h
    obtain ⟨since, hget, htime⟩ := h
    exact ⟨(hostId, since), List.mem_filter.2 ⟨mem_entries_iff.2 hget, decide_eq_true htime⟩, rfl⟩

theorem mem_missingReported (checker : HealthChecker) (timedOutIds : Finset String) (hostId : String) :
    hostId ∈ (checker.missingReported timedOutIds).missingSchedulers ↔
      hostId ∈ checker.missingSchedulers ∨ hostId ∈ timedOutIds := by
  unfold HealthChecker.missingReported
  rw [Finset.union_sdiff_self_eq_union, Finset.mem_union]

theorem offlineSince_hostAdded (step : Nat) (k hostId : String) :
    (s.hostAdded k).offlineSince step hostId = if hostId = k then decide (s.steps < step) else s.offlineSince
    step hostId := by
  unfold offlineSince hostAdded
  simp only [get_put]
  split <;> rfl

theorem inv_start {role : SchedulerRole} {checker : HealthChecker} (h : HealthChecker.create role = some checker) :
    (start checker).Inv := by
  have hchecker : ∃ schedulers, checker = ⟨schedulers, .empty, ∅, ∅, ∅⟩ := by
    unfold HealthChecker.create at h
    split at h
    · cases h
    · obtain ⟨schedulers, -, rfl⟩ := Option.map_eq_some_iff.1 h
      exact ⟨schedulers, rfl⟩
  obtain ⟨schedulers, rfl⟩ := hchecker
  constructor <;> simp [start, NoneBoth]

section

variable (h : s.Inv)
include h

theorem Inv.tick : Inv { s with steps := s.steps + 1 } :=
  { h with sent := fun request report hr => Nat.le_succ_of_le (h.sent request report hr) }

theorem Inv.hostAdded (k : String) : (s.hostAdded k).Inv where
  active := by
    intro id hid
    show (s.checker.schedulerUpdates.remove k).get id = none
    rw [get_remove]
    split
    · rfl
    · rename_i hne
      exact h.active id (Finset.mem_of_mem_insert_of_ne hid hne)
  away := by
    intro id since hid
    have hne : id ≠ k := by
      intro heq
      simp [Watch.hostAdded, heq] at hid
    exact ((get_remove _ _ _).trans (if_neg hne)).trans (h.away id since (get_of_get_remove hid))
  noneBoth := by
    intro id hmissing hactive
    obtain ⟨hne, hmissing⟩ := Finset.mem_erase.1 hmissing
    exact h.noneBoth id hmissing (Finset.mem_of_mem_insert_of_ne hactive hne)
  known := by
    intro id since hid hmissing
    exact h.known id since (get_of_get_remove hid) (Finset.mem_of_mem_erase hmissing)
  sent := h.sent
  online := by
    intro request report hr id hid hactive
    rw [offlineSince_hostAdded]
    split
    · exact decide_eq_false (Nat.not_lt.2 (h.sent request report hr))
    · rename_i hne
      exact h.online request report hr id hid (Finset.mem_of_mem_insert_of_ne hactive hne)
  stillMissing := by
    intro request report hr id hid hnot hoff
    rw [offlineSince_hostAdded] at hoff
    split at hoff
    · exact absurd (of_decide_eq_true hoff) (Nat.not_lt.2 (h.sent request report hr))
    · rename_i hne
      exact Finset.mem_erase.2 ⟨hne, h.stillMissing request report hr id hid hnot hoff⟩

theorem Inv.hostRemoved (k : String) (hk : s.awaySince.get k = none) : (s.hostRemoved k).Inv := by
  have hawayOf : ∀ id since, (s.hostRemoved k).awaySince.get id = some since →
      (id = k ∧ k ∈ s.checker.activeSchedulers ∧ since = s.now) ∨ (id ≠ k ∧ s.awaySince.get id = some since) := by
    intro id since hid
    unfold Watch.hostRemoved at hid
    by_cases hactive : k ∈ s.checker.activeSchedulers
    · rw [if_pos hactive] at hid
      rcases get_put_cases hid with ⟨heq, hnow⟩ | hold
      · exact .inl ⟨heq, hactive, hnow.symm⟩
      · exact .inr hold
    · simp only [if_neg hactive] at hid
      refine .inr ⟨?_, hid⟩
      intro heq
      rw [heq, hk] at hid
      cases hid
  exact
    { active := by
        intro id hid
        obtain ⟨hne, hid⟩ := Finset.mem_erase.1 hid
        exact ((get_put _ _ _ _).trans (if_neg hne)).trans (h.active id hid)
      away := by
        intro id since hid
        rcases hawayOf id since hid with ⟨rfl, -, rfl⟩ | ⟨hne, haway⟩
        · exact (get_put _ _ _ _).trans (if_pos rfl)
        · exact ((get_put _ _ _ _).trans (if_neg hne)).trans (h.away id since haway)
      noneBoth := by
        intro id hmissing hactive
        exact h.noneBoth id hmissing (Finset.mem_of_mem_erase hactive)
      known := by
        intro id since hid hmissing
        rcases hawayOf id since hid with ⟨rfl, hactive, -⟩ | ⟨hne, haway⟩
        · exact absurd hactive (h.noneBoth id hmissing)
        · have hack := h.known id since haway hmissing
          unfold Watch.hostRemoved
          dsimp only
          split
          · exact Finset.mem_erase.2 ⟨hne, hack⟩
          · exact hack
      sent := h.sent
      online := by
        intro request report hr id hid hactive
        exact h.online request report hr id hid (Finset.mem_of_mem_erase hactive)
      stillMissing := h.stillMissing }

theorem Inv.reportResurrectedChildren : s.reportResurrectedChildren.Inv := by
  unfold Watch.reportResurrectedChildren
  split
  · exact h
  · exact { h with }

theorem Inv.reportMissingChildren : (s.reportMissingChildren config).Inv := by
  unfold Watch.reportMissingChildren
  split
  · exact h
  · -- a report is an earlier one or the one sent now
    have hreports : ∀ {P : MissingReport → Prop},
        (∀ request report, s.missingReports.get request = some report → P report) →
        P (s.missingReport config) → ∀ request report,
          (s.missingReports.put s.nextRequest (s.missingReport config)).get request = some report → P report := by
      intro P hold hnew request report hr
      rcases get_put_cases hr with ⟨-, rfl⟩ | ⟨-, hr⟩
      · exact hnew
      · exact hold request report hr
    exact
      { h with
        sent := hreports h.sent (Nat.le_refl _)
        online := by
          refine hreports h.online ?_
          intro id hid hactive
          obtain ⟨since, hget, -⟩ := (mem_getTimedOutIds _ _ _).1 hid
          rw [h.active id hactive] at hget
          cases hget
        stillMissing := by
          refine hreports h.stillMissing ?_
          intro id hid hnot _
          by_contra hmissing
          exact hnot (Finset.mem_sdiff.2 ⟨hid, hmissing⟩) }

theorem Inv.resurrectedReply (request : Nat) (reply : Reply) : (s.resurrectedReply request reply).Inv := by
  unfold Watch.resurrectedReply
  split
  · exact h
  · split <;> exact { h with }

theorem Inv.answered (request : Nat) : Inv { s with missingReports := s.missingReports.remove request } :=
  { h with
    sent := fun request' report' hr' => h.sent request' report' (get_of_get_remove hr')
    online := fun request' report' hr' => h.online request' report' (get_of_get_remove hr')
    stillMissing := fun request' report' hr' => h.stillMissing request' report' (get_of_get_remove hr') }

theorem Inv.missingReply (request : Nat) (reply : Reply) (hcareful : Careful s (.missingReply request reply)) :
    (s.missingReply request reply).Inv := by
  unfold Watch.missingReply
  split
  · exact h
  · rename_i report hr
    by_cases hok : reply = .ok
    · subst hok
      have hoff := hcareful report hr
      simp only [if_true]
      exact
        { h.answered request with
          noneBoth := by
            intro id hmissing hactive
            rcases (mem_missingReported _ _ _).1 hmissing with hmissing | hid
            · exact h.noneBoth id hmissing hactive
            · have hon := h.online request report hr id hid hactive
              rw [hoff id hid] at hon
              cases hon
          known := by
            intro id since haway hmissing
            rw [Finset.mem_union, Finset.mem_filter]
            rcases (mem_missingReported _ _ _).1 hmissing with hmissing | hid
            · exact .inl (h.known id since haway hmissing)
            · by_cases hsent : id ∈ report.schedulers
              · exact .inr ⟨hsent, hoff id hid⟩
              · exact .inl (h.known id since haway (h.stillMissing request report hr id hid hsent (hoff id hid)))
          stillMissing := fun request' report' hr' id hid hnot hoff' =>
            (mem_missingReported _ _ _).2
              (.inl ((h.answered request).stillMissing request' report' hr' id hid hnot hoff')) }
    · simp only [if_neg hok]
      exact h.answered request

theorem Inv.apply (e : HealthEvent) (hcareful : Careful s e) : (s.apply config e).Inv := by
  cases e with
  | clock now => exact { h with }
  | onServerAdded address =>
    unfold Watch.apply
    dsimp only
    split
    · exact h
    · exact h.hostAdded _
  | onServerRemoved address =>
    unfold Watch.apply
    dsimp only
    split
    · exact h
    · rename_i hostId hid
      exact h.hostRemoved hostId (hcareful hostId hid)
  | reportResurrectedChildren => exact h.reportResurrectedChildren
  | reportMissingChildren => exact h.reportMissingChildren
  | resurrectedReply request reply => exact h.resurrectedReply request reply
  | missingReply request reply => exact h.missingReply request reply hcareful

end

theorem apply_steps (s : Watch) (e : HealthEvent) : (s.apply config e).steps = s.steps := by
  cases e <;> dsimp only [Watch.apply]
  case onServerAdded | onServerRemoved => split <;> rfl
  case reportResurrectedChildren => unfold Watch.reportResurrectedChildren; split <;> rfl
  case reportMissingChildren => unfold Watch.reportMissingChildren; split <;> rfl
  case resurrectedReply => unfold Watch.resurrectedReply; split <;> rfl
  case missingReply => unfold Watch.missingReply; split <;> rfl

theorem Inv.step (s : Watch) (e : HealthEvent) (h : s.Inv) (hcareful : Careful s e) : (s.step config e).Inv := by
  have happly : (s.apply config e).Inv := h.apply e hcareful
  have htick := happly.tick
  rw [apply_steps] at htick
  exact htick

/-! ## What the steps do to the reports -/

theorem leavesReported (s : Watch) (e : HealthEvent) (hcareful : Careful s e) : LeavesReported config s e := by
  intro id hid hleft
  cases e with
  | clock now => exact absurd hid hleft
  | onServerAdded address =>
    refine absurd ?_ hleft
    dsimp only [Watch.step, Watch.apply]
    split
    · exact hid
    · exact Finset.mem_insert_of_mem hid
  | onServerRemoved address =>
    dsimp only [Watch.step, Watch.apply] at hleft
    split at hleft
    · exact absurd hid hleft
    · rename_i k hk
      by_cases heq : id = k
      · exact .inl ⟨address, rfl, heq ▸ hk⟩
      · exact absurd (Finset.mem_erase.2 ⟨heq, hid⟩) hleft
  | reportResurrectedChildren =>
    refine absurd ?_ hleft
    dsimp only [Watch.step, Watch.apply, Watch.reportResurrectedChildren]
    split <;> exact hid
  | reportMissingChildren =>
    refine absurd ?_ hleft
    dsimp only [Watch.step, Watch.apply, Watch.reportMissingChildren]
    split <;> exact hid
  | resurrectedReply request reply =>
    dsimp only [Watch.step, Watch.apply, Watch.resurrectedReply] at hleft
    split at hleft
    · exact absurd hid hleft
    · rename_i schedulers hget
      by_cases hok : reply = .ok
      · subst hok
        exact .inr ⟨request, schedulers, rfl, hget, hcareful schedulers hget hid⟩
      · rw [if_neg hok] at hleft
        exact absurd hid hleft
  | missingReply request reply =>
    refine absurd ?_ hleft
    dsimp only [Watch.step, Watch.apply, Watch.missingReply]
    split
    · exact hid
    · split <;> exact hid

theorem Inv.reportsAway (h : s.Inv) (e : HealthEvent) : ReportsAway config s e := by
  intro he id since haway htime hack
  subst he
  have hsent : id ∈ (s.missingReport config).schedulers := by
    refine Finset.mem_sdiff.2 ⟨(mem_getTimedOutIds _ _ _).2 ⟨since, h.away id since haway, htime⟩, ?_⟩
    intro hmissing
    exact hack (h.known id since haway hmissing)
  refine ⟨s.missingReport config, ?_, hsent⟩
  dsimp only [Watch.step, Watch.apply, Watch.reportMissingChildren]
  rw [if_neg (Finset.ne_empty_of_mem hsent), get_put, if_pos rfl]

end Watch

/-- **The health reports lose nothing while the replies find the hosts as the reports had them.**  In every run of
careful steps a host leaves the resurrected schedulers only by going away or by an `OK` to a report that had it, a
missing report has every host that has been away for the timeout and is not acknowledged, and no host is missing and
active. -/
theorem health_reports_lose_nothing (config : HealthCheckConfig) (role : SchedulerRole) (checker : HealthChecker)
    (events : List HealthEvent) (hcreate : HealthChecker.create role = some checker)
    (hcareful : Meets (Watch.step config) Watch.Careful (.start checker) events) :
    Meets (Watch.step config) (fun s e => s.LeavesReported config e ∧ s.ReportsAway config e) (.start checker) events ∧
      Always (Watch.step config) Watch.NoneBoth (.start checker) events := by
  have hstart := Watch.inv_start hcreate
  have hstep : ∀ s e, Watch.Inv s → Watch.Careful s e → (s.step config e).Inv := Watch.Inv.step
  constructor
  · refine Runs.meets_of_meets hstep ?_ hstart hcareful
    intro s e hs hc
    exact ⟨Watch.leavesReported s e hc, hs.reportsAway e⟩
  · exact (Runs.always_of_meets hstep hstart hcareful).mono (fun _ hs => hs.noneBoth)

def leaf (id address host : String) : ChildInfo := ⟨id, some address, 13010, none, some 1, some host⟩

def twoLeaves : SchedulerRole where
  id := "root"
  parentId := "None"
  schedulers := some ["leaf1", "leaf2"]
  schedulerChildren := [leaf "leaf1" "10.0.0.1" "host1", leaf "leaf2" "10.0.0.2" "host2"]
  hosts := none
  hostChildren := []

def twoSchedulers : HealthChecker where
  schedulers := LinkedMap.empty.putAll [(("10.0.0.1", 13010), some "host1"), (("10.0.0.2", 13010), some "host2")]
  schedulerUpdates := .empty
  missingSchedulers := ∅
  resurrectedSchedulers := ∅
  activeSchedulers := ∅

def tenSeconds : HealthCheckConfig := ⟨10000⟩

/-- A scheduler comes and goes, and each time the chairman is told in time. -/
def comesAndGoes : List HealthEvent :=
  [.onServerAdded ("10.0.0.1", 13010), .reportResurrectedChildren, .resurrectedReply 0 .ok,
    .onServerRemoved ("10.0.0.1", 13010), .clock 10000, .reportMissingChildren, .missingReply 1 .ok,
    .onServerAdded ("10.0.0.1", 13010)]

theorem comesAndGoes_loses_nothing :
    Meets (Watch.step tenSeconds) (fun s e => s.LeavesReported tenSeconds e ∧ s.ReportsAway tenSeconds e)
        (.start twoSchedulers) comesAndGoes ∧
      Always (Watch.step tenSeconds) Watch.NoneBoth (.start twoSchedulers) comesAndGoes :=
  health_reports_lose_nothing tenSeconds twoLeaves twoSchedulers comesAndGoes rfl (by decide +kernel)

/-- Another scheduler comes online before the `OK` for the first. -/
def resurrectedMeanwhile : List HealthEvent :=
  [.onServerAdded ("10.0.0.1", 13010), .reportResurrectedChildren, .onServerAdded ("10.0.0.2", 13010),
    .resurrectedReply 0 .ok]

/-- The scheduler is back before the `OK` to its missing report, and later goes away again. -/
def backMeanwhile : List HealthEvent :=
  [.onServerAdded ("10.0.0.1", 13010), .onServerRemoved ("10.0.0.1", 13010), .clock 10000, .reportMissingChildren,
    .onServerAdded ("10.0.0.1", 13010), .missingReply 0 .ok]

def goneAgain : List HealthEvent := backMeanwhile ++ [.onServerRemoved ("10.0.0.1", 13010), .clock 20000]

/-- The resurrected scheduler is forgotten without a report; the one that is back is missing and active; and when it has
gone away again for the timeout, no report is sent. -/
theorem late_reply_loses :
    ¬ Meets (Watch.step tenSeconds) (Watch.LeavesReported tenSeconds) (.start twoSchedulers) resurrectedMeanwhile ∧
      ¬ (run (Watch.step tenSeconds) (.start twoSchedulers) backMeanwhile).NoneBoth ∧
      ¬ (run (Watch.step tenSeconds) (.start twoSchedulers) goneAgain).ReportsAway tenSeconds
        .reportMissingChildren := by
  refine ⟨?_, ?_, ?_⟩
  · intro h
    rcases h.2.2.2.1 "host2" (by decide +kernel) (by decide +kernel) with ⟨address, he, -⟩ | ⟨request, schedulers,
      he, hget, hmem⟩
    · cases he
    · cases he
      have hsent : schedulers = {"host1"} := Option.some.inj (hget.symm.trans (by decide +kernel))
      rw [hsent] at hmem
      exact absurd hmem (by decide)
  · intro h
    exact h "host1" (by decide +kernel) (by decide +kernel)
  · intro h
    obtain ⟨report, hget, -⟩ := h rfl "host1" 10000 (by decide +kernel) (by decide +kernel) (by decide +kernel)
    have hnone : ((run (Watch.step tenSeconds) (.start twoSchedulers) goneAgain).step tenSeconds
        .reportMissingChildren).missingReports.size = 0 := by decide +kernel
    have hnone' := ((LinkedMap.size_eq_zero_iff _).1 hnone)
      (run (Watch.step tenSeconds) (.start twoSchedulers) goneAgain).nextRequest
    rw [hnone'] at hget
    cases hget

end Photon.RootScheduler
