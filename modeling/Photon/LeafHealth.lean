import Mathlib.Data.Rat.Defs
import Photon.Reports
import Photon.Runs
/-!
# LeafHealth — the health checker of the leaf scheduler

Two threads: the heartbeater pings the children one after the other, and the reporter tells the chairman in rounds which
of them are resurrected and which are missing.  The checker takes a child as reported when the chairman's answer is
`OK`; when a report fails it is made again in the next round.

`Health` is the checker with the position of the two threads, and with what the chairman was last told of each child.  A
report can be applied there and its answer be lost: until a later report about it is answered, the chairman may know the
opposite of what the checker takes as reported (`unanswered`).
-/
namespace Photon.LeafScheduler

open Reports (Held told)
open Runs (run Always Meets)

/-! ## The checker -/

structure AgentConfig where
  heartbeatIntervalSec : Int
  heartbeatTimeoutFactor : Int

structure HealthChecker where
  resurrectedChildren : Finset String
  missingChildren : Finset String
  seqnum : Nat
  /-- The number and the time of the last ping of each child that succeeded. -/
  lastUpdate : String → Nat × ℚ

namespace HealthChecker

def create (now : ℚ) : HealthChecker := ⟨∅, ∅, 0, fun _ => (0, now)⟩

variable (config : AgentConfig) (children : List String) (checker : HealthChecker)

def pinged (now : ℚ) (child : String) : HealthChecker :=
  { checker with lastUpdate := Function.update checker.lastUpdate child (checker.seqnum + 1, now) }

def timeout : ℚ := (config.heartbeatIntervalSec * config.heartbeatTimeoutFactor : Int)

def timedOut (now : ℚ) (child : String) : Bool :=
  decide (now - (checker.lastUpdate child).2 > timeout config) && decide ((checker.lastUpdate child).1 < checker.seqnum)

def activeChildren (now : ℚ) : Finset String :=
    children.toFinset.filter (fun child => checker.timedOut config now child = false)

def inactiveChildren (now : ℚ) : Finset String :=
    children.toFinset.filter (fun child => checker.timedOut config now child = true)

def newlyActive (now : ℚ) : Finset String := checker.activeChildren config children now \ checker.resurrectedChildren

def newlyInactive (now : ℚ) : Finset String := checker.inactiveChildren config children now \ checker.missingChildren

def resurrectedReported (newlyActive : Finset String) : HealthChecker :=
  { checker with
    resurrectedChildren := checker.resurrectedChildren ∪ newlyActive
    missingChildren := checker.missingChildren \ newlyActive }

def missingReported (newlyInactive : Finset String) : HealthChecker :=
  { checker with
    resurrectedChildren := checker.resurrectedChildren \ newlyInactive
    missingChildren := checker.missingChildren ∪ newlyInactive }

end HealthChecker

/-! ## The threads and the chairman -/

inductive Presence where
  | resurrected | missing
  deriving DecidableEq

/-- How a call to the chairman ends: with `OK`, with another result, or with an exception, for which the report was or
was not applied. -/
inductive ReportOutcome where
  | ok | notOk
  | failed (applied : Bool)
  deriving DecidableEq

def ReportOutcome.applied : ReportOutcome → Bool
  | .ok => true
  | .notOk => false
  | .failed applied => applied

/-- Where the reporter is: between two rounds, or in one before its first or its second report. -/
inductive Round where
  | waiting
  | resurrected (newlyActive newlyInactive : Finset String)
  | missing (newlyInactive : Finset String)

inductive HealthEvent where
  | clock (now : ℚ)
  | ping (answered : Bool)
  | endHeartbeat
  | beginReport
  | advanceReport (outcome : ReportOutcome)

structure Health where
  checker : HealthChecker
  now : ℚ
  toPing : List String
  round : Round
  chairman : String → Option Presence
  /-- The chairman was told the opposite of what they are taken as reported, without an answer. -/
  unanswered : Finset String

namespace Health

def start (children : List String) (now : ℚ) : Health := ⟨.create now, now, children, .waiting, fun _ => none, ∅⟩

variable (config : AgentConfig) (children : List String) (s : Health)

def activeChildren : Finset String := s.checker.activeChildren config children s.now

def inactiveChildren : Finset String := s.checker.inactiveChildren config children s.now

def ping (answered : Bool) : Health :=
  match s.toPing with
  | [] => s
  | child :: toPing =>
    { s with
      checker := if answered then s.checker.pinged s.now child else s.checker
      toPing := toPing }

def endHeartbeat : Health :=
  match s.toPing with
  | [] =>
    { s with
      checker := { s.checker with seqnum := s.checker.seqnum + 1 }
      toPing := children }
  | _ :: _ => s

def beginReport : Health :=
  match s.round with
  | .waiting =>
    { s with
      round := .resurrected (s.checker.newlyActive config children s.now)
        (s.checker.newlyInactive config children s.now) }
  | _ => s

def reportResurrected (newlyActive : Finset String) (outcome : ReportOutcome) : Health :=
  { s with
    checker := if outcome = .ok then s.checker.resurrectedReported newlyActive else s.checker
    chairman := if outcome.applied then told s.chairman newlyActive .resurrected else s.chairman
    unanswered := match outcome with
      | .ok => s.unanswered \ newlyActive
      | .failed true => s.unanswered ∪ newlyActive ∩ s.checker.missingChildren
      | _ => s.unanswered }

def reportMissing (newlyInactive : Finset String) (outcome : ReportOutcome) : Health :=
  { s with
    checker := if outcome = .ok then s.checker.missingReported newlyInactive else s.checker
    chairman := if outcome.applied then told s.chairman newlyInactive .missing else s.chairman
    unanswered := match outcome with
      | .ok => s.unanswered \ newlyInactive
      | .failed true => s.unanswered ∪ newlyInactive ∩ s.checker.resurrectedChildren
      | _ => s.unanswered }

def advanceReport (outcome : ReportOutcome) : Health :=
  match s.round with
  | .waiting => s
  | .resurrected newlyActive newlyInactive =>
    { (if newlyActive = ∅ then s else s.reportResurrected newlyActive outcome) with round := .missing newlyInactive }
  | .missing newlyInactive =>
    { (if newlyInactive = ∅ then s else s.reportMissing newlyInactive outcome) with round := .waiting }

def step : HealthEvent → Health
  | .clock now => { s with now := now }
  | .ping answered => s.ping answered
  | .endHeartbeat => s.endHeartbeat children
  | .beginReport => s.beginReport config children
  | .advanceReport outcome => s.advanceReport outcome

/-! ## What is asked of the reports -/

def NoneBoth : Prop := Disjoint s.checker.resurrectedChildren s.checker.missingChildren

/-- A child that a round would not report is known to the chairman as it is. -/
structure Agrees : Prop where
  active : ∀ child ∈ s.activeChildren config children, child ∉ s.checker.newlyActive config children s.now →
    s.chairman child = some .resurrected
  inactive : ∀ child ∈ s.inactiveChildren config children, child ∉ s.checker.newlyInactive config children s.now →
    s.chairman child = some .missing

/-- The step leaves the children alone that are in doubt: when a report is applied without an answer, its children that
are taken as reported otherwise are still as it says; and a child stays active or inactive until a report about it is
answered. -/
def Careful : HealthEvent → Prop
  | .advanceReport (.failed true) =>
    match s.round with
    | .waiting => True
    | .resurrected newlyActive _ => ∀ child ∈ newlyActive, child ∈ s.checker.missingChildren →
        child ∉ s.inactiveChildren config children
    | .missing newlyInactive => ∀ child ∈ newlyInactive, child ∈ s.checker.resurrectedChildren →
        child ∈ s.inactiveChildren config children
  | e => ∀ child ∈ s.unanswered,
      (child ∈ (s.step config children e).inactiveChildren config children ↔ child ∈ s.inactiveChildren config children)

/-! ## What every step keeps -/

def RoundFresh : Prop :=
  match s.round with
  | .waiting => True
  | .resurrected newlyActive newlyInactive => newlyActive ⊆ children.toFinset ∧
      Disjoint newlyActive s.checker.resurrectedChildren ∧ Disjoint newlyInactive s.checker.missingChildren
  | .missing newlyInactive => Disjoint newlyInactive s.checker.missingChildren

structure Inv : Prop where
  held : Held s.checker.resurrectedChildren s.checker.missingChildren .resurrected .missing s.chairman s.unanswered
    (fun child => child ∉ s.inactiveChildren config children)
  listed : s.checker.resurrectedChildren ⊆ children.toFinset
  fresh : RoundFresh children s

variable {config} {children} {s}

theorem mem_activeChildren {child : String} :
    child ∈ s.activeChildren config children ↔ child ∈ children.toFinset ∧
    child ∉ s.inactiveChildren config children := by
  unfold activeChildren inactiveChildren HealthChecker.activeChildren HealthChecker.inactiveChildren
  rw [Finset.mem_filter, Finset.mem_filter]
  cases s.checker.timedOut config s.now child <;> simp

theorem Inv.agrees (h : Inv config children s) : Agrees config children s where
  active := by
    intro child hactive hnot
    obtain ⟨-, hin⟩ := mem_activeChildren.1 hactive
    have hreported : child ∈ s.checker.resurrectedChildren := by
      by_contra hmem
      exact hnot (Finset.mem_sdiff.2 ⟨hactive, hmem⟩)
    exact h.held.known_left hreported hin
  inactive := by
    intro child hin hnot
    have hreported : child ∈ s.checker.missingChildren := by
      by_contra hmem
      exact hnot (Finset.mem_sdiff.2 ⟨hin, hmem⟩)
    exact h.held.symm.known_left hreported (not_not.2 hin)

theorem Agrees.resurrected (h : Agrees config children s)
    (hlisted : s.checker.resurrectedChildren ⊆ children.toFinset) :
    ∀ child ∈ s.checker.resurrectedChildren, child ∉ s.inactiveChildren config children →
      s.chairman child = some .resurrected := by
  intro child hmem hin
  refine h.active child (mem_activeChildren.2 ⟨hlisted hmem, hin⟩) ?_
  intro hnew
  exact (Finset.mem_sdiff.1 hnew).2 hmem

theorem Agrees.missing (h : Agrees config children s) :
    ∀ child ∈ s.checker.missingChildren, ¬ child ∉ s.inactiveChildren config children →
    s.chairman child = some .missing := by
  intro child hmem hin
  refine h.inactive child (not_not.1 hin) ?_
  intro hnew
  exact (Finset.mem_sdiff.1 hnew).2 hmem

theorem inv_start (now : ℚ) : Inv config children (start children now) :=
  ⟨Held.empty, Finset.empty_subset _, trivial⟩

/-! ## Pings and the clock -/

/-- Nothing is reported: only the time, the pings and the position of the threads change. -/
structure Unreported (s t : Health) : Prop where
  resurrected : t.checker.resurrectedChildren = s.checker.resurrectedChildren
  missing : t.checker.missingChildren = s.checker.missingChildren
  chairman : t.chairman = s.chairman
  unanswered : t.unanswered = s.unanswered

theorem Unreported.noneBoth {t : Health} (hsame : Unreported s t) (h : NoneBoth s) : NoneBoth t := by
  unfold NoneBoth
  rw [hsame.resurrected, hsame.missing]
  exact h

def Quiet : HealthEvent → Prop
  | .advanceReport _ => False
  | _ => True

variable {e : HealthEvent}

theorem unreported_step (s : Health) (he : Quiet e) : Unreported s (s.step config children e) := by
  cases e with
  | clock now => exact ⟨rfl, rfl, rfl, rfl⟩
  | ping answered =>
    dsimp only [step, ping]
    split
    · exact ⟨rfl, rfl, rfl, rfl⟩
    · cases answered <;> exact ⟨rfl, rfl, rfl, rfl⟩
  | endHeartbeat =>
    dsimp only [step, endHeartbeat]
    split <;> exact ⟨rfl, rfl, rfl, rfl⟩
  | beginReport =>
    dsimp only [step, beginReport]
    split <;> exact ⟨rfl, rfl, rfl, rfl⟩
  | advanceReport outcome => exact he.elim

theorem fresh_step (h : RoundFresh children s) (he : Quiet e) : RoundFresh children (s.step config children e) := by
  cases e with
  | clock now => exact h
  | ping answered =>
    dsimp only [step, ping]
    split
    · exact h
    · cases answered <;> exact h
  | endHeartbeat =>
    dsimp only [step, endHeartbeat]
    split <;> exact h
  | beginReport =>
    dsimp only [step, beginReport]
    split
    · exact ⟨(Finset.sdiff_subset).trans (Finset.filter_subset _ _), Finset.sdiff_disjoint, Finset.sdiff_disjoint⟩
    · exact h
  | advanceReport outcome => exact he.elim

theorem careful_quiet (he : Quiet e) : Careful config children s e ↔ ∀ child ∈ s.unanswered,
    (child ∈ (s.step config children e).inactiveChildren config children ↔
    child ∈ s.inactiveChildren config children) := by
  cases e with
  | advanceReport outcome => exact he.elim
  | _ => exact Iff.rfl

theorem Inv.quiet (h : Inv config children s) (he : Quiet e) (hcareful : Careful config children s e) :
    Inv config children (s.step config children e) := by
  have hsame : Unreported s (s.step config children e) := unreported_step s he
  have hchange := (careful_quiet he).1 hcareful
  refine ⟨?_, ?_, fresh_step h.fresh he⟩
  · rw [hsame.resurrected, hsame.missing, hsame.chairman, hsame.unanswered]
    exact h.held.change (fun child hdoubt => not_congr (hchange child hdoubt))
  · rw [hsame.resurrected]
    exact h.listed

theorem Inv.careful_of_quiet (h : Inv config children s) (he : Quiet e)
    (hagrees : Agrees config children (s.step config children e)) : Careful config children s e := by
  have hsame : Unreported s (s.step config children e) := unreported_step s he
  have hlisted : (s.step config children e).checker.resurrectedChildren ⊆ children.toFinset := by
    rw [hsame.resurrected]
    exact h.listed
  have hleft := hagrees.resurrected hlisted
  have hright := hagrees.missing
  rw [hsame.resurrected, hsame.chairman] at hleft
  rw [hsame.missing, hsame.chairman] at hright
  refine (careful_quiet he).2 ?_
  intro child hdoubt
  exact not_iff_not.1 (h.held.change_only (by decide) hleft hright child hdoubt)

/-! ## The reports -/

theorem inactive_advanceReport (s : Health) (outcome : ReportOutcome) :
    (s.advanceReport outcome).inactiveChildren config children = s.inactiveChildren config children := by
  unfold advanceReport
  split
  · rfl
  · split
    · rfl
    · cases outcome <;> rfl
  · split
    · rfl
    · cases outcome <;> rfl

theorem Inv.advanceReport (h : Inv config children s) (outcome : ReportOutcome)
    (hcareful : Careful config children s (.advanceReport outcome)) :
    Inv config children (s.advanceReport outcome) := by
  have hfresh := h.fresh
  unfold RoundFresh at hfresh
  unfold Health.advanceReport
  cases hround : s.round with
  | waiting => exact h
  | resurrected newlyActive newlyInactive =>
    rw [hround] at hfresh
    obtain ⟨hlisted, hactive, hinactive⟩ := hfresh
    have hkept : Inv config children { s with round := .missing newlyInactive } := ⟨h.held, h.listed, hinactive⟩
    dsimp only
    split
    · exact hkept
    · cases outcome with
      | ok =>
        exact ⟨h.held.answered newlyActive, Finset.union_subset h.listed hlisted,
          hinactive.mono_right Finset.sdiff_subset⟩
      | notOk => exact hkept
      | failed applied =>
        cases applied with
        | false => exact hkept
        | true =>
          simp only [Careful, hround] at hcareful
          exact ⟨h.held.applied hactive hcareful, h.listed, hinactive⟩
  | missing newlyInactive =>
    rw [hround] at hfresh
    have hkept : Inv config children { s with round := .waiting } := ⟨h.held, h.listed, trivial⟩
    dsimp only
    split
    · exact hkept
    · cases outcome with
      | ok =>
        have hanswered := (h.held.symm.answered newlyInactive).symm.change fun _ _ => not_not.symm
        exact ⟨hanswered, Finset.sdiff_subset.trans h.listed, trivial⟩
      | notOk => exact hkept
      | failed applied =>
        cases applied with
        | false => exact hkept
        | true =>
          simp only [Careful, hround] at hcareful
          have happlied := h.held.symm.applied hfresh fun child hnew hmem => not_not.2 (hcareful child hnew hmem)
          exact ⟨happlied.symm.change fun _ _ => not_not.symm, h.listed, trivial⟩

/-- A report whose answer is lost must still be true: the chairman is told it, and the checker takes nothing as
reported. -/
theorem Inv.careful_of_lost (h : Inv config children s)
    (hagrees : Agrees config children (s.advanceReport (.failed true))) :
    Careful config children s (.advanceReport (.failed true)) := by
  unfold Health.advanceReport at hagrees
  simp only [Careful]
  cases hround : s.round with
  | waiting => trivial
  | resurrected newlyActive newlyInactive =>
    rw [hround] at hagrees
    dsimp only at hagrees ⊢
    intro child hnew
    rw [if_neg (Finset.ne_empty_of_mem hnew)] at hagrees
    exact Reports.applied_only (by decide) hagrees.missing child hnew
  | missing newlyInactive =>
    rw [hround] at hagrees
    dsimp only at hagrees ⊢
    intro child hnew
    rw [if_neg (Finset.ne_empty_of_mem hnew)] at hagrees
    exact Reports.applied_only (by decide) (hagrees.resurrected h.listed) child hnew

theorem Inv.step (s : Health) (e : HealthEvent) (h : Inv config children s) (hcareful : Careful config children s e) :
    Inv config children (s.step config children e) := by
  cases e with
  | advanceReport outcome => exact h.advanceReport outcome hcareful
  | _ => exact h.quiet trivial hcareful

theorem Inv.careful (s : Health) (e : HealthEvent) (h : Inv config children s)
    (hagrees : Agrees config children (s.step config children e)) : Careful config children s e := by
  cases e with
  | advanceReport outcome =>
    by_cases hlost : outcome = .failed true
    · subst hlost
      exact h.careful_of_lost hagrees
    · have hsame : ∀ child ∈ s.unanswered, (child ∈ (s.advanceReport outcome).inactiveChildren config children ↔
          child ∈ s.inactiveChildren config children) := by
        intro child _
        rw [inactive_advanceReport]
      cases outcome with
      | failed applied =>
        cases applied with
        | false => exact hsame
        | true => exact absurd rfl hlost
      | _ => exact hsame
  | _ => exact h.careful_of_quiet trivial hagrees

theorem NoneBoth.step (s : Health) (e : HealthEvent) (h : NoneBoth s) : NoneBoth (s.step config children e) := by
  cases e with
  | advanceReport outcome =>
    dsimp only [Health.step, Health.advanceReport]
    split
    · exact h
    · split
      · exact h
      · cases outcome with
        | ok => exact Reports.disjoint_answered h _
        | _ => exact h
    · split
      · exact h
      · cases outcome with
        | ok => exact (Reports.disjoint_answered h.symm _).symm
        | _ => exact h
  | _ => exact Unreported.noneBoth (unreported_step s (by trivial)) h

end Health

/-- **The reports converge exactly while no child in doubt changes.**  The resurrected and the missing children are
disjoint in every run.  What a round would not report is known to the chairman as it is, in every state of the run,
exactly if every step is careful. -/
theorem reports_agree_iff (config : AgentConfig) (children : List String) (now : ℚ) (events : List HealthEvent) :
    Always (Health.step config children) Health.NoneBoth (.start children now) events ∧
      (Always (Health.step config children) (Health.Agrees config children) (.start children now) events ↔
        Meets (Health.step config children) (Health.Careful config children) (.start children now) events) := by
  constructor
  · exact Runs.always_of_inv Health.NoneBoth.step events (Finset.disjoint_empty_left _)
  · exact Runs.always_iff_meets_of_inv Health.Inv.step (fun _ h => h.agrees) Health.Inv.careful (Health.inv_start now)

def everyTenSeconds : AgentConfig := ⟨10, 3⟩

/-- The host is reported, times out, is reported as missing without an answer, and is back before the next round. -/
def backAfterLostReply : List HealthEvent :=
  [.beginReport, .advanceReport .ok, .advanceReport .ok, .ping false, .endHeartbeat, .clock 31,
    .beginReport, .advanceReport .ok, .advanceReport (.failed true), .ping true]

/-- The next round has nothing to report, and the chairman was last told that the host is missing. -/
theorem lost_reply_not_corrected :
    let s := run (Health.step everyTenSeconds ["host1"]) (.start ["host1"] 0) backAfterLostReply
    "host1" ∈ s.activeChildren everyTenSeconds ["host1"] ∧ s.checker.newlyActive everyTenSeconds ["host1"] s.now = ∅ ∧
      s.checker.newlyInactive everyTenSeconds ["host1"] s.now = ∅ ∧ s.chairman "host1" = some .missing := by
  decide +kernel

end Photon.LeafScheduler
