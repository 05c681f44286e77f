import Mathlib.Algebra.Order.Field.Basic
import Mathlib.Tactic.Linarith
import Photon.Runs
import Photon.XenonTask
/-!
# ChildAggregator — the children of a task are counted, and its parent is notified

`ChildTaskAggregatorService` counts the children that have ended and notifies the parent when the last one has, or as
soon as too many have failed.  It then asks for its own deletion, and takes patches until that has happened.  After an
early decision nothing is expected any more, and the count of what is expected goes below zero; the next failure sets it
back to zero, at which the parent is notified.
-/
namespace Photon.Deployer.ChildTaskAggregator

open List
open Runs (run Meets)
open Xenon (TaskStage)

structure ChildPatch where
  stage : TaskStage
  failure : Option String
  deriving DecidableEq

/-- What the parent is sent: the body that was given for it, or the patch of a child. -/
inductive Body where
  | parentPatchBody
  | child (patch : ChildPatch)
  deriving DecidableEq

structure State where
  parentPatchBody : Body
  pendingCompletionCount : Int
  errorThreshold : ℚ
  finishedCount : Int
  failureCount : Int
  deriving DecidableEq

def State.failureRatio (state : State) : ℚ :=
  state.failureCount / (state.finishedCount + state.failureCount + state.pendingCompletionCount : Int)

def State.fail (state : State) (patch : ChildPatch) : State :=
  let current := { state with
    pendingCompletionCount := state.pendingCompletionCount - 1
    failureCount := state.failureCount + 1 }
  if current.errorThreshold < current.failureRatio then
    { current with parentPatchBody := .child patch, pendingCompletionCount := 0 }
  else current

/-- A patch of a child that has not ended throws. -/
def State.handlePatch (state : State) (patch : ChildPatch) : Option State :=
  match patch.stage with
  | .failed | .cancelled => some (state.fail patch)
  | .finished => some { state with
      pendingCompletionCount := state.pendingCompletionCount - 1
      finishedCount := state.finishedCount + 1 }
  | .created | .started => none

/-- The service, until it is deleted, with what it has sent to the parent and the patches that have come. -/
structure System where
  service : Option State
  deleteRequested : Bool
  sent : List Body
  patches : List ChildPatch
  deriving DecidableEq

inductive Event where
  | patch (patch : ChildPatch)
  | deleted

/-- The patch has been handled: the parent is notified, and the deletion requested, where nothing is expected any
more. -/
def System.handled (s : System) (state : State) : System :=
  if state.pendingCompletionCount = 0 then
    { s with service := some state, deleteRequested := true, sent := s.sent ++ [state.parentPatchBody] }
  else { s with service := some state }

def System.step (s : System) : Event → System
  | .patch patch =>
    let s' := { s with patches := s.patches ++ [patch] }
    match s.service.bind fun state => state.handlePatch patch with
    | some state => s'.handled state
    | none => s'
  | .deleted => if s.deleteRequested then { s with service := none } else s

def System.start (n : Nat) (errorThreshold : ℚ) : System :=
    ⟨some ⟨.parentPatchBody, n, errorThreshold, 0, 0⟩, false, [], []⟩

/-! ## Notifying the parent -/

def ChildPatch.isFailure (patch : ChildPatch) : Bool := patch.stage = .failed || patch.stage = .cancelled

def failures (patches : List ChildPatch) : Nat := patches.countP ChildPatch.isFailure

/-- **The parent is notified once and correctly.** -/
def Notified (n : Nat) (errorThreshold : ℚ) (patches : List ChildPatch) (sent : List Body) : Prop :=
  ∃ body, sent = [body] ∧ (body = .parentPatchBody ↔ (failures patches : ℚ) / n ≤ errorThreshold) ∧
    (body ≠ .parentPatchBody → ∃ patch ∈ patches, patch.isFailure = true ∧ body = .child patch)

def childPatches : List Event → List ChildPatch
  | [] => []
  | .patch patch :: events => patch :: childPatches events
  | .deleted :: events => childPatches events

/-- A failure does not reach a service that has notified the parent. -/
def Timely (s : System) : Event → Prop
  | .patch patch => patch.isFailure = true → s.sent = [] ∨ s.service = none
  | .deleted => True

/-! ## The phases -/

structure Waiting (n : Nat) (errorThreshold : ℚ) (s : System) (state : State) : Prop where
  service : s.service = some state
  sent : s.sent = []
  requested : s.deleteRequested = false
  body : state.parentPatchBody = .parentPatchBody
  threshold : state.errorThreshold = errorThreshold
  failureCount : state.failureCount = failures s.patches
  finishedCount : state.finishedCount + state.failureCount = s.patches.length
  pending : state.pendingCompletionCount = n - s.patches.length
  expected : s.patches.length < n
  tolerated : (failures s.patches : ℚ) ≤ errorThreshold * n

structure Succeeded (n : Nat) (errorThreshold : ℚ) (s : System) : Prop where
  sent : s.sent = [.parentPatchBody]
  all : s.patches.length = n
  tolerated : (failures s.patches : ℚ) ≤ errorThreshold * n

structure Late (errorThreshold : ℚ) (s : System) (state : State) : Prop where
  threshold : state.errorThreshold = errorThreshold
  failureCount : state.failureCount = failures s.patches
  finishedCount : state.finishedCount + state.failureCount = s.patches.length
  pending : state.pendingCompletionCount ≤ 0
  total : 0 < state.finishedCount + state.failureCount + state.pendingCompletionCount

structure Failed (n : Nat) (errorThreshold : ℚ) (s : System) : Prop where
  sent : s.sent ≠ []
  bodies : ∀ body ∈ s.sent, ∃ patch ∈ s.patches, patch.isFailure = true ∧ body = .child patch
  exceeded : errorThreshold * n < failures s.patches
  late : ∀ state, s.service = some state → Late errorThreshold s state

inductive Phase (n : Nat) (errorThreshold : ℚ) (s : System) : Prop
  | waiting (state : State) (h : Waiting n errorThreshold s state)
  | succeeded (h : Succeeded n errorThreshold s)
  | failed (h : Failed n errorThreshold s)

def OfChildren (n : Nat) (s : System) : Event → Prop
  | .patch patch => patch.stage.isFinal = true ∧ s.patches.length < n
  | .deleted => True

section

variable {n : Nat} {t : ℚ} {s : System} {state : State} {patch : ChildPatch}

theorem failures_append (patches : List ChildPatch) (patch : ChildPatch) :
    failures (patches ++ [patch]) = failures patches + if patch.isFailure then 1 else 0 := by
  rw [failures, countP_append, countP_singleton]
  rfl

theorem length_append_patch (patches : List ChildPatch) (patch : ChildPatch) :
    (patches ++ [patch]).length = patches.length + 1 := length_append

theorem stage_cases (h : patch.stage.isFinal = true) :
    patch.isFailure = true ∧ (∀ state : State, state.handlePatch patch = some (state.fail patch)) ∨
    patch.isFailure = false ∧ ∀ state : State, state.handlePatch patch = some { state with
      pendingCompletionCount := state.pendingCompletionCount - 1
      finishedCount := state.finishedCount + 1 } := by
  obtain ⟨stage, failure⟩ := patch
  cases stage with
  | created | started => cases h
  | finished => exact .inr ⟨rfl, fun _ => rfl⟩
  | failed | cancelled => exact .inl ⟨rfl, fun _ => rfl⟩

theorem threshold_lt_ratio {total : Int}
    (htotal : state.finishedCount + state.failureCount + state.pendingCompletionCount = total)
    (hpos : 0 < total) : t < state.failureRatio ↔ t * total < state.failureCount := by
  rw [State.failureRatio, htotal, lt_div_iff₀ (Int.cast_pos.2 hpos)]

theorem State.fail_cases (state : State) (patch : ChildPatch) {total : Int}
    (htotal : state.finishedCount + state.failureCount + state.pendingCompletionCount = total) (hpos : 0 < total) :
    state.errorThreshold * total < ((state.failureCount + 1 : Int) : ℚ) ∧
      state.fail patch = ⟨.child patch, 0, state.errorThreshold, state.finishedCount, state.failureCount + 1⟩ ∨
    ((state.failureCount + 1 : Int) : ℚ) ≤ state.errorThreshold * total ∧
      state.fail patch = ⟨state.parentPatchBody, state.pendingCompletionCount - 1, state.errorThreshold,
        state.finishedCount, state.failureCount + 1⟩ := by
  have hratio := @threshold_lt_ratio state.errorThreshold { state with
    pendingCompletionCount := state.pendingCompletionCount - 1
    failureCount := state.failureCount + 1 } total (by dsimp only; omega) hpos
  by_cases hlt : state.errorThreshold * total < ((state.failureCount + 1 : Int) : ℚ)
  · exact .inl ⟨hlt, if_pos (hratio.2 hlt)⟩
  · exact .inr ⟨not_lt.1 hlt, if_neg fun h => hlt (hratio.1 h)⟩

theorem phase_handled (hsent : s.sent = []) (hrequested : s.deleteRequested = false)
    (hbody : state.parentPatchBody = .parentPatchBody)
    (hthreshold : state.errorThreshold = t) (hfailure : state.failureCount = failures s.patches)
    (hfinished : state.finishedCount + state.failureCount = s.patches.length)
    (hpending : state.pendingCompletionCount = n - s.patches.length) (hle : s.patches.length ≤ n)
    (htolerated : (failures s.patches : ℚ) ≤ t * n) : Phase n t (s.handled state) := by
  rw [System.handled]
  split
  · refine .succeeded ⟨?_, by dsimp only; omega, htolerated⟩
    rw [hsent, hbody]
    rfl
  · exact .waiting state ⟨rfl, hsent, hrequested, hbody, hthreshold, hfailure, hfinished,
      hpending, by dsimp only; omega, htolerated⟩

theorem step_some (hservice : s.service = some state) {next : State} (hnext : state.handlePatch patch = some next) :
    s.step (.patch patch) = { s with patches := s.patches ++ [patch] }.handled next := by
  simp only [System.step, hservice, Option.bind_some, hnext]

theorem step_deleted (hservice : s.service = none) :
    s.step (.patch patch) = { s with patches := s.patches ++ [patch] } := by
  simp only [System.step, hservice, Option.bind_none]

theorem Waiting.step (h : Waiting n t s state) (hfinal : patch.stage.isFinal = true) :
    Phase n t (s.step (.patch patch)) := by
  obtain ⟨hservice, hsent, hrequested, hbody, rfl, hfailure, hfinished, hpending, hexpected, htolerated⟩ := h
  have htotal : state.finishedCount + state.failureCount + state.pendingCompletionCount = n := by omega
  have hlength := length_append_patch s.patches patch
  have hcount := failures_append s.patches patch
  rcases stage_cases hfinal with ⟨hfail, hhandle⟩ | ⟨hfail, hhandle⟩
  · rw [step_some hservice (hhandle state)]
    rw [hfail, if_pos rfl] at hcount
    have hcast : ((state.failureCount + 1 : Int) : ℚ) = failures (s.patches ++ [patch]) := by
      rw [hcount, hfailure]
      norm_cast
    rcases state.fail_cases patch htotal (by omega) with ⟨hexceeded, heq⟩ | ⟨htolerated', heq⟩
    · rw [heq, System.handled, if_pos rfl]
      rw [hcast] at hexceeded
      refine .failed ⟨by simp only [ne_eq, append_eq_nil_iff, reduceCtorEq, and_false, not_false_eq_true], ?_,
        hexceeded, ?_⟩
      · intro body hmem
        rw [hsent] at hmem
        refine ⟨patch, mem_append_right _ (mem_singleton.2 rfl), hfail, ?_⟩
        exact mem_singleton.1 hmem
      · intro state' hstate'
        cases hstate'
        exact ⟨rfl, by dsimp only; omega, by dsimp only; omega, le_refl _, by dsimp only; omega⟩
    · rw [heq]
      rw [hcast] at htolerated'
      exact phase_handled hsent hrequested hbody rfl (by dsimp only; omega) (by dsimp only; omega)
        (by dsimp only; omega) (by dsimp only; omega) htolerated'
  · rw [step_some hservice (hhandle state)]
    rw [hfail] at hcount
    have hsame : failures (s.patches ++ [patch]) = failures s.patches := hcount
    refine phase_handled hsent hrequested hbody rfl ?_ (by dsimp only; omega) (by dsimp only; omega)
      (by dsimp only; omega) ?_
    · dsimp only
      omega
    · dsimp only
      rw [hsame]
      exact htolerated

/-- **A patch comes after too many have failed**: a failure notifies the parent once more, if the service is still
there. -/
theorem Failed.step (ht : 0 ≤ t) (h : Failed n t s) (hfinal : patch.stage.isFinal = true) (hlt : s.patches.length < n) :
    Failed n t (s.step (.patch patch)) ∧
    (s.step (.patch patch)).sent.length = s.sent.length + if patch.isFailure = true ∧
      s.service ≠ none then 1 else 0 := by
  obtain ⟨hsent, hbodies, hexceeded, hlate⟩ := h
  have hlength := length_append_patch s.patches patch
  have hcount := failures_append s.patches patch
  have hmono : t * n < failures (s.patches ++ [patch]) := by
    refine lt_of_lt_of_le hexceeded (Nat.cast_le.2 ?_)
    omega
  have hbodies' : ∀ body ∈ s.sent, ∃ p ∈ s.patches ++ [patch], p.isFailure = true ∧ body = .child p := by
    intro body hmem
    obtain ⟨p, hp, hrest⟩ := hbodies body hmem
    exact ⟨p, mem_append_left _ hp, hrest⟩
  cases hservice : s.service with
  | none =>
    rw [step_deleted hservice, if_neg fun h => h.2 rfl]
    exact ⟨⟨hsent, hbodies', hmono, fun state' hstate' => nomatch hservice.symm.trans hstate'⟩, rfl⟩
  | some state =>
    obtain ⟨rfl, hfailure, hfinished, hpending, htotal⟩ := hlate state hservice
    rcases stage_cases hfinal with ⟨hfail, hhandle⟩ | ⟨hfail, hhandle⟩
    · rw [step_some hservice (hhandle state), hfail, if_pos ⟨rfl, nofun⟩]
      rw [hfail, if_pos rfl] at hcount
      rcases state.fail_cases patch rfl htotal with ⟨-, heq⟩ | ⟨htolerated, -⟩
      · rw [heq, System.handled, if_pos rfl]
        refine ⟨⟨by simp only [ne_eq, append_eq_nil_iff, reduceCtorEq, and_false, not_false_eq_true], ?_, hmono, ?_⟩,
          length_append⟩
        · intro body hmem
          rcases mem_append.1 hmem with hold | hnew
          · exact hbodies' body hold
          · exact ⟨patch, mem_append_right _ (mem_singleton.2 rfl), hfail, mem_singleton.1 hnew⟩
        · intro state' hstate'
          cases hstate'
          exact ⟨rfl, by dsimp only; omega, by dsimp only; omega, le_refl _, by dsimp only; omega⟩
      · -- the ratio is over the patches that have come, which are at most `n`
        exfalso
        have htotal' : ((state.finishedCount + state.failureCount + state.pendingCompletionCount : Int) : ℚ) ≤ n := by
          have hle : state.finishedCount + state.failureCount + state.pendingCompletionCount ≤ (n : Int) := by omega
          exact_mod_cast hle
        have hbound := mul_le_mul_of_nonneg_left htotal' ht
        have hfailures : ((state.failureCount + 1 : Int) : ℚ) = failures s.patches + 1 := by
          rw [hfailure]
          norm_cast
        rw [hfailures] at htolerated
        linarith
    · have hnot : state.pendingCompletionCount - 1 ≠ 0 := by omega
      have hstep := step_some hservice (hhandle state)
      rw [System.handled, if_neg hnot] at hstep
      rw [hstep, hfail, if_neg fun h => nomatch h.1]
      rw [hfail] at hcount
      have hsame : failures (s.patches ++ [patch]) = failures s.patches := hcount
      refine ⟨⟨hsent, hbodies', hmono, fun state' hstate' => ?_⟩, rfl⟩
      cases hstate'
      exact ⟨rfl, by dsimp only; omega, by dsimp only; omega, by dsimp only; omega, by dsimp only; omega⟩

/-- **A step keeps the phases.** -/
theorem Phase.step (ht : 0 ≤ t) (s : System) (event : Event) (h : Phase n t s) (hguard : OfChildren n s event) :
    Phase n t (s.step event) := by
  cases event with
  | patch patch =>
    cases h with
    | waiting state h => exact h.step hguard.1
    | succeeded h => exact absurd h.all (Nat.ne_of_lt hguard.2)
    | failed h => exact .failed (h.step ht hguard.1 hguard.2).1
  | deleted =>
    rw [System.step]
    split
    · rename_i hrequested
      cases h with
      | waiting state h => exact absurd (h.requested.symm.trans hrequested) nofun
      | succeeded h => exact .succeeded { h with }
      | failed h => exact .failed { h with late := nofun }
    · exact h

def excess (s : System) : Int := -((s.sent.length - 1 : Nat) : Int)

theorem excess_of_nothing_sent (s : System) (patch : ChildPatch) (h : s.sent = []) :
    excess (s.step (.patch patch)) = excess s := by
  simp only [System.step]
  split
  · rw [System.handled]
    split
    · simp only [excess, h]
      rfl
    · rfl
  · rfl

/-- **The parent is notified again exactly by a failure that is not timely.** -/
theorem excess_step (ht : 0 ≤ t) (s : System) (event : Event) (h : Phase n t s) (hguard : OfChildren n s event) :
    excess (s.step event) ≤ excess s ∧ (excess (s.step event) = excess s ↔ Timely s event) := by
  cases event with
  | deleted =>
    rw [System.step]
    split <;> exact ⟨le_refl _, fun _ => trivial, fun _ => rfl⟩
  | patch patch =>
    cases h with
    | waiting state h =>
      rw [excess_of_nothing_sent s patch h.sent]
      exact ⟨le_refl _, fun _ _ => .inl h.sent, fun _ => rfl⟩
    | succeeded h => exact absurd h.all (Nat.ne_of_lt hguard.2)
    | failed h =>
      have hlength := (h.step ht hguard.1 hguard.2).2
      have hpos : 0 < s.sent.length := length_pos_iff.2 h.sent
      simp only [excess]
      split at hlength
      · rename_i hagain
        refine ⟨by omega, fun heq => by omega, fun htimely => ?_⟩
        rcases htimely hagain.1 with hnil | hnone
        · exact absurd hnil h.sent
        · exact absurd hnone hagain.2
      · rename_i honce
        refine ⟨by omega, fun _ hfail => ?_, fun _ => by omega⟩
        by_contra hnot
        exact honce ⟨hfail, fun hnone => hnot (.inr hnone)⟩

theorem patches_run : ∀ (events : List Event) (s : System), (run System.step s events).patches = s.patches ++
    childPatches events
  | [], s => (append_nil _).symm
  | event :: events, s => by
    rw [Runs.run_cons, patches_run events]
    cases event with
    | patch patch =>
      have hstep : (s.step (.patch patch)).patches = s.patches ++ [patch] := by
        simp only [System.step]
        split
        · rw [System.handled]
          split
          · rfl
          · rfl
        · rfl
      rw [hstep, append_assoc]
      rfl
    | deleted =>
      have hstep : (s.step .deleted).patches = s.patches := by
        rw [System.step]
        split
        · rfl
        · rfl
      rw [hstep]
      rfl

theorem meets_ofChildren : ∀ (events : List Event) (s : System), s.patches.length + (childPatches events).length ≤ n →
    (∀ patch ∈ childPatches events, patch.stage.isFinal = true) → Meets System.step (OfChildren n) s events
  | [], _, _, _ => trivial
  | .patch patch :: events, s, hlength, hfinal => by
    have hstep := patches_run [.patch patch] s
    have hlength' : s.patches.length + ((childPatches events).length + 1) ≤ n := hlength
    refine ⟨⟨hfinal patch mem_cons_self, by omega⟩, meets_ofChildren events _ ?_ fun p hp =>
      hfinal p (mem_cons_of_mem _ hp)⟩
    have happend : (s.step (.patch patch)).patches = s.patches ++ [patch] := hstep
    rw [happend, length_append_patch]
    omega
  | .deleted :: events, s, hlength, hfinal => by
    have hstep : (s.step .deleted).patches = s.patches ++ [] := patches_run [.deleted] s
    refine ⟨trivial, meets_ofChildren events _ ?_ hfinal⟩
    rw [hstep, append_nil]
    exact hlength

theorem Phase.notified_iff (hn : 0 < n) (h : Phase n t s) (hall : s.patches.length = n) :
    Notified n t s.patches s.sent ↔ excess s = 0 := by
  have hcast : (0 : ℚ) < n := Nat.cast_pos.2 hn
  cases h with
  | waiting state h => exact absurd hall (Nat.ne_of_lt h.expected)
  | succeeded h =>
    rw [excess, h.sent]
    refine ⟨fun _ => rfl, fun _ => ⟨.parentPatchBody, rfl,
      ⟨fun _ => (div_le_iff₀ hcast).2 h.tolerated, fun _ => rfl⟩, ?_⟩⟩
    exact fun hne => absurd rfl hne
  | failed h =>
    have hnot : ¬ (failures s.patches : ℚ) / n ≤ t := fun hle => absurd ((div_le_iff₀ hcast).1 hle)
      (not_le.2 h.exceeded)
    constructor
    · intro hnotified
      obtain ⟨body, hsent, -⟩ := hnotified
      rw [excess, hsent]
      rfl
    · intro hexcess
      obtain ⟨body, rest, hsent⟩ := exists_cons_of_ne_nil h.sent
      have hrest : rest = [] := by
        rw [excess, hsent, length_cons] at hexcess
        exact length_eq_zero_iff.1 (by omega)
      rw [hrest] at hsent
      obtain ⟨patch, hpatch, hfail, hbody⟩ := h.bodies body (by rw [hsent]; exact mem_singleton.2 rfl)
      refine ⟨body, hsent, ⟨fun heq => ?_, fun hle => absurd hle hnot⟩, fun _ => ⟨patch, hpatch, hfail, hbody⟩⟩
      rw [hbody] at heq
      cases heq

end

/-- **The parent is notified once and correctly, exactly if no failure reaches the service after the parent has been
notified.** For every number of children, every assignment of final stages to them, every order of their patches and
every time at which the deletion takes effect. -/
theorem childTaskAggregator_notifies_iff (n : Nat) (hn : 1 ≤ n) (errorThreshold : ℚ) (hthreshold : 0 ≤ errorThreshold)
    (events : List Event) (hcount : (childPatches events).length = n)
    (hfinal : ∀ patch ∈ childPatches events, patch.stage.isFinal = true) :
    Notified n errorThreshold (childPatches events) (run System.step (.start n errorThreshold) events).sent ↔
      Meets System.step Timely (.start n errorThreshold) events := by
  have hstart : Phase n errorThreshold (.start n errorThreshold) := by
    refine .waiting _ ⟨rfl, rfl, rfl, rfl, rfl, rfl, rfl, (sub_zero _).symm, hn, ?_⟩
    exact_mod_cast mul_nonneg hthreshold (Nat.cast_nonneg n)
  have hguard : Meets System.step (OfChildren n) (.start n errorThreshold) events :=
    meets_ofChildren events _ (by rw [hcount]; exact Nat.le_of_eq (Nat.zero_add n)) hfinal
  have hphase := (Runs.always_of_meets (Phase.step hthreshold) hstart hguard).run
  have hexcess := (Runs.measure_eq_iff_meets (Phase.step hthreshold)
    (fun s e h hg => (excess_step hthreshold s e h hg).1)
    (fun s e h hg => (excess_step hthreshold s e h hg).2) hstart hguard).2
  have hpatches : (run System.step (.start n errorThreshold) events).patches = childPatches events :=
    patches_run events _
  rw [← hexcess, ← hpatches]
  exact hphase.notified_iff hn (by rw [hpatches]; exact hcount)

/-- One child of two has failed, which is tolerated. -/
theorem childTaskAggregator_notifies_half :
    (run System.step (.start 2 (1 / 2)) [.patch ⟨.failed, some "disk full"⟩, .patch ⟨.finished, none⟩, .deleted]).sent =
      [.parentPatchBody] ∧
    Notified 2 (1 / 2) [⟨.failed, some "disk full"⟩, ⟨.finished, none⟩]
      (run System.step (.start 2 (1 / 2)) [.patch ⟨.failed, some "disk full"⟩, .patch ⟨.finished, none⟩,
      .deleted]).sent := by
  refine ⟨by decide +kernel, (childTaskAggregator_notifies_iff 2 (by decide) (1 / 2) (by norm_num)
    [.patch ⟨.failed, some "disk full"⟩, .patch ⟨.finished, none⟩, .deleted] rfl (by decide)).2 ?_⟩
  exact ⟨fun _ => .inl rfl, nofun, trivial, trivial⟩

/-- Two children fail before the service is deleted, and none may: the parent is notified twice. -/
theorem childTaskAggregator_notifies_twice :
    (run System.step (.start 2 0) [.patch ⟨.failed, some "disk full"⟩, .patch ⟨.failed, some "no host"⟩,
      .deleted]).sent = [.child ⟨.failed, some "disk full"⟩, .child ⟨.failed, some "no host"⟩] ∧
    ¬ Notified 2 0 [⟨.failed, some "disk full"⟩, ⟨.failed, some "no host"⟩]
      (run System.step (.start 2 0) [.patch ⟨.failed, some "disk full"⟩, .patch ⟨.failed, some "no host"⟩,
      .deleted]).sent := by
  have hsent : (run System.step (.start 2 0) [.patch ⟨.failed, some "disk full"⟩, .patch ⟨.failed, some "no host"⟩,
    .deleted]).sent =
      [.child ⟨.failed, some "disk full"⟩, .child ⟨.failed, some "no host"⟩] := by decide +kernel
  refine ⟨hsent, fun h => ?_⟩
  obtain ⟨body, hone, -⟩ := h
  rw [hsent] at hone
  cases hone

end Photon.Deployer.ChildTaskAggregator
