import Photon.TaskRunner
/-!
# TaskRunnerStarts — a start request raises or starts a run

As long as the runner is only asked when its last run has ended and has left no exception, and the thread can be
started, a state other than `IDLE` always has a thread that sets it back, and what the runner reports is what its last
run has left.
-/
namespace Photon.Agent.TaskRunner

open Runs (Always Meets Passes)

/-- There is at most the thread of the last run, and a state other than `IDLE` is its own or that of a start request. -/
structure Inv (s : System) : Prop where
  worker : ∀ w p, s.workers w = some p → w = s.runs ∧ At s p
  requested : ∀ r, s.request = some r → r.found = .idle ∧ s.state = .init ∧ (r.agreed = true → ∀ w, s.workers w = none)
  busy : s.state ≠ .idle → s.request = none → ∃ p, s.workers s.runs = some p ∧ 0 < p.rank s.kind
  activeOf : s.activeOf = s.runs
  exceptionOf_le : s.exceptionOf ≤ s.runs
  exceptionOf : s.exception.isSome → s.exceptionOf = s.runs

theorem inv_create (kind : Kind) : Inv (.create kind) where
  worker _ _ hw := by cases hw
  requested _ hr := by cases hr
  busy hstate := absurd rfl hstate
  activeOf := rfl
  exceptionOf_le := Nat.le_refl _
  exceptionOf hsome := by cases hsome

section

variable {s s' : System}

variable {p : Position}

theorem Position.phases_of_rank {kind : Kind} (h : p.rank kind = 0) : p.phases = [] := by
  cases p <;> first | rfl | cases h

variable {w : Nat}

theorem Frame.signed (hframe : Frame s w s') (h : Inv s) (hw : w = s.runs) :
    s'.activeOf = s'.runs ∧ s'.exceptionOf ≤ s'.runs ∧ (s'.exception.isSome → s'.exceptionOf = s'.runs) := by
  rw [hframe.runs]
  refine ⟨?_, ?_⟩
  · rcases hframe.activeOf with hsame | hown
    · rw [hsame, h.activeOf]
    · rw [hown, hw]
  · rcases hframe.exceptionOf with ⟨hexception, hsame⟩ | hown
    · rw [hexception, hsame]
      exact ⟨h.exceptionOf_le, h.exceptionOf⟩
    · rw [hown, hw]
      exact ⟨Nat.le_refl _, fun _ => rfl⟩

theorem eq_of_update {w' : Nat} {workers : Nat → Option Position} {new : Option Position}
    (hone : ∀ w' p, workers w' = some p → w' = w) (h : Function.update workers w new w' = some p) : w' = w ∧
    new = some p := by
  by_cases hw : w' = w
  · rw [hw, Function.update_self] at h
    exact ⟨hw, h⟩
  · rw [Function.update_of_ne hw] at h
    exact absurd (hone w' p h) hw

section

variable (h : Inv s)
include h

theorem Inv.moved (hp : s.workers w = some p) (hframe : Frame s w s') (hmoved : Moved s w p s') : Inv s' := by
  obtain ⟨hw, hat⟩ := h.worker w p hp
  obtain ⟨hactive, hle, hexception⟩ := hframe.signed h hw
  have hone : ∀ w' p', s.workers w' = some p' → w' = w := fun w' p' hp' => (h.worker w' p' hp').1.trans hw.symm
  have hworker : ∀ {new : Option Position}, s'.workers = Function.update s.workers w new →
      (∀ p', new = some p' → At s' p') → ∀ w' p', s'.workers w' = some p' → w' = s'.runs ∧ At s' p' := by
    intro new hworkers hnew w' p' hp'
    rw [hworkers] at hp'
    obtain ⟨rfl, heq⟩ := eq_of_update hone hp'
    exact ⟨hw.trans hframe.runs.symm, hnew p' heq⟩
  -- once the state is set back, the position asks for nothing
  have hat' : ∀ p', p'.rank s.kind = 0 → s'.running = true → At s' p' := by
    intro p' hrank hrunning
    rw [← hframe.kind] at hrank
    refine ⟨fun hpos => absurd hrank (Nat.ne_of_gt hpos), by omega, fun _ => hrunning, ?_⟩
    rw [Position.phases_of_rank hrank]
    exact nofun
  have hbusy : p.rank s.kind = 0 → s'.state = s.state → s'.state ≠ .idle → s'.request = none →
      ∃ p', s'.workers s'.runs = some p' ∧ 0 < p'.rank s'.kind := by
    intro hrank hstate hbusy hrequest
    rw [hstate] at hbusy
    rw [hframe.request] at hrequest
    obtain ⟨p₀, hp₀, hpos⟩ := h.busy hbusy hrequest
    rw [← hw] at hp₀
    cases hp₀.symm.trans hp
    omega
  -- a thread that is there rules out a request that the runner has agreed to
  have hrequested : s'.state = s.state → ∀ r, s'.request = some r →
      r.found = .idle ∧ s'.state = .init ∧ (r.agreed = true → ∀ w, s'.workers w = none) := by
    intro hstate r hr
    rw [hframe.request] at hr
    obtain ⟨hfound, hinit, hnone⟩ := h.requested r hr
    refine ⟨hfound, hstate.trans hinit, fun hagreed => ?_⟩
    rw [hnone hagreed w] at hp
    cases hp
  have hrequest : 0 < p.rank s.kind → ∀ {r}, s'.request ≠ some r := by
    intro hpos r hr
    rw [hframe.request, (hat.busy hpos).1] at hr
    cases hr
  cases hmoved with
  | goesOn p' hworkers hpos hrank hstate hrunning hphases =>
    have hpos' := Nat.lt_of_le_of_lt (Nat.zero_le _) hrank
    refine ⟨hworker hworkers ?_, fun r hr => absurd hr (hrequest hpos'), fun _ _ => ⟨p', ?_, ?_⟩, hactive,
      hle, hexception⟩
    · rintro _ ⟨⟩
      have hrank' := hat.rank_le
      refine ⟨fun _ => ⟨hframe.request.trans (hat.busy hpos').1, hstate⟩, ?_, fun _ => hrunning, hphases⟩
      rw [hframe.kind]
      omega
    · rw [hworkers, hframe.runs, ← hw, Function.update_self]
    · rw [hframe.kind]
      exact hpos
  | leaves p' hworkers hrank' hrank hstate hrunning =>
    refine ⟨hworker hworkers ?_, fun r hr => absurd hr (hrequest hrank), fun hbusy => absurd hstate hbusy, hactive, hle,
      hexception⟩
    rintro _ ⟨⟩
    exact hat' p' hrank' hrunning
  | reports p' hworkers hrank' hrank hstate hrunning =>
    refine ⟨hworker hworkers ?_, hrequested hstate, hbusy hrank hstate, hactive, hle, hexception⟩
    rintro _ ⟨⟩
    exact hat' p' hrank' hrunning
  | ends hworkers hrank hstate =>
    exact ⟨hworker hworkers nofun, hrequested hstate, hbusy hrank hstate, hactive, hle, hexception⟩

theorem Inv.looked (hp : s.workers w = some p) (hframe : Frame s w s')
    (hworkers : s'.workers = s.workers) (hstate : s'.state = s.state) (hrunning : s'.running = s.running) : Inv s' := by
  obtain ⟨hw, -⟩ := h.worker w p hp
  obtain ⟨hactive, hle, hexception⟩ := hframe.signed h hw
  refine ⟨fun w' p' hp' => ?_, ?_, ?_, hactive, hle, hexception⟩
  · rw [hworkers] at hp'
    obtain ⟨hw', hat⟩ := h.worker w' p' hp'
    refine ⟨by rw [hframe.runs, hw'], ?_, ?_, ?_, hat.phases⟩
    · rw [hframe.kind, hframe.request, hstate]
      exact hat.busy
    · rw [hframe.kind]
      exact hat.rank_le
    · rw [hrunning]
      exact hat.running
  · rw [hframe.request, hworkers, hstate]
    exact h.requested
  · rw [hframe.request, hworkers, hstate, hframe.runs, hframe.kind]
    exact h.busy

theorem Inv.work (w now : Nat) (outcome : Outcome) : Inv (s.work w now outcome) := by
  cases hp : s.workers w with
  | none =>
    have hsame : s.work w now outcome = s := by simp only [System.work, hp]
    rw [hsame]
    exact h
  | some p =>
    by_cases hpolls : outcome = .polls
    · subst hpolls
      obtain ⟨hframe, hworkers, hstate, hrunning⟩ := @work_polls s w now p hp
      exact h.looked hp hframe hworkers hstate hrunning
    · obtain ⟨hframe, hmoved⟩ := @work_spec s w now p hp (h.worker w p hp).2 outcome hpolls
      exact h.moved hp hframe hmoved

theorem Inv.start (timeout : Option Nat) : Inv (s.start timeout) := by
  unfold System.start
  split
  · exact h
  · rename_i hrequest
    split
    · exact h
    · rename_i hidle
      have hidle' : s.state = .idle := Classical.not_not.1 hidle
      refine ⟨fun w p hp => ?_, fun r hr => ?_, fun _ hnone => (by cases hnone), h.activeOf, h.exceptionOf_le,
        h.exceptionOf⟩
      · obtain ⟨hw, hat⟩ := h.worker w p hp
        exact ⟨hw, fun hpos => absurd hidle' (hat.busy hpos).2, hat.rank_le, hat.running, hat.phases⟩
      · cases hr
        refine ⟨hidle', rfl, fun hagreed => ?_⟩
        cases hagreed

theorem Inv.no_worker {r : Request} (hr : s.request = some r) (hrunning : s.running = false) (w : Nat) :
    s.workers w = none := by
  cases hp : s.workers w with
  | none => rfl
  | some p =>
    obtain ⟨-, hat⟩ := h.worker w p hp
    have hrank : ¬ 0 < p.rank s.kind := by
      intro hpos
      rw [(hat.busy hpos).1] at hr
      cases hr
    have hcreated : p ≠ .created := by
      intro hp'
      rw [hp'] at hrank
      exact hrank (Nat.succ_pos _)
    rw [hat.running hcreated] at hrunning
    cases hrunning

theorem Inv.runnerStart (now : Nat) (hclean : Clean s (.runnerStart now)) : Inv (s.runnerStart now) := by
  unfold System.runnerStart
  split
  · rename_i found hr
    obtain ⟨hactive, hrunning, hexception⟩ := hclean found hr
    obtain ⟨hfound, hinit, -⟩ := h.requested _ hr
    have hnone := h.no_worker hr hrunning
    rw [hactive, hrunning]
    simp only [Bool.or_self, Bool.false_eq_true, if_false]
    refine ⟨fun w p hp => ?_, fun r hr' => ?_, fun _ hrequest => (by cases hrequest), rfl, ?_, fun hsome => ?_⟩
    · rw [hnone w] at hp
      cases hp
    · cases hr'
      exact ⟨hfound, hinit, fun _ => hnone⟩
    · exact Nat.le_succ_of_le h.exceptionOf_le
    · rw [hexception] at hsome
      cases hsome
  · exact h

theorem Inv.startThread (ok : Bool) (hclean : Clean s (.startThread ok)) : Inv (s.startThread ok) := by
  unfold System.startThread
  split
  · rename_i found hr
    obtain ⟨-, hinit, hnone⟩ := h.requested _ hr
    rw [if_pos (hclean found hr)]
    have hstate : s.state ≠ .idle := by
      rw [hinit]
      decide
    have hone : ∀ w' p', s.workers w' = some p' → w' = s.runs := by
      intro w' p' hp'
      rw [hnone rfl w'] at hp'
      cases hp'
    refine ⟨fun w p hp => ?_, fun r hr' => (by cases hr'), fun _ _ => ⟨.created, Function.update_self ..,
      Nat.succ_pos _⟩, h.activeOf, h.exceptionOf_le, h.exceptionOf⟩
    obtain ⟨rfl, hnew⟩ := eq_of_update hone hp
    cases hnew
    refine ⟨rfl, fun _ => ⟨rfl, hstate⟩, ?_, fun hne => absurd rfl hne, fun _ hmem => (by cases hmem)⟩
    have hlength := s.kind.phases_length_le
    simp only [Position.rank]
    omega
  · exact h

theorem Inv.stop : Inv s.stop where
  worker w p hp := by
    obtain ⟨hw, hat⟩ := h.worker w p hp
    exact ⟨hw, hat.busy, hat.rank_le, hat.running, hat.phases⟩
  requested := h.requested
  busy := h.busy
  activeOf := rfl
  exceptionOf_le := h.exceptionOf_le
  exceptionOf := h.exceptionOf

theorem Inv.step (e : Event) (hclean : Clean s e) : Inv (s.step e) := by
  cases e with
  | start timeout => exact h.start timeout
  | runnerStart now => exact h.runnerStart now hclean
  | startThread ok => exact h.startThread ok hclean
  | stop => exact h.stop
  | work w now outcome => exact h.work w now outcome

end

/-! ## The state comes back -/

/-- The run is on, and the state is its own. -/
structure Busy (w : Nat) (s : System) : Prop where
  inv : Inv s
  own : w = s.runs
  request : s.request = none
  state : s.state ≠ .idle

def rankOf (w : Nat) (s : System) : Nat := ((s.workers w).map (Position.rank s.kind)).getD 0

theorem Busy.exists_position (h : Busy w s) :
    ∃ p, s.workers w = some p ∧ 0 < p.rank s.kind ∧ rankOf w s = p.rank s.kind := by
  obtain ⟨p, hp, hpos⟩ := h.inv.busy h.state h.request
  rw [← h.own] at hp
  exact ⟨p, hp, hpos, by rw [rankOf, hp]; rfl⟩

theorem Busy.looked {w : Nat} {p : Position} (h : Busy w s) (hp : s.workers w = some p) (hframe : Frame s w s')
    (hworkers : s'.workers = s.workers) (hstate : s'.state = s.state) (hrunning : s'.running = s.running) :
    Busy w s' ∧ rankOf w s' ≤ rankOf w s := by
  refine ⟨⟨h.inv.looked hp hframe hworkers hstate hrunning, ?_, ?_, ?_⟩, ?_⟩
  · rw [hframe.runs]
    exact h.own
  · rw [hframe.request]
    exact h.request
  · rw [hstate]
    exact h.state
  · simp only [rankOf, hworkers, hframe.kind]
    exact Nat.le_refl _

theorem Busy.moved {w : Nat} {p : Position} (h : Busy w s) (hp : s.workers w = some p) (hpos : 0 < p.rank s.kind)
    (hframe : Frame s w s') (hmoved : Moved s w p s') :
    s'.state = .idle ∨ Busy w s' ∧ rankOf w s' + 1 ≤ rankOf w s := by
  have hinv := h.inv.moved hp hframe hmoved
  cases hmoved with
  | goesOn p' hworkers hpos' hrank hstate hrunning hphases =>
    refine .inr ⟨⟨hinv, ?_, ?_, hstate⟩, ?_⟩
    · rw [hframe.runs]
      exact h.own
    · rw [hframe.request]
      exact h.request
    · simp only [rankOf, hworkers, Function.update_self, hp, hframe.kind, Option.map_some, Option.getD_some]
      exact hrank
  | leaves p' hworkers hrank' hrank hstate hrunning => exact .inl hstate
  | reports p' hworkers hrank' hrank hstate hrunning | ends hworkers hrank hstate => omega

/-- While a run is on, a start request is refused at once, and what its thread does brings it nearer to its end. -/
theorem Busy.step {w : Nat} (h : Busy w s) (e : Event) :
    (s.step e).state = .idle ∨ Busy w (s.step e) ∧ rankOf w (s.step e) + (e.moves w).toNat ≤ rankOf w s := by
  have hsame : ∀ e, Event.moves w e = false → s.step e = s →
      (s.step e).state = .idle ∨ Busy w (s.step e) ∧ rankOf w (s.step e) + (e.moves w).toNat ≤ rankOf w s := by
    intro e hmoves heq
    rw [heq, hmoves]
    exact .inr ⟨h, Nat.le_refl _⟩
  cases e with
  | start timeout => exact hsame _ rfl (by simp only [System.step, System.start, h.request, Option.isSome_none,
    Bool.false_eq_true,
      if_false, ne_eq, h.state, not_false_eq_true, if_true])
  | runnerStart now => exact hsame _ rfl (by simp only [System.step, System.runnerStart, h.request])
  | startThread ok => exact hsame _ rfl (by simp only [System.step, System.startThread, h.request])
  | stop => exact .inr ⟨{ h with inv := h.inv.step .stop trivial }, Nat.le_refl _⟩
  | work w' now outcome =>
    cases hp' : s.workers w' with
    | none =>
      refine hsame _ ?_ (by simp only [System.step, System.work, hp'])
      obtain ⟨p, hp, -⟩ := h.exists_position
      have hne : w' ≠ w := by
        intro heq
        rw [heq, hp] at hp'
        cases hp'
      simp only [Event.moves, hne, decide_false, Bool.false_and]
    | some p =>
      obtain ⟨hown, hat⟩ := h.inv.worker w' p hp'
      obtain rfl : w' = w := hown.trans h.own.symm
      by_cases hpolls : outcome = .polls
      · subst hpolls
        obtain ⟨hframe, hworkers, hstate, hrunning⟩ := @work_polls s w' now p hp'
        obtain ⟨hbusy, hrank⟩ := h.looked hp' hframe hworkers hstate hrunning
        refine .inr ⟨hbusy, ?_⟩
        simpa [Event.moves, System.step] using hrank
      · obtain ⟨hframe, hmoved⟩ := @work_spec s w' now p hp' hat outcome hpolls
        obtain ⟨p₀, hp₀, hpos, -⟩ := h.exists_position
        cases hp₀.symm.trans hp'
        have hcounted : Event.moves w' (.work w' now outcome) = true := by simp [Event.moves, hpolls]
        rw [hcounted]
        exact h.moved hp' hpos hframe hmoved

theorem Inv.returns (h : Inv s) (hrequest : s.request = none) (hstate : s.state ≠ .idle) : Returns s := by
  have hbusy : Busy s.runs s := ⟨h, rfl, hrequest, hstate⟩
  obtain ⟨p, hp, -, hrank⟩ := hbusy.exists_position
  refine ⟨s.runs, by rw [hp]; rfl, fun events hcount => ?_⟩
  refine Runs.passes_of_rank (fun s' hs' => ?_) (fun s' e hs' => hs'.step e) hbusy ?_
  · obtain ⟨p', -, hpos, hrank'⟩ := hs'.exists_position
    rw [hrank']
    exact hpos
  · rw [hrank]
    exact Nat.le_trans (h.worker s.runs p hp).2.rank_le hcount

/-! ## The result -/

theorem Inv.sound (h : Inv s) : Sound s where
  returns hstate := by
    cases hr : s.request with
    | some r => exact .inl rfl
    | none => exact .inr (h.returns hr hstate)
  one w w' hw hw' := by
    obtain ⟨p, hp⟩ := Option.isSome_iff_exists.1 hw
    obtain ⟨p', hp'⟩ := Option.isSome_iff_exists.1 hw'
    rw [(h.worker w p hp).1, (h.worker w' p' hp').1]
  active := h.activeOf
  exception := h.exceptionOf

theorem Inv.atomic (h : Inv s) (e : Event) (hclean : Clean s e) : Atomic s e := by
  cases e with
  | start timeout =>
    simp only [Atomic, System.response]
    by_cases hrequest : s.request.isSome = true
    · rw [if_pos hrequest]
      trivial
    · rw [if_neg hrequest]
      by_cases hidle : s.state ≠ .idle
      · rw [if_pos hidle]
        simp only [System.step, System.start, System.found, Option.not_isSome_iff_eq_none.1 hrequest,
          Option.isSome_none, Bool.false_eq_true, if_false, if_pos hidle]
      · rw [if_neg hidle]
        trivial
  | runnerStart now =>
    simp only [Atomic, System.response]
    split
    · trivial
    · rename_i hr
      split at hr
      · rename_i found hrequest
        obtain ⟨hactive, hrunning, -⟩ := hclean found hrequest
        rw [hactive, hrunning] at hr
        cases hr
      · cases hr
    · rename_i hr
      split at hr
      · split at hr <;> cases hr
      · cases hr
  | startThread ok =>
    have hinv := h.step (.startThread ok) hclean
    simp only [Atomic, System.response]
    cases hr : s.request with
    | none => trivial
    | some r =>
      obtain ⟨agreed, found⟩ := r
      cases agreed with
      | false => trivial
      | true =>
        obtain ⟨hfound, hinit, -⟩ := h.requested _ hr
        have hok : ok = true := hclean found hr
        subst hok
        have hstate : (s.step (.startThread true)).state ≠ .idle := by
          simp only [System.step, System.startThread, hr, if_true, hinit]
          decide
        refine ⟨?_, hstate, hinv.returns ?_ hstate⟩
        · simp only [System.found, hr]
          exact hfound
        · simp only [System.step, System.startThread, hr, if_true]
  | stop | work w now outcome => trivial

theorem Inv.clean (h : Inv s) (e : Event) (hsound : Sound (s.step e)) (hatomic : Atomic s e) : Clean s e := by
  cases e with
  | runnerStart now =>
    intro found hr
    obtain ⟨hfound, hinit, -⟩ := h.requested _ hr
    have hbusy : (s.active || s.running) = false := by
      by_contra htrue
      rw [Bool.not_eq_false] at htrue
      simp only [Atomic, System.response, System.step, System.runnerStart, System.found, hr, htrue, if_true,
        hinit] at hatomic
      cases hatomic.trans hfound
    obtain ⟨hactive, hrunning⟩ := Bool.or_eq_false_iff.1 hbusy
    refine ⟨hactive, hrunning, ?_⟩
    by_contra hsome
    have hexception := hsound.exception
    simp only [System.step, System.runnerStart, hr, hbusy, Bool.false_eq_true, if_false] at hexception
    have hle := h.exceptionOf_le
    have heq := hexception (Option.isSome_iff_ne_none.2 hsome)
    omega
  | startThread ok =>
    intro found hr
    obtain ⟨hfound, hinit, -⟩ := h.requested _ hr
    cases ok with
    | true => rfl
    | false =>
      simp only [Atomic, System.response, System.step, System.startThread, System.found, hr,
        Bool.false_eq_true, if_false, hinit] at hatomic
      cases hatomic.trans hfound
  | _ => trivial

end

/-- **Starts are atomic and runs do not mix exactly if every start is clean**: the runner is asked when its last run has
ended and has left no exception, and the thread can be started. -/
theorem taskRunner_atomic_iff (kind : Kind) (events : List Event) :
    Always System.step Sound (.create kind) events ∧ Meets System.step Atomic (.create kind) events ↔
      Meets System.step Clean (.create kind) events :=
  Runs.always_and_meets_iff_of_inv (fun _ e h hclean => h.step e hclean) (fun _ h => h.sound) (fun _ e h hclean =>
    h.atomic e hclean) (fun _ e h hsound hatomic => h.clean e hsound hatomic) (inv_create kind)

def startRequest (thread : Bool) : List Event := [.start none, .runnerStart 0, .startThread thread]

/-- **Three starts that are not clean.**  The thread cannot be started; or the last run has set the state back to `IDLE`
and has not ended yet: the request raises, and the state stays at `INIT` with no thread to set it back.  And after a run
that has failed, the next one starts with its exception. -/
theorem taskRunner_unclean_starts :
    ¬ Meets System.step Atomic (.create .scanner) (startRequest false) ∧
    ¬ Meets System.step Atomic (.create .sweeper)
      (startRequest true ++ List.replicate 4 (.work 1 0 .returns) ++ startRequest true) ∧
    ¬ Always System.step Sound (.create .sweeper)
      (startRequest true ++ List.replicate 2 (.work 1 0 .returns) ++ List.replicate 4 (.work 1 0 (.raises 7)) ++
      startRequest true) := by
  refine ⟨fun h => ?_, fun h => ?_, fun h => ?_⟩
  · obtain ⟨-, -, hraised, -⟩ := h
    have hstate : State.init = .idle := hraised
    cases hstate
  · obtain ⟨-, -, -, -, -, -, -, -, hraised, -⟩ := h
    have hstate : State.init = .idle := hraised
    cases hstate
  · exact absurd (h.run.exception rfl) (by decide)

end Photon.Agent.TaskRunner
