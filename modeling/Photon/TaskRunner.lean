import Photon.Leads
/-!
# TaskRunner — the background tasks of the image scanner and the image sweeper

A `DatastoreImageScanner` or `DatastoreImageSweeper` keeps a state and owns a `TaskRunner`, which executes the task in a
thread of its own.  The state is under the lock of the owner, the flags of the runner partly under the lock of the
runner and partly under none. A start request sets the state before it asks the runner, and the runner can refuse: the
thread of the last run sets the state back before it ends.  The exception of a run is never reset.
-/
namespace Photon.Agent.TaskRunner

open Runs (Always Meets Passes)

inductive Kind where
  | scanner
  | sweeper
  deriving DecidableEq

inductive State where
  | idle
  | init
  | vmScan
  | imageMark
  | imageSweep
  deriving DecidableEq

def Kind.phases : Kind → List State
  | .scanner => [.vmScan, .imageMark]
  | .sweeper => [.imageSweep]

def Kind.validateStateTransition (kind : Kind) (current state : State) : Bool :=
  if state = .idle then true
  else
    match kind, current with
    | _, .idle => state = .init
    | .scanner, .init => state = .vmScan
    | .scanner, .vmScan => state = .imageMark
    | .scanner, .imageMark => state = .idle
    | .sweeper, .init => state = .imageSweep
    | .sweeper, .imageSweep => state = .idle
    | _, _ => false

inductive Error where
  | taskAlreadyRunning
  | taskTerminated
  | taskTimeout
  | invalidStateTransition
  | cannotStartThread
  | other (code : Nat)
  deriving DecidableEq

inductive Position where
  /-- Started, and not yet in `do_execute_task`. -/
  | created
  /-- About to call `set_state` for the first of the steps that are left. -/
  | entering (phases : List State)
  | working (rest : List State)
  /-- About to call `is_stopped` between two steps. -/
  | polling (rest : List State)
  /-- In the `finally` block of `execute_task`. -/
  | leaving (raised : Option Error)
  | reporting (error : Error)
  | ending
  deriving DecidableEq

/-- A start request that holds the lock of the owner: whether the runner has agreed, and the state it has found. -/
structure Request where
  agreed : Bool
  found : State
  deriving DecidableEq

structure System where
  kind : Kind
  state : State
  timeout : Nat
  request : Option Request
  runnerTimeout : Nat
  deadline : Nat
  running : Bool
  active : Bool
  exception : Option Error
  workers : Nat → Option Position
  /-- How many runs have been started, and by which of them the stop flag and the exception have been set. -/
  runs : Nat
  activeOf : Nat
  exceptionOf : Nat

def defaultTimeout : Nat := 7 * 24 * 60 * 60

def setTimeout (old : Nat) : Option Nat → Nat
  | some (timeout + 1) => timeout + 1
  | _ => old

namespace System

/-- `start` of the owner, up to the call of the runner; it waits for the lock if another request holds it. -/
def start (s : System) (timeout : Option Nat) : System :=
  if s.request.isSome then s
  else if s.state ≠ .idle then s
  else { s with state := .init, timeout := setTimeout s.timeout timeout, request := some ⟨false, s.state⟩ }

def runnerStart (s : System) (now : Nat) : System :=
  match s.request with
  | some ⟨false, found⟩ =>
    if s.active || s.running then { s with request := none }
    else
      let timeout := setTimeout s.runnerTimeout (some s.timeout)
      { s with
        active := true
        activeOf := s.runs + 1
        runs := s.runs + 1
        runnerTimeout := timeout
        deadline := now + timeout
        request := some ⟨true, found⟩ }
  | _ => s

def startThread (s : System) (ok : Bool) : System :=
  match s.request with
  | some ⟨true, _⟩ =>
    if ok then { s with request := none, workers := Function.update s.workers s.runs (some .created) }
    else { s with request := none }
  | _ => s

def stop (s : System) : System := { s with active := false, activeOf := s.runs }

def isStopped (s : System) (w now : Nat) : System × Bool :=
  if s.exception.isSome then (s, true)
  else if s.deadline < now then ({ s with exception := some .taskTimeout, exceptionOf := w }, true)
  else if s.active = false then ({ s with exception := some .taskTerminated, exceptionOf := w }, true)
  else (s, false)

def endTask (s : System) (w : Nat) : System := { s with running := false, active := false, activeOf := w }

def moveTo (s : System) (w : Nat) (position : Position) : System :=
  { s with workers := Function.update s.workers w (some position) }

def enter (s : System) (w : Nat) : List State → System
  | [] => s.moveTo w (.leaving none)
  | phase :: rest =>
    if s.kind.validateStateTransition s.state phase then { s with state := phase }.moveTo w (.working rest)
    else s.moveTo w (.leaving (some .invalidStateTransition))

def leave (s : System) (w : Nat) (raised : Option Error) : System :=
  { s with state := .idle }.moveTo w (match raised with
    | some error => .reporting error
    | none => .ending)

end System

/-- How the work of a step goes on: it looks whether it is stopped, returns or raises. -/
inductive Outcome where
  | polls
  | returns
  | raises (code : Nat)
  deriving DecidableEq

/-- The next thing the thread of a run does; `set_state` waits for the lock of the owner. -/
def System.work (s : System) (w now : Nat) (outcome : Outcome) : System :=
  match s.workers w, outcome with
  | none, _ => s
  | some (.working _), .polls => (s.isStopped w now).1
  | some _, .polls => s
  | some .created, _ => { s with running := true }.moveTo w (.entering s.kind.phases)
  | some (.entering phases), _ => if s.request.isSome then s else s.enter w phases
  | some (.working []), .returns => s.moveTo w (.leaving none)
  | some (.working rest), .returns => s.moveTo w (.polling rest)
  | some (.working _), .raises code => s.moveTo w (.leaving (some (.other code)))
  | some (.polling rest), _ =>
    if (s.isStopped w now).2 then (s.isStopped w now).1.moveTo w (.leaving none) else s.moveTo w (.entering rest)
  | some (.leaving raised), _ => if s.request.isSome then s else s.leave w raised
  | some (.reporting error), _ => { s with exception := some error, exceptionOf := w }.moveTo w .ending
  | some .ending, _ => { s.endTask w with workers := Function.update s.workers w none }

inductive Event where
  | start (timeout : Option Nat)
  | runnerStart (now : Nat)
  | startThread (ok : Bool)
  | stop
  | work (w now : Nat) (outcome : Outcome)
  deriving DecidableEq

def System.step (s : System) : Event → System
  | .start timeout => s.start timeout
  | .runnerStart now => s.runnerStart now
  | .startThread ok => s.startThread ok
  | .stop => s.stop
  | .work w now outcome => s.work w now outcome

def System.create (kind : Kind) : System where
  kind := kind
  state := .idle
  timeout := defaultTimeout
  request := none
  runnerTimeout := defaultTimeout
  deadline := 0
  running := false
  active := false
  exception := none
  workers := fun _ => none
  runs := 0
  activeOf := 0
  exceptionOf := 0

def System.response (s : System) : Event → Option (Except Error Unit)
  | .start _ => if s.request.isSome then none else if s.state ≠ .idle then some (.error .taskAlreadyRunning) else none
  | .runnerStart _ =>
    match s.request with
    | some ⟨false, _⟩ => if s.active || s.running then some (.error .taskAlreadyRunning) else none
    | _ => none
  | .startThread ok =>
    match s.request with
    | some ⟨true, _⟩ => if ok then some (.ok ()) else some (.error .cannotStartThread)
    | _ => none
  | _ => none

/-! ## What is asked -/

/-- Something the thread of the run does, other than looking whether it is stopped. -/
def Event.moves (w : Nat) : Event → Bool
  | .work w' _ outcome => decide (w' = w) && decide (outcome ≠ .polls)
  | _ => false

/-- A thread is there that sets the state back to `IDLE`: it does so with nine things that it does, whatever else
happens. -/
def Returns (s : System) : Prop :=
  ∃ w, (s.workers w).isSome ∧
    ∀ events : List Event, 9 ≤ events.countP (Event.moves w) → Passes System.step (fun s => s.state = .idle) s events

/-- A state other than `IDLE` is that of a run; there is one thread; flag and exception are those of the last run. -/
structure Sound (s : System) : Prop where
  returns : s.state ≠ .idle → s.request.isSome ∨ Returns s
  one : ∀ w w', (s.workers w).isSome → (s.workers w').isSome → w = w'
  active : s.activeOf = s.runs
  exception : s.exception.isSome → s.exceptionOf = s.runs

def System.found (s : System) : State :=
  match s.request with
  | some request => request.found
  | none => s.state

/-- A start request that raises leaves the state as it has found it; one that returns has found `IDLE` and started a
run. -/
def Atomic (s : System) (e : Event) : Prop :=
  match s.response e with
  | none => True
  | some (.error _) => (s.step e).state = s.found
  | some (.ok _) => s.found = .idle ∧ (s.step e).state ≠ .idle ∧ Returns (s.step e)

/-- The runner is asked to start when its last run has ended, and has left no exception; and the thread can be
started. -/
def Clean (s : System) : Event → Prop
  | .runnerStart _ =>
    ∀ found, s.request = some ⟨false, found⟩ → s.active = false ∧ s.running = false ∧ s.exception = none
  | .startThread ok => ∀ found, s.request = some ⟨true, found⟩ → ok = true
  | _ => True

/-! ## The thread of a run -/

/-- How many things the thread still does until it has set the state back. -/
def Position.rank (kind : Kind) : Position → Nat
  | .created => 3 * kind.phases.length + 3
  | .entering phases => 3 * phases.length + 2
  | .working rest => 3 * rest.length + 4
  | .polling rest => 3 * rest.length + 3
  | .leaving _ => 1
  | .reporting _ => 0
  | .ending => 0

def Position.phases : Position → List State
  | .entering phases => phases
  | .working rest => rest
  | .polling rest => rest
  | _ => []

/-- A thread at the position fits the rest. -/
structure At (s : System) (p : Position) : Prop where
  busy : 0 < p.rank s.kind → s.request = none ∧ s.state ≠ .idle
  rank_le : p.rank s.kind ≤ 9
  running : p ≠ .created → s.running = true
  phases : ∀ phase ∈ p.phases, phase ≠ .idle

theorem Kind.phases_ne_idle (kind : Kind) : ∀ phase ∈ kind.phases, phase ≠ .idle := by
  cases kind <;> decide

theorem Kind.phases_length_le (kind : Kind) : kind.phases.length ≤ 2 := by
  cases kind <;> decide

structure Frame (s : System) (w : Nat) (s' : System) : Prop where
  kind : s'.kind = s.kind
  request : s'.request = s.request
  runs : s'.runs = s.runs
  activeOf : s'.activeOf = s.activeOf ∨ s'.activeOf = w
  exceptionOf : (s'.exception = s.exception ∧ s'.exceptionOf = s.exceptionOf) ∨ s'.exceptionOf = w

/-- What a thread at a position can do, other than looking whether it is stopped. -/
inductive Moved (s : System) (w : Nat) (p : Position) (s' : System) : Prop where
  | goesOn (p' : Position) (hworkers : s'.workers = Function.update s.workers w (some p')) (hpos : 0 < p'.rank s.kind)
      (hrank : p'.rank s.kind < p.rank s.kind) (hstate : s'.state ≠ .idle) (hrunning : s'.running = true)
      (hphases : ∀ phase ∈ p'.phases, phase ≠ .idle)
  | leaves (p' : Position) (hworkers : s'.workers = Function.update s.workers w (some p')) (hrank' : p'.rank s.kind = 0)
      (hrank : 0 < p.rank s.kind) (hstate : s'.state = .idle) (hrunning : s'.running = true)
  | reports (p' : Position) (hworkers : s'.workers = Function.update s.workers w (some p'))
      (hrank' : p'.rank s.kind = 0)
      (hrank : p.rank s.kind = 0) (hstate : s'.state = s.state) (hrunning : s'.running = true)
  | ends (hworkers : s'.workers = Function.update s.workers w none) (hrank : p.rank s.kind = 0)
      (hstate : s'.state = s.state)

section

variable {s : System} {w now : Nat} {p : Position}

open TaskRunner.System (enter isStopped moveTo work)

theorem frame_isStopped : Frame s w (s.isStopped w now).1 := by
  unfold isStopped
  split
  · exact ⟨rfl, rfl, rfl, .inl rfl, .inl ⟨rfl, rfl⟩⟩
  · split
    · exact ⟨rfl, rfl, rfl, .inl rfl, .inr rfl⟩
    · split
      · exact ⟨rfl, rfl, rfl, .inl rfl, .inr rfl⟩
      · exact ⟨rfl, rfl, rfl, .inl rfl, .inl ⟨rfl, rfl⟩⟩

theorem isStopped_same : (s.isStopped w now).1.workers = s.workers ∧ (s.isStopped w now).1.state = s.state ∧
    (s.isStopped w now).1.running = s.running := by
  unfold isStopped
  split
  · exact ⟨rfl, rfl, rfl⟩
  · split
    · exact ⟨rfl, rfl, rfl⟩
    · split <;> exact ⟨rfl, rfl, rfl⟩

theorem frame_self : Frame s w s := ⟨rfl, rfl, rfl, .inl rfl, .inl ⟨rfl, rfl⟩⟩

theorem work_polls (hp : s.workers w = some p) :
    Frame s w (s.work w now .polls) ∧ (s.work w now .polls).workers = s.workers ∧
      (s.work w now .polls).state = s.state ∧ (s.work w now .polls).running = s.running := by
  cases p with
  | working rest =>
    simp only [work, hp]
    exact ⟨frame_isStopped, isStopped_same⟩
  | _ =>
    have hsame : s.work w now .polls = s := by simp only [work, hp]
    rw [hsame]
    exact ⟨frame_self, rfl, rfl, rfl⟩

theorem frame_moveTo {s' : System} (h : Frame s w s') (p' : Position) : Frame s w (s'.moveTo w p') :=
  { h with }

open Position (rank)

theorem work_entering {phases : List State} (h : At s (.entering phases)) :
    Frame s w (s.enter w phases) ∧ Moved s w (.entering phases) (s.enter w phases) := by
  have hstate := (h.busy (Nat.succ_pos _)).2
  have hrunning := h.running nofun
  cases phases with
  | nil =>
    refine ⟨frame_moveTo frame_self _, .goesOn (.leaving none) rfl Nat.one_pos ?_ hstate hrunning nofun⟩
    simp only [rank, List.length_nil]
    omega
  | cons phase rest =>
    simp only [enter]
    split
    · refine ⟨⟨rfl, rfl, rfl, .inl rfl, .inl ⟨rfl, rfl⟩⟩,
        .goesOn (.working rest) rfl (Nat.succ_pos _) ?_ ?_ hrunning ?_⟩
      · simp only [rank, List.length_cons]
        omega
      · exact h.phases phase List.mem_cons_self
      · exact fun phase' hphase' => h.phases phase' (List.mem_cons_of_mem phase hphase')
    · refine ⟨frame_moveTo frame_self _, .goesOn (.leaving _) rfl Nat.one_pos ?_ hstate hrunning nofun⟩
      simp only [rank, List.length_cons]
      omega

theorem work_spec (hp : s.workers w = some p) (h : At s p) (outcome : Outcome) (hmoves : outcome ≠ .polls) :
    Frame s w (s.work w now outcome) ∧ Moved s w p (s.work w now outcome) := by
  cases p with
  | created =>
    obtain ⟨hrequest, hstate⟩ := h.busy (Nat.succ_pos _)
    have hwork : s.work w now outcome = { s with running := true }.moveTo w (.entering s.kind.phases) := by
      cases outcome <;> simp_all [work]
    rw [hwork]
    refine ⟨⟨rfl, rfl, rfl, .inl rfl, .inl ⟨rfl, rfl⟩⟩,
      .goesOn _ rfl (Nat.succ_pos _) ?_ hstate rfl s.kind.phases_ne_idle⟩
    simp only [rank]
    omega
  | entering phases =>
    obtain ⟨hrequest, hstate⟩ := h.busy (Nat.succ_pos _)
    have hwork : s.work w now outcome = s.enter w phases := by
      cases outcome <;> simp_all [work]
    rw [hwork]
    exact work_entering h
  | working rest =>
    obtain ⟨hrequest, hstate⟩ := h.busy (Nat.succ_pos _)
    have hrunning := h.running nofun
    cases outcome with
    | polls => exact absurd rfl hmoves
    | returns =>
      cases rest with
      | nil =>
        simp only [work, hp]
        exact ⟨frame_moveTo frame_self _, .goesOn _ rfl Nat.one_pos (by simp [rank]) hstate hrunning nofun⟩
      | cons phase rest =>
        simp only [work, hp]
        refine ⟨frame_moveTo frame_self _, .goesOn _ rfl (Nat.succ_pos _) ?_ hstate hrunning h.phases⟩
        simp only [rank]
        omega
    | raises code =>
      simp only [work, hp]
      refine ⟨frame_moveTo frame_self _, .goesOn _ rfl Nat.one_pos ?_ hstate hrunning nofun⟩
      simp only [rank]
      omega
  | polling rest =>
    obtain ⟨hrequest, hstate⟩ := h.busy (Nat.succ_pos _)
    have hrunning := h.running nofun
    have hwork : s.work w now outcome =
        if (s.isStopped w now).2 then (s.isStopped w now).1.moveTo w (.leaving none) else s.moveTo w
          (.entering rest) := by
      cases outcome <;> simp_all [work]
    obtain ⟨hworkers, hstate', hrunning'⟩ := @isStopped_same s w now
    rw [hwork]
    split
    · refine ⟨frame_moveTo frame_isStopped _, .goesOn (.leaving none) ?_ Nat.one_pos ?_ ?_ ?_ nofun⟩
      · simp only [moveTo, hworkers]
      · simp only [rank]
        omega
      · simp only [moveTo, hstate']
        exact hstate
      · simp only [moveTo, hrunning']
        exact hrunning
    · refine ⟨frame_moveTo frame_self _, .goesOn _ rfl (Nat.succ_pos _) ?_ hstate hrunning h.phases⟩
      simp only [rank]
      omega
  | leaving raised =>
    obtain ⟨hrequest, -⟩ := h.busy Nat.one_pos
    have hrunning := h.running nofun
    have hwork : s.work w now outcome = s.leave w raised := by
      cases outcome <;> simp_all [work]
    rw [hwork]
    refine ⟨⟨rfl, rfl, rfl, .inl rfl, .inl ⟨rfl, rfl⟩⟩, .leaves _ rfl ?_ Nat.one_pos rfl hrunning⟩
    cases raised <;> rfl
  | reporting error =>
    have hrunning := h.running nofun
    have hwork : s.work w now outcome = { s with exception := some error, exceptionOf := w }.moveTo w .ending := by
      cases outcome <;> simp_all [work]
    rw [hwork]
    exact ⟨⟨rfl, rfl, rfl, .inl rfl, .inr rfl⟩, .reports _ rfl rfl rfl rfl hrunning⟩
  | ending =>
    have hwork : s.work w now outcome = { s.endTask w with workers := Function.update s.workers w none } := by
      cases outcome <;> simp_all [work]
    rw [hwork]
    exact ⟨⟨rfl, rfl, rfl, .inr rfl, .inl ⟨rfl, rfl⟩⟩, .ends rfl rfl rfl⟩

end
end Photon.Agent.TaskRunner
