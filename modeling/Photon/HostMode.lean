import Photon.Runs
/-!
# HostMode — the maintenance mode of a host

`Mode.set_mode` puts the mode into the cache of `State`, has the file written and runs the callbacks, in this order.
Writing the file and each callback can raise; the file is replaced by a rename, so that a write that fails leaves it as
it was.
-/
namespace Photon.Agent.HostMode

open Runs (Always Meets)

inductive MODE
  | normal | enteringMaintenance | maintenance | deprovisioned
  deriving DecidableEq

structure Callbacks (C : Type) where
  enter : List (MODE × C)
  exit : List (MODE × C)
  change : List C

/-- What `State` has under `MODE_KEY`, in its cache and in its file. -/
structure State where
  cache : Option MODE
  file : Option MODE

structure Call (C : Type) where
  mode : MODE
  fromModes : Option (List MODE) := none
  persists : Bool := true
  raises : C → Bool := fun _ => false

inductive Result
  | returned
  | modeTransitionError (fromMode : MODE)
  | notPersisted
  | callbackRaised
  deriving DecidableEq

variable {C : Type}

def State.getMode (s : State) : MODE := s.cache.getD .normal

/-- `State.set`: first the cache, then the file. -/
def State.set (s : State) (mode : MODE) (persists : Bool) : State :=
  { cache := some mode, file := if persists then some mode else s.file }

def Callbacks.triggered (callbacks : Callbacks C) (current mode : MODE) : List C :=
  ((callbacks.exit.filter fun c => c.1 = current).map Prod.snd) ++
    ((callbacks.enter.filter fun c => c.1 = mode).map Prod.snd) ++ callbacks.change

/-- The callbacks that are run, up to the first that raises, and whether none has. -/
def runCallbacks (raises : C → Bool) : List C → List C × Bool
  | [] => ([], true)
  | c :: callbacks =>
    if raises c then ([c], false)
    else (c :: (runCallbacks raises callbacks).1, (runCallbacks raises callbacks).2)

/-- `set_mode`: the state, how the call ends, and the callbacks that were run.  No list and the empty one allow every
mode. -/
def State.setMode (callbacks : Callbacks C) (s : State) (call : Call C) : State × Result × List C :=
  if s.getMode = call.mode then (s, .returned, [])
  else if call.fromModes.getD [] ≠ [] ∧ s.getMode ∉ call.fromModes.getD [] then (s, .modeTransitionError s.getMode, [])
  else if call.persists then
    let ran := runCallbacks call.raises (callbacks.triggered s.getMode call.mode)
    (s.set call.mode true, if ran.2 then .returned else .callbackRaised, ran.1)
  else (s.set call.mode false, .notPersisted, [])

def State.step (callbacks : Callbacks C) (s : State) (call : Call C) : State := (s.setMode callbacks call).1

/-! ## The mode and the file -/

/-- The mode is the stored one, or the default where none is stored. -/
def Consistent (s : State) : Prop := s.getMode = s.file.getD .normal

def CallbacksRight (callbacks : Callbacks C) (s : State) (call : Call C) : Prop :=
  (s.setMode callbacks call).2.2 = if (s.setMode callbacks call).2.1 = .returned ∧ s.getMode ≠ call.mode then
    callbacks.triggered s.getMode call.mode else []

def Changes (s : State) (call : Call C) : Prop :=
  s.getMode ≠ call.mode ∧ ¬ (call.fromModes.getD [] ≠ [] ∧ s.getMode ∉ call.fromModes.getD [])

def Succeeds (callbacks : Callbacks C) (s : State) (call : Call C) : Prop :=
  Changes s call → call.persists = true ∧ ∀ c ∈ callbacks.triggered s.getMode call.mode, call.raises c = false

variable {raises : C → Bool}

theorem runCallbacks_of_all : ∀ {callbacks : List C}, (∀ c ∈ callbacks, raises c = false) →
    runCallbacks raises callbacks = (callbacks, true)
  | [], _ => rfl
  | c :: callbacks, h => by
    rw [List.forall_mem_cons] at h
    rw [runCallbacks, h.1, runCallbacks_of_all h.2]
    rfl

theorem runCallbacks_nil : ∀ {callbacks : List C}, (runCallbacks raises callbacks).2 = false →
    (runCallbacks raises callbacks).1 ≠ []
  | [], h => by cases h
  | c :: callbacks, _ => by
    rw [runCallbacks]
    split <;> exact List.cons_ne_nil _ _

theorem all_of_runCallbacks : ∀ {callbacks : List C}, (runCallbacks raises callbacks).2 = true →
    ∀ c ∈ callbacks, raises c = false
  | [], _ => fun _ h => absurd h List.not_mem_nil
  | c :: callbacks, h => by
    rw [runCallbacks] at h
    split at h
    · cases h
    · rename_i hc
      exact List.forall_mem_cons.2 ⟨Bool.eq_false_iff.2 hc, all_of_runCallbacks h⟩

section

variable {callbacks : Callbacks C} {s : State} {call : Call C}

theorem setMode_unchanged (h : ¬ Changes s call) : s.step callbacks call = s ∧ CallbacksRight callbacks s call := by
  unfold State.step CallbacksRight State.setMode
  split
  · rename_i hsame
    exact ⟨rfl, (if_neg fun hdone => hdone.2 hsame).symm⟩
  · rename_i hne
    have hforbidden := not_not.1 fun hallowed => h ⟨hne, hallowed⟩
    rw [if_pos hforbidden]
    exact ⟨rfl, rfl⟩

theorem setMode_changed (h : Changes s call) : s.setMode callbacks call = if call.persists then
      (s.set call.mode true, if (runCallbacks call.raises (callbacks.triggered s.getMode call.mode)).2 then .returned
        else .callbackRaised, (runCallbacks call.raises (callbacks.triggered s.getMode call.mode)).1)
    else (s.set call.mode false, .notPersisted, []) := by
  rw [State.setMode, if_neg h.1, if_neg h.2]

theorem consistent_step (h : Consistent s) (hsucceeds : Succeeds callbacks s call) :
    Consistent (s.step callbacks call) ∧ CallbacksRight callbacks s call := by
  by_cases hchanges : Changes s call
  · obtain ⟨hpersists, hraises⟩ := hsucceeds hchanges
    unfold State.step CallbacksRight
    rw [setMode_changed hchanges, if_pos hpersists, runCallbacks_of_all hraises]
    exact ⟨rfl, (if_pos ⟨rfl, hchanges.1⟩).symm⟩
  · have ⟨hstep, hright⟩ : s.step callbacks call = s ∧ CallbacksRight callbacks s call := setMode_unchanged hchanges
    rw [hstep]
    exact ⟨h, hright⟩

/-- What raises in a call that changes the mode is seen: in the file, or in the callbacks. -/
theorem succeeds_of_right (h : Consistent s) (hstep : Consistent (s.step callbacks call))
    (hright : CallbacksRight callbacks s call) : Succeeds callbacks s call := by
  intro hchanges
  unfold State.step at hstep
  unfold CallbacksRight at hright
  rw [setMode_changed hchanges] at hstep hright
  cases hpersists : call.persists with
  | false =>
    rw [hpersists] at hstep
    exact absurd (h.trans hstep.symm) hchanges.1
  | true =>
    rw [hpersists] at hright
    refine ⟨rfl, all_of_runCallbacks ?_⟩
    cases hran : (runCallbacks call.raises (callbacks.triggered s.getMode call.mode)).2 with
    | true => rfl
    | false =>
      simp only [hran, if_true, Bool.false_eq_true, if_false, reduceCtorEq, false_and] at hright
      exact absurd hright (runCallbacks_nil hran)

end

/-- **The mode follows the file, and the callbacks the transitions,** in every sequence of calls exactly if no call that
changes the mode raises, in writing the file or in a callback. -/
theorem setMode_consistent_iff (callbacks : Callbacks C) (file : Option MODE) (calls : List (Call C)) :
    (Always (State.step callbacks) Consistent ⟨file, file⟩ calls ∧
      Meets (State.step callbacks) (CallbacksRight callbacks) ⟨file, file⟩ calls) ↔
    Meets (State.step callbacks) (Succeeds callbacks) ⟨file, file⟩ calls := by
  refine Runs.always_and_meets_iff_of_inv (I := Consistent) ?_ (fun _ h => h) ?_ ?_ rfl
  · exact fun _ _ h hsucceeds => (consistent_step h hsucceeds).1
  · exact fun _ _ h hsucceeds => (consistent_step h hsucceeds).2
  · exact fun _ _ => succeeds_of_right

/-- The file cannot be written: the mode is maintenance, the file has none, and the same call again returns without a
callback. A callback raises: so does the call, and the callback has run. -/
theorem setMode_not_persisted :
    (State.setMode (⟨[], [], [0]⟩ : Callbacks Nat) ⟨none, none⟩ { mode := .maintenance, persists := false } =
        (⟨some .maintenance, none⟩, .notPersisted, []) ∧ ¬ Consistent ⟨some .maintenance, none⟩ ∧
      (State.setMode (⟨[], [], [0]⟩ : Callbacks Nat) ⟨some .maintenance, none⟩ { mode := .maintenance }).2 =
        (.returned, [])) ∧
    (State.setMode (⟨[], [], [0]⟩ : Callbacks Nat) ⟨none, none⟩ { mode := .maintenance, raises := fun _ => true }).2 =
        (.callbackRaised, [0]) ∧
      ¬ CallbacksRight (⟨[], [], [0]⟩ : Callbacks Nat) ⟨none, none⟩ { mode := .maintenance, raises := fun _ => true } :=
  ⟨⟨rfl, (by decide : ¬ MODE.maintenance = .normal), rfl⟩, rfl, (by decide : ¬ [0] = [])⟩

end Photon.Agent.HostMode
