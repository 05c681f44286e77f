import Mathlib.Data.List.TakeDrop
import Photon.Runs
/-!
# BlockingDict — waiting for a value of a key

`BlockingDict` lets threads wait until the value of a key passes a verifier.  An assignment holds the lock of the
dictionary and goes over the list of the waiters for the key; the lock keeps new waiters out, but waiters that are done
take themselves out of the list with another lock, and the list the assignment goes over is not a copy.  A waiter that
is taken out after the loop has passed it moves the others to the front, and the loop misses one.
-/
namespace Photon.Common.BlockingDict

open List
open Runs (Always Meets)
open Function (update update_of_ne update_self)

variable {K V : Type}

inductive Status where
  | waiting
  | answered
  | timedOut
  deriving DecidableEq

/-- A value is `none` if it is Python's `None`. -/
structure Waiter (K V : Type) where
  key : K
  verifier : Option V → Bool
  verified : Bool
  value : Option V
  status : Status

inductive Operation (V : Type) where
  | assign (value : Option V)
  | delete

def Operation.value : Operation V → Option V
  | .assign value => value
  | .delete => none

structure Loop (K V : Type) where
  key : K
  operation : Operation V
  index : Nat
  waiting : List Nat

structure System (K V : Type) where
  dict : K → Option (Option V)
  /-- The lists of waiters; a key without waiters has no list. -/
  lists : K → List Nat
  waiters : Nat → Option (Waiter K V)
  count : Nat
  loop : Option (Loop K V)

def Waiter.setValue (waiter : Waiter K V) (value : Option V) : Waiter K V :=
  if waiter.verifier value then { waiter with verified := true, value := value } else waiter

def Waiter.unanswered (waiter : Waiter K V) : Bool := !waiter.verified && decide (waiter.status = .waiting)

def System.setValue (s : System K V) (w : Nat) (value : Option V) : System K V :=
  { s with waiters := Function.update s.waiters w ((s.waiters w).map fun waiter => waiter.setValue value) }

section

variable [DecidableEq K]

def System.waitUntil (s : System K V) (key : K) (verifier : Option V → Bool) : System K V :=
  let current := (s.dict key).getD none
  if verifier current then
    { s with
      waiters := Function.update s.waiters s.count (some ⟨key, verifier, true, current, .answered⟩)
      count := s.count + 1 }
  else
    { s with
      waiters := Function.update s.waiters s.count (some ⟨key, verifier, false, none, .waiting⟩)
      count := s.count + 1
      lists := Function.update s.lists key (s.lists key ++ [s.count]) }

def System.begin (s : System K V) (key : K) (operation : Operation V) : System K V :=
  let waiting := (s.lists key).filter fun w => ((s.waiters w).map Waiter.unanswered).getD false
  { s with loop := some ⟨key, operation, 0, waiting⟩ }

def System.finish (s : System K V) (loop : Loop K V) : System K V :=
  match loop.operation with
  | .assign value => { s with dict := Function.update s.dict loop.key (some value), loop := none }
  | .delete => { s with dict := Function.update s.dict loop.key none, loop := none }

def System.next (s : System K V) : System K V :=
  match s.loop with
  | none => s
  | some loop =>
    match (s.lists loop.key)[loop.index]? with
    | some w => { s.setValue w loop.operation.value with loop := some { loop with index := loop.index + 1 } }
    | none => s.finish loop

def System.wakeUp (s : System K V) (w : Nat) : System K V :=
  match s.waiters w with
  | some waiter =>
    if waiter.status = .waiting then
      let status := if waiter.verified then Status.answered else .timedOut
      { s with waiters := Function.update s.waiters w (some { waiter with status := status }) }
    else s
  | none => s

def System.removeWaiter (s : System K V) (w : Nat) : System K V :=
  match s.waiters w with
  | some waiter =>
    if waiter.status = .waiting then s
    else { s with lists := Function.update s.lists waiter.key ((s.lists waiter.key).erase w) }
  | none => s

inductive Event (K V : Type) where
  | waitUntil (key : K) (verifier : Option V → Bool)
  | begin (key : K) (operation : Operation V)
  | next
  | wakeUp (w : Nat)
  | removeWaiter (w : Nat)

def System.step (s : System K V) : Event K V → System K V
  | .waitUntil key verifier => if s.loop.isSome then s else s.waitUntil key verifier
  | .begin key operation => if s.loop.isSome then s else s.begin key operation
  | .next => s.next
  | .wakeUp w => s.wakeUp w
  | .removeWaiter w => s.removeWaiter w

end

def System.start : System K V := ⟨fun _ => none, fun _ => [], fun _ => none, 0, none⟩

/-! ## What is asked -/

def Truthful (s : System K V) : Prop :=
  ∀ w waiter, s.waiters w = some waiter → (waiter.status = .answered → waiter.verified = true) ∧
    (waiter.verified = true → waiter.verifier waiter.value = true)

/-- With the end of an assignment, every waiter for the key that had no answer when it began, has not timed out and
accepts the value has been given it. -/
def Delivers (s : System K V) : Event K V → Prop
  | .next =>
    ∀ loop value, s.loop = some loop → loop.operation = .assign value → (s.lists loop.key)[loop.index]? = none →
      ∀ w ∈ loop.waiting, ∀ waiter, s.waiters w = some waiter → waiter.verifier value = true →
        waiter.status ≠ .timedOut → waiter.verified = true ∧ waiter.value = value
  | _ => True

/-- No waiter is taken out of the list that a loop goes over after the loop has passed it, unless the loop has passed
all. -/
def KeepsPlace (s : System K V) : Event K V → Prop
  | .removeWaiter w => ∀ loop waiter, s.loop = some loop → s.waiters w = some waiter → waiter.key = loop.key →
      w ∉ (s.lists loop.key).take loop.index ∨ (s.lists loop.key).length ≤ loop.index
  | _ => True

/-! ## The invariant -/

/-- A waiter that had no answer when the operation began is yet to come in the loop, or has been given the value, or
cannot be. -/
def Due (loop : Loop K V) (list : List Nat) (w : Nat) (waiter : Waiter K V) : Prop :=
  if waiter.verified then waiter.value = loop.operation.value
  else w ∈ list.drop loop.index ∨ waiter.verifier loop.operation.value = false ∨ waiter.status = .timedOut

structure Inv (s : System K V) : Prop where
  truthful : Truthful s
  due : ∀ loop, s.loop = some loop → ∀ w ∈ loop.waiting, ∀ waiter, s.waiters w = some waiter →
    waiter.key = loop.key ∧ Due loop (s.lists loop.key) w waiter
  listed : ∀ key, ∀ w ∈ s.lists key, ∃ waiter, s.waiters w = some waiter ∧ waiter.key = key
  fresh : ∀ w, s.count ≤ w → s.waiters w = none

section

variable {s : System K V}

variable {waiter : Waiter K V}

@[simp] theorem setValue_key (waiter : Waiter K V) (value : Option V) : (waiter.setValue value).key = waiter.key := by
  unfold Waiter.setValue
  split <;> rfl

variable {w : Nat}

theorem eq_some_of_update {w' : Nat} {new : Option (Waiter K V)} (h : update s.waiters w new w' = some waiter) :
      (w' = w ∧ new = some waiter) ∨ (w' ≠ w ∧ s.waiters w' = some waiter) := by
  by_cases hw : w' = w
  · subst hw
    rw [update_self] at h
    exact .inl ⟨rfl, h⟩
  · rw [update_of_ne hw] at h
    exact .inr ⟨hw, h⟩

variable {new : Waiter K V}

theorem Inv.listed_update (h : Inv s) {old : Waiter K V} (hold : s.waiters w = some old) (hkey : new.key = old.key) :
    ∀ key, ∀ w' ∈ s.lists key, ∃ waiter, update s.waiters w (some new) w' = some waiter ∧ waiter.key = key := by
  intro key w' hw'
  obtain ⟨waiter, hwaiter, rfl⟩ := h.listed key w' hw'
  by_cases heq : w' = w
  · subst heq
    cases hwaiter.symm.trans hold
    exact ⟨new, update_self .., hkey⟩
  · exact ⟨waiter, by rw [update_of_ne heq, hwaiter], rfl⟩

theorem Inv.fresh_update (h : Inv s) {old : Waiter K V} (hold : s.waiters w = some old) :
    ∀ w', s.count ≤ w' → update s.waiters w (some new) w' = none := by
  intro w' hw'
  have hne : w' ≠ w := by
    intro heq
    rw [heq] at hw'
    rw [h.fresh w hw'] at hold
    cases hold
  rw [update_of_ne hne]
  exact h.fresh w' hw'

/-! ## The steps -/

theorem Inv.register (h : Inv s) (hloop : s.loop = none)
    (hnew : (new.status = .answered → new.verified = true) ∧ (new.verified = true → new.verifier new.value = true))
    {lists : K → List Nat} (hlists : ∀ key, ∀ w ∈ lists key, w ∈ s.lists key ∨ (w = s.count ∧ new.key = key)) :
    Inv { s with waiters := update s.waiters s.count (some new), count := s.count + 1, lists := lists } where
  truthful w waiter hw := by
    rcases eq_some_of_update hw with ⟨-, hnew'⟩ | ⟨-, hold⟩
    · cases hnew'
      exact hnew
    · exact h.truthful w waiter hold
  due loop hsome := by
    rw [hloop] at hsome
    cases hsome
  listed key w hw := by
    rcases hlists key w hw with hw | ⟨rfl, hkey⟩
    · obtain ⟨waiter, hwaiter, hkey⟩ := h.listed key w hw
      have hne : w ≠ s.count := by
        intro heq
        rw [heq, h.fresh s.count (Nat.le_refl _)] at hwaiter
        cases hwaiter
      exact ⟨waiter, (update_of_ne hne ..).trans hwaiter, hkey⟩
    · exact ⟨new, update_self .., hkey⟩
  fresh w hw := by
    refine (update_of_ne (Nat.ne_of_gt hw) ..).trans ?_
    exact h.fresh w (Nat.le_of_succ_le hw)

theorem Inv.begin (h : Inv s) (key : K) (operation : Operation V) : Inv (s.begin key operation) where
  truthful := h.truthful
  due loop hloop w hw waiter hwaiter := by
    cases hloop
    obtain ⟨hmem, hunanswered⟩ := mem_filter.1 hw
    obtain ⟨waiter', hwaiter', hkey⟩ := h.listed key w hmem
    cases hwaiter.symm.trans hwaiter'
    rw [hwaiter'] at hunanswered
    simp only [Option.map_some, Option.getD_some, Waiter.unanswered, Bool.and_eq_true, Bool.not_eq_true'] at hunanswered
    refine ⟨hkey, ?_⟩
    simp only [Due, hunanswered.1, Bool.false_eq_true, if_false, drop_zero]
    exact .inl hmem
  listed := h.listed
  fresh := h.fresh

variable {list : List Nat}

theorem Due.setValue_self {loop : Loop K V} (h : Due loop list w waiter) :
    Due { loop with index := loop.index + 1 } list w (waiter.setValue loop.operation.value) := by
  unfold Waiter.setValue
  split
  · simp only [Due, if_true]
  · rename_i hrejects
    unfold Due at h ⊢
    split
    · rename_i hverified
      rwa [if_pos hverified] at h
    · exact .inr (.inl (Bool.eq_false_iff.2 hrejects))

theorem Due.setValue_other {loop : Loop K V} {w₀ : Nat} (h : Due loop list w waiter)
    (hw₀ : list[loop.index]? = some w₀) (hne : w ≠ w₀) : Due { loop with index := loop.index + 1 } list w waiter := by
  unfold Due at h ⊢
  split
  · rename_i hverified
    rwa [if_pos hverified] at h
  · rename_i hverified
    rw [if_neg hverified] at h
    refine h.imp (fun hmem => ?_) id
    obtain ⟨hlt, hget⟩ := List.getElem?_eq_some_iff.1 hw₀
    rw [drop_eq_getElem_cons hlt, hget] at hmem
    rcases mem_cons.1 hmem with hmem | hmem
    · exact absurd hmem hne
    · exact hmem

theorem Inv.wakeUp (h : Inv s) (w₀ : Nat) : Inv (s.wakeUp w₀) := by
  unfold System.wakeUp
  cases hold : s.waiters w₀ with
  | none => exact h
  | some old =>
    simp only
    split
    · refine ⟨fun w waiter hw => ?_, fun loop hloop w hw waiter hwaiter => ?_, h.listed_update hold rfl,
        h.fresh_update hold⟩
      · rcases eq_some_of_update hw with ⟨-, hnew⟩ | ⟨-, hw⟩
        · cases hnew
          refine ⟨fun hanswered => ?_, (h.truthful w₀ old hold).2⟩
          simp only at hanswered ⊢
          split at hanswered
          · assumption
          · cases hanswered
        · exact h.truthful w waiter hw
      · rcases eq_some_of_update hwaiter with ⟨rfl, hnew⟩ | ⟨-, hwaiter⟩
        · cases hnew
          obtain ⟨hkey, hdue⟩ := h.due loop hloop w hw old hold
          refine ⟨hkey, ?_⟩
          unfold Due at hdue ⊢
          simp only
          split
          · rename_i hverified
            rwa [if_pos hverified] at hdue
          · exact .inr (.inr rfl)
        · exact h.due loop hloop w hw waiter hwaiter
    · exact h

theorem mem_drop_erase {i w₀ : Nat} (hw : w ∈ list.drop i) (hne : w ≠ w₀) (hw₀ : w₀ ∉ list.take i) :
    w ∈ (list.erase w₀).drop i := by
  have hi : i ≤ list.length := by
    by_contra hlt
    rw [drop_eq_nil_of_le (by omega)] at hw
    cases hw
  have herase : list.erase w₀ = list.take i ++ (list.drop i).erase w₀ := by
    conv_lhs => rw [← take_append_drop i list]
    exact erase_append_right _ hw₀
  rw [herase, drop_left' (length_take_of_le hi)]
  exact (mem_erase_of_ne hne).2 hw

theorem Inv.delivers (h : Inv s) (e : Event K V) : Delivers s e := by
  cases e with
  | next =>
    intro loop value hloop hassign hend w hw waiter hwaiter haccepts htimedOut
    obtain ⟨-, hdue⟩ := h.due loop hloop w hw waiter hwaiter
    have hvalue : loop.operation.value = value := by
      rw [hassign]
      rfl
    rw [Due, hvalue] at hdue
    split at hdue
    · rename_i hverified
      exact ⟨hverified, hdue⟩
    · rcases hdue with hmem | hrejected | hstatus
      · rw [drop_eq_nil_of_le (getElem?_eq_none_iff.1 hend)] at hmem
        cases hmem
      · rw [haccepts] at hrejected
        cases hrejected
      · exact absurd hstatus htimedOut
  | _ => trivial

theorem inv_start : Inv (.start : System K V) where
  truthful _ _ hw := by cases hw
  due _ hloop := by cases hloop
  listed _ _ hw := by cases hw
  fresh _ _ := rfl

variable [DecidableEq K]

theorem Inv.waitUntil (h : Inv s) (hloop : s.loop = none) (key : K) (verifier : Option V → Bool) :
    Inv (s.waitUntil key verifier) := by
  simp only [System.waitUntil]
  split
  · rename_i haccepts
    exact h.register hloop ⟨fun _ => rfl, fun _ => haccepts⟩ fun _ _ hw => .inl hw
  · refine h.register hloop ⟨?_, ?_⟩ ?_
    · intro hstatus
      cases hstatus
    · intro hverified
      cases hverified
    · intro key' w hw
      by_cases hkey : key' = key
      · subst hkey
        rw [update_self] at hw
        rcases mem_append.1 hw with hw | hw
        · exact .inl hw
        · exact .inr ⟨mem_singleton.1 hw, rfl⟩
      · rw [update_of_ne hkey] at hw
        exact .inl hw

theorem Inv.next (h : Inv s) : Inv s.next := by
  unfold System.next
  cases hloop : s.loop with
  | none => exact h
  | some loop =>
    simp only
    cases hget : (s.lists loop.key)[loop.index]? with
    | none =>
      simp only [System.finish]
      cases loop.operation with
      | assign value | delete => exact { h with due := fun _ hnone => (by cases hnone) }
    | some w₀ =>
      obtain ⟨old, hold, hkey⟩ := h.listed loop.key w₀ (mem_of_getElem? hget)
      simp only [System.setValue, hold, Option.map_some]
      refine ⟨fun w waiter hw => ?_, fun loop' hloop' w hw waiter hwaiter => ?_, h.listed_update hold (setValue_key ..),
        h.fresh_update hold⟩
      · rcases eq_some_of_update hw with ⟨-, hnew⟩ | ⟨-, hw⟩
        · cases hnew
          unfold Waiter.setValue
          split
          · rename_i haccepts
            exact ⟨fun _ => rfl, fun _ => haccepts⟩
          · exact h.truthful w₀ old hold
        · exact h.truthful w waiter hw
      · cases hloop'
        rcases eq_some_of_update hwaiter with ⟨rfl, hnew⟩ | ⟨hne, hwaiter⟩
        · cases hnew
          obtain ⟨hkey', hdue⟩ := h.due loop hloop w hw old hold
          exact ⟨by rw [setValue_key, hkey'], hdue.setValue_self⟩
        · obtain ⟨hkey', hdue⟩ := h.due loop hloop w hw waiter hwaiter
          exact ⟨hkey', hdue.setValue_other hget hne⟩

theorem Inv.removeWaiter (h : Inv s) (w₀ : Nat) (hplace : KeepsPlace s (.removeWaiter w₀)) :
    Inv (s.removeWaiter w₀) := by
  unfold System.removeWaiter
  cases hold : s.waiters w₀ with
  | none => exact h
  | some old =>
    simp only
    split
    · exact h
    · rename_i hstatus
      refine ⟨h.truthful, fun loop hloop w hw waiter hwaiter => ?_, fun key w hw => ?_, h.fresh⟩
      · obtain ⟨hkey, hdue⟩ := h.due loop hloop w hw waiter hwaiter
        refine ⟨hkey, ?_⟩
        by_cases hsame : loop.key = old.key
        · simp only [hsame, update_self]
          rw [hsame] at hdue
          unfold Due at hdue ⊢
          split
          · rename_i hverified
            rwa [if_pos hverified] at hdue
          · rename_i hverified
            rw [if_neg hverified] at hdue
            rcases hdue with hmem | hrejected | htimedOut
            · by_cases hne : w = w₀
              · -- a waiter that is taken out has no answer only if it has timed out
                subst hne
                obtain rfl := Option.some.inj (hwaiter.symm.trans hold)
                cases hcase : waiter.status with
                | waiting => exact absurd hcase hstatus
                | answered => exact absurd ((h.truthful w waiter hwaiter).1 hcase) hverified
                | timedOut => exact .inr (.inr rfl)
              · rcases hplace loop old hloop hold hsame.symm with hnotin | hpassed
                · rw [hsame] at hnotin
                  exact .inl (mem_drop_erase hmem hne hnotin)
                · rw [hsame] at hpassed
                  rw [drop_eq_nil_of_le hpassed] at hmem
                  cases hmem
            · exact .inr (.inl hrejected)
            · exact .inr (.inr htimedOut)
        · simp only [update_of_ne hsame]
          exact hdue
      · by_cases hkey : key = old.key
        · subst hkey
          simp only [update_self] at hw
          exact h.listed _ w (mem_of_mem_erase hw)
        · simp only [update_of_ne hkey] at hw
          exact h.listed key w hw

theorem Inv.step (h : Inv s) (e : Event K V) (hplace : KeepsPlace s e) : Inv (s.step e) := by
  cases e with
  | waitUntil key verifier =>
    simp only [System.step]
    split
    · exact h
    · rename_i hloop
      exact h.waitUntil (Option.not_isSome_iff_eq_none.1 hloop) key verifier
  | begin key operation =>
    simp only [System.step]
    split
    · exact h
    · exact h.begin key operation
  | next => exact h.next
  | wakeUp w => exact h.wakeUp w
  | removeWaiter w => exact h.removeWaiter w hplace

/-- **The dictionary delivers every accepted value**, over every interleaving in which no waiter is taken out of a list
that an operation goes over after the operation has passed it; and no waiter is given a value that its verifier
rejects. -/
theorem blockingDict_delivers (events : List (Event K V)) (h : Meets System.step KeepsPlace .start events) :
    Meets System.step Delivers (.start : System K V) events ∧ Always System.step Truthful .start events :=
  ⟨Runs.meets_of_meets (fun _ e hinv hplace => hinv.step e hplace) (fun _ e hinv _ => hinv.delivers e) inv_start h,
    (Runs.always_of_meets (fun _ e hinv hplace => hinv.step e hplace) inv_start h).mono fun _ hinv => hinv.truthful⟩

end

/-- Two waiters for one value; the first one wakes up and is taken out of the list after the loop has passed both. -/
def twoWaiters : List (Event Nat Nat) :=
  [.waitUntil 0 (· == some 1), .waitUntil 0 (· == some 1), .begin 0 (.assign (some 1)), .next, .next, .wakeUp 0,
    .removeWaiter 0, .next]

theorem blockingDict_delivers_twoWaiters :
    Meets System.step KeepsPlace .start twoWaiters ∧
      Meets System.step Delivers .start twoWaiters ∧ Always System.step Truthful .start twoWaiters := by
  have hplace : Meets System.step KeepsPlace .start twoWaiters := by
    refine ⟨trivial, trivial, trivial, trivial, trivial, trivial, ?_, trivial, trivial⟩
    intro loop waiter hloop _ _
    cases hloop
    exact .inr (by decide)
  exact ⟨hplace, blockingDict_delivers twoWaiters hplace⟩

/-- **A waiter is missed.**  The first waiter wakes up and is taken out as soon as it has its value, the second moves to
its place, and the loop is past it. -/
theorem blockingDict_missesWaiter :
    ¬ Meets System.step Delivers (.start : System Nat Nat)
      [.waitUntil 0 (· == some 1), .waitUntil 0 (· == some 1), .begin 0 (.assign (some 1)), .next, .wakeUp 0,
        .removeWaiter 0, .next] := by
  intro h
  obtain ⟨-, -, -, -, -, -, hend, -⟩ := h
  have hmissed := hend ⟨0, .assign (some 1), 1, [0, 1]⟩ (some 1) rfl rfl rfl 1 (by decide)
    ⟨0, (· == some 1), false, none, .waiting⟩ rfl
    rfl (by decide)
  exact absurd hmissed.1 (by decide)

end Photon.Common.BlockingDict
