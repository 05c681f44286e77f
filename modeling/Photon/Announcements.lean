import Mathlib.Data.List.Dedup
/-!
# Announcements — what a listener has been told

A book keeps, for each listener, what it has been told: that something has been added, or removed.  A thing stands in
the end if the last that was said of it is that it was added.  The rules say what stands after a batch
(`stands_append_added`, `stands_append_removed`) and what everybody who was told alike agrees on (`Agree.tellAll_added`,
`Agree.tellAll_removed`).
-/
namespace Announcements

variable {α ι : Type}

inductive Announcement (α : Type) where
  | added (a : α)
  | removed (a : α)
  deriving DecidableEq

section

variable [DecidableEq α]

def Announcement.apply (a : α) (stood : Bool) : Announcement α → Bool
  | .added a' => decide (a = a') || stood
  | .removed a' => !decide (a = a') && stood

/-- The last that was said of it is that it was added. -/
def stands (log : List (Announcement α)) (a : α) : Bool := log.foldl (fun stood x => x.apply a stood) false

@[simp] theorem stands_nil (a : α) : stands [] a = false := rfl

theorem stands_append (log : List (Announcement α)) (x : Announcement α) (a : α) :
    stands (log ++ [x]) a = x.apply a (stands log a) := by
  simp only [stands, List.foldl_append, List.foldl_cons, List.foldl_nil]

theorem stands_append_added (a : α) : ∀ (as : List α) (log : List (Announcement α)),
    stands (log ++ as.map .added) a = true ↔ stands log a = true ∨ a ∈ as
  | [], log => by simp
  | a' :: as, log => by
    rw [List.map_cons, List.append_cons, stands_append_added a as, stands_append, List.mem_cons]
    simp only [Announcement.apply, Bool.or_eq_true, decide_eq_true_eq]
    tauto

theorem stands_append_removed (a : α) : ∀ (as : List α) (log : List (Announcement α)),
    stands (log ++ as.map .removed) a = true ↔ stands log a = true ∧ a ∉ as
  | [], log => by simp
  | a' :: as, log => by
    rw [List.map_cons, List.append_cons, stands_append_removed a as, stands_append, List.mem_cons]
    simp only [Announcement.apply, Bool.and_eq_true, Bool.not_eq_true', decide_eq_false_iff_not]
    tauto

end

abbrev Book (ι α : Type) := ι → List (Announcement α)

section

variable [DecidableEq α]

def Agree (listeners : List ι) (book : Book ι α) (P : α → Prop) : Prop :=
  ∀ listener ∈ listeners, ∀ a, stands (book listener) a = true ↔ P a

variable {listeners : List ι} {book : Book ι α} {P Q : α → Prop}

theorem Agree.congr (h : Agree listeners book P) (hPQ : ∀ a, P a ↔ Q a) : Agree listeners book Q :=
  fun listener hlistener a => (h listener hlistener a).trans (hPQ a)

theorem Agree.sub {listeners' : List ι} (h : Agree listeners book P) (hsub : ∀ l ∈ listeners', l ∈ listeners) :
    Agree listeners' book P :=
  fun listener hlistener => h listener (hsub listener hlistener)

variable [DecidableEq ι]

def Book.tell (book : Book ι α) (listener : ι) (announcements : List (Announcement α)) : Book ι α :=
  Function.update book listener (book listener ++ announcements)

def Book.tellAll (book : Book ι α) (listeners : List ι) (announcement : Announcement α) : Book ι α :=
  fun listener => if listener ∈ listeners then book listener ++ [announcement] else book listener

variable (h : Agree listeners book P)
include h

theorem Agree.tellAll_added (a : α) : Agree listeners (book.tellAll listeners (.added a)) fun a' => P a' ∨ a' = a := by
  intro listener hlistener a'
  rw [Book.tellAll, if_pos hlistener, ← List.map_singleton, stands_append_added, List.mem_singleton,
    h listener hlistener]

theorem Agree.tellAll_removed (a : α) :
    Agree listeners (book.tellAll listeners (.removed a)) fun a' => P a' ∧ a' ≠ a := by
  intro listener hlistener a'
  rw [Book.tellAll, if_pos hlistener, ← List.map_singleton, stands_append_removed, List.mem_singleton,
    h listener hlistener]

theorem Agree.join {listener : ι} {announcements : List (Announcement α)}
    (hnew : ∀ a, stands (book listener ++ announcements) a = true ↔ P a) :
    Agree (listeners.insert listener) (book.tell listener announcements) P := by
  intro listener' hlistener' a
  by_cases heq : listener' = listener
  · rw [heq, Book.tell, Function.update_self]
    exact hnew a
  · rw [Book.tell, Function.update_of_ne heq]
    exact h listener' ((List.mem_insert_iff.1 hlistener').resolve_left heq) a

end

end Announcements
