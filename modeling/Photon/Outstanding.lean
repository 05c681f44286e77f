import Mathlib.Algebra.BigOperators.Group.List.Basic
/-!
# Outstanding — operations that are on their way

A list of operations that have been sent and not been answered.  Answering one takes it out and sends others in its
place (`answered`); what is counted or weighed over the list changes by what is taken out and put in.
-/
namespace Outstanding

open List

variable {α M : Type}

/-- The operation at `k` is answered, and others follow it. -/
def answered (pending : List α) (k : Nat) (new : List α) : List α := pending.eraseIdx k ++ new

variable {a : α} {k : Nat}

theorem getElem?_singleton {b : α} (h : [a][k]? = some b) : k = 0 ∧ a = b := by
  cases k with
  | zero => exact ⟨rfl, Option.some.inj h⟩
  | succ k => cases h

variable {pending : List α}

theorem perm_eraseIdx (hk : pending[k]? = some a) : pending.Perm (a :: pending.eraseIdx k) := by
  obtain ⟨hlt, hget⟩ := List.getElem?_eq_some_iff.1 hk
  have hperm := getElem_cons_eraseIdx_perm hlt
  rw [hget] at hperm
  exact hperm.symm

theorem countP_eraseIdx (hk : pending[k]? = some a) (p : α → Bool) :
    pending.countP p = (pending.eraseIdx k).countP p + if p a then 1 else 0 := by
  rw [(perm_eraseIdx hk).countP_eq, countP_cons]

/-- **The weight of what is outstanding** changes by what is answered and what follows. -/
theorem sum_answered [AddCommMonoid M] (hk : pending[k]? = some a) (weight : α → M) (new : List α) :
    ((answered pending k new).map weight).sum + weight a = (pending.map weight).sum + (new.map weight).sum := by
  rw [answered, map_append, sum_append, ((perm_eraseIdx hk).map weight).sum_eq, map_cons, sum_cons,
    add_comm (weight a), add_assoc, add_assoc, add_comm (weight a)]

theorem sum_set [AddCommMonoid M] (weight : α → M) : ∀ {l : List α} {i : Nat} {a : α}, l[i]? = some a → ∀ b,
    ((l.set i b).map weight).sum + weight a = (l.map weight).sum + weight b
  | [], _, _, h, _ => nomatch h
  | x :: l, 0, a, h, b => by
    obtain rfl : x = a := Option.some.inj h
    simp only [set_cons_zero, map_cons, sum_cons]
    rw [add_right_comm, add_comm (weight b), add_assoc, add_comm (weight b), ← add_assoc]
  | x :: l, i + 1, a, h, b => by
    simp only [set_cons_succ, map_cons, sum_cons]
    rw [add_assoc, sum_set weight (getElem?_cons_succ ▸ h) b, add_assoc]

theorem countP_replaced (p : α → Bool) : ∀ {l : List α} {i : Nat} {a : α}, l[i]? = some a → ∀ b,
    (l.set i b).countP p + (if p a then 1 else 0) = l.countP p + if p b then 1 else 0
  | [], _, _, h, _ => nomatch h
  | x :: l, 0, a, h, b => by
    obtain rfl : x = a := Option.some.inj h
    simp only [set_cons_zero, countP_cons]
    omega
  | x :: l, i + 1, a, h, b => by
    have ih := countP_replaced p (getElem?_cons_succ ▸ h) b
    simp only [set_cons_succ, countP_cons]
    omega

theorem mem_answered {new : List α} (h : a ∈ answered pending k new) : a ∈ pending ∨ a ∈ new := by
  rcases mem_append.1 h with h | h
  · exact .inl (mem_of_mem_eraseIdx h)
  · exact .inr h

end Outstanding
