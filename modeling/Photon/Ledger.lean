import Mathlib.Algebra.Order.BigOperators.Group.List
import Mathlib.Algebra.Order.Group.Defs
import Mathlib.Data.List.Perm.Subperm
/-!
# Ledger — amounts that are charged to keys with limits, and refunded

An amount is a function from keys to an ordered group.  `Balanced limit usage accepted returned` says that the usage is
what the accepted amounts come to, less the returned ones, and is within the limits; every returned amount is one of the
accepted ones, each as often at the most.  Charging an amount that fits keeps this (`Balanced.charge`), and so does
refunding one that is still out (`Balanced.refund`).
-/
namespace Ledger

variable {κ M : Type} [AddCommGroup M]

/-- What a list of amounts comes to at a key. -/
def total (amounts : List (κ → M)) (k : κ) : M := (amounts.map (fun a => a k)).sum

@[simp] theorem total_nil (k : κ) : total ([] : List (κ → M)) k = 0 := rfl

@[simp] theorem total_cons (a : κ → M) (amounts : List (κ → M)) (k : κ) :
    total (a :: amounts) k = a k + total amounts k :=
  rfl

theorem total_perm {as bs : List (κ → M)} (h : as.Perm bs) (k : κ) : total as k = total bs k := (h.map _).sum_eq

theorem total_append (as bs : List (κ → M)) (k : κ) : total (as ++ bs) k = total as k + total bs k := by
  simp [total]

omit [AddCommGroup M] in
theorem subperm_map {α β : Type} {as bs : List α} (f : α → β) (h : as.Subperm bs) : (as.map f).Subperm (bs.map f) := by
  obtain ⟨cs, hperm, hsub⟩ := h
  exact ⟨cs.map f, hperm.map f, hsub.map f⟩

variable [LinearOrder M]

/-- The usage is what has been accepted and not returned, and within the limits. -/
structure Balanced (limit : κ → Option M) (usage : κ → M) (accepted returned : List (κ → M)) : Prop where
  exact : ∀ k, usage k = total accepted k - total returned k
  within : ∀ k l, limit k = some l → usage k ≤ l
  nonneg : ∀ a ∈ accepted, ∀ k, 0 ≤ a k
  subperm : returned.Subperm accepted

namespace Balanced

variable {limit : κ → Option M} {usage usage' : κ → M} {accepted returned : List (κ → M)} {a : κ → M}

theorem start (husage : ∀ k, usage k = 0) (hlimit : ∀ k l, limit k = some l → 0 ≤ l) : Balanced limit usage [] [] where
  exact k := by simp [husage k]
  within k l hl := (husage k).symm ▸ hlimit k l hl
  nonneg a ha := by cases ha
  subperm := List.Subperm.refl []

variable (h : Balanced limit usage accepted returned)
include h

theorem charge (ha : ∀ k, 0 ≤ a k)
    (hfits : ∀ k l, limit k = some l → usage k + a k ≤ l) (husage : ∀ k, usage' k = usage k + a k) :
    Balanced limit usage' (a :: accepted) returned where
  exact k := by rw [husage, h.exact, total_cons, add_comm, add_sub_assoc]
  within k l hl := husage k ▸ hfits k l hl
  nonneg := List.forall_mem_cons.2 ⟨ha, h.nonneg⟩
  subperm := h.subperm.trans (List.sublist_cons_self a accepted).subperm

theorem congr (husage : ∀ k, usage' k = usage k) : Balanced limit usage' accepted returned where
  exact k := (husage k).trans (h.exact k)
  within k l hl := (husage k).symm ▸ h.within k l hl
  nonneg := h.nonneg
  subperm := h.subperm

end Balanced

variable [IsOrderedAddMonoid M]

theorem total_nonneg {amounts : List (κ → M)} (h : ∀ a ∈ amounts, ∀ k, 0 ≤ a k) (k : κ) : 0 ≤ total amounts k := by
  refine List.sum_nonneg (fun x hx => ?_)
  obtain ⟨a, ha, rfl⟩ := List.mem_map.1 hx
  exact h a ha k

theorem total_le_of_subperm {as bs : List (κ → M)} (hsub : as.Subperm bs) (h : ∀ a ∈ bs, ∀ k, 0 ≤ a k) (k : κ) :
    total as k ≤ total bs k := by
  obtain ⟨cs, hperm, hsub⟩ := hsub
  obtain ⟨rest, hrest⟩ := hsub.exists_perm_append
  rw [← total_perm hperm, total_perm hrest, total_append]
  have hnonneg : 0 ≤ total rest k := total_nonneg (fun a ha => h a (hrest.symm.subset (by simp [ha]))) k
  exact le_add_of_nonneg_right hnonneg

namespace Balanced

variable {limit : κ → Option M} {usage usage' : κ → M} {accepted returned : List (κ → M)} {a : κ → M}

variable (h : Balanced limit usage accepted returned)
include h

theorem usage_nonneg (k : κ) : 0 ≤ usage k := by
  rw [h.exact]
  exact sub_nonneg.2 (total_le_of_subperm h.subperm h.nonneg k)

theorem refund (hout : (a :: returned).Subperm accepted)
    (husage : ∀ k, usage' k = usage k - a k) : Balanced limit usage' accepted (a :: returned) where
  exact k := by rw [husage, h.exact, total_cons, sub_sub, add_comm]
  within k l hl := by
    have ha : 0 ≤ a k := h.nonneg a (hout.subset List.mem_cons_self) k
    rw [husage]
    exact (sub_le_self _ ha).trans (h.within k l hl)
  nonneg := h.nonneg
  subperm := hout

end Balanced
end Ledger
