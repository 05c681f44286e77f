import Mathlib.Data.Finset.Basic
/-!
# Reports — what a reporter takes as reported, and what the other side knows

A reporter tells another party about things, each of which is now `v` or `w`.  It keeps the set `X` of those it takes as
reported as `v` and the set `Y` of those it takes as reported as `w`, and it changes them only when a report is
answered.  A report can be applied and the answer be lost; what it was about, and is kept in the other set, is then in
doubt.

`Held` says that what is kept is known to the other party, but for what is in doubt, and that what is in doubt is in
fact as the other party was told.  It is kept by a report that is answered (`Held.answered`), by one that is applied
without an answer as long as it is still true (`Held.applied`), and by a change of what is not in doubt (`Held.change`).
These are the conditions needed (`applied_only`, `Held.change_only`).
-/
namespace Reports

variable {ι ν : Type}

/-- `P i` says that `i` is now `v`. -/
structure Held (X Y : Finset ι) (v w : ν) (known : ι → Option ν) (doubt : Finset ι) (P : ι → Prop) : Prop where
  disjoint : Disjoint X Y
  left : ∀ i ∈ X, i ∉ doubt → known i = some v
  right : ∀ i ∈ Y, i ∉ doubt → known i = some w
  doubtful : ∀ i ∈ doubt, (i ∈ X ∧ known i = some w ∧ ¬ P i) ∨ (i ∈ Y ∧ known i = some v ∧ P i)

variable {X Y S doubt : Finset ι} {v w : ν} {known : ι → Option ν} {P Q : ι → Prop}

theorem Held.empty : Held ∅ ∅ v w known ∅ P := by
  constructor <;> simp

theorem Held.symm (h : Held X Y v w known doubt P) : Held Y X w v known doubt (fun i => ¬ P i) where
  disjoint := h.disjoint.symm
  left := h.right
  right := h.left
  doubtful i hi := by
    rw [not_not]
    exact (h.doubtful i hi).symm

open Finset (mem_inter mem_sdiff mem_union mem_union_left)

section

variable (h : Held X Y v w known doubt P)
include h

theorem Held.known_left {i : ι} (hi : i ∈ X) (hP : P i) : known i = some v := by
  by_cases hdoubt : i ∈ doubt
  · rcases h.doubtful i hdoubt with ⟨-, -, hnot⟩ | ⟨hY, -, -⟩
    · exact absurd hP hnot
    · exact absurd hY (Finset.disjoint_left.1 h.disjoint hi)
  · exact h.left i hi hdoubt

theorem Held.change (hQ : ∀ i ∈ doubt, (Q i ↔ P i)) : Held X Y v w known doubt Q :=
  { h with
    doubtful := by
      intro i hi
      rw [hQ i hi]
      exact h.doubtful i hi }

theorem Held.change_only (hne : v ≠ w) (hleft : ∀ i ∈ X, Q i → known i = some v)
    (hright : ∀ i ∈ Y, ¬ Q i → known i = some w) : ∀ i ∈ doubt, (Q i ↔ P i) := by
  intro i hi
  rcases h.doubtful i hi with ⟨hX, hknown, hP⟩ | ⟨hY, hknown, hP⟩
  · refine iff_of_false ?_ hP
    intro hQ
    exact hne (Option.some.inj ((hleft i hX hQ).symm.trans hknown))
  · refine iff_of_true ?_ hP
    by_contra hQ
    exact hne (Option.some.inj (hknown.symm.trans (hright i hY hQ)))

end

/-! ## Reports -/

variable [DecidableEq ι]

def told (known : ι → Option ν) (S : Finset ι) (v : ν) (i : ι) : Option ν := if i ∈ S then some v else known i

theorem told_of_mem (known : ι → Option ν) {S : Finset ι} (v : ν) {i : ι} (h : i ∈ S) :
    told known S v i = some v := if_pos h

theorem told_of_not_mem (known : ι → Option ν) {S : Finset ι} (v : ν) {i : ι} (h : i ∉ S) :
    told known S v i = known i :=
  if_neg h

theorem disjoint_answered (h : Disjoint X Y) (S : Finset ι) : Disjoint (X ∪ S) (Y \ S) :=
  Finset.disjoint_union_left.2 ⟨h.mono_right Finset.sdiff_subset, Finset.disjoint_sdiff⟩

theorem Held.answered (h : Held X Y v w known doubt P) (S : Finset ι) :
    Held (X ∪ S) (Y \ S) v w (told known S v) (doubt \ S) P where
  disjoint := disjoint_answered h.disjoint S
  left i hi hdoubt := by
    by_cases hS : i ∈ S
    · exact told_of_mem known v hS
    · rw [told_of_not_mem known v hS]
      refine h.left i ((mem_union.1 hi).resolve_right hS) ?_
      intro hmem
      exact hdoubt (mem_sdiff.2 ⟨hmem, hS⟩)
  right i hi hdoubt := by
    obtain ⟨hY, hS⟩ := mem_sdiff.1 hi
    rw [told_of_not_mem known v hS]
    refine h.right i hY ?_
    intro hmem
    exact hdoubt (mem_sdiff.2 ⟨hmem, hS⟩)
  doubtful i hi := by
    obtain ⟨hdoubt, hS⟩ := mem_sdiff.1 hi
    rw [told_of_not_mem known v hS]
    rcases h.doubtful i hdoubt with ⟨hX, hrest⟩ | ⟨hY, hrest⟩
    · exact .inl ⟨mem_union_left S hX, hrest⟩
    · exact .inr ⟨mem_sdiff.2 ⟨hY, hS⟩, hrest⟩

/-- A report that is applied, without an answer: it must be of nothing that is taken as reported so, and still be true
of what is taken as reported otherwise. -/
theorem Held.applied (h : Held X Y v w known doubt P) (hX : Disjoint S X) (hP : ∀ i ∈ S, i ∈ Y → P i) :
    Held X Y v w (told known S v) (doubt ∪ S ∩ Y) P where
  disjoint := h.disjoint
  left i hi hdoubt := by
    have hS : i ∉ S := Finset.disjoint_right.1 hX hi
    rw [told_of_not_mem known v hS]
    exact h.left i hi (fun hmem => hdoubt (mem_union_left _ hmem))
  right i hi hdoubt := by
    have hS : i ∉ S := by
      intro hmem
      exact hdoubt (Finset.mem_union_right _ (mem_inter.2 ⟨hmem, hi⟩))
    rw [told_of_not_mem known v hS]
    exact h.right i hi (fun hmem => hdoubt (mem_union_left _ hmem))
  doubtful i hi := by
    by_cases hS : i ∈ S
    · -- what was in doubt already is not in `X`, of which nothing is reported
      have hY : i ∈ Y := by
        rcases mem_union.1 hi with hdoubt | hmem
        · rcases h.doubtful i hdoubt with ⟨hmem, -⟩ | ⟨hmem, -⟩
          · exact absurd hmem (Finset.disjoint_left.1 hX hS)
          · exact hmem
        · exact (mem_inter.1 hmem).2
      exact .inr ⟨hY, told_of_mem known v hS, hP i hS hY⟩
    · rw [told_of_not_mem known v hS]
      rcases mem_union.1 hi with hdoubt | hmem
      · exact h.doubtful i hdoubt
      · exact absurd (mem_inter.1 hmem).1 hS

/-- A report applied without an answer is still true where what is taken as reported otherwise is known as it is. -/
theorem applied_only (hne : v ≠ w) (hright : ∀ i ∈ Y, ¬ P i → told known S v i = some w) : ∀ i ∈ S, i ∈ Y → P i := by
  intro i hS hY
  by_contra hP
  have hw := hright i hY hP
  rw [told_of_mem known v hS] at hw
  exact hne (Option.some.inj hw)

end Reports
