import Mathlib.Data.Finset.Card
/-!
# Ranked — the first elements of a finite set

A query with a sort order and a limit answers with the first elements of a finite set by their rank (`FirstOf`).
Elements of equal rank may be taken either way, and the answer may list them in any order.  `FirstOf.merge` is the rule
for a set held in parts: sort the answers of the parts together, cut at the limit, and the rest is an answer for the
union.
-/
namespace Ranked

open List

variable {α κ : Type} [DecidableEq α] [LinearOrder κ] {rank : α → κ} {limit : Nat} {s : Finset α} {l : List α}

omit [DecidableEq α] in
theorem rank_le_of_cut (hsorted : l.Pairwise (fun x y => rank x ≤ rank y)) {a b : α}
    (ha : a ∈ l.take limit) (hb : b ∈ l) (hbl : b ∉ l.take limit) : rank a ≤ rank b := by
  rw [← take_append_drop limit l] at hb hsorted
  exact (pairwise_append.1 hsorted).2.2 a ha b ((mem_append.1 hb).resolve_left hbl)

/-- `l` is a choice of the first `limit` elements of `s` by `rank`. -/
structure FirstOf (rank : α → κ) (limit : Nat) (s : Finset α) (l : List α) : Prop where
  nodup : l.Nodup
  subset : ∀ a ∈ l, a ∈ s
  length : l.length = min limit s.card
  least : ∀ a ∈ l, ∀ b ∈ s, b ∉ l → rank a ≤ rank b

theorem length_le_card (hnd : l.Nodup) (hsub : ∀ a ∈ l, a ∈ s) : l.length ≤ s.card := by
  rw [← toFinset_card_of_nodup hnd]
  exact Finset.card_le_card (fun a ha => hsub a (mem_toFinset.1 ha))

theorem length_eq_card (hnd : l.Nodup) (hmem : ∀ a, a ∈ l ↔ a ∈ s) : l.length = s.card := by
  rw [← toFinset_card_of_nodup hnd]
  congr 1
  ext a
  rw [mem_toFinset, hmem a]

theorem FirstOf.length_of_left_out (h : FirstOf rank limit s l) {b : α} (hb : b ∈ s) (hbl : b ∉ l) :
    l.length = limit := by
  have hlt : l.length < s.card := by
    rw [← toFinset_card_of_nodup h.nodup]
    refine Finset.card_lt_card ⟨fun a ha => h.subset a (mem_toFinset.1 ha), fun hall => hbl ?_⟩
    exact mem_toFinset.1 (hall hb)
  have hlen := h.length
  omega

theorem FirstOf.of_sorted (hmem : ∀ a, a ∈ l ↔ a ∈ s) (hnd : l.Nodup)
    (hsorted : l.Pairwise (fun x y => rank x ≤ rank y)) : FirstOf rank limit s (l.take limit) := by
  constructor
  · exact hnd.sublist (take_sublist limit l)
  · exact fun a ha => (hmem a).1 (mem_of_mem_take ha)
  · rw [length_take, length_eq_card hnd hmem]
  · intro a ha b hb hbl
    exact rank_le_of_cut hsorted ha ((hmem b).2 hb) hbl

/-! ## A set held in parts -/

section Merge

variable {ι : Type} {part : ι → Finset α} {first : ι → List α} {m : List α}

omit [DecidableEq α] in
theorem before_of_rank_lt {a b : α} {pre post : List α}
    (hsorted : (pre ++ a :: post).Pairwise (fun x y => rank x ≤ rank y))
    (hb : b ∈ pre ++ a :: post) (hlt : rank b < rank a) : b ∈ pre := by
  rcases mem_append.1 hb with hb | hb
  · exact hb
  · obtain ⟨_, hpost, _⟩ := pairwise_append.1 hsorted
    rcases mem_cons.1 hb with rfl | hb
    · exact absurd hlt (lt_irrefl _)
    · exact absurd hlt (not_lt.2 (rel_of_pairwise_cons hpost hb))

/-- An element a part has left out has a rank no smaller than those kept after sorting: that part alone answered with
`limit` elements of smaller rank. -/
theorem FirstOf.rank_le_of_left_out {i : ι} (h : FirstOf rank limit (part i) (first i)) (hm : ∀ a ∈ first i, a ∈ m)
    (hsorted : m.Pairwise (fun x y => rank x ≤ rank y)) {a b : α} (ha : a ∈ m.take limit) (hb : b ∈ part i)
    (hbl : b ∉ first i) : rank a ≤ rank b := by
  by_contra hlt
  rw [not_le] at hlt
  obtain ⟨pre, post, hsplit⟩ := append_of_mem ha
  have hm' : m = pre ++ a :: (post ++ m.drop limit) := by
    calc m = m.take limit ++ m.drop limit := (take_append_drop limit m).symm
      _ = pre ++ a :: (post ++ m.drop limit) := by rw [hsplit, append_assoc, cons_append]
  have hpre : ∀ x ∈ first i, x ∈ pre := by
    intro x hx
    rw [hm'] at hsorted
    refine before_of_rank_lt hsorted (hm' ▸ hm x hx) (lt_of_le_of_lt ?_ hlt)
    exact h.least x hx b hb hbl
  have hle := (subperm_of_subset h.nodup hpre).length_le
  have hlen := h.length_of_left_out hb hbl
  have htake : (pre ++ a :: post).length ≤ limit := by
    rw [← hsplit]
    exact length_take_le limit m
  simp only [length_append, length_cons] at htake
  omega

/-- **The answers of the parts, sorted together and cut at the limit, are an answer for the union of the parts.** -/
theorem FirstOf.merge (h : ∀ i, FirstOf rank limit (part i) (first i)) (hs : ∀ a, a ∈ s ↔ ∃ i, a ∈ part i)
    (hm : ∀ a, a ∈ m ↔ ∃ i, a ∈ first i) (hnd : m.Nodup) (hsorted : m.Pairwise (fun x y => rank x ≤ rank y)) :
    FirstOf rank limit s (m.take limit) := by
  have hsub : ∀ a ∈ m, a ∈ s := by
    intro a ha
    obtain ⟨i, hi⟩ := (hm a).1 ha
    exact (hs a).2 ⟨i, (h i).subset a hi⟩
  have hin : ∀ i, ∀ a ∈ first i, a ∈ m := fun i a ha => (hm a).2 ⟨i, ha⟩
  constructor
  · exact hnd.sublist (take_sublist limit m)
  · exact fun a ha => hsub a (mem_of_mem_take ha)
  · rw [length_take]
    have hle := length_le_card hnd hsub
    by_cases hlimit : limit ≤ m.length
    · omega
    · -- no part was cut off, so `m` has everything
      have hall : ∀ a, a ∈ m ↔ a ∈ s := by
        refine fun a => ⟨hsub a, fun ha => ?_⟩
        obtain ⟨i, hi⟩ := (hs a).1 ha
        by_contra ham
        have hlen := (h i).length_of_left_out hi (fun hf => ham (hin i a hf))
        have := (subperm_of_subset (h i).nodup (hin i)).length_le
        omega
      rw [length_eq_card hnd hall]
  · intro a ha b hb hbl
    by_cases hbm : b ∈ m
    · exact rank_le_of_cut hsorted ha hbm hbl
    · obtain ⟨i, hi⟩ := (hs b).1 hb
      exact (h i).rank_le_of_left_out (hin i) hsorted ha hi (fun hf => hbm (hin i b hf))

end Merge

end Ranked
