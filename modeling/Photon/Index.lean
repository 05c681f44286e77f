import Photon.Keyed
import Photon.Multimap
/-!
# Index — sets and multimaps that are kept up to date with a keyed collection

`IndexOf docs f m`: the multimap `m` holds, for every document of `docs`, the key of the document under each of the
values `f` reads from it.  `SelectionOf docs p s`: the set `s` holds the keys of the documents with the property `p`.

Putting a document where one with its key may be leaves an index right if what the old one contributed is taken out
first (`IndexOf.replace`).  Without that it is right exactly if the new one contributes all of it again
(`IndexOf.addEach_iff`).
-/
namespace Keyed

variable {α ι κ : Type} {key : α → ι} [DecidableEq ι]

/-- The keys of the documents, under each of the values read from them. -/
def Multimap.IndexOf (docs : KeyedList key) (f : α → Finset κ) (m : Multimap κ ι) : Prop :=
  ∀ v id, (v, id) ∈ m.pairs ↔ ∃ a, docs.find id = some a ∧ v ∈ f a

/-- The keys of the documents with a property. -/
def SelectionOf (docs : KeyedList key) (p : α → Prop) (s : Finset ι) : Prop :=
  ∀ id, id ∈ s ↔ ∃ a, docs.find id = some a ∧ p a

namespace Multimap.IndexOf

variable {docs : KeyedList key} {f : α → Finset κ} {m : Multimap κ ι}

theorem empty : IndexOf (.empty : KeyedList key) f (.empty : Multimap κ ι) := by
  intro v id
  simp

theorem erase (h : IndexOf docs f m) (id : ι) : IndexOf (docs.erase id) f (m.removeFromAll id) := by
  intro v j
  rw [mem_pairs_removeFromAll, h v j, docs.find_erase]
  by_cases hj : j = id
  · simp [hj]
  · simp [hj]

variable [DecidableEq κ]

/-- **Adding without taking out** is right exactly if nothing has to be taken out. -/
theorem addEach_iff (h : IndexOf docs f m) (a : α) :
    IndexOf (docs.put a) f (m.addEach (f a) (key a)) ↔ ∀ old, docs.find (key a) = some old → f old ⊆ f a := by
  constructor
  · intro h' old hold v hv
    have hpair : (v, key a) ∈ (m.addEach (f a) (key a)).pairs :=
      (m.mem_pairs_addEach (f a) (key a) (key a) v).2 (.inl ((h v (key a)).2 ⟨old, hold, hv⟩))
    obtain ⟨b, hb, hvb⟩ := (h' v (key a)).1 hpair
    rw [docs.find_put, if_pos rfl] at hb
    cases hb
    exact hvb
  · intro hkeep v id
    rw [mem_pairs_addEach, h v id, docs.find_put]
    by_cases hid : id = key a
    · subst hid
      simp only [if_true, Option.some.injEq, exists_eq_left', and_true]
      constructor
      · intro hor
        rcases hor with ⟨old, hold, hv⟩ | hv
        · exact hkeep old hold hv
        · exact hv
      · exact .inr
    · simp [hid]

/-- **Taking out and adding** is always right. -/
theorem replace (h : IndexOf docs f m) (a : α) :
    IndexOf (docs.put a) f ((m.removeFromAll (key a)).addEach (f a) (key a)) := by
  intro v id
  rw [mem_pairs_addEach, mem_pairs_removeFromAll, h v id, docs.find_put]
  by_cases hid : id = key a
  · simp [hid]
  · simp [hid]

end Multimap.IndexOf

namespace SelectionOf

variable {docs : KeyedList key} {p : α → Prop} {s : Finset ι}

theorem empty : SelectionOf (.empty : KeyedList key) p ∅ := by
  intro id
  simp

theorem erase (h : SelectionOf docs p s) (id : ι) : SelectionOf (docs.erase id) p (s.erase id) := by
  intro j
  rw [Finset.mem_erase, h j, docs.find_erase]
  by_cases hj : j = id
  · simp [hj]
  · simp [hj]

theorem insert_iff [DecidablePred p] (h : SelectionOf docs p s) (a : α) :
    SelectionOf (docs.put a) p (if p a then insert (key a) s else s) ↔ ∀ old, docs.find (key a) = some old →
    p old → p a := by
  have hput : ∀ id, (∃ b, (docs.put a).find id = some b ∧ p b) ↔ if id = key a then p a else id ∈ s := by
    intro id
    rw [docs.find_put]
    by_cases hid : id = key a
    · simp [hid]
    · simp only [if_neg hid, h id]
  unfold SelectionOf
  simp only [hput]
  by_cases hp : p a
  · simp only [hp, if_true, Finset.mem_insert, implies_true, iff_true]
    intro id
    by_cases hid : id = key a <;> simp [hid]
  · simp only [hp, if_false, imp_false]
    constructor
    · intro h' old hold hpo
      have hmem := (h (key a)).2 ⟨old, hold, hpo⟩
      rw [h', if_pos rfl] at hmem
      exact hmem
    · intro hno id
      by_cases hid : id = key a
      · subst hid
        simp only [if_true, iff_false, h (key a), not_exists, not_and]
        exact hno
      · simp [hid]

end SelectionOf
end Keyed
