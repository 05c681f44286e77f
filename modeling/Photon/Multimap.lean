import Mathlib.Data.Finset.Union
/-!
# Multimap — maps from a key to a set of values

A multimap is the relation of its keys and values together with the keys that are there: a key whose last value is
removed stays, with no value.  The rules say what each operation does to the relation (`mem_pairs_addEach`,
`mem_pairs_removeFromAll`) and to the keys.
-/
namespace Keyed

/-- A map from keys to sets of values. -/
@[ext] structure Multimap (κ υ : Type) where
  keys : Finset κ
  pairs : Finset (κ × υ)
  keyed : ∀ p ∈ pairs, p.1 ∈ keys

namespace Multimap

variable {κ υ : Type}

def empty : Multimap κ υ := ⟨∅, ∅, by simp⟩

variable (m : Multimap κ υ) (v : υ) (k : κ)

@[simp] theorem mem_pairs_empty (v : υ) : (k, v) ∉ (empty : Multimap κ υ).pairs := by simp [empty]

variable [DecidableEq κ] [DecidableEq υ]

def values (m : Multimap κ υ) (k : κ) : Finset υ := (m.pairs.filter (fun p => p.1 = k)).image Prod.snd

def getValues (m : Multimap κ υ) (k : κ) : Option (Finset υ) := if k ∈ m.keys then some (m.values k) else none

def addEach (m : Multimap κ υ) (ks : Finset κ) (v : υ) : Multimap κ υ where
  keys := m.keys ∪ ks
  pairs := m.pairs ∪ ks.image (fun k => (k, v))
  keyed := by
    intro p hp
    rw [Finset.mem_union] at hp ⊢
    rcases hp with hp | hp
    · exact Or.inl (m.keyed p hp)
    · obtain ⟨k, hk, rfl⟩ := Finset.mem_image.1 hp
      exact Or.inr hk

def addOrUpdate (m : Multimap κ υ) (k : κ) (v : υ) : Multimap κ υ := m.addEach {k} v

def removeFromAll (m : Multimap κ υ) (v : υ) : Multimap κ υ :=
  ⟨m.keys, m.pairs.filter (fun p => p.2 ≠ v), fun p hp => m.keyed p (Finset.mem_filter.1 hp).1⟩

@[simp] theorem mem_values (v : υ) : v ∈ m.values k ↔ (k, v) ∈ m.pairs := by
  simp only [values, Finset.mem_image, Finset.mem_filter]
  constructor
  · rintro ⟨⟨j, w⟩, ⟨hp, rfl⟩, rfl⟩
    exact hp
  · exact fun hp => ⟨(k, v), ⟨hp, rfl⟩, rfl⟩

@[simp] theorem mem_pairs_addEach (ks : Finset κ) (v w : υ) (k : κ) :
    (k, w) ∈ (m.addEach ks v).pairs ↔ (k, w) ∈ m.pairs ∨ (k ∈ ks ∧ w = v) := by
  simp [addEach, @eq_comm _ v w]

@[simp] theorem mem_pairs_addOrUpdate (j k : κ) (v w : υ) :
    (k, w) ∈ (m.addOrUpdate j v).pairs ↔ (k, w) ∈ m.pairs ∨ (k = j ∧ w = v) := by
  simp [addOrUpdate]

omit [DecidableEq κ] in
@[simp] theorem mem_pairs_removeFromAll (w : υ) (k : κ) :
    (k, w) ∈ (m.removeFromAll v).pairs ↔ (k, w) ∈ m.pairs ∧ w ≠ v := by
  simp [removeFromAll]

@[simp] theorem mem_keys_addEach (ks : Finset κ) (v : υ) (k : κ) : k ∈ (m.addEach ks v).keys ↔ k ∈ m.keys ∨ k ∈ ks := by
  simp [addEach]

theorem isSome_getValues : (m.getValues k).isSome = true ↔ k ∈ m.keys := by
  unfold getValues
  split <;> simp_all

omit [DecidableEq κ] in
@[simp] theorem keys_removeFromAll : (m.removeFromAll v).keys = m.keys := rfl

@[simp] theorem addEach_empty : m.addEach ∅ v = m := by
  ext <;> simp [addEach]

end Multimap
end Keyed
