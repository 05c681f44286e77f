import Mathlib.Data.List.Dedup
import Mathlib.Data.List.Perm.Basic
/-!
# ListMultimap — maps from a key to a list of values

The pairs of a multimap are kept in the order in which they were put, so the list of a key is what there is under it,
first in, first out.  A key is there as long as it has a value.  The rules count values: what an operation takes out of
`values` it returns.
-/
namespace Keyed

open List

/-- A map from keys to lists of values, as its pairs. -/
@[ext] structure ListMultimap (κ υ : Type) where
  pairs : List (κ × υ)

namespace ListMultimap

variable {κ υ : Type}

def empty : ListMultimap κ υ := ⟨[]⟩

def size (m : ListMultimap κ υ) : Nat := m.pairs.length

def isEmpty (m : ListMultimap κ υ) : Bool := m.pairs.isEmpty

def values (m : ListMultimap κ υ) : List υ := m.pairs.map Prod.snd

def put (m : ListMultimap κ υ) (k : κ) (v : υ) : ListMultimap κ υ := ⟨m.pairs ++ [(k, v)]⟩

@[simp] theorem values_put (m : ListMultimap κ υ) (k : κ) (v : υ) : (m.put k v).values = m.values ++ [v] := by
  simp [put, values]

@[simp] theorem size_put (m : ListMultimap κ υ) (k : κ) (v : υ) : (m.put k v).size = m.size + 1 := by
  simp [put, size]

theorem isEmpty_iff_size (m : ListMultimap κ υ) : m.isEmpty = true ↔ m.size = 0 := by
  simp [isEmpty, size]

variable {m : ListMultimap κ υ}

theorem eq_empty_of_size (h : m.size = 0) : m = empty :=
  ListMultimap.ext (length_eq_zero_iff.1 h)

variable [DecidableEq κ]

def get (m : ListMultimap κ υ) (k : κ) : List υ := (m.pairs.filter (fun p => decide (p.1 = k))).map Prod.snd

def containsKey (m : ListMultimap κ υ) (k : κ) : Bool := m.pairs.any (fun p => decide (p.1 = k))

def keySet (m : ListMultimap κ υ) : List κ := (m.pairs.map Prod.fst).dedup

/-- The first pair of a key is taken out of a list of pairs. -/
def takeFirst (k : κ) : List (κ × υ) → Option (υ × List (κ × υ))
  | [] => none
  | p :: ps => if p.1 = k then some (p.2, ps) else (takeFirst k ps).map (fun r => (r.1, p :: r.2))

/-- `get(k).remove(0)`: the first value of a key, and the map without it; nothing where the list is empty. -/
def removeFirst (m : ListMultimap κ υ) (k : κ) : Option (υ × ListMultimap κ υ) :=
  (takeFirst k m.pairs).map (fun r => (r.1, ⟨r.2⟩))

def removeAll (m : ListMultimap κ υ) (k : κ) : ListMultimap κ υ := ⟨m.pairs.filter (fun p => !decide (p.1 = k))⟩

theorem takeFirst_eq_some {k : κ} : ∀ {ps rest : List (κ × υ)} {v : υ}, takeFirst k ps = some (v, rest) →
    ∃ before after, ps = before ++ (k, v) :: after ∧ rest = before ++ after
  | [], _, _, h => by cases h
  | p :: ps, rest, v, h => by
    unfold takeFirst at h
    split at h
    · rename_i hk
      cases h
      exact ⟨[], ps, by rw [← hk]; rfl, rfl⟩
    · obtain ⟨⟨v', rest'⟩, hr, hv⟩ := Option.map_eq_some_iff.1 h
      cases hv
      obtain ⟨before, after, hps, hrest⟩ := takeFirst_eq_some hr
      exact ⟨p :: before, after, by rw [hps]; rfl, by rw [hrest]; rfl⟩

variable {rest : ListMultimap κ υ} {k : κ} {v : υ}

theorem removeFirst_eq_some (h : m.removeFirst k = some (v, rest)) :
    ∃ before after, m.pairs = before ++ (k, v) :: after ∧ rest.pairs = before ++ after := by
  obtain ⟨⟨v', ps⟩, hr, hv⟩ := Option.map_eq_some_iff.1 h
  cases hv
  exact takeFirst_eq_some hr

theorem exists_takeFirst {k : κ} : ∀ {ps : List (κ × υ)}, k ∈ ps.map Prod.fst → ∃ r, takeFirst k ps = some r
  | p :: ps, h => by
    unfold takeFirst
    by_cases hk : p.1 = k
    · exact ⟨_, if_pos hk⟩
    · have hmem : k ∈ ps.map Prod.fst := by
        rcases mem_cons.1 h with h | h
        · exact absurd h.symm hk
        · exact h
      obtain ⟨r, hr⟩ := exists_takeFirst hmem
      exact ⟨_, by rw [if_neg hk, hr]; rfl⟩

theorem exists_removeFirst (h : k ∈ m.keySet) : ∃ v rest, m.removeFirst k = some (v, rest) := by
  obtain ⟨⟨v, ps⟩, hr⟩ := exists_takeFirst (mem_dedup.1 h)
  exact ⟨v, ⟨ps⟩, by rw [removeFirst, hr]; rfl⟩

section

variable (h : m.removeFirst k = some (v, rest))
include h

theorem values_removeFirst : m.values.Perm (v :: rest.values) := by
  obtain ⟨before, after, hps, hrest⟩ := removeFirst_eq_some h
  unfold values
  rw [hps, hrest, map_append, map_append, map_cons]
  exact perm_middle

theorem size_removeFirst : m.size = rest.size + 1 := by
  have hperm := (values_removeFirst h).length_eq
  rw [length_cons, values, values, length_map, length_map] at hperm
  exact hperm

theorem mem_of_mem_removeFirst {p : κ × υ} (hp : p ∈ rest.pairs) : p ∈ m.pairs := by
  obtain ⟨before, after, hps, hrest⟩ := removeFirst_eq_some h
  rw [hrest] at hp
  rw [hps]
  rcases mem_append.1 hp with hp | hp
  · exact mem_append_left _ hp
  · exact mem_append_right _ (mem_cons_of_mem _ hp)

end

theorem keySet_eq_nil_iff (m : ListMultimap κ υ) : m.keySet = [] ↔ m.size = 0 := by
  rw [keySet, dedup_eq_nil, map_eq_nil_iff, size, length_eq_zero_iff]

theorem values_removeAll (m : ListMultimap κ υ) (k : κ) : m.values.Perm (m.get k ++ (m.removeAll k).values) := by
  unfold values get removeAll
  rw [← map_append]
  exact (filter_append_perm (fun p => decide (p.1 = k)) m.pairs).symm.map _

end ListMultimap

end Keyed
