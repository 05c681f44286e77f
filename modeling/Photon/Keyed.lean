import Mathlib.Algebra.BigOperators.Group.List.Basic
import Mathlib.Algebra.Order.Group.Multiset
/-!
# Keyed — lists whose elements have distinct keys

One structure serves for the two collections the models need: a set whose elements are equal when their keys are
(`KeyedList`, with `add` the insertion that keeps what is there) and a map in insertion order (`LinkedMap`, the keyed
list of its entries).  The distinctness of the keys is a field, so no operation has to re-establish it for its callers.

The rules below are membership first (`mem_put`, `mem_erase`, `find_eq_some_iff`), then lookup (`get_put`,
`get_remove`), then what a sum or a count over the elements does under each operation (`sum_put_of_absent`, `sum_erase`,
`size_put`).
-/
namespace Keyed

open List

/-- A list whose elements have pairwise different keys. -/
@[ext] structure KeyedList {α κ : Type} (key : α → κ) where
  elems : List α
  nodup : (elems.map key).Nodup

namespace KeyedList

variable {α κ : Type} {key : α → κ}

def empty : KeyedList key := ⟨[], List.nodup_nil⟩

def size (m : KeyedList key) : Nat := m.elems.length

def filter (m : KeyedList key) (p : α → Bool) : KeyedList key :=
  ⟨m.elems.filter p, m.nodup.sublist (List.filter_sublist.map key)⟩

@[simp] theorem elems_empty : (empty : KeyedList key).elems = [] := rfl

@[simp] theorem size_empty : (empty : KeyedList key).size = 0 := rfl

theorem nodup_elems (m : KeyedList key) : m.elems.Nodup := List.Nodup.of_map key m.nodup

def sum {M : Type} [AddCommMonoid M] (m : KeyedList key) (f : α → M) : M := (m.elems.map f).sum

theorem sum_congr {M : Type} [AddCommMonoid M] (m : KeyedList key) (f g : α → M) (h : ∀ a ∈ m.elems, f a = g a) :
    m.sum f = m.sum g := by
  unfold sum
  rw [map_congr_left h]

/-! ## Lookup -/

variable [DecidableEq κ]

def find (m : KeyedList key) (k : κ) : Option α := m.elems.find? (fun a => decide (key a = k))

section

variable (m : KeyedList key)

theorem find_eq_some_iff (k : κ) (a : α) : m.find k = some a ↔ a ∈ m.elems ∧ key a = k := by
  obtain ⟨l, hnd⟩ := m
  show l.find? _ = some a ↔ a ∈ l ∧ key a = k
  constructor
  · intro h
    exact ⟨mem_of_find?_eq_some h, by simpa using find?_some h⟩
  · rintro ⟨ha, rfl⟩
    induction l with
    | nil => cases ha
    | cons x l ih =>
      rw [map_cons, nodup_cons] at hnd
      rw [find?_cons]
      rcases mem_cons.1 ha with rfl | ha
      · simp
      · have hx : key x ≠ key a := fun h => hnd.1 (mem_map.2 ⟨a, ha, h.symm⟩)
        simp only [hx, decide_false, ih hnd.2 ha]

theorem find_eq_none_iff (k : κ) : m.find k = none ↔ ∀ a ∈ m.elems, key a ≠ k := by
  unfold find
  rw [find?_eq_none]
  simp

theorem eq_of_key_eq {a b : α} (ha : a ∈ m.elems) (hb : b ∈ m.elems) (h : key a = key b) : a = b := by
  have h1 := (m.find_eq_some_iff (key b) a).2 ⟨ha, h⟩
  have h2 := (m.find_eq_some_iff (key b) b).2 ⟨hb, rfl⟩
  rw [h1] at h2
  exact Option.some.inj h2

end

/-! ## The operations -/

def erase (m : KeyedList key) (k : κ) : KeyedList key :=
  ⟨m.elems.filter (fun a => decide (key a ≠ k)), m.nodup.sublist (List.filter_sublist.map key)⟩

def add (m : KeyedList key) (a : α) : KeyedList key :=
  if h : ∃ b ∈ m.elems, key b = key a then m
  else ⟨m.elems ++ [a], by
    rw [List.map_append, List.nodup_append]
    refine ⟨m.nodup, by simp, ?_⟩
    intro x hx y hy hxy
    obtain ⟨b, hb, rfl⟩ := List.mem_map.1 hx
    simp only [List.map_cons, List.map_nil, List.mem_singleton] at hy
    exact h ⟨b, hb, hxy.trans hy⟩⟩

theorem map_key_replace (a : α) (l : List α) :
    (l.map (fun b => if key b = key a then a else b)).map key = l.map key := by
  rw [map_map]
  apply map_congr_left
  intro b _
  simp only [Function.comp_apply]
  split
  · rename_i h; exact h.symm
  · rfl

/-- Puts `a` in the place of the element with its key, or at the end. -/
def put (m : KeyedList key) (a : α) : KeyedList key :=
  if ∃ b ∈ m.elems, key b = key a then
    ⟨m.elems.map (fun b => if key b = key a then a else b), by rw [map_key_replace]; exact m.nodup⟩
  else m.add a

@[simp] theorem find_empty (k : κ) : (empty : KeyedList key).find k = none := rfl

section

variable (m : KeyedList key)

theorem elems_add_of_absent (a : α) (h : m.find (key a) = none) : (m.add a).elems = m.elems ++ [a] := by
  have hne : ¬ ∃ b ∈ m.elems, key b = key a := by
    rintro ⟨b, hb, hk⟩
    exact (m.find_eq_none_iff (key a)).1 h b hb hk
  unfold add
  rw [dif_neg hne]

theorem elems_put_of_absent (a : α) (h : m.find (key a) = none) : (m.put a).elems = m.elems ++ [a] := by
  have hne : ¬ ∃ b ∈ m.elems, key b = key a := by
    rintro ⟨b, hb, hk⟩
    exact (m.find_eq_none_iff (key a)).1 h b hb hk
  unfold put
  rw [if_neg hne, elems_add_of_absent m a h]

@[simp] theorem mem_erase (k : κ) (x : α) : x ∈ (m.erase k).elems ↔ x ∈ m.elems ∧ key x ≠ k := by
  simp [erase, mem_filter]

theorem mem_add (a x : α) : x ∈ (m.add a).elems ↔ x ∈ m.elems ∨ (x = a ∧ ∀ b ∈ m.elems, key b ≠ key a) := by
  unfold add
  split
  · rename_i h
    obtain ⟨b, hb, hk⟩ := h
    exact ⟨.inl, fun hx => hx.resolve_right (fun ⟨_, hn⟩ => hn b hb hk)⟩
  · rename_i h
    simp only [mem_append, mem_singleton]
    constructor
    · rintro (hx | hx)
      · exact .inl hx
      · exact .inr ⟨hx, fun b hb hk => h ⟨b, hb, hk⟩⟩
    · rintro (hx | ⟨hx, _⟩)
      · exact .inl hx
      · exact .inr hx

theorem mem_put (a x : α) : x ∈ (m.put a).elems ↔ x = a ∨ (x ∈ m.elems ∧ key x ≠ key a) := by
  unfold put
  split
  · rename_i h
    obtain ⟨b, hb, hk⟩ := h
    simp only [mem_map]
    constructor
    · rintro ⟨c, hc, rfl⟩
      split
      · exact .inl rfl
      · rename_i hne; exact .inr ⟨hc, hne⟩
    · rintro (rfl | ⟨hx, hne⟩)
      · exact ⟨b, hb, by rw [if_pos hk]⟩
      · exact ⟨x, hx, by rw [if_neg hne]⟩
  · rename_i h
    rw [mem_add]
    constructor
    · rintro (hx | ⟨rfl, _⟩)
      · exact .inr ⟨hx, fun hk => h ⟨x, hx, hk⟩⟩
      · exact .inl rfl
    · rintro (rfl | ⟨hx, _⟩)
      · exact .inr ⟨rfl, fun b hb hk => h ⟨b, hb, hk⟩⟩
      · exact .inl hx

theorem find_put (a : α) (k : κ) : (m.put a).find k = if k = key a then some a else m.find k := by
  apply Option.ext
  intro x
  rw [find_eq_some_iff, mem_put]
  split
  · rename_i h
    subst h
    constructor
    · rintro ⟨rfl | ⟨_, hne⟩, hk⟩
      · rfl
      · exact absurd hk hne
    · intro hx
      cases hx
      exact ⟨.inl rfl, rfl⟩
  · rename_i h
    rw [find_eq_some_iff]
    constructor
    · rintro ⟨rfl | ⟨hx, _⟩, hk⟩
      · exact absurd hk.symm h
      · exact ⟨hx, hk⟩
    · rintro ⟨hx, hk⟩
      exact ⟨.inr ⟨hx, fun he => h (hk.symm.trans he)⟩, hk⟩

theorem find_erase (j k : κ) : (m.erase j).find k = if k = j then none else m.find k := by
  apply Option.ext
  intro x
  rw [find_eq_some_iff, mem_erase]
  split
  · rename_i h
    subst h
    constructor
    · rintro ⟨⟨_, hne⟩, hk⟩
      exact absurd hk hne
    · intro hx
      cases hx
  · rename_i h
    rw [find_eq_some_iff]
    constructor
    · rintro ⟨⟨hx, _⟩, hk⟩
      exact ⟨hx, hk⟩
    · rintro ⟨hx, hk⟩
      exact ⟨⟨hx, fun he => h (hk.symm.trans he)⟩, hk⟩

theorem erase_of_absent (k : κ) (h : m.find k = none) : (m.erase k).elems = m.elems := by
  have hall := (m.find_eq_none_iff k).1 h
  show m.elems.filter _ = m.elems
  rw [filter_eq_self]
  intro a ha
  simpa using hall a ha

/-- **Erasing a present key moves its element to the front of what remains.** -/
theorem perm_erase (k : κ) (a : α) (h : m.find k = some a) : m.elems.Perm (a :: (m.erase k).elems) := by
  obtain ⟨ha, hk⟩ := (m.find_eq_some_iff k a).1 h
  have hnd := (m.erase k).nodup_elems
  have hna : a ∉ (m.erase k).elems := by
    rw [mem_erase]
    rintro ⟨_, hne⟩
    exact hne hk
  rw [perm_ext_iff_of_nodup m.nodup_elems (nodup_cons.2 ⟨hna, hnd⟩)]
  intro x
  rw [mem_cons, mem_erase]
  constructor
  · intro hx
    by_cases hxk : key x = k
    · exact .inl (m.eq_of_key_eq hx ha (hxk.trans hk.symm))
    · exact .inr ⟨hx, hxk⟩
  · rintro (rfl | ⟨hx, _⟩)
    · exact ha
    · exact hx

end

/-- Equality of sets whose elements are equal when their keys are: as many elements, and every key of `n` is one
of `m`. -/
def setEquals (m n : KeyedList key) : Bool := m.size == n.size && n.elems.all (fun a => (m.find (key a)).isSome)

section

variable (m : KeyedList key)

theorem setEquals_refl : m.setEquals m = true := by
  simp only [setEquals, beq_self_eq_true, Bool.true_and, all_eq_true]
  intro a ha
  exact Option.isSome_iff_exists.2 ⟨a, (find_eq_some_iff ..).2 ⟨ha, rfl⟩⟩

/-! ## Counting and summing -/

theorem size_put (a : α) : (m.put a).size = if (m.find (key a)).isSome then m.size else m.size + 1 := by
  cases hf : m.find (key a) with
  | none =>
    unfold size
    rw [elems_put_of_absent m a hf]
    simp
  | some b =>
    obtain ⟨hb, hk⟩ := (m.find_eq_some_iff (key a) b).1 hf
    unfold size put
    rw [if_pos ⟨b, hb, hk⟩]
    simp

theorem size_erase_le (k : κ) : (m.erase k).size ≤ m.size := length_filter_le _ _

theorem size_eq_zero_iff : m.size = 0 ↔ ∀ k, m.find k = none := by
  unfold size
  rw [length_eq_zero_iff]
  constructor
  · intro h k
    rw [find_eq_none_iff, h]
    intro a ha
    cases ha
  · intro h
    apply eq_nil_iff_forall_not_mem.2
    intro a ha
    exact (m.find_eq_none_iff (key a)).1 (h (key a)) a ha rfl

end

theorem perm_of_find_eq (m n : KeyedList key) (h : ∀ k, m.find k = n.find k) : m.elems.Perm n.elems := by
  rw [perm_ext_iff_of_nodup m.nodup_elems n.nodup_elems]
  intro a
  have h1 := m.find_eq_some_iff (key a) a
  have h2 := n.find_eq_some_iff (key a) a
  rw [h] at h1
  simp only [and_true] at h1 h2
  rw [← h1, ← h2]

/-! ## Sums over the elements -/

variable {M : Type} [AddCommMonoid M]

theorem sum_put_of_absent (m : KeyedList key) (a : α) (f : α → M) (h : m.find (key a) = none) :
    (m.put a).sum f = m.sum f + f a := by
  unfold sum
  rw [elems_put_of_absent m a h]
  simp

theorem sum_erase (m : KeyedList key) (k : κ) (a : α) (f : α → M) (h : m.find k = some a) :
    m.sum f = f a + (m.erase k).sum f := by
  unfold sum
  rw [((m.perm_erase k a h).map f).sum_eq, map_cons, sum_cons]

omit [DecidableEq κ] in
theorem mem_sum {β : Type} (m : KeyedList key) (f : α → Multiset β) (b : β) : b ∈ m.sum f ↔ ∃ a ∈ m.elems, b ∈ f a := by
  unfold sum
  induction m.elems with
  | nil => simp
  | cons a l ih => simp only [map_cons, sum_cons, Multiset.mem_add, ih, exists_mem_cons_iff]

end KeyedList

/-! ## Maps in insertion order -/

/-- A map kept in insertion order: the keyed list of its entries. -/
structure LinkedMap (κ υ : Type) where
  table : KeyedList (Prod.fst : κ × υ → κ)

namespace LinkedMap

variable {κ υ : Type}

def empty : LinkedMap κ υ := ⟨KeyedList.empty⟩

def entries (m : LinkedMap κ υ) : List (κ × υ) := m.table.elems

def keys (m : LinkedMap κ υ) : List κ := m.entries.map Prod.fst

def values (m : LinkedMap κ υ) : List υ := m.entries.map Prod.snd

def size (m : LinkedMap κ υ) : Nat := m.entries.length

@[simp] theorem values_empty : (empty : LinkedMap κ υ).values = [] := rfl

@[simp] theorem size_empty : (empty : LinkedMap κ υ).size = 0 := rfl

variable (m : LinkedMap κ υ) (k j : κ) (v : υ)

theorem length_values : m.values.length = m.size := length_map _

theorem nodup_keys : m.keys.Nodup := m.table.nodup

theorem ext_entries {m n : LinkedMap κ υ} (h : m.entries = n.entries) : m = n := by
  cases m
  cases n
  exact congrArg LinkedMap.mk (KeyedList.ext h)

variable [DecidableEq κ]

def get (m : LinkedMap κ υ) (k : κ) : Option υ := (m.table.find k).map Prod.snd

def put (m : LinkedMap κ υ) (k : κ) (v : υ) : LinkedMap κ υ := ⟨m.table.put (k, v)⟩

def remove (m : LinkedMap κ υ) (k : κ) : LinkedMap κ υ := ⟨m.table.erase k⟩

def removeAll (m : LinkedMap κ υ) (ks : List κ) : LinkedMap κ υ := ks.foldl remove m

@[simp, grind =] theorem get_empty : (empty : LinkedMap κ υ).get k = none := rfl

theorem find_eq : m.table.find k = (m.get k).map (fun v => (k, v)) := by
  unfold get
  cases h : m.table.find k with
  | none => rfl
  | some e =>
    obtain ⟨_, rfl⟩ := (m.table.find_eq_some_iff k e).1 h
    rfl

section

variable {m k v}

theorem mem_entries_iff : (k, v) ∈ m.entries ↔ m.get k = some v := by
  have h := m.table.find_eq_some_iff k (k, v)
  rw [find_eq] at h
  simp only [and_true] at h
  rw [show m.entries = m.table.elems from rfl, ← h]
  cases m.get k <;> simp

theorem mem_values_iff : v ∈ m.values ↔ ∃ k, m.get k = some v := by
  unfold values
  rw [mem_map]
  constructor
  · rintro ⟨⟨k, w⟩, hm, rfl⟩
    exact ⟨k, LinkedMap.mem_entries_iff.1 hm⟩
  · rintro ⟨k, hk⟩
    exact ⟨(k, v), LinkedMap.mem_entries_iff.2 hk, rfl⟩

theorem mem_keys_iff : k ∈ m.keys ↔ ∃ v, m.get k = some v := by
  unfold keys
  rw [mem_map]
  constructor
  · rintro ⟨⟨j, w⟩, hm, rfl⟩
    exact ⟨w, LinkedMap.mem_entries_iff.1 hm⟩
  · rintro ⟨v, hv⟩
    exact ⟨(k, v), LinkedMap.mem_entries_iff.2 hv, rfl⟩

end

theorem nodup_values (h : ∀ j k v, m.get j = some v → m.get k = some v → j = k) : m.values.Nodup := by
  have hentries : m.entries.Nodup := List.Nodup.of_map Prod.fst m.nodup_keys
  refine List.Nodup.map_on ?_ hentries
  rintro ⟨j, v⟩ hj ⟨k, w⟩ hk rfl
  rw [h j k v (LinkedMap.mem_entries_iff.1 hj) (LinkedMap.mem_entries_iff.1 hk)]

@[simp, grind =] theorem get_put : (m.put k v).get j = if j = k then some v else m.get j := by
  unfold get put
  rw [KeyedList.find_put]
  split <;> rfl

@[simp, grind =] theorem get_remove : (m.remove k).get j = if j = k then none else m.get j := by
  unfold get remove
  rw [KeyedList.find_erase]
  split <;> rfl

theorem get_put_cases {m : LinkedMap κ υ} {j k : κ} {v w : υ} (h : (m.put k v).get j = some w) :
    j = k ∧ v = w ∨ j ≠ k ∧ m.get j = some w := by
  rw [get_put] at h
  split at h
  · rename_i hjk
    exact .inl ⟨hjk, Option.some.inj h⟩
  · rename_i hjk
    exact .inr ⟨hjk, h⟩

theorem get_of_get_remove {m : LinkedMap κ υ} {j k : κ} {v : υ} (h : (m.remove k).get j = some v) :
    m.get j = some v := by
  rw [get_remove] at h
  split at h
  · cases h
  · exact h

theorem put_of_get (h : m.get k = some v) : m.put k v = m := by
  have hmem := LinkedMap.mem_entries_iff.2 h
  have hex : ∃ b ∈ m.table.elems, b.1 = (k, v).1 := ⟨(k, v), hmem, rfl⟩
  refine ext_entries ?_
  unfold put entries KeyedList.put
  rw [if_pos hex]
  refine (map_congr_left (fun b hb => ?_)).trans (map_id _)
  split
  · rename_i hk
    exact (m.table.eq_of_key_eq hb hmem hk).symm
  · rfl

theorem entries_put_of_absent (h : m.get k = none) : (m.put k v).entries = m.entries ++ [(k, v)] :=
  m.table.elems_put_of_absent (k, v) (by rw [find_eq, h]; rfl)

theorem keys_put_of_absent (h : m.get k = none) : (m.put k v).keys = m.keys ++ [k] := by
  unfold keys
  rw [entries_put_of_absent m k v h, map_append]
  rfl

theorem mem_keys_put (k : κ) (v : υ) : j ∈ (m.put k v).keys ↔ j = k ∨ j ∈ m.keys := by
  rw [mem_keys_iff, mem_keys_iff, get_put]
  by_cases hk : j = k <;> simp [hk]

theorem mem_keys_remove (k : κ) : j ∈ (m.remove k).keys ↔ j ≠ k ∧ j ∈ m.keys := by
  rw [mem_keys_iff, mem_keys_iff, get_remove]
  by_cases hk : j = k <;> simp [hk]

theorem get_eq_none_iff : m.get k = none ↔ k ∉ m.keys := by
  rw [mem_keys_iff]
  cases m.get k <;> simp

theorem keys_remove (h : m.get k = some v) : m.keys.Perm (k :: (m.remove k).keys) :=
  (m.table.perm_erase k (k, v) (by rw [find_eq, h]; rfl)).map Prod.fst

def putAll (m : LinkedMap κ υ) (es : List (κ × υ)) : LinkedMap κ υ := es.foldl (fun m e => m.put e.1 e.2) m

theorem get_putAll_of_not_mem (k : κ) : ∀ (es : List (κ × υ)) (m : LinkedMap κ υ), k ∉ es.map Prod.fst →
    (m.putAll es).get k = m.get k
  | [], _, _ => rfl
  | e :: es, m, hk => by
    rw [map_cons, mem_cons, not_or] at hk
    rw [putAll, foldl_cons]
    refine (get_putAll_of_not_mem k es _ hk.2).trans ?_
    rw [get_put, if_neg hk.1]

theorem get_putAll_of_mem {k : κ} : ∀ (es : List (κ × υ)) (m : LinkedMap κ υ), k ∈ es.map Prod.fst →
    ∃ v, (k, v) ∈ es ∧ (m.putAll es).get k = some v
  | e :: es, m, hk => by
    rw [putAll, foldl_cons]
    by_cases hrest : k ∈ es.map Prod.fst
    · obtain ⟨v, hv, hget⟩ := get_putAll_of_mem es (m.put e.1 e.2) hrest
      exact ⟨v, mem_cons_of_mem _ hv, hget⟩
    · obtain rfl : k = e.1 := by simpa [hrest] using hk
      refine ⟨e.2, mem_cons_self, (get_putAll_of_not_mem _ es _ hrest).trans ?_⟩
      rw [get_put, if_pos rfl]

theorem entries_putAll : ∀ (es : List (κ × υ)) (m : LinkedMap κ υ), (es.map Prod.fst).Nodup →
    (∀ e ∈ es, m.get e.1 = none) → (m.putAll es).entries = m.entries ++ es
  | [], m, _, _ => (append_nil _).symm
  | e :: es, m, hnd, hfree => by
    rw [map_cons, nodup_cons] at hnd
    rw [putAll, foldl_cons]
    refine (entries_putAll es (m.put e.1 e.2) hnd.2 (fun e' he' => ?_)).trans ?_
    · rw [get_put, if_neg, hfree e' (mem_cons_of_mem _ he')]
      intro hk
      exact hnd.1 (hk ▸ mem_map_of_mem he')
    · rw [entries_put_of_absent _ _ _ (hfree e (by simp)), append_assoc]
      rfl

theorem putAll_entries : (empty : LinkedMap κ υ).putAll m.entries = m :=
  ext_entries (entries_putAll m.entries empty m.nodup_keys (fun _ _ => rfl))

theorem remove_of_absent (h : m.get k = none) : m.remove k = m := by
  unfold remove
  rw [KeyedList.ext (m.table.erase_of_absent k (by rw [find_eq, h]; rfl))]

@[grind =] theorem get_removeAll (j : κ) : ∀ (ks : List κ) (m : LinkedMap κ υ),
    (m.removeAll ks).get j = if j ∈ ks then none else m.get j
  | [], _ => by simp [removeAll]
  | k :: ks, m => by
    rw [show m.removeAll (k :: ks) = (m.remove k).removeAll ks from rfl, get_removeAll j ks, get_remove]
    by_cases hk : j = k <;> simp [hk]

theorem size_put (m : LinkedMap κ υ) (k : κ) (v : υ) :
    (m.put k v).size = if (m.get k).isSome then m.size else m.size + 1 := by
  have h := m.table.size_put (k, v)
  rw [find_eq] at h
  simp only [Option.isSome_map] at h
  exact h

theorem size_remove_add_one (h : m.get k = some v) : (m.remove k).size + 1 = m.size :=
  (m.table.perm_erase k (k, v) (by rw [find_eq, h]; rfl)).length_eq.symm

theorem size_remove_le : (m.remove k).size ≤ m.size := m.table.size_erase_le k

theorem size_eq_zero_iff (m : LinkedMap κ υ) : m.size = 0 ↔ ∀ k, m.get k = none := by
  have h := m.table.size_eq_zero_iff
  simp only [find_eq, Option.map_eq_none_iff] at h
  exact h

theorem eq_empty_of_get (h : ∀ k, m.get k = none) : m = empty := by
  have hlen := m.size_eq_zero_iff.2 h
  obtain ⟨⟨es, hes⟩⟩ := m
  obtain rfl := length_eq_zero_iff.1 hlen
  rfl

/-! ## Collecting by key -/

/-- Adds every item to what there is under its key, which is `unit` where there is nothing. -/
def gather {α : Type} (key : α → κ) (add : υ → α → υ) (unit : υ) (m : LinkedMap κ υ) (items : List α) : LinkedMap κ υ :=
  items.foldl (fun m x => m.put (key x) (add ((m.get (key x)).getD unit) x)) m

/-- **Under a key there is what the items with that key add up to**, in their order. -/
theorem get_gather {α : Type} (key : α → κ) (add : υ → α → υ) (unit : υ) (k : κ) :
    ∀ (items : List α) (m : LinkedMap κ υ), (m.gather key add unit items).get k = if ∃ x ∈ items, key x = k then
        some ((items.filter (fun x => decide (key x = k))).foldl add ((m.get k).getD unit)) else m.get k
  | [], m => by simp [gather]
  | x :: items, m => by
    have ih := get_gather key add unit k items (m.put (key x) (add ((m.get (key x)).getD unit) x))
    rw [gather, foldl_cons]
    refine ih.trans ?_
    by_cases hx : key x = k
    · subst hx
      have hcons : ∃ y ∈ x :: items, key y = key x := ⟨x, mem_cons_self, rfl⟩
      rw [get_put, if_pos rfl, if_pos hcons, filter_cons_of_pos (by simp), foldl_cons]
      split
      · rfl
      · -- no further item has the key
        rename_i hnone
        have hnil : items.filter (fun y => decide (key y = key x)) = [] := by
          rw [filter_eq_nil_iff]
          intro y hy he
          exact hnone ⟨y, hy, of_decide_eq_true he⟩
        rw [hnil]
        rfl
    · simp [hx, Ne.symm hx]

/-! ## Sums over the values -/

variable {M : Type} [AddCommMonoid M]

def sum (m : LinkedMap κ υ) (f : υ → M) : M := m.table.sum (fun e => f e.2)

omit [DecidableEq κ] in
@[simp] theorem sum_empty (f : υ → M) : (empty : LinkedMap κ υ).sum f = 0 := rfl

theorem sum_put_of_absent (f : υ → M) (h : m.get k = none) : (m.put k v).sum f = m.sum f + f v :=
  m.table.sum_put_of_absent (k, v) (fun e => f e.2) (by rw [find_eq, h]; rfl)

theorem sum_remove (f : υ → M) (h : m.get k = some v) : m.sum f = f v + (m.remove k).sum f :=
  m.table.sum_erase k (k, v) (fun e => f e.2) (by rw [find_eq, h]; rfl)

theorem sum_congr (f g : υ → M) (h : ∀ k v, m.get k = some v → f v = g v) : m.sum f = m.sum g :=
  m.table.sum_congr _ _ (fun e he => h e.1 e.2 (LinkedMap.mem_entries_iff.1 he))

theorem sum_change (f g : υ → M) (h : m.get k = some v) (hg : ∀ j w, m.get j = some w → j ≠ k → g w = f w) :
    ∃ rest, m.sum f = f v + rest ∧ m.sum g = g v + rest := by
  refine ⟨(m.remove k).sum f, m.sum_remove k v f h, ?_⟩
  rw [m.sum_remove k v g h]
  congr 1
  refine sum_congr _ _ _ (fun j w hj => ?_)
  rw [get_remove] at hj
  split at hj
  · cases hj
  · rename_i hne
    exact hg j w hj hne

theorem sum_eq_of_get_eq (n : LinkedMap κ υ) (f : υ → M) (h : ∀ k, m.get k = n.get k) : m.sum f = n.sum f :=
  ((KeyedList.perm_of_find_eq m.table n.table (fun k => by rw [find_eq, find_eq, h])).map _).sum_eq

theorem sum_put_of_present (old v : υ) (f : υ → M) (h : m.get k = some old) :
    (m.put k v).sum f + f old = m.sum f + f v := by
  have hrest : ((m.put k v).remove k).sum f = (m.remove k).sum f := by
    refine sum_eq_of_get_eq _ _ f (fun j => ?_)
    rw [get_remove, get_remove, get_put]
    split <;> rfl
  rw [(m.put k v).sum_remove k v f (by rw [get_put, if_pos rfl]), m.sum_remove k old f h, hrest]
  rw [add_comm (f v), add_comm (f old), add_assoc, add_assoc, add_comm (f v)]

omit [DecidableEq κ] in
theorem mem_sum {α : Type} (m : LinkedMap κ υ) (f : υ → Multiset α) (a : α) :
    a ∈ m.sum f ↔ ∃ v ∈ m.values, a ∈ f v := by
  unfold sum values entries
  rw [KeyedList.mem_sum]
  simp only [mem_map, exists_exists_and_eq_and]

end LinkedMap
end Keyed
