import Photon.Resource
/-!
# Strategy — how the two schedulers match constraints with the resources of a child

A scheduler knows of a child the resource constraints it was reported with.  The root scheduler (Java) coalesces them by
type in `ManagedScheduler.setResources` and counts matches in `Strategy.validateConstraints`; the leaf scheduler
(Python) coalesces them in `_coalesce_resources` and answers yes or no in `_satisfy`.

`validateConstraints_pos_iff` and `satisfy_iff` say the same of both, in terms of the values that are reported for a
type.
-/
namespace Photon

open List
open Keyed (LinkedMap)

def valuesOf (constraints : List ResourceConstraint) (type : ResourceConstraintType) : List String :=
  (constraints.filter (fun c => decide (c.type = type))).flatMap (fun c => c.values)

theorem mem_valuesOf (constraints : List ResourceConstraint) (type : ResourceConstraintType) (v : String) :
    v ∈ valuesOf constraints type ↔ ∃ c ∈ constraints, c.type = type ∧ v ∈ c.values := by
  simp only [valuesOf, mem_flatMap, mem_filter, decide_eq_true_eq, and_assoc]

/-- Whether the reported values admit a constraint: a positive one needs a value of its own among them, a negative one
a value that is not its own. -/
def Admits (constraints : List ResourceConstraint) (c : ResourceConstraint) : Prop :=
  if c.isNegative then ∃ v ∈ valuesOf constraints c.type, v ∉ c.values
  else ∃ v ∈ c.values, v ∈ valuesOf constraints c.type

theorem not_admits_of_absent {constraints : List ResourceConstraint} {c : ResourceConstraint}
    (h : ¬ ∃ x ∈ constraints, x.type = c.type) : ¬ Admits constraints c := by
  have hnone : ∀ v, v ∉ valuesOf constraints c.type := by
    intro v hv
    obtain ⟨x, hx, ht, _⟩ := (mem_valuesOf constraints c.type v).1 hv
    exact h ⟨x, hx, ht⟩
  unfold Admits
  split
  · rintro ⟨v, hv, _⟩
    exact hnone v hv
  · rintro ⟨v, _, hv⟩
    exact hnone v hv

/-! ## The root scheduler -/

namespace RootScheduler

def integerMaxValue : Nat := 2147483647

theorem integerMaxValue_pos : 0 < integerMaxValue := by decide

/-- The set of coalesced resource constraints.  It has one for each type, so it is the map from the type to the
values. -/
abbrev Resources : Type := LinkedMap ResourceConstraintType (List String)

def coalesce (map : Resources) (constraint : ResourceConstraint) : Resources :=
  match map.get constraint.type with
  | none => map.put constraint.type constraint.values
  | some target => map.put constraint.type (target ++ constraint.values)

def setResources (constraints : List ResourceConstraint) : Resources := constraints.foldl coalesce .empty

def validateSingleConstraint (constraint : ResourceConstraint) (schedResources : Resources) : Nat :=
  match schedResources.get constraint.type with
  | none => 0
  | some resourceValues =>
    if !constraint.isNegative then constraint.values.countP (fun value => decide (value ∈ resourceValues))
    else resourceValues.countP (fun value => decide (value ∉ constraint.values))

def validateEach (hostResources : Resources) : List ResourceConstraint → Nat → Nat
  | [], totalMatchCount => totalMatchCount
  | constraint :: constraintSet, totalMatchCount =>
    let matchCount := validateSingleConstraint constraint hostResources
    if matchCount = 0 then 0
    else
      let matchCount :=
        if constraint.type ≠ .host ∨ constraint.isNegative = false then integerMaxValue else matchCount
      validateEach hostResources constraintSet (min matchCount totalMatchCount)

def validateConstraints (hostResources : Resources) (constraintSet : List ResourceConstraint) : Nat :=
  validateEach hostResources constraintSet integerMaxValue

theorem foldl_append_values : ∀ (cs : List ResourceConstraint) (values : List String),
    cs.foldl (fun vs c => vs ++ c.values) values = values ++ cs.flatMap (fun c => c.values)
  | [], values => by simp
  | c :: cs, values => by
    rw [foldl_cons, foldl_append_values cs, flatMap_cons, append_assoc]

/-- **The coalesced resources**: for each type that was reported, all its values. -/
theorem get_setResources (constraints : List ResourceConstraint) (type : ResourceConstraintType) :
    (setResources constraints).get type =
      if ∃ c ∈ constraints, c.type = type then some (valuesOf constraints type) else none := by
  have hgather : setResources constraints =
      LinkedMap.empty.gather ResourceConstraint.type (fun vs c => vs ++ c.values) [] constraints :=
    congrArg (fun f => constraints.foldl f LinkedMap.empty) (funext₂ fun map c => by
      unfold coalesce
      cases map.get c.type <;> rfl)
  rw [hgather, LinkedMap.get_gather, foldl_append_values]
  rfl

theorem validateSingleConstraint_pos_iff (constraints : List ResourceConstraint) (c : ResourceConstraint) :
    0 < validateSingleConstraint c (setResources constraints) ↔ Admits constraints c := by
  unfold validateSingleConstraint
  rw [get_setResources]
  by_cases h : ∃ x ∈ constraints, x.type = c.type
  · simp only [if_pos h]
    unfold Admits
    cases c.isNegative with
    | false | true => simp [countP_pos_iff]
  · simp only [if_neg h, lt_irrefl, false_iff]
    exact not_admits_of_absent h

theorem validateEach_pos_iff (resources : Resources) : ∀ (cs : List ResourceConstraint) (total : Nat), 0 < total →
    (0 < validateEach resources cs total ↔ ∀ c ∈ cs, 0 < validateSingleConstraint c resources)
  | [], total, htotal => by simpa [validateEach] using htotal
  | c :: cs, total, htotal => by
    rw [validateEach, forall_mem_cons]
    by_cases hc : validateSingleConstraint c resources = 0
    · simp [hc]
    · have hmin : 0 < min (if c.type ≠ .host ∨ c.isNegative = false then integerMaxValue
          else validateSingleConstraint c resources) total := by
        refine lt_min ?_ htotal
        split
        · exact integerMaxValue_pos
        · omega
      simp only [if_neg hc]
      rw [validateEach_pos_iff resources cs _ hmin]
      exact (and_iff_right (Nat.pos_of_ne_zero hc)).symm

/-- **The root scheduler accepts a child exactly if the values admit every constraint.** -/
theorem validateConstraints_pos_iff (constraints request : List ResourceConstraint) :
    0 < validateConstraints (setResources constraints) request ↔ ∀ c ∈ request, Admits constraints c := by
  unfold validateConstraints
  rw [validateEach_pos_iff _ _ _ integerMaxValue_pos]
  exact forall₂_congr (fun c _ => validateSingleConstraint_pos_iff constraints c)

end RootScheduler

/-! ## The leaf scheduler -/

namespace LeafScheduler

/-- The order in which Python lists a set. -/
structure SetOrder where
  list : Finset String → List String
  mem_list : ∀ (s : Finset String) (v : String), v ∈ list s ↔ v ∈ s

/-- One round of the loop in `_coalesce_resources`; a type that is not there yet starts with the empty set. -/
def coalesce (constraints : LinkedMap ResourceConstraintType (Finset String)) (constraint : ResourceConstraint) :
    LinkedMap ResourceConstraintType (Finset String) :=
  constraints.put constraint.type ((constraints.get constraint.type).getD ∅ ∪ constraint.values.toFinset)

def coalesceResources (order : SetOrder) (childConstraints : List ResourceConstraint) : List ResourceConstraint :=
  match childConstraints with
  | [] => []
  | _ => (childConstraints.foldl coalesce .empty).entries.map (fun e => .of e.1 (order.list e.2))

def getConstraints (childConstraints : List ResourceConstraint) : LinkedMap ResourceConstraintType (List String) :=
  LinkedMap.empty.putAll (childConstraints.map (fun c => (c.type, c.values)))

def validateSingleConstraint (constraint : ResourceConstraint) (resourceValueSet : Finset String) : Bool :=
  if !constraint.isNegative then constraint.values.any (fun value => decide (value ∈ resourceValueSet))
  else decide (∃ value ∈ resourceValueSet, value ∉ constraint.values)

def satisfy (childConstraints : List ResourceConstraint) : List ResourceConstraint → Bool
  | [] => true
  | constraint :: constraints =>
    match (getConstraints childConstraints).get constraint.type with
    | some values =>
      if validateSingleConstraint constraint values.toFinset then satisfy childConstraints constraints else false
    | none => false

theorem foldl_union_values (v : String) : ∀ (cs : List ResourceConstraint) (values : Finset String),
    v ∈ cs.foldl (fun vs c => vs ∪ c.values.toFinset) values ↔ v ∈ values ∨ v ∈ cs.flatMap (fun c => c.values)
  | [], values => by simp
  | c :: cs, values => by
    rw [foldl_cons, foldl_union_values v cs, Finset.mem_union, mem_toFinset, flatMap_cons, mem_append, or_assoc]

theorem get_foldl_coalesce (childConstraints : List ResourceConstraint) (type : ResourceConstraintType) :
    (childConstraints.foldl coalesce .empty).get type =
      if ∃ c ∈ childConstraints, c.type = type then some (valuesOf childConstraints type).toFinset else none := by
  have hgather : childConstraints.foldl coalesce .empty =
      LinkedMap.empty.gather ResourceConstraint.type (fun vs c => vs ∪ c.values.toFinset) ∅ childConstraints := rfl
  rw [hgather, LinkedMap.get_gather]
  congr 2
  ext v
  rw [foldl_union_values, mem_toFinset]
  simp [valuesOf]

theorem get_putAll_listed {m : LinkedMap ResourceConstraintType (Finset String)} (order : SetOrder)
    (type : ResourceConstraintType) :
      (LinkedMap.empty.putAll (m.entries.map (fun e => (e.1, order.list e.2)))).get type =
      (m.get type).map order.list := by
  cases h : m.get type with
  | none =>
    rw [LinkedMap.get_putAll_of_not_mem]
    · rfl
    · intro hmem
      simp only [map_map, mem_map, Function.comp_apply] at hmem
      obtain ⟨e, he, rfl⟩ := hmem
      rw [LinkedMap.mem_entries_iff.1 he] at h
      cases h
  | some values =>
    have hmem : type ∈ (m.entries.map (fun e => (e.1, order.list e.2))).map Prod.fst := by
      simp only [map_map, mem_map, Function.comp_apply]
      exact ⟨(type, values), LinkedMap.mem_entries_iff.2 h, rfl⟩
    obtain ⟨listed, hlisted, hget⟩ := LinkedMap.get_putAll_of_mem _ LinkedMap.empty hmem
    rw [hget]
    obtain ⟨e, he, heq⟩ := mem_map.1 hlisted
    obtain ⟨rfl, rfl⟩ := Prod.mk.inj heq
    rw [LinkedMap.mem_entries_iff.1 he] at h
    cases h
    rfl

/-- **What the leaf scheduler looks up for a type**: nothing where it was not reported, and else its values. -/
theorem get_getConstraints (order : SetOrder) (constraints : List ResourceConstraint) (type : ResourceConstraintType) :
    (getConstraints (coalesceResources order constraints)).get type =
      if ∃ c ∈ constraints, c.type = type then some (order.list (valuesOf constraints type).toFinset) else none := by
  cases constraints with
  | nil => simp [coalesceResources, getConstraints, LinkedMap.putAll]
  | cons c cs =>
    unfold getConstraints coalesceResources
    rw [map_map]
    refine (get_putAll_listed order type).trans ?_
    rw [get_foldl_coalesce]
    split <;> rfl

/-- **The leaf scheduler accepts a child exactly if the values admit every constraint.** -/
theorem satisfy_eq_true_iff (order : SetOrder) (constraints : List ResourceConstraint) :
    ∀ request : List ResourceConstraint, satisfy (coalesceResources order constraints) request = true ↔
      ∀ c ∈ request, Admits constraints c
  | [] => by simp [satisfy]
  | c :: request => by
    rw [satisfy, get_getConstraints, forall_mem_cons, ← satisfy_eq_true_iff order constraints request]
    by_cases h : ∃ x ∈ constraints, x.type = c.type
    · have hset : (order.list (valuesOf constraints c.type).toFinset).toFinset =
          (valuesOf constraints c.type).toFinset := by
        ext v
        rw [mem_toFinset, order.mem_list]
      have hadmits : validateSingleConstraint c (valuesOf constraints c.type).toFinset = true ↔
          Admits constraints c := by
        unfold validateSingleConstraint Admits
        cases c.isNegative with
        | false | true => simp
      simp only [if_pos h, hset]
      by_cases hc : Admits constraints c
      · simp [hadmits.2 hc, hc]
      · simp [hadmits, hc]
    · simp [h, not_admits_of_absent h]

end LeafScheduler

/-- **Both schedulers decide alike** whether a child satisfies the constraints of a request. -/
theorem satisfy_iff_validateConstraints (order : LeafScheduler.SetOrder)
    (constraints request : List ResourceConstraint) :
    LeafScheduler.satisfy (LeafScheduler.coalesceResources order constraints) request = true ↔
      RootScheduler.validateConstraints (RootScheduler.setResources constraints) request > 0 := by
  rw [LeafScheduler.satisfy_eq_true_iff, gt_iff_lt, RootScheduler.validateConstraints_pos_iff]

end Photon
