import Mathlib.Algebra.Order.BigOperators.Group.List
import Mathlib.Algebra.Order.Ring.Int
import Mathlib.Data.Int.ConditionallyCompleteOrder
import Mathlib.Data.Int.Interval
import Mathlib.Order.ConditionallyCompleteLattice.Basic
import Photon.Keyed
/-!
# RandomSelect — the weighted draw of `RandomStrategy`

`randomSelect` draws candidates one after the other.  The weights of the candidates that are left lie side by side as
intervals of `[0, totalWeight)`, and the number that is drawn picks the candidate whose interval it falls into.  The
total is kept apart from the list; `Ok` says that the two agree and that every draw so far was fair.
-/
namespace Photon.RootScheduler.RandomStrategy

open List
open Keyed (LinkedMap)

/-- The `int` that is left of an exact result. -/
def int32 (n : Int) : Int := n.bmod (2 ^ 32)

def intMaxValue : Int := 2 ^ 31 - 1

theorem int32_of_fits {n : Int} (h : 0 ≤ n) (hn : n ≤ intMaxValue) : int32 n = n := by
  unfold intMaxValue at hn
  exact Int.bmod_eq_of_le (by omega) (by omega)

/-- The generator: what the draw number `k` gives for a bound. -/
structure Random where
  nextInt : Nat → Int → Int
  nextInt_range : ∀ k bound, 0 < bound → 0 ≤ nextInt k bound ∧ nextInt k bound < bound

/-- `Random.nextInt` throws for a bound that is not positive. -/
inductive Fault
  | illegalArgument
  deriving DecidableEq

/-- The variables of `randomSelect`; `draws` records from which candidates and with which total each number was
drawn. -/
structure Selection (α : Type) where
  candidates : List α
  selected : List α
  totalWeight : Int
  draws : List (List α × Int)

variable {α : Type}

def getSchedulerWeight [DecidableEq α] (getWeight : α → Int) (weightOverrideMap : LinkedMap α Int)
    (scheduler : α) : Int :=
  if weightOverrideMap.size = 0 then getWeight scheduler
  else match weightOverrideMap.get scheduler with
    | some counter => counter
    | none => getWeight scheduler

def intervalOf (weight : α → Int) (randomInt : Int) : List α → Int → Option α
  | [], _ => none
  | candidate :: candidates, startInterval =>
    let endInterval := int32 (startInterval + weight candidate)
    if startInterval ≤ randomInt ∧ randomInt < endInterval then some candidate
    else intervalOf weight randomInt candidates endInterval

def selectFromCandidates (weight : α → Int) (nextInt : Int → Int) (candidates : List α) (totalWeight : Int) :
    Except Fault (Option α) :=
  if totalWeight = 0 then .ok none
  else if totalWeight < 0 then .error .illegalArgument
  else .ok (intervalOf weight (nextInt totalWeight) candidates 0)

def Selection.drawing (s : Selection α) : Selection α :=
  if s.totalWeight = 0 then s else { s with draws := s.draws ++ [(s.candidates, s.totalWeight)] }

def Selection.add [DecidableEq α] (weight : α → Int) (s : Selection α) (scheduler : α) : Selection α :=
  { s with candidates := s.candidates.erase scheduler
           selected := s.selected ++ [scheduler]
           totalWeight := int32 (s.totalWeight - weight scheduler) }

def selectRounds [DecidableEq α] (weight : α → Int) (random : Random) : Nat → Selection α → Except Fault (Selection α)
  | 0, s => .ok s
  | n + 1, s =>
    match selectFromCandidates weight (random.nextInt s.draws.length) s.candidates s.totalWeight with
    | .error e => .error e
    | .ok none => .ok s.drawing
    | .ok (some scheduler) => selectRounds weight random n (s.drawing.add weight scheduler)

def totalWeightOf (weight : α → Int) (candidates : List α) : Int :=
  candidates.foldl (fun total candidate => int32 (total + weight candidate)) 0

/-- `randomSelect`, with all its variables at the end; `selected` is what it returns. -/
def randomSelect [DecidableEq α] (getWeight : α → Int) (weightOverrideMap : LinkedMap α Int) (inCandidates : List α)
    (targetCount : Nat) (random : Random) : Except Fault (Selection α) :=
  let weight := getSchedulerWeight getWeight weightOverrideMap
  selectRounds weight random targetCount ⟨inCandidates, [], totalWeightOf weight inCandidates, []⟩

/-! ## One draw -/

theorem sum_nonneg {weight : α → Int} {cs : List α} (h : ∀ c ∈ cs, 0 ≤ weight c) : 0 ≤ (cs.map weight).sum :=
  List.sum_nonneg (by simpa using h)

theorem mem_of_intervalOf {weight : α → Int} {v : Int} {c : α} : ∀ {cs : List α} {start : Int},
    intervalOf weight v cs start = some c → c ∈ cs
  | x :: cs, start, h => by
    simp only [intervalOf] at h
    split at h
    · rw [Option.some.inj h]
      exact List.mem_cons_self
    · exact List.mem_cons_of_mem _ (mem_of_intervalOf h)

/-- **Every candidate has an interval as long as its weight**, and the intervals lie between the start and the total. -/
theorem interval_of_mem (weight : α → Int) {c : α} :
    ∀ (cs : List α) (start : Int), cs.Nodup → (∀ x ∈ cs, 0 ≤ weight x) →
    0 ≤ start → start + (cs.map weight).sum ≤ intMaxValue → c ∈ cs →
    ∃ a, start ≤ a ∧ a + weight c ≤ start + (cs.map weight).sum ∧
      ∀ v, start ≤ v → (intervalOf weight v cs start = some c ↔ a ≤ v ∧ v < a + weight c)
  | x :: cs, start, hnd, hpos, hstart, hfit, hc => by
    rw [nodup_cons] at hnd
    rw [forall_mem_cons] at hpos
    have hsum := sum_nonneg hpos.2
    rw [map_cons, sum_cons] at hfit ⊢
    have hend : int32 (start + weight x) = start + weight x := int32_of_fits (by omega) (by omega)
    simp only [intervalOf, hend]
    by_cases hcx : c = x
    · subst hcx
      refine ⟨start, le_rfl, by omega, fun v hv => ?_⟩
      split
      · rename_i h
        exact iff_of_true rfl h
      · rename_i h
        exact iff_of_false (fun hrest => hnd.1 (mem_of_intervalOf hrest)) h
    · obtain ⟨a, hlow, hhigh, hiff⟩ := interval_of_mem weight cs (start + weight x) hnd.2 hpos.2 (by omega) (by omega)
        ((mem_cons.1 hc).resolve_left hcx)
      refine ⟨a, by omega, by omega, fun v hv => ?_⟩
      split
      · rename_i h
        exact iff_of_false (fun hx => hcx (Option.some.inj hx).symm) (by omega)
      · exact hiff v (by omega)

/-- **A number below the total falls into the interval of a candidate of positive weight.** -/
theorem intervalOf_of_lt (weight : α → Int) {v : Int} : ∀ (cs : List α) (start : Int), (∀ x ∈ cs, 0 ≤ weight x) →
    0 ≤ start → start + (cs.map weight).sum ≤ intMaxValue → start ≤ v → v < start + (cs.map weight).sum →
    ∃ c ∈ cs, 0 < weight c ∧ intervalOf weight v cs start = some c
  | [], start, _, _, _, hv, hlt => absurd hlt (by simpa using hv)
  | x :: cs, start, hpos, hstart, hfit, hv, hlt => by
    rw [forall_mem_cons] at hpos
    have hsum := sum_nonneg hpos.2
    rw [map_cons, sum_cons] at hfit hlt
    have hend : int32 (start + weight x) = start + weight x := int32_of_fits (by omega) (by omega)
    simp only [intervalOf, hend]
    split
    · exact ⟨x, mem_cons_self, by omega, rfl⟩
    · have hbeyond : start + weight x ≤ v := by omega
      obtain ⟨c, hc, hwc, hsel⟩ :=
        intervalOf_of_lt weight cs (start + weight x) hpos.2 (by omega) (by omega) hbeyond (by omega)
      exact ⟨c, mem_cons_of_mem _ hc, hwc, hsel⟩

/-- The candidates are distinct, and their weights are not negative and fit an `int` together. -/
structure Weighted (weight : α → Int) (inCandidates : List α) : Prop where
  nodup : inCandidates.Nodup
  nonneg : ∀ c ∈ inCandidates, 0 ≤ weight c
  fits : (inCandidates.map weight).sum ≤ intMaxValue

variable {weight : α → Int}

theorem Weighted.left {inCandidates : List α} (hw : Weighted weight inCandidates) {selected candidates : List α}
    (h : (selected ++ candidates).Perm inCandidates) : Weighted weight candidates := by
  have hsum := (h.map weight).sum_eq
  rw [map_append, sum_append] at hsum
  have hselected : 0 ≤ (selected.map weight).sum :=
    sum_nonneg (fun c hc => hw.nonneg c (h.subset (mem_append_left _ hc)))
  have hfits := hw.fits
  exact ⟨(h.nodup_iff.2 hw.nodup).of_append_right, fun c hc => hw.nonneg c (h.subset (mem_append_right _ hc)), by omega⟩

theorem totalWeightOf_eq {inCandidates : List α} (hw : Weighted weight inCandidates) :
    totalWeightOf weight inCandidates = (inCandidates.map weight).sum := by
  have hfold : ∀ (cs : List α) (t : Int), 0 ≤ t → (∀ c ∈ cs, 0 ≤ weight c) → t + (cs.map weight).sum ≤ intMaxValue →
      cs.foldl (fun total candidate => int32 (total + weight candidate)) t = t + (cs.map weight).sum := by
    intro cs
    induction cs with
    | nil => intro t _ _ _; simp
    | cons x cs ih =>
      intro t ht hpos hfit
      rw [forall_mem_cons] at hpos
      have hsum := sum_nonneg hpos.2
      rw [map_cons, sum_cons] at hfit ⊢
      rw [foldl_cons, int32_of_fits (by omega) (by omega), ih _ (by omega) hpos.2 (by omega)]
      omega
  unfold totalWeightOf
  rw [hfold inCandidates 0 le_rfl hw.nonneg (by simpa using hw.fits), zero_add]

variable [DecidableEq α]

/-- A draw is fair: the total is the sum of the weights, and of the numbers below it as many select a candidate as its
weight. -/
def FairDraw (weight : α → Int) (candidates : List α) (totalWeight : Int) : Prop :=
  totalWeight = (candidates.map weight).sum ∧ ∀ c ∈ candidates,
    (((Finset.Ico 0 totalWeight).filter
      fun v => selectFromCandidates weight (fun _ => v) candidates totalWeight = .ok (some c)).card : Int) = weight c

theorem fairDraw {cs : List α} (hnd : cs.Nodup) (hpos : ∀ c ∈ cs, 0 ≤ weight c)
    (hfit : (cs.map weight).sum ≤ intMaxValue) : FairDraw weight cs (cs.map weight).sum := by
  refine ⟨rfl, fun c hc => ?_⟩
  obtain ⟨a, hlow, hhigh, hiff⟩ := interval_of_mem weight cs 0 hnd hpos le_rfl (by simpa using hfit) hc
  have hset : (Finset.Ico 0 (cs.map weight).sum).filter
      (fun v => selectFromCandidates weight (fun _ => v) cs (cs.map weight).sum = .ok (some c)) =
      Finset.Ico a (a + weight c) := by
    ext v
    rw [Finset.mem_filter, Finset.mem_Ico, Finset.mem_Ico]
    constructor
    · rintro ⟨hv, hsel⟩
      unfold selectFromCandidates at hsel
      rw [if_neg (by omega), if_neg (by omega)] at hsel
      exact (hiff v hv.1).1 (Except.ok.inj hsel)
    · intro hv
      refine ⟨by omega, ?_⟩
      unfold selectFromCandidates
      rw [if_neg (by omega), if_neg (by omega), (hiff v (by omega)).2 hv]
  rw [hset, Int.card_Ico]
  have := hpos c hc
  omega

/-! ## The rounds -/

/-- **Nothing is lost and the total is right**, after any number of rounds. -/
structure Ok (weight : α → Int) (inCandidates : List α) (s : Selection α) : Prop where
  perm : (s.selected ++ s.candidates).Perm inCandidates
  total : s.totalWeight = (s.candidates.map weight).sum
  positive : ∀ c ∈ s.selected, 0 < weight c
  fair : ∀ d ∈ s.draws, FairDraw weight d.1 d.2

section

variable {weight : α → Int} {inCandidates : List α} {s : Selection α}

section

variable (h : Ok weight inCandidates s)
include h

section

variable (hw : Weighted weight inCandidates)
include hw

theorem Ok.drawing : Ok weight inCandidates s.drawing := by
  unfold Selection.drawing
  split
  · exact h
  · refine { h with fair := fun d hd => ?_ }
    rcases mem_append.1 hd with hd | hd
    · exact h.fair d hd
    · obtain ⟨hnd, hpos, hfit⟩ := hw.left h.perm
      rw [mem_singleton.1 hd, h.total]
      exact fairDraw hnd hpos hfit

theorem Ok.add {c : α} (hc : c ∈ s.candidates) (hpos : 0 < weight c) : Ok weight inCandidates (s.add weight c) := by
  have hleft := hw.left h.perm
  have hsum := sum_map_erase weight hc
  have hrest : 0 ≤ ((s.candidates.erase c).map weight).sum :=
    sum_nonneg (fun x hx => hleft.nonneg x (mem_of_mem_erase hx))
  have hfits := hleft.fits
  refine ⟨?_, ?_, ?_, h.fair⟩
  · rw [Selection.add, append_assoc]
    exact ((perm_cons_erase hc).symm.append_left s.selected).trans h.perm
  · rw [Selection.add, h.total, int32_of_fits (by omega) (by omega)]
    exact (by omega : (s.candidates.map weight).sum - weight c = ((s.candidates.erase c).map weight).sum)
  · intro x hx
    rcases mem_append.1 hx with hx | hx
    · exact h.positive x hx
    · rw [mem_singleton.1 hx]
      exact hpos

/-- **While the total is not zero a round selects a candidate of positive weight.** -/
theorem Ok.select (random : Random) (k : Nat) (hne : s.totalWeight ≠ 0) : ∃ c ∈ s.candidates, 0 < weight c ∧
      selectFromCandidates weight (random.nextInt k) s.candidates s.totalWeight = .ok (some c) := by
  obtain ⟨hnd, hpos, hfit⟩ := hw.left h.perm
  have htotal := sum_nonneg hpos
  rw [h.total] at hne ⊢
  have hrange := random.nextInt_range k (s.candidates.map weight).sum (by omega)
  obtain ⟨c, hc, hwc, hsel⟩ := intervalOf_of_lt weight s.candidates 0 hpos le_rfl (by simpa using hfit) hrange.1
    (by simpa using hrange.2)
  refine ⟨c, hc, hwc, ?_⟩
  unfold selectFromCandidates
  rw [if_neg hne, if_neg (by omega), hsel]

end

theorem Ok.countP : inCandidates.countP (fun c => 0 < weight c) =
    s.selected.length + s.candidates.countP (fun c => 0 < weight c) := by
  rw [← h.perm.countP_eq, countP_append, countP_eq_length.2 (by simpa using h.positive)]

theorem Ok.countP_left (hw : Weighted weight inCandidates) (hzero : s.totalWeight = 0) :
    s.candidates.countP (fun c => 0 < weight c) = 0 := by
  rw [countP_eq_zero]
  intro c hc
  have hall := all_zero_of_le_zero_le_of_sum_eq_zero (l := s.candidates.map weight)
    (by simpa using (hw.left h.perm).nonneg) (h.total.symm.trans hzero) (mem_map_of_mem hc)
  simp [hall]

end

/-- **The rounds come to an end, and select as many candidates as they are asked for or as there are of positive
weight.** -/
theorem Ok.selectRounds (hw : Weighted weight inCandidates) (random : Random) : ∀ (n : Nat) (s : Selection α),
    Ok weight inCandidates s → ∃ s', RandomStrategy.selectRounds weight random n s = .ok s' ∧
      Ok weight inCandidates s' ∧
      s'.selected.length = min (s.selected.length + n) (inCandidates.countP fun c => 0 < weight c)
  | 0, s, h => by
    have := h.countP
    exact ⟨s, rfl, h, by omega⟩
  | n + 1, s, h => by
    have hcount := h.countP
    by_cases hzero : s.totalWeight = 0
    · have hleft := h.countP_left hw hzero
      refine ⟨s, ?_, h, by omega⟩
      simp [RandomStrategy.selectRounds, selectFromCandidates, Selection.drawing, hzero]
    · obtain ⟨c, hc, hpos, hsel⟩ := h.select hw random s.draws.length hzero
      have hcand : s.drawing.candidates = s.candidates := by unfold Selection.drawing; split <;> rfl
      have hlen : s.drawing.selected = s.selected := by unfold Selection.drawing; split <;> rfl
      obtain ⟨s', hrun, hok, hl⟩ := Ok.selectRounds hw random n (s.drawing.add weight c)
        ((h.drawing hw).add hw (hcand ▸ hc) hpos)
      refine ⟨s', ?_, hok, ?_⟩
      · rw [RandomStrategy.selectRounds, hsel]
        exact hrun
      · rw [hl, Selection.add, hlen, length_append, length_singleton]
        omega

end

def Random.zero : Random := ⟨fun _ _ => 0, fun _ _ h => ⟨le_rfl, h⟩⟩

/-- **`randomSelect` selects distinct candidates of positive weight, as many as it is asked for or as there are, and
before every draw the total is the sum of the weights that are left and each candidate left is selected by as many of
the numbers as its weight.** -/
theorem randomSelect_fair (getWeight : α → Int) (weightOverrideMap : LinkedMap α Int) (inCandidates : List α)
    (targetCount : Nat)
    (random : Random) (hw : Weighted (getSchedulerWeight getWeight weightOverrideMap) inCandidates) :
    ∃ s, randomSelect getWeight weightOverrideMap inCandidates targetCount random = .ok s ∧ s.selected.Nodup ∧
      (∀ c ∈ s.selected, c ∈ inCandidates ∧ 0 < getSchedulerWeight getWeight weightOverrideMap c) ∧
      s.selected.length =
        min targetCount (inCandidates.countP fun c => 0 < getSchedulerWeight getWeight weightOverrideMap c) ∧
      ∀ d ∈ s.draws, FairDraw (getSchedulerWeight getWeight weightOverrideMap) d.1 d.2 := by
  obtain ⟨s, hrun, hok, hlen⟩ := Ok.selectRounds hw random targetCount
    ⟨inCandidates, [], totalWeightOf (getSchedulerWeight getWeight weightOverrideMap) inCandidates, []⟩
    ⟨List.Perm.refl _, totalWeightOf_eq hw, by simp, by simp⟩
  refine ⟨s, hrun, (hok.perm.nodup_iff.2 hw.nodup).of_append_left, fun c hc => ⟨?_, hok.positive c hc⟩, ?_, hok.fair⟩
  · exact hok.perm.subset (mem_append_left _ hc)
  · simpa using hlen

/-- Three candidates of weights two, zero and one: the first and the last are selected. -/
theorem randomSelect_fair_three :
    ∃ s, randomSelect (fun c : Nat => [2, 0, 1].getD c 0) LinkedMap.empty [0, 1, 2] 3 Random.zero = .ok s ∧
      s.selected.length = 2 := by
  obtain ⟨s, hs, -, -, hlen, -⟩ :=
    randomSelect_fair (fun c : Nat => [2, 0, 1].getD c 0) LinkedMap.empty [0, 1, 2] 3 Random.zero
    ⟨by decide, by decide, by decide⟩
  exact ⟨s, hs, hlen⟩

end Photon.RootScheduler.RandomStrategy
