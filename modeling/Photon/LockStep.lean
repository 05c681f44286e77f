import Mathlib.Data.List.Perm.Basic
/-!
# LockStep — sources that are read page by page, all in step

Every round reads the next page of every source that still has one.  After `r` rounds what has been read is, up to its
order, the first `r` pages of each source.
-/
namespace LockStep

open List

variable {σ α κ : Type}

def round (sources : List σ) (pages : σ → List (List α)) (r : Nat) : List α :=
  sources.flatMap fun s => ((pages s)[r]?).getD []

/-- The first `r` pages of every source. -/
def read (sources : List σ) (pages : σ → List (List α)) (r : Nat) : List α :=
  sources.flatMap fun s => ((pages s).take r).flatten

theorem read_zero (sources : List σ) (pages : σ → List (List α)) : read sources pages 0 = [] := by
  simp only [read, take_zero, flatten_nil, flatMap_eq_nil_iff, implies_true]

theorem flatten_take_succ (l : List (List α)) (r : Nat) :
    (l.take (r + 1)).flatten = (l.take r).flatten ++ (l[r]?).getD [] := by
  rw [take_add_one, flatten_append]
  cases l[r]? with
  | none => rfl
  | some page => simp only [Option.toList_some, flatten_singleton, Option.getD_some]

/-- **A round adds its page to what has been read of each source.** -/
theorem read_succ (sources : List σ) (pages : σ → List (List α)) (r : Nat) :
    (read sources pages r ++ round sources pages r).Perm (read sources pages (r + 1)) := by
  refine (flatMap_append_perm sources _ _).trans (List.Perm.of_eq ?_)
  exact flatMap_congr fun s _ => (flatten_take_succ (pages s) r).symm

theorem read_all {sources : List σ} {pages : σ → List (List α)} {r : Nat} (h : ∀ s ∈ sources, (pages s).length ≤ r) :
    read sources pages r = sources.flatMap fun s => (pages s).flatten := by
  refine flatMap_congr fun s hs => ?_
  rw [take_of_length_le (h s hs)]

section

variable [DecidableEq κ]

theorem filter_eq_find? {key : α → κ} (k : κ) : ∀ {l : List α}, (l.map key).Nodup →
    l.filter (fun a => key a = k) = (l.find? fun a => key a = k).toList
  | [], _ => rfl
  | a :: l, h => by
    obtain ⟨hnotin, hnodup⟩ := nodup_cons.1 h
    by_cases ha : key a = k
    · have hnil : l.filter (fun b => key b = k) = [] := by
        rw [filter_eq_nil_iff]
        intro b hb hkey
        rw [decide_eq_true_eq] at hkey
        exact hnotin (mem_map.2 ⟨b, hb, hkey.trans ha.symm⟩)
      simp only [filter_cons, find?_cons, ha, decide_true, if_true, hnil, Option.toList_some]
    · simp only [filter_cons, find?_cons, ha, decide_false, Bool.false_eq_true, if_false]
      exact filter_eq_find? k hnodup

theorem find?_of_mem {key : σ → κ} {s : σ} : ∀ {sources : List σ}, (sources.map key).Nodup → s ∈ sources →
    (sources.find? fun s' => key s' = key s) = some s
  | s' :: sources, h, hs => by
    obtain ⟨hnotin, hnodup⟩ := nodup_cons.1 h
    by_cases heq : key s' = key s
    · rcases mem_cons.1 hs with rfl | hs
      · simp only [find?_cons, decide_true]
      · exact absurd (mem_map.2 ⟨s, hs, heq.symm⟩) hnotin
    · rcases mem_cons.1 hs with rfl | hs
      · exact absurd rfl heq
      · simp only [find?_cons, heq, decide_false]
        exact find?_of_mem hnodup hs

theorem flatMap_of_key {key : σ → κ} (k : κ) {f : σ → List α} : ∀ {sources : List σ}, (sources.map key).Nodup →
    (∀ s ∈ sources, key s ≠ k → f s = []) → sources.flatMap f = ((sources.find? fun s => key s = k).map f).getD []
  | [], _, _ => rfl
  | s :: sources, h, hf => by
    obtain ⟨hnotin, hnodup⟩ := nodup_cons.1 h
    by_cases hs : key s = k
    · have hnil : sources.flatMap f = [] := by
        rw [flatMap_eq_nil_iff]
        intro s' hs'
        refine hf s' (mem_cons_of_mem _ hs') fun hkey => ?_
        exact hnotin (mem_map.2 ⟨s', hs', hkey.trans hs.symm⟩)
      simp only [flatMap_cons, hnil, append_nil, find?_cons, hs, decide_true, Option.map_some, Option.getD_some]
    · simp only [flatMap_cons, hf s mem_cons_self hs, nil_append, find?_cons, hs, decide_false]
      exact flatMap_of_key k hnodup fun s' hs' => hf s' (mem_cons_of_mem _ hs')

end

end LockStep
