import Mathlib.Data.List.Basic
/-!
# Versioned — writers that are admitted by a version number

Several clients share one cell with a version.  A client that syncs notes the version; one that commits must know the
current version, raises it by one, and knows the new one.  Nothing is said of what the cell holds.  The one theorem
is that knowing the current version and being undisturbed are the same: whether a client may commit can be read
off the log of syncs and commits alone.
-/
namespace Versioned

/-- What the log of a versioned cell records. -/
inductive Act (ι : Type) where
  | synced (i : ι)
  | committed (i : ι)
  deriving DecidableEq

def Act.client {ι : Type} : Act ι → ι
  | synced i => i
  | committed i => i

/-- The version of the cell, and the one each client knows. -/
structure View (ι : Type) where
  version : Int
  known : ι → Int

variable {ι : Type}

/-- The client has synced or committed, and nobody else has committed since. -/
def Undisturbed (i : ι) (log : List (Act ι)) : Prop :=
  ∃ before own after, log = before ++ own :: after ∧ own.client = i ∧ ∀ j, Act.committed j ∈ after → j = i

/-- One more act: the client's own makes it undisturbed, a commit of another ends that, a sync of another changes
nothing. -/
theorem undisturbed_concat (i : ι) (log : List (Act ι)) (act : Act ι) :
    Undisturbed i (log ++ [act]) ↔ act.client = i ∨ Undisturbed i log ∧ ∀ j, act = .committed j → j = i := by
  constructor
  · rintro ⟨before, own, after, h, hown, hafter⟩
    rcases List.eq_nil_or_concat' after with rfl | ⟨after, last, rfl⟩
    · obtain ⟨-, rfl⟩ : log = before ∧ act = own := by simpa using h
      exact .inl hown
    · obtain ⟨rfl, rfl⟩ : log = before ++ own :: after ∧ act = last := by
        rw [← List.cons_append, ← List.append_assoc] at h
        exact List.append_inj' h rfl |>.imp_right (fun hlast => List.singleton_inj.1 hlast)
      exact .inr ⟨⟨before, own, after, rfl, hown, fun j hj => hafter j (by simp [hj])⟩, fun j hj => hafter j
        (by simp [hj])⟩
  · rintro (hact | ⟨⟨before, own, after, rfl, hown, hafter⟩, hact⟩)
    · exact ⟨log, act, [], rfl, hact, by simp⟩
    · refine ⟨before, own, after ++ [act], by simp, hown, fun j hj => ?_⟩
      rcases List.mem_append.1 hj with hj | hj
      · exact hafter j hj
      · exact hact j (List.mem_singleton.1 hj).symm

variable [DecidableEq ι]

namespace View

def apply (w : View ι) : Act ι → View ι
  | .synced i => { w with known := Function.update w.known i w.version }
  | .committed i => ⟨w.version + 1, Function.update w.known i (w.version + 1)⟩

/-- A commit needs the current version. -/
def Admits (w : View ι) : Act ι → Prop
  | .synced _ => True
  | .committed i => w.known i = w.version

/-- The views a log leads to, as long as every commit was admitted. -/
inductive Reaches (w : View ι) : List (Act ι) → View ι → Prop
  | nil : Reaches w [] w
  | concat {log : List (Act ι)} {v : View ι} (act : Act ι) (h : Reaches w log v) (hact : v.Admits act) :
      Reaches w (log ++ [act]) (v.apply act)

variable {w v : View ι} {log : List (Act ι)}

theorem Reaches.trans {log' : List (Act ι)} {v' : View ι} (h : w.Reaches log v) (h' : v.Reaches log' v') :
    w.Reaches (log ++ log') v' := by
  induction h' with
  | nil => rwa [List.append_nil]
  | concat act h' hact ih =>
    rw [← List.append_assoc]
    exact ih.concat act hact

theorem Reaches.one (act : Act ι) (hact : w.Admits act) : w.Reaches [act] (w.apply act) := Reaches.nil.concat act hact

theorem Reaches.known_le (h : w.Reaches log v) (hw : ∀ i, w.known i ≤ w.version) (i : ι) : v.known i ≤ v.version := by
  induction h with
  | nil => exact hw i
  | concat act h hact ih =>
    cases act with
    | synced j =>
      simp only [apply, Function.update_apply]
      split
      · exact Int.le_refl _
      · exact ih
    | committed j =>
      simp only [apply, Function.update_apply]
      split
      · exact Int.le_refl _
      · omega

/-- **A client knows the current version exactly when it is undisturbed.** -/
theorem Reaches.known_eq_iff (h : w.Reaches log v) (hw : ∀ i, w.known i < w.version) (i : ι) :
    v.known i = v.version ↔ Undisturbed i log := by
  induction h with
  | nil => exact iff_of_false (Int.ne_of_lt (hw i)) (by
      rintro ⟨before, own, after, h, -⟩
      cases before <;> cases h)
  | @concat log v act h hact ih =>
    rw [undisturbed_concat]
    have hle := h.known_le (fun j => Int.le_of_lt (hw j)) i
    cases act with
    | synced j =>
      by_cases hj : j = i
      · simp [apply, Act.client, hj]
      · simp [apply, Act.client, hj, Function.update_of_ne (Ne.symm hj), ih]
    | committed j =>
      by_cases hj : j = i
      · simp [apply, Act.client, hj]
      · have hne : v.known i ≠ v.version + 1 := by omega
        simp [apply, Act.client, hj, Function.update_of_ne (Ne.symm hj), hne]

end View

end Versioned
