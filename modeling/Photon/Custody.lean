import Mathlib.Data.List.Basic
/-!
# Custody — a history of things that are handed out and come back

`Exclusive history` says that a thing that is handed out twice has come back in between; a thing is out if it was handed
out and has not come back since.  Handing out what is not out keeps a history exclusive.
-/
namespace Custody

open List

variable {ρ χ : Type}

inductive Act (ρ χ : Type)
  | hand (receiver : ρ) (thing : χ)
  | back (thing : χ)

/-- Between two hand-outs of a thing it has come back. -/
def Exclusive (history : List (Act ρ χ)) : Prop :=
  ∀ before between after r r' c, history = before ++ .hand r c :: (between ++ .hand r' c :: after) → .back c ∈ between

/-- The thing has been handed out and has not come back since. -/
def Out (history : List (Act ρ χ)) (c : χ) : Prop :=
  ∃ before r after, history = before ++ .hand r c :: after ∧ .back c ∉ after

def receivers : List (Act ρ χ) → List ρ
  | [] => []
  | .hand r _ :: history => r :: receivers history
  | .back _ :: history => receivers history

theorem receivers_append : ∀ h h' : List (Act ρ χ), receivers (h ++ h') = receivers h ++ receivers h'
  | [], _ => rfl
  | .hand r _ :: h, h' => congrArg (r :: ·) (receivers_append h h')
  | .back _ :: h, h' => receivers_append h h'

theorem exclusive_nil : Exclusive ([] : List (Act ρ χ)) := by
  intro before between after r r' c h
  cases before <;> cases h

theorem not_out_nil (c : χ) : ¬Out ([] : List (Act ρ χ)) c := by
  intro h
  obtain ⟨before, r, after, h, -⟩ := h
  cases before <;> cases h

variable {history : List (Act ρ χ)}

theorem append_singleton_cases {act : Act ρ χ} {before after : List (Act ρ χ)} {act' : Act ρ χ}
    (h : history ++ [act] = before ++ act' :: after) :
    (after = [] ∧ act' = act ∧ before = history) ∨ ∃ after', after = after' ++ [act] ∧
      history = before ++ act' :: after' := by
  rcases eq_nil_or_concat after with rfl | ⟨after', last, rfl⟩
  · obtain ⟨rfl, hact⟩ := append_inj' h rfl
    cases hact
    exact .inl ⟨rfl, rfl, rfl⟩
  · rw [concat_eq_append] at h ⊢
    rw [← cons_append, ← append_assoc] at h
    obtain ⟨rfl, hlast⟩ := append_inj' h rfl
    cases hlast
    exact .inr ⟨after', rfl, rfl⟩

theorem Exclusive.hand (h : Exclusive history) {r : ρ} {c : χ} (hout : ¬Out history c) :
    Exclusive (history ++ [.hand r c]) := by
  intro before between after r₁ r₂ d heq
  rw [← cons_append, ← append_assoc] at heq
  rcases append_singleton_cases heq with ⟨-, hact, hbefore⟩ | ⟨after', -, hbefore⟩
  · cases hact
    by_contra hback
    exact hout ⟨before, r₁, between, hbefore.symm, hback⟩
  · rw [append_assoc, cons_append] at hbefore
    exact h before between after' r₁ r₂ d hbefore

theorem Exclusive.back (h : Exclusive history) (c : χ) : Exclusive (history ++ [.back c]) := by
  intro before between after r₁ r₂ d heq
  rw [← cons_append, ← append_assoc] at heq
  rcases append_singleton_cases heq with ⟨-, hact, -⟩ | ⟨after', -, hbefore⟩
  · cases hact
  · rw [append_assoc, cons_append] at hbefore
    exact h before between after' r₁ r₂ d hbefore

theorem out_hand_iff {r : ρ} {c d : χ} : Out (history ++ [.hand r c]) d ↔ d = c ∨ Out history d := by
  constructor
  · intro h
    obtain ⟨before, r', after, heq, hback⟩ := h
    rcases append_singleton_cases heq with ⟨-, hact, -⟩ | ⟨after', rfl, hbefore⟩
    · cases hact
      exact .inl rfl
    · exact .inr ⟨before, r', after', hbefore, fun hmem => hback (mem_append_left _ hmem)⟩
  · intro h
    rcases h with rfl | ⟨before, r', after, rfl, hback⟩
    · exact ⟨history, r, [], rfl, by simp⟩
    · exact ⟨before, r', after ++ [.hand r c], by simp, by simpa using hback⟩

theorem out_back_iff {c d : χ} : Out (history ++ [.back c]) d ↔ d ≠ c ∧ Out history d := by
  constructor
  · intro h
    obtain ⟨before, r, after, heq, hback⟩ := h
    rcases append_singleton_cases heq with ⟨-, hact, -⟩ | ⟨after', rfl, hbefore⟩
    · cases hact
    · refine ⟨?_, before, r, after', hbefore, fun hmem => hback (mem_append_left _ hmem)⟩
      intro hd
      subst hd
      exact hback (mem_append_right _ mem_cons_self)
  · intro h
    obtain ⟨hne, before, r, after, rfl, hback⟩ := h
    refine ⟨before, r, after ++ [.back c], by simp, ?_⟩
    intro hmem
    rcases mem_append.1 hmem with hmem | hmem
    · exact hback hmem
    · rcases mem_singleton.1 hmem with h
      cases h
      exact hne rfl

end Custody
