import Photon.Runs
/-!
# Leads — what a run comes to

`Within n` says that a property is reached within `n` events, whichever events they are, as long as each meets a guard.
It is built from the end: what holds is reached within none, and what every guarded event reaches within `n` is reached
within `n + 1`.
-/
namespace Runs

variable {σ ε : Type} {step : σ → ε → σ} {G : σ → ε → Prop} {P : σ → Prop}

/-- The property is reached within so many events that meet the guard. -/
def Within (step : σ → ε → σ) (G : σ → ε → Prop) (P : σ → Prop) : Nat → σ → Prop
  | 0, s => P s
  | n + 1, s => P s ∨ ∀ e, G s e → Within step G P n (step s e)

theorem within_of_holds {s : σ} (h : P s) : ∀ n, Within step G P n s
  | 0 => h
  | _ + 1 => .inl h

theorem Within.mono : ∀ {n m : Nat} {s : σ}, Within step G P n s → n ≤ m → Within step G P m s
  | 0, m, _, h, _ => within_of_holds h m
  | n + 1, 0, _, _, hle => absurd hle (Nat.not_succ_le_zero n)
  | n + 1, m + 1, s, h, hle => by
    rcases h with h | h
    · exact .inl h
    · exact .inr fun e he => (h e he).mono (Nat.le_of_succ_le_succ hle)

/-- **A run of so many guarded events ends where the property holds**, if it is kept. -/
theorem within_run (hkept : ∀ s e, P s → P (step s e)) : ∀ {n : Nat} {s : σ} {events : List ε},
    Within step G P n s → Meets step G s events → n ≤ events.length → P (run step s events)
  | 0, _, events, h, _, _ => (always_of_inv hkept events h).run
  | n + 1, _, [], _, _, hle => absurd hle (Nat.not_succ_le_zero n)
  | n + 1, s, e :: events, h, hmeets, hle => by
    rcases h with h | h
    · exact (always_of_inv hkept (e :: events) h).run
    · rw [run_cons]
      exact within_run hkept (h e hmeets.1) hmeets.2 (Nat.le_of_succ_le_succ hle)

/-- The property holds somewhere on the way. -/
def Passes (step : σ → ε → σ) (P : σ → Prop) (s : σ) (events : List ε) : Prop :=
  ∃ before after, events = before ++ after ∧ P (run step s before)

/-- **What the counted events bring nearer is reached with as many of them**, whatever comes between. -/
theorem passes_of_rank {I : σ → Prop} {rank : σ → Nat} {counted : ε → Bool} (hpos : ∀ s, I s → 0 < rank s)
    (hstep : ∀ s e, I s → P (step s e) ∨ I (step s e) ∧ rank (step s e) + (counted e).toNat ≤ rank s) :
    ∀ {events : List ε} {s : σ}, I s → rank s ≤ events.countP counted → Passes step P s events
  | [], s, hs, hle => absurd (hpos s hs) (Nat.not_lt.2 hle)
  | e :: events, s, hs, hle => by
    rcases hstep s e hs with h | ⟨h, hrank⟩
    · exact ⟨[e], events, rfl, h⟩
    · have hrest : rank (step s e) ≤ events.countP counted := by
        rw [List.countP_cons] at hle
        cases hc : counted e <;> simp only [hc, Bool.toNat_false, Bool.toNat_true, Bool.false_eq_true, if_false,
          if_true] at hle hrank <;>
          omega
      obtain ⟨before, after, rfl, hreached⟩ := passes_of_rank hpos hstep h hrest
      exact ⟨e :: before, after, rfl, hreached⟩

end Runs
