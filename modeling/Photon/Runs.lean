import Mathlib.Data.List.Basic
import Mathlib.Order.Defs.PartialOrder
/-!
# Runs — what a whole run of a step function keeps

A system is a step function on states and events; a run is a list of events.  `Meets` reads a condition at every step,
in the state the event finds, and `Always` a property in every state the run goes through.  The rules lead from what one
step keeps to what the run keeps (`always_of_meets`), and, where the condition is exactly what a step needs, back
(`always_iff_meets_of_inv`).
-/
namespace Runs

variable {σ ε α : Type} {step : σ → ε → σ}

def run (step : σ → ε → σ) (s : σ) (events : List ε) : σ := events.foldl step s

/-- The property holds where the run starts and after each of its events. -/
def Always (step : σ → ε → σ) (P : σ → Prop) : σ → List ε → Prop
  | s, [] => P s
  | s, e :: events => P s ∧ Always step P (step s e) events

/-- Every event of the run meets the condition, in the state it finds. -/
def Meets (step : σ → ε → σ) (C : σ → ε → Prop) : σ → List ε → Prop
  | _, [] => True
  | s, e :: events => C s e ∧ Meets step C (step s e) events

instance decidableMeets {C : σ → ε → Prop} [∀ s e, Decidable (C s e)] : ∀ s events, Decidable (Meets step C s events)
  | _, [] => .isTrue trivial
  | s, e :: events =>
    have : Decidable (Meets step C (step s e) events) := decidableMeets (step s e) events
    inferInstanceAs (Decidable (C s e ∧ Meets step C (step s e) events))

theorem mem_concat {a b : α} {l : List α} : a ∈ l ++ [b] ↔ a ∈ l ∨ a = b := by
  rw [List.mem_append, List.mem_singleton]

@[simp] theorem run_nil (s : σ) : run step s [] = s := rfl

@[simp] theorem run_cons (s : σ) (e : ε) (events : List ε) :
    run step s (e :: events) = run step (step s e) events := rfl

variable {P : σ → Prop}

theorem Always.run : ∀ {events : List ε} {s : σ}, Always step P s events → P (run step s events)
  | [], _, h => h
  | _ :: _, _, h => h.2.run

theorem Always.mono {Q : σ → Prop} (h : ∀ s, P s → Q s) : ∀ {events : List ε} {s : σ},
    Always step P s events → Always step Q s events
  | [], s, hs => h s hs
  | _ :: _, s, hs => ⟨h s hs.1, hs.2.mono h⟩

/-- What only ever comes to hold through events holds in the end if it did at the start or one of the events is such. -/
theorem run_iff_exists {Q : ε → Prop} (hstep : ∀ s e, P (step s e) ↔ P s ∨ Q e) :
    ∀ (events : List ε) (s : σ), P (run step s events) ↔ P s ∨ ∃ e ∈ events, Q e
  | [], s => by simp
  | e :: events, s => by
    rw [run_cons, run_iff_exists hstep events, hstep, List.exists_mem_cons_iff, or_assoc]

theorem exists_lost : ∀ (events : List ε) {s : σ}, P s → ¬ P (run step s events) →
    ∃ before e after, events = before ++ e :: after ∧ P (run step s before) ∧ ¬ P (step (run step s before) e)
  | [], _, hs, hlost => absurd hs hlost
  | e :: events, s, hs, hlost => by
    by_cases hnext : P (step s e)
    · obtain ⟨before, e', after, rfl, hbefore, hafter⟩ := exists_lost events hnext hlost
      exact ⟨e :: before, e', after, rfl, hbefore, hafter⟩
    · exact ⟨[], e, events, rfl, hs, hnext⟩

variable {C : σ → ε → Prop}

theorem always_of_meets (hstep : ∀ s e, P s → C s e → P (step s e)) :
    ∀ {events : List ε} {s : σ}, P s → Meets step C s events → Always step P s events
  | [], _, hs, _ => hs
  | e :: _, s, hs, h => ⟨hs, always_of_meets hstep (hstep s e hs h.1) h.2⟩

theorem always_of_inv (hstep : ∀ s e, P s → P (step s e)) : ∀ (events : List ε) {s : σ}, P s → Always step P s events
  | [], _, hs => hs
  | e :: events, s, hs => ⟨hs, always_of_inv hstep events (hstep s e hs)⟩

theorem meets_of_meets {D : σ → ε → Prop} (hstep : ∀ s e, P s → C s e → P (step s e))
    (hD : ∀ s e, P s → C s e → D s e) : ∀ {events : List ε} {s : σ}, P s → Meets step C s events → Meets step D s events
  | [], _, _, _ => trivial
  | e :: _, s, hs, h => ⟨hD s e hs h.1, meets_of_meets hstep hD (hstep s e hs h.1) h.2⟩

theorem Always.head : ∀ {events : List ε} {s : σ}, Always step P s events → P s
  | [], _, h => h
  | _ :: _, _, h => h.1

/-- **Where a step that keeps the property met the condition, the property holds throughout exactly if every step meets
it.** The invariant is what the condition keeps. -/
theorem always_iff_meets_of_inv {I : σ → Prop} (hstep : ∀ s e, I s → C s e → I (step s e))
    (hP : ∀ s, I s → P s) (hC : ∀ s e, I s → P (step s e) → C s e) :
    ∀ {events : List ε} {s : σ}, I s → (Always step P s events ↔ Meets step C s events)
  | [], s, hs => ⟨fun _ => trivial, fun _ => hP s hs⟩
  | e :: events, s, hs => by
    constructor
    · intro h
      have hc := hC s e hs h.2.head
      exact ⟨hc, (always_iff_meets_of_inv hstep hP hC (hstep s e hs hc)).1 h.2⟩
    · intro h
      exact ⟨hP s hs, (always_iff_meets_of_inv hstep hP hC (hstep s e hs h.1)).2 h.2⟩

/-- **The same for a property of the states together with one of the steps.** -/
theorem always_and_meets_iff_of_inv {I : σ → Prop} {D : σ → ε → Prop} (hstep : ∀ s e, I s → C s e → I (step s e))
    (hP : ∀ s, I s → P s) (hD : ∀ s e, I s → C s e → D s e) (hC : ∀ s e, I s → P (step s e) → D s e → C s e) :
    ∀ {events : List ε} {s : σ}, I s → (Always step P s events ∧ Meets step D s events ↔ Meets step C s events)
  | [], s, hs => ⟨fun _ => trivial, fun _ => ⟨hP s hs, trivial⟩⟩
  | e :: events, s, hs => by
    constructor
    · intro h
      have hc := hC s e hs h.1.2.head h.2.1
      exact ⟨hc, (always_and_meets_iff_of_inv hstep hP hD hC (hstep s e hs hc)).1 ⟨h.1.2, h.2.2⟩⟩
    · intro h
      obtain ⟨halways, hmeets⟩ := (always_and_meets_iff_of_inv hstep hP hD hC (hstep s e hs h.1)).2 h.2
      exact ⟨⟨hP s hs, halways⟩, hD s e hs h.1, hmeets⟩

/-- **A measure that no step raises** is the same at the end exactly if every step meets the condition under which it
stays. -/
theorem measure_eq_iff_meets {M : Type} [PartialOrder M] {f : σ → M} {I : σ → Prop} {G : σ → ε → Prop}
    (hstep : ∀ s e, I s → G s e → I (step s e)) (hle : ∀ s e, I s → G s e → f (step s e) ≤ f s)
    (hiff : ∀ s e, I s → G s e → (f (step s e) = f s ↔ C s e)) : ∀ {events : List ε} {s : σ},
      I s → Meets step G s events →
    f (Runs.run step s events) ≤ f s ∧ (f (Runs.run step s events) = f s ↔ Meets step C s events)
  | [], s, _, _ => ⟨le_refl _, fun _ => trivial, fun _ => rfl⟩
  | e :: events, s, hs, h => by
    obtain ⟨hrest, heq⟩ := measure_eq_iff_meets hstep hle hiff (hstep s e hs h.1) h.2
    have hfirst := hle s e hs h.1
    rw [run_cons]
    refine ⟨le_trans hrest hfirst, fun hsame => ?_, fun hmeets => ?_⟩
    · have hstay : f (step s e) = f s := le_antisymm hfirst (by rw [← hsame]; exact hrest)
      exact ⟨(hiff s e hs h.1).1 hstay, heq.1 (by rw [hsame, hstay])⟩
    · rw [heq.2 hmeets.2, (hiff s e hs h.1).2 hmeets.1]

end Runs
