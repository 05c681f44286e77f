import Mathlib.Data.List.Basic
/-!
# Fallible — traversals of a list that may fail

`List.mapM` and `List.foldlM` in `Option` and `Except`: a traversal depends on the elements only, fails where an element
fails, and a fold that succeeds keeps what each of its steps keeps.
-/
namespace Fallible

open List

variable {α β : Type}

@[simp] theorem ok_bind {ε : Type} (a : α) (f : α → Except ε β) : ((Except.ok a : Except ε α) >>= f) = f a := rfl

theorem mapM_congr {f g : α → Option β} : ∀ {l : List α}, (∀ a ∈ l, f a = g a) → l.mapM f = l.mapM g
  | [], _ => rfl
  | a :: l, h => by rw [mapM_cons, mapM_cons, h a (by simp), mapM_congr (fun b hb => h b (by simp [hb]))]

theorem mapM_eq_none_iff {f : α → Option β} : ∀ {l : List α}, l.mapM f = none ↔ ∃ a ∈ l, f a = none
  | [] => by simp
  | a :: l => by
    rw [mapM_cons]
    cases ha : f a with
    | none => simp [ha]
    | some b =>
      have hl := mapM_eq_none_iff (f := f) (l := l)
      cases hm : l.mapM f with
      | none =>
        obtain ⟨x, hx, hfx⟩ := hl.1 hm
        simp only [Option.bind_eq_bind, Option.bind_some, Option.bind_none, true_iff]
        exact ⟨x, by simp [hx], hfx⟩
      | some bs =>
        simp only [Option.bind_eq_bind, Option.bind_some, Option.pure_def, reduceCtorEq, false_iff]
        rintro ⟨x, hx, hfx⟩
        rcases mem_cons.1 hx with rfl | hx
        · rw [ha] at hfx; cases hfx
        · rw [hl.2 ⟨x, hx, hfx⟩] at hm; cases hm

theorem mem_mapM_iff {f : α → Option β} {b : β} : ∀ {l : List α} {bs : List β}, l.mapM f = some bs →
    (b ∈ bs ↔ ∃ a ∈ l, f a = some b)
  | [], bs, h => by
    cases h
    simp
  | a :: l, bs, h => by
    rw [mapM_cons] at h
    obtain ⟨b₀, h₀, h⟩ := Option.bind_eq_some_iff.1 h
    obtain ⟨bs₀, hs, h⟩ := Option.bind_eq_some_iff.1 h
    cases h
    simp only [mem_cons, mem_mapM_iff hs, exists_eq_or_imp, h₀, Option.some.injEq, @eq_comm _ b b₀]

theorem mapM_ok {ε : Type} {f : α → Except ε β} : ∀ {l : List α} {bs : List β}, l.mapM f = .ok bs →
    (∀ a ∈ l, ∃ b ∈ bs, f a = .ok b) ∧ ∀ b ∈ bs, ∃ a ∈ l, f a = .ok b
  | [], bs, h => by
    cases h
    simp
  | a :: l, bs, h => by
    rw [mapM_cons] at h
    cases ha : f a with
    | error e =>
      rw [ha] at h
      cases h
    | ok b =>
      rw [ha] at h
      cases hl : l.mapM f with
      | error e =>
        have herror : (Except.error e : Except ε (List β)) = .ok bs := by
          rw [← h, hl]
          rfl
        cases herror
      | ok rest =>
        have hbs : (Except.ok (b :: rest) : Except ε (List β)) = .ok bs := by
          rw [← h, hl]
          rfl
        cases hbs
        obtain ⟨hto, hfrom⟩ := mapM_ok hl
        constructor
        · intro x hx
          rcases mem_cons.1 hx with rfl | hx
          · exact ⟨b, mem_cons_self, ha⟩
          · obtain ⟨y, hy, hfx⟩ := hto x hx
            exact ⟨y, mem_cons_of_mem _ hy, hfx⟩
        · intro y hy
          rcases mem_cons.1 hy with rfl | hy
          · exact ⟨a, mem_cons_self, ha⟩
          · obtain ⟨x, hx, hfx⟩ := hfrom y hy
            exact ⟨x, mem_cons_of_mem _ hx, hfx⟩

theorem mapM_eq_error {ε : Type} {f : α → Except ε β} {a : α} {e : ε} (ha : f a = .error e) (post : List α) :
    ∀ {pre : List α}, (∀ x ∈ pre, ∃ b, f x = .ok b) → (pre ++ a :: post).mapM f = .error e
  | [], _ => by
    rw [nil_append, mapM_cons, ha]
    rfl
  | x :: pre, h => by
    obtain ⟨b, hb⟩ := h x mem_cons_self
    rw [cons_append, mapM_cons, hb, ok_bind, mapM_eq_error ha post fun y hy => h y (mem_cons_of_mem _ hy)]
    rfl

theorem mapM_cases {ε : Type} {f : α → Except ε β} : ∀ l : List α, (∃ bs, l.mapM f = .ok bs) ∨
    ∃ pre a post e, l = pre ++ a :: post ∧ (∀ x ∈ pre, ∃ b, f x = .ok b) ∧ f a = .error e
  | [] => .inl ⟨[], rfl⟩
  | a :: l => by
    cases ha : f a with
    | error e => exact .inr ⟨[], a, l, e, rfl, fun _ hx => absurd hx not_mem_nil, ha⟩
    | ok b =>
      rcases mapM_cases l with ⟨bs, hbs⟩ | ⟨pre, x, post, e, rfl, hpre, hx⟩
      · left
        refine ⟨b :: bs, ?_⟩
        rw [mapM_cons, ha, ok_bind, hbs]
        rfl
      · right
        refine ⟨a :: pre, x, post, e, rfl, ?_, hx⟩
        intro y hy
        rcases mem_cons.1 hy with rfl | hy
        · exact ⟨b, ha⟩
        · exact hpre y hy

theorem foldlM_ne_none {f : β → α → Option β} : ∀ {l : List α} (acc : β), (∀ acc, ∀ a ∈ l, f acc a ≠ none) →
    l.foldlM f acc ≠ none
  | [], acc, _ => by simp
  | a :: l, acc, h => by
    obtain ⟨acc', ha⟩ := Option.ne_none_iff_exists'.1 (h acc a (by simp))
    rw [foldlM_cons, ha]
    exact foldlM_ne_none acc' (fun acc b hb => h acc b (mem_cons_of_mem _ hb))

/-- **The rule for a fold that succeeds**: what holds at the start, with nothing done, and is kept with every element
done holds at the end, with all of them done. -/
theorem foldlM_rec {f : β → α → Option β} {P : List α → β → Prop}
    (hstep : ∀ done a acc acc', P done acc → f acc a = some acc' → P (done ++ [a]) acc') :
    ∀ (l done : List α) (acc res : β), P done acc → l.foldlM f acc = some res → P (done ++ l) res
  | [], done, acc, res, h0, h => by
    cases h
    rwa [append_nil]
  | a :: l, done, acc, res, h0, h => by
    rw [foldlM_cons] at h
    obtain ⟨acc', h', hrest⟩ := Option.bind_eq_some_iff.1 h
    have := foldlM_rec hstep l (done ++ [a]) acc' res (hstep done a acc acc' h0 h') hrest
    rwa [append_assoc] at this

end Fallible
