import Mathlib.Logic.Basic
/-!
# Programs — commands with exceptions, and what holds where they end

A command changes a state and ends normally or with an exception; an exception does not undo what was changed.  `wp` has
two postconditions, one for either end, and a rule for every way to put commands together: sequence, choice, loop, `try`
and `finally`.
-/
namespace Programs

variable {σ ε α : Type}

/-- A command; it ends with an exception or, with none, normally. -/
abbrev Prog (σ ε : Type) := σ → Option ε × σ

def skip (s : σ) : Option ε × σ := (none, s)

def raise (e : ε) (s : σ) : Option ε × σ := (some e, s)

def update (f : σ → σ) (s : σ) : Option ε × σ := (none, f s)

def seq (x y : Prog σ ε) (s : σ) : Option ε × σ :=
  match x s with
  | (none, s) => y s
  | (some e, s) => (some e, s)

def cond (test : σ → Bool) (x y : Prog σ ε) (s : σ) : Option ε × σ := if test s then x s else y s

def forEach (x : α → Prog σ ε) : List α → Prog σ ε
  | [] => skip
  | a :: l => seq (x a) (forEach x l)

def tryCatch (x : Prog σ ε) (handler : ε → Prog σ ε) (s : σ) : Option ε × σ :=
  match x s with
  | (none, s) => (none, s)
  | (some e, s) => handler e s

/-- The second command is run however the first ends; an exception of the second replaces one of the first. -/
def tryFinally (x y : Prog σ ε) (s : σ) : Option ε × σ :=
  match y (x s).2 with
  | (none, s') => ((x s).1, s')
  | (some e, s') => (some e, s')

/-- From this state the command ends normally with `Q`, or with an exception with `E`. -/
def wp (x : Prog σ ε) (Q : σ → Prop) (E : ε → σ → Prop) (s : σ) : Prop :=
  match x s with
  | (none, s') => Q s'
  | (some e, s') => E e s'

variable {x y : Prog σ ε} {Q Q' : σ → Prop} {E E' : ε → σ → Prop} {s : σ}

theorem wp.mono (h : wp x Q E s) (hQ : ∀ s, Q s → Q' s) (hE : ∀ e s, E e s → E' e s) : wp x Q' E' s := by
  unfold wp at h ⊢
  split at h
  · exact hQ _ h
  · exact hE _ _ h

theorem wp.final {P : σ → Prop} (h : wp x P (fun _ => P) s) : P (x s).2 := by
  unfold wp at h
  split at h <;> rename_i heq <;> rw [heq] <;> exact h

theorem wp.normally (h : wp x Q E s) : wp x (fun s' => (x s).1 = none ∧ Q s') E s := by
  unfold wp at h ⊢
  generalize x s = result at h ⊢
  obtain ⟨r, s'⟩ := result
  cases r with
  | none => exact ⟨rfl, h⟩
  | some e => exact h

theorem wp_update {f : σ → σ} (h : Q (f s)) : wp (update f) Q E s := h

theorem wp_seq (h : wp x (wp y Q E) E s) : wp (seq x y) Q E s := by
  unfold wp at h
  unfold wp seq
  split at h <;> exact h

theorem wp_cond {test : σ → Bool} (htrue : test s = true → wp x Q E s) (hfalse : test s = false → wp y Q E s) :
    wp (cond test x y) Q E s := by
  unfold wp at htrue hfalse
  unfold wp cond
  cases htest : test s with
  | true => exact htrue htest
  | false => exact hfalse htest

theorem wp_tryCatch {handler : ε → Prog σ ε} (h : wp x Q (fun e => wp (handler e) Q E) s) :
    wp (tryCatch x handler) Q E s := by
  unfold wp at h
  unfold wp tryCatch
  split at h <;> exact h

theorem wp_tryFinally (h : wp x (wp y Q E) (fun e => wp y (E e) E) s) : wp (tryFinally x y) Q E s := by
  unfold wp at h
  unfold wp tryFinally
  split at h <;> rename_i heq <;> rw [heq] <;> split at h <;> rename_i heq' <;> simp only [heq'] <;> exact h

/-- **A loop.**  The invariant speaks of the items that are done, and holds for one more after every run of the body. -/
theorem wp_forEach {I : List α → σ → Prop} {body : α → Prog σ ε} : ∀ {l before : List α} {s : σ},
    (∀ pre a post, before ++ l = pre ++ a :: post → ∀ s, I pre s → wp (body a) (I (pre ++ [a])) E s) → I before s →
    wp (forEach body l) (I (before ++ l)) E s
  | [], before, s, _, hs => by
    rw [List.append_nil]
    exact hs
  | a :: l, before, s, hbody, hs => by
    have happend : before ++ a :: l = (before ++ [a]) ++ l := by
      rw [List.append_assoc, List.singleton_append]
    refine wp_seq ((hbody before a l rfl s hs).mono ?_ (fun _ _ h => h))
    intro s' hs'
    rw [happend] at hbody ⊢
    exact wp_forEach hbody hs'

/-- The command keeps the property, however it ends. -/
def Keeps (P : σ → Prop) (x : Prog σ ε) : Prop := ∀ s, P s → wp x P (fun _ => P) s

variable {P : σ → Prop}

theorem keeps_skip : Keeps P (skip : Prog σ ε) := fun _ h => h

theorem keeps_raise (e : ε) : Keeps P (raise e) := fun _ h => h

theorem Keeps.seq (hx : Keeps P x) (hy : Keeps P y) : Keeps P (seq x y) :=
  fun s hs => wp_seq ((hx s hs).mono hy (fun _ _ h => h))

theorem Keeps.cond (test : σ → Bool) (hx : Keeps P x) (hy : Keeps P y) : Keeps P (cond test x y) :=
  fun s hs => wp_cond (fun _ => hx s hs) (fun _ => hy s hs)

theorem Keeps.tryCatch {handler : ε → Prog σ ε} (hx : Keeps P x) (hhandler : ∀ e, Keeps P (handler e)) :
    Keeps P (tryCatch x handler) :=
  fun s hs => wp_tryCatch ((hx s hs).mono (fun _ h => h) (fun e s h => hhandler e s h))

theorem Keeps.tryFinally (hx : Keeps P x) (hy : Keeps P y) : Keeps P (tryFinally x y) :=
  fun s hs => wp_tryFinally ((hx s hs).mono hy (fun _ => hy))

theorem Keeps.forEach {body : α → Prog σ ε} (hbody : ∀ a, Keeps P (body a)) (l : List α) : Keeps P (forEach body l) :=
  fun _ hs => @wp_forEach _ _ _ _ (fun _ => P) body l [] _ (fun _ a _ _ => hbody a) hs

theorem wp.of_normal (h : wp x Q E s) (hx : (x s).1 = none) : Q (x s).2 := by
  unfold wp at h
  split at h <;> rename_i heq <;> rw [heq] at hx ⊢
  · exact h
  · cases hx

theorem seq_unchanged (hx : (x s).2 = s) (hy : (y s).2 = s) : (seq x y s).2 = s := by
  unfold seq
  split <;> rename_i heq <;> rw [heq] at hx <;> obtain rfl := hx
  · exact hy
  · rfl

theorem forEach_unchanged {body : α → Prog σ ε} : ∀ {l : List α}, (∀ a ∈ l, (body a s).2 = s) → (forEach body l s).2 = s
  | [], _ => rfl
  | _ :: _, h => seq_unchanged (h _ List.mem_cons_self) (forEach_unchanged fun b hb => h b (List.mem_cons_of_mem _ hb))

/-! ## A state that is a function of what has been done -/

section

variable {β : Type} (f : List β → σ) (E : ε → σ → Prop)

/-- The command does the items `new`, after any that do not stand in their way. -/
def Advances (ok : List β → Prop) (x : Prog σ ε) (new : List β) : Prop :=
  ∀ done, ok (done ++ new) → wp x (fun s => s = f (done ++ new)) E (f done)

variable {f E} {ok : List β → Prop}

theorem advances_skip : Advances f E ok skip [] := by
  intro done _
  change f done = f (done ++ [])
  rw [List.append_nil]

theorem advances_raise {e : ε} {new : List β} (h : ∀ s, E e s) : Advances f E ok (raise e) new := fun _ _ => h _

theorem Advances.seq (hok : ∀ l l', ok (l ++ l') → ok l) {new new' : List β} (hx : Advances f E ok x new)
    (hy : Advances f E ok y new') : Advances f E ok (seq x y) (new ++ new') := by
  intro done hdone
  rw [← List.append_assoc] at hdone ⊢
  refine wp_seq ((hx done (hok _ _ hdone)).mono ?_ (fun _ _ h => h))
  intro s hs
  rw [hs]
  exact hy _ hdone

/-- **A loop does what its turns do, one after the other.** -/
theorem Advances.forEach (hok : ∀ l l', ok (l ++ l') → ok l) {body : α → Prog σ ε} {new : α → List β} : ∀ {l : List α},
    (∀ a ∈ l, Advances f E ok (body a) (new a)) → Advances f E ok (forEach body l) (l.flatMap new)
  | [], _ => advances_skip
  | _ :: _, h =>
    (h _ List.mem_cons_self).seq hok (Advances.forEach hok fun b hb => h b (List.mem_cons_of_mem _ hb))

end

end Programs
