import Photon.Aggregator
/-!
# AggregatorTruth — the aggregators report the true outcome

Of all that is on its way one operation leads on, and the rest are the failures of children that could not be started.
The counts in the document and on their way may be old, but children only ever come to be counted, so a count is never
more than the truth.  That is enough: where the counts add up to the number of children, every child is counted, and
none of them twice.
-/
namespace Photon.Housekeeper.Aggregator

open List
open Outstanding (countP_eraseIdx)
open Runs (run Always Meets)
open Xenon (TaskStage)
open Option (none_or some some_or)

/-! ## The counts -/

def AllFinished (children : List Child) : Prop := ∀ child ∈ children, child = .finished

def AllTerminal (children : List Child) : Prop := ∀ child ∈ children, child.terminal = true

def EndedBadly (children : List Child) : Prop := AllTerminal children ∧ ∃ child ∈ children, child ≠ .finished

theorem terminal_false_of_mayBecome {child next : Child} (h : child.mayBecome next = true) :
    child.terminal = false := by
  cases child <;> cases next <;> first | rfl | cases h

variable {children : List Child}

theorem of_le_of_set {i : Nat} {child next : Child} (hi : children[i]? = some child)
    (h : child.mayBecome next = true) (count : Count) : count.of children ≤ count.of (children.set i next) := by
  obtain ⟨hlt, hget⟩ := List.getElem?_eq_some_iff.1 hi
  have hnot : count.counts child = false := by
    cases count <;> cases child <;> cases next <;> first | rfl | cases h
  rw [Count.of, Count.of, countP_set hlt, hget, hnot, if_neg Bool.false_ne_true]
  omega

theorem counted_eq_terminal (child : Child) :
    ((if Count.finished.counts child = true then 1 else 0) + if Count.failedOrCancelled.counts child =
    true then 1 else 0) =
      if child.terminal = true then 1 else 0 := by
  cases child <;> rfl

theorem of_add_of : ∀ children : List Child,
    Count.finished.of children + Count.failedOrCancelled.of children = children.countP Child.terminal
  | [] => rfl
  | child :: children => by
    have ih := of_add_of children
    have hchild := counted_eq_terminal child
    simp only [Count.of, countP_cons] at ih ⊢
    omega

theorem allFinished_of_count (h : children.length ≤ Count.finished.of children) : AllFinished children := by
  have heq : children.countP Count.finished.counts = children.length :=
    Nat.le_antisymm countP_le_length h
  intro child hmem
  simpa [Count.counts] using countP_eq_length.1 heq child hmem

/-! ## What is known -/

theorem get_set (state : State) (n : Nat) (count c : Count) :
    (state.set n count).get c = if c = count then some n else state.get c := by
  cases count <;> cases c <;> rfl

theorem get_applyPatch (current patch : State) (count : Count) :
    (applyPatch current patch).get count = (patch.get count).or (current.get count) := by
  cases count <;> rfl

def NoCounts (state : State) : Prop := ∀ count, state.get count = none

def Bounded (state : State) (children : List Child) : Prop :=
    ∀ count n, state.get count = some n → n ≤ count.of children

def Counting (doc : State) (children : List Child) : Prop := doc.total = some children.length

def Complete (doc : State) : Prop :=
  ∃ f, doc.finished = some f ∧ (doc.total = some f ∨ ∃ g, doc.failedOrCancelled = some g ∧ doc.total = some (f + g))

def Awaits (doc : State) : Prop := doc.stage = .started ∧ doc.subStage = some .awaitCompletion

structure Early (doc : State) (children : List Child) : Prop where
  children : children = []
  counts : NoCounts doc
  stage : doc.stage ≠ .finished
  subStage : doc.subStage ≠ some .awaitCompletion

def Continues (service : Service) (doc patch : State) : Prop :=
  (service = .imageSeeder ∧ (NoCounts patch ∨ ∀ count, (patch.get count).isSome = true)) ∨
  (service ≠ .imageSeeder ∧ ∃ count, (patch.get count).isSome = true ∧ ∀ c, c ≠ count → patch.get c = none) ∨
  (service ≠ .imageSeeder ∧ NoCounts patch ∧ (NoCounts doc ∨ patch.total = none ∧ Complete doc))

def Plain (patch : State) : Prop := patch.subStage = none ∧ NoCounts patch

def PatchSound (service : Service) (doc : State) (children : List Child) (patch : State) : Prop :=
  match patch.stage with
  | .created => False
  | .started =>
    if patch.subStage = some .awaitCompletion then
      (patch.total = some children.length ∨ patch.total = none ∧ Counting doc children) ∧ Bounded patch children ∧
        Continues service doc patch
    else Early doc children ∧ NoCounts patch
  | .finished => Plain patch ∧ AllFinished children
  | .failed => Plain patch ∧ (patch.failure = some .childPost → .rejected ∈ children) ∧
      ∀ f g, patch.failure = some (.counts f g) → EndedBadly children
  | .cancelled => Plain patch

def Asks (service : Service) (ask : List Count) : Prop :=
  if service = .imageSeeder then ask = [.finished, .failedOrCancelled] else ∃ count, ask = [count]

structure QuerySound (service : Service) (children : List Child) (ask : List Count) (patch : State)
    (failed : Bool) : Prop where
  stage : patch.stage = .started
  subStage : patch.subStage = some .awaitCompletion
  total : patch.total = none
  bounded : Bounded patch children
  nodup : ask.Nodup
  answered : service = .imageSeeder → ∀ count, count ∈ ask ∨ (patch.get count).isSome = true ∨ failed = true
  single : service ≠ .imageSeeder → (∃ count, ask = [count]) ∧ NoCounts patch

def Sound (service : Service) (doc : State) (children : List Child) : Op → Prop
  | .prepare | .datastores => Early doc children
  | .timer ask => Counting doc children ∧ Asks service ask
  | .query ask patch failed => Counting doc children ∧ QuerySound service children ask patch failed
  | .patch patch => PatchSound service doc children patch

/-- What leads on; the failure of a child to start does not. -/
def Op.leadsOn (op : Op) : Bool := op != failTask .childPost

structure DocSound (doc : State) (children : List Child) : Prop where
  stage : doc.stage ≠ .created
  subStage : doc.stage ≠ .started → doc.subStage = none
  bounded : Bounded doc children
  early : doc.stage = .started → doc.subStage ≠ some .awaitCompletion → NoCounts doc
  counting : Awaits doc → Counting doc children
  finished : doc.stage = .finished → AllFinished children
  failed : doc.stage = .failed → ∀ f g, doc.failure = some (.counts f g) → EndedBadly children

/-- **The invariant.**  One operation leads on, at most, and one does where the service waits. -/
structure Inv (config : Config) (s : System) : Prop where
  doc : DocSound s.doc s.children
  sound : ∀ op ∈ s.pending, Sound config.service s.doc s.children op
  one : s.pending.countP Op.leadsOn ≤ 1
  awaits : Awaits s.doc → s.pending.countP Op.leadsOn = 1
  disabled : config.isSelfProgressionDisabled = true → s.pending = [] ∧ s.children = [] ∧ ¬ Awaits s.doc

/-- A restart comes before the children are started or after `AWAIT_COMPLETION` has been stored; and to the replicator,
not where it waits with counts that are known and do not decide the outcome. -/
structure Restartable (config : Config) (s : System) : Prop where
  early : s.doc.stage = .started → s.doc.subStage ≠ some .awaitCompletion → s.children = []
  counts : config.service = .imageReplicator → Awaits s.doc → NoCounts s.doc ∨ Complete s.doc

def Allowed (config : Config) (s : System) : Event → Prop
  | .restart => Restartable config s
  | _ => True

/-! ## Polls -/

def Follows (service : Service) (doc : State) (children : List Child) (ops : List Op) : Prop :=
  ∃ op, ops = [op] ∧ op.leadsOn = true ∧ Sound service doc children op

variable {doc : State} {service : Service}

theorem Follows.sound {ops : List Op} (h : Follows service doc children ops) :
    ∀ op ∈ ops, Sound service doc children op := by
  obtain ⟨op, rfl, -, hsound⟩ := h
  exact fun _ hop => mem_singleton.1 hop ▸ hsound

theorem Follows.count {ops : List Op} (h : Follows service doc children ops) : ops.countP Op.leadsOn = 1 := by
  obtain ⟨op, rfl, hlead, -⟩ := h
  rw [countP_cons, hlead]
  rfl

theorem noCounts_buildPatch (stage : TaskStage) (subStage : Option SubStage) (failure : Option Failure) :
    NoCounts (buildPatch stage subStage failure) := fun count => by cases count <;> rfl

theorem bounded_of_noCounts {state : State} (h : NoCounts state) : Bounded state children := by
  intro count n hn
  rw [h count] at hn
  cases hn

theorem complete_congr {doc' : State} (hcounts : ∀ count, doc'.get count = doc.get count)
    (htotal : doc'.total = doc.total) (h : Complete doc) : Complete doc' := by
  obtain ⟨f, hf, h⟩ := h
  refine ⟨f, (hcounts .finished).trans hf, ?_⟩
  rw [htotal]
  rcases h with h | ⟨g, hg, h⟩
  · exact .inl h
  · exact .inr ⟨g, (hcounts .failedOrCancelled).trans hg, h⟩

def Count.other : Count → Count
  | .finished => .failedOrCancelled
  | .failedOrCancelled => .finished

theorem Count.other_ne (count : Count) : count.other ≠ count := by
  cases count <;> decide

theorem Count.eq_other {c count : Count} (h : c ≠ count) : c = count.other := by
  cases c <;> cases count <;> first | rfl | exact absurd rfl h

variable {patch : State}

theorem nextPoll_of_count {count : Count} (hservice : service ≠ .imageSeeder)
    (hcount : (patch.get count).isSome = true) (hother : patch.get count.other = none) :
    nextPoll service (applyPatch doc patch) patch = [.timer [count.other]] := by
  obtain ⟨n, hn⟩ := Option.isSome_iff_exists.1 hcount
  cases count with
  | finished =>
    have hfinished : patch.finished = some n := hn
    have hfailed : patch.failedOrCancelled = none := hother
    cases service <;> first | exact absurd rfl hservice | simp [nextPoll, hfinished, hfailed, Count.other]
  | failedOrCancelled =>
    have hfailed : patch.failedOrCancelled = some n := hn
    have hfinished : patch.finished = none := hother
    cases service <;> first | exact absurd rfl hservice | simp [nextPoll, applyPatch, hfinished, hfailed, Count.other]

theorem nextPoll_eq (h : Continues service doc patch) (hnot : ¬ Complete (applyPatch doc patch)) :
    ∃ ask, nextPoll service (applyPatch doc patch) patch = [.timer ask] ∧ Asks service ask := by
  rcases h with ⟨rfl, -⟩ | ⟨hservice, count, hcount, hother⟩ | ⟨hservice, hnone, hdoc⟩
  · exact ⟨_, rfl, by rw [Asks, if_pos rfl]⟩
  · refine ⟨_, nextPoll_of_count hservice hcount (hother _ count.other_ne), ?_⟩
    rw [Asks, if_neg hservice]
    exact ⟨_, rfl⟩
  · have hfinished : patch.finished = none := hnone .finished
    have hfailed : patch.failedOrCancelled = none := hnone .failedOrCancelled
    rcases hdoc with hdoc | ⟨htotal, hcomplete⟩
    · have hdocFinished : doc.finished = none := hdoc .finished
      have hdocFailed : doc.failedOrCancelled = none := hdoc .failedOrCancelled
      refine ⟨[.failedOrCancelled], ?_, by rw [Asks, if_neg hservice]; exact ⟨_, rfl⟩⟩
      cases service <;>
        first | exact absurd rfl hservice | simp [nextPoll, applyPatch, hfinished, hfailed, hdocFinished, hdocFailed]
    · refine absurd (complete_congr (fun count => ?_) ?_ hcomplete) hnot
      · rw [get_applyPatch, hnone count, none_or]
      · rw [applyPatch, htotal, none_or]

theorem processAwaitCompletion_of_complete (service : Service) (patch : State) (h : Complete doc) :
      ∃ f, doc.finished = some f ∧
      (doc.total = some f ∧ processAwaitCompletion service doc patch = [.patch (buildPatch .finished none none)] ∨
      ∃ g, doc.failedOrCancelled = some g ∧ doc.total = some (f + g) ∧ g ≠ 0 ∧
        processAwaitCompletion service doc patch = [failTask (.counts f g)]) := by
  obtain ⟨f, hf, h⟩ := h
  refine ⟨f, hf, ?_⟩
  rcases h with htotal | ⟨g, hg, htotal⟩
  · exact .inl ⟨htotal, by simp [processAwaitCompletion, hf, htotal]⟩
  · by_cases hzero : g = 0
    · subst hzero
      exact .inl ⟨htotal, by simp [processAwaitCompletion, hf, htotal]⟩
    · exact .inr ⟨g, hg, htotal, hzero, by simp [processAwaitCompletion, hf, hg, htotal, hzero]⟩

theorem processAwaitCompletion_of_not {n : Nat} (htotal : doc.total = some n)
    (h : ¬ Complete doc) : processAwaitCompletion service doc patch = nextPoll service doc patch := by
  rw [processAwaitCompletion]
  cases hf : doc.finished with
  | none => rfl
  | some f =>
    simp only [htotal]
    by_cases hnf : n = f
    · exact absurd ⟨f, hf, .inl (by rw [htotal, hnf])⟩ h
    · rw [if_neg hnf]
      cases hg : doc.failedOrCancelled with
      | none => rfl
      | some g =>
        by_cases hfg : n = f + g
        · exact absurd ⟨f, hf, .inr ⟨g, hg, by rw [htotal, hfg]⟩⟩ h
        · simp only [if_neg hfg]

theorem decided_sound (htotal : Counting doc children) (hbounded : Bounded doc children) (h : Complete doc) :
    Follows service doc children (processAwaitCompletion service doc patch) := by
  obtain ⟨f, hf, h⟩ := processAwaitCompletion_of_complete service patch h
  have hle := hbounded .finished f hf
  rcases h with ⟨hall, heq⟩ | ⟨g, hg, hall, hne, heq⟩
  · rw [htotal] at hall
    refine ⟨_, heq, rfl, ⟨rfl, noCounts_buildPatch _ _ _⟩, ?_⟩
    rw [← some.inj hall] at hle
    exact allFinished_of_count hle
  · rw [htotal] at hall
    have hle' := hbounded .failedOrCancelled g hg
    have hsum := some.inj hall
    refine ⟨_, heq, rfl, ⟨rfl, noCounts_buildPatch _ _ _⟩, nofun, fun _ _ _ => ⟨countP_eq_length.1
      (Nat.le_antisymm countP_le_length (by rw [← of_add_of]; omega)), ?_⟩⟩
    refine Classical.byContradiction fun hnone => ?_
    have hfinished : AllFinished children := fun c hc => Classical.byContradiction fun hc' => hnone ⟨c, hc, hc'⟩
    have hfailed : Count.failedOrCancelled.of children = 0 :=
      countP_eq_zero.2 fun child hmem => by rw [hfinished child hmem]; decide
    omega

/-! ## What a patch does -/

section

variable {service : Service} {doc patch : State} {children : List Child}

theorem handlePatch_final (h : doc.stage ≠ .started) (hcreated : doc.stage ≠ .created) :
    handlePatch service doc patch = (doc, []) := by
  have hinvalid : validatePatch doc patch = false := by
    obtain ⟨stage, _, _, _, _, _⟩ := doc
    cases stage <;> first | rfl | exact absurd rfl h | exact absurd rfl hcreated
  rw [handlePatch, hinvalid]
  rfl

theorem validatePatch_started (h : doc.stage = .started) (hstage : patch.stage ≠ .created) :
    validatePatch doc patch = !movesBack doc.subStage patch.subStage := by
  have hmove : doc.stage.mayMove patch.stage = true := by
    rw [h]
    revert hstage
    cases patch.stage <;> decide
  rw [validatePatch, hmove, Bool.true_and]

theorem movesBack_none (subStage : Option SubStage) : movesBack subStage none = false := by
  cases subStage <;> rfl

theorem movesBack_awaitCompletion (subStage : Option SubStage) :
    movesBack subStage (some .awaitCompletion) = false := by
  cases subStage with
  | none => rfl
  | some subStage => cases subStage <;> rfl

theorem handlePatch_ends (hdoc : doc.stage = .started) (hstage : patch.stage.ordinal ≥ TaskStage.finished.ordinal)
    (hsub : patch.subStage = none) : handlePatch service doc patch = (applyPatch doc patch, []) := by
  have hcreated : patch.stage ≠ .created := by
    intro h
    rw [h] at hstage
    exact absurd hstage (by decide)
  have hvalid : validateState service (applyPatch doc patch) = true := by
    have hnone : (applyPatch doc patch).subStage = none := hsub
    have hfinal : (applyPatch doc patch).stage.ordinal ≥ TaskStage.finished.ordinal := hstage
    rw [validateState]
    cases hs : (applyPatch doc patch).stage <;> rw [hs] at hfinal <;>
      first | exact absurd hfinal (by decide) | (rw [hnone]; rfl)
  have hnot : (applyPatch doc patch).stage ≠ .started := by
    intro h
    have hfinal : patch.stage = .started := h
    rw [hfinal] at hstage
    exact absurd hstage (by decide)
  rw [handlePatch, validatePatch_started hdoc hcreated, hsub, movesBack_none, Bool.not_false, if_pos rfl]
  dsimp only
  rw [if_pos hvalid, if_neg hnot]

theorem handlePatch_awaits (hdoc : doc.stage = .started) (hpatch : Awaits patch)
    (htotal : (applyPatch doc patch).total.isSome = true) :
    handlePatch service doc patch =
      (applyPatch doc patch, processAwaitCompletion service (applyPatch doc patch) patch) := by
  have hcreated : patch.stage ≠ .created := by rw [hpatch.1]; decide
  have hstage : (applyPatch doc patch).stage = .started := hpatch.1
  have hsub : (applyPatch doc patch).subStage = some .awaitCompletion := hpatch.2
  have hvalid : validateState service (applyPatch doc patch) = true := by
    rw [validateState, hstage, hsub]
    dsimp only
    rw [htotal, Bool.or_true]
  rw [handlePatch, validatePatch_started hdoc hcreated, hpatch.2, movesBack_awaitCompletion, Bool.not_false, if_pos rfl]
  dsimp only
  rw [if_pos hvalid, if_pos hstage, handleStartedStage, hsub]

theorem handlePatch_early (hstage : patch.stage = .started) (hsub : patch.subStage ≠ some .awaitCompletion) :
    handlePatch service doc patch = (doc, []) ∨
      ∃ op, (op = .prepare ∨ op = .datastores) ∧ handlePatch service doc patch = (applyPatch doc patch, [op]) := by
  have hnext : (applyPatch doc patch).stage = .started := hstage
  rw [handlePatch]
  split
  · dsimp only
    split
    · rename_i hvalid
      rw [handleStartedStage]
      rw [validateState, hnext] at hvalid
      dsimp only at hvalid
      have hsame : (applyPatch doc patch).subStage = patch.subStage := rfl
      rw [hsame] at hvalid ⊢
      cases hp : patch.subStage with
      | none =>
        rw [hp] at hvalid
        cases hvalid
      | some subStage =>
        cases subStage with
        | prepare => exact .inr ⟨_, .inl rfl, rfl⟩
        | trigger => exact .inr ⟨_, .inr rfl, rfl⟩
        | awaitCompletion => exact absurd hp hsub
    · exact .inl rfl
  · exact .inl rfl

theorem bounded_applyPatch (hdoc : Bounded doc children) (hpatch : Bounded patch children) :
    Bounded (applyPatch doc patch) children := by
  intro count n hn
  rw [get_applyPatch] at hn
  cases hp : patch.get count with
  | none =>
    rw [hp, none_or] at hn
    exact hdoc count n hn
  | some m =>
    rw [hp, some_or] at hn
    rw [← some.inj hn]
    exact hpatch count m hp

theorem noCounts_applyPatch (hdoc : NoCounts doc) (hpatch : NoCounts patch) : NoCounts (applyPatch doc patch) := by
  intro count
  rw [get_applyPatch, hpatch count, hdoc count]
  rfl

theorem counting_applyPatch (h : patch.total = some children.length ∨ patch.total = none ∧ Counting doc children) :
    Counting (applyPatch doc patch) children := by
  rcases h with h | ⟨h, hdoc⟩
  · rw [Counting, applyPatch, h, some_or]
  · rw [Counting, applyPatch, h, none_or, hdoc]

structure Handled (service : Service) (children : List Child) (handled : State × List Op) : Prop where
  doc : DocSound handled.1 children
  sound : ∀ op ∈ handled.2, Sound service handled.1 children op
  one : handled.2.countP Op.leadsOn ≤ 1
  awaits : Awaits handled.1 → handled.2.countP Op.leadsOn = 1

theorem docSound_of_started (hstage : doc.stage = .started) (hbounded : Bounded doc children)
    (hearly : doc.subStage ≠ some .awaitCompletion → NoCounts doc) (hcounting : Awaits doc → Counting doc children) :
    DocSound doc children where
  stage := by rw [hstage]; decide
  subStage := fun h => absurd hstage h
  bounded := hbounded
  early := fun _ => hearly
  counting := hcounting
  finished := by rw [hstage]; nofun
  failed := by rw [hstage]; nofun

theorem handled_of_awaits (hdoc : DocSound doc children) (hstage : doc.stage = .started) (hpatch : Awaits patch)
    (htotal : patch.total = some children.length ∨ patch.total = none ∧ Counting doc children)
    (hbounded : Bounded patch children) (hcontinues : Continues service doc patch) :
    Handled service children (handlePatch service doc patch) := by
  have hcounting := counting_applyPatch htotal
  have hbounded' := bounded_applyPatch hdoc.bounded hbounded
  have hnext : Follows service (applyPatch doc patch) children
      (processAwaitCompletion service (applyPatch doc patch) patch) := by
    by_cases hcomplete : Complete (applyPatch doc patch)
    · exact decided_sound hcounting hbounded' hcomplete
    · obtain ⟨ask, heq, hask⟩ := nextPoll_eq hcontinues hcomplete
      rw [processAwaitCompletion_of_not hcounting hcomplete]
      exact ⟨_, heq, rfl, hcounting, hask⟩
  have hsome : (applyPatch doc patch).total.isSome = true := by rw [hcounting]; rfl
  rw [handlePatch_awaits hstage hpatch hsome]
  exact ⟨docSound_of_started hpatch.1 hbounded' (fun h => absurd hpatch.2 h) (fun _ => hcounting), hnext.sound,
    Nat.le_of_eq hnext.count, fun _ => hnext.count⟩

theorem handled_of_early (hdoc : DocSound doc children) (hpatch : patch.stage = .started)
    (hsub : patch.subStage ≠ some .awaitCompletion) (hearly : Early doc children) (hnone : NoCounts patch) :
    Handled service children (handlePatch service doc patch) := by
  rcases @handlePatch_early service doc patch hpatch hsub with heq | ⟨op, hop, heq⟩
  · rw [heq]
    exact ⟨hdoc, fun _ hop => absurd hop not_mem_nil, Nat.zero_le 1, fun h => absurd h.2 hearly.subStage⟩
  · rw [heq]
    have hcounts := noCounts_applyPatch hearly.counts hnone
    have hstarted : (applyPatch doc patch).stage = .started := hpatch
    have hearly' : Early (applyPatch doc patch) children := ⟨hearly.children, hcounts, by rw [hstarted]; decide, hsub⟩
    have hnot' : ¬ Awaits (applyPatch doc patch) := fun h => hsub h.2
    have hleads : Follows service (applyPatch doc patch) children [op] := by
      rcases hop with rfl | rfl <;> exact ⟨_, rfl, rfl, hearly'⟩
    exact ⟨docSound_of_started hstarted (bounded_of_noCounts hcounts) (fun _ => hcounts) (fun h => absurd h hnot'),
      hleads.sound, Nat.le_of_eq hleads.count, fun h => absurd h hnot'⟩

theorem PatchSound.plain (hpatch : PatchSound service doc children patch)
    (hfinal : patch.stage.ordinal ≥ TaskStage.finished.ordinal) : Plain patch := by
  cases hp : patch.stage with
  | created | started =>
    rw [hp] at hfinal
    exact absurd hfinal (by decide)
  | finished | failed =>
    simp only [PatchSound, hp] at hpatch
    exact hpatch.1
  | cancelled =>
    simp only [PatchSound, hp] at hpatch
    exact hpatch

theorem handled_of_final (hdoc : DocSound doc children) (hstage : doc.stage = .started)
    (hfinal : patch.stage.ordinal ≥ TaskStage.finished.ordinal) (hpatch : PatchSound service doc children patch) :
    Handled service children (handlePatch service doc patch) := by
  obtain ⟨hsub, hnone⟩ := hpatch.plain hfinal
  rw [handlePatch_ends hstage hfinal hsub]
  have hnot : ¬ Awaits (applyPatch doc patch) := by
    intro h
    have hawaits : patch.subStage = some .awaitCompletion := h.2
    rw [hsub] at hawaits
    cases hawaits
  refine ⟨⟨?_, fun _ => hsub, bounded_applyPatch hdoc.bounded (bounded_of_noCounts hnone), ?_,
    fun h => absurd h hnot, ?_, ?_⟩, fun _ hop => absurd hop not_mem_nil, Nat.zero_le 1, fun h => absurd h hnot⟩
  all_goals
    intro h
    replace h : patch.stage = _ := h
  · rw [h] at hfinal
    exact absurd hfinal (by decide)
  · rw [h] at hfinal
    exact absurd hfinal (by decide)
  · simp only [PatchSound, h] at hpatch
    exact hpatch.2
  · simp only [PatchSound, h] at hpatch
    exact hpatch.2.2

/-- **A sound patch leaves a sound document**, and what follows it leads on. -/
theorem handled_of_sound (hdoc : DocSound doc children) (hpatch : PatchSound service doc children patch)
    (hstage : doc.stage = .started) : Handled service children (handlePatch service doc patch) := by
  cases hp : patch.stage with
  | created =>
    simp only [PatchSound, hp] at hpatch
  | started =>
    simp only [PatchSound, hp] at hpatch
    split at hpatch
    · rename_i hsub
      exact handled_of_awaits hdoc hstage ⟨hp, hsub⟩ hpatch.1 hpatch.2.1 hpatch.2.2
    · rename_i hsub
      exact handled_of_early hdoc hp hsub hpatch.1 hpatch.2
  | finished | failed | cancelled => exact handled_of_final hdoc hstage (by simp [hp, Xenon.TaskStage.ordinal]) hpatch

end

/-! ## What is on its way -/

section

variable {service : Service} {doc : State} {children : List Child} {i : Nat} {old next : Child}

theorem mem_set_of_mem {other : Child} (hi : children[i]? = some old) (hmem : other ∈ children)
    (hne : other ≠ old) : other ∈ children.set i next := by
  obtain ⟨j, hj⟩ := mem_iff_getElem?.1 hmem
  have hij : i ≠ j := by
    intro heq
    rw [heq, hj] at hi
    exact hne (some.inj hi)
  refine mem_iff_getElem?.2 ⟨j, ?_⟩
  rw [getElem?_set_ne hij, hj]

theorem not_allTerminal (hi : children[i]? = some old) (h : old.mayBecome next = true) : ¬ AllTerminal children := by
  intro hall
  have hterminal := hall old (mem_of_getElem? hi)
  rw [terminal_false_of_mayBecome h] at hterminal
  cases hterminal

theorem AllFinished.allTerminal (h : AllFinished children) : AllTerminal children := by
  intro old hmem
  rw [h old hmem]
  rfl

theorem Bounded.child {state : State} (h : Bounded state children) (hi : children[i]? = some old)
    (hnext : old.mayBecome next = true) : Bounded state (children.set i next) :=
  fun count n hn => Nat.le_trans (h count n hn) (of_le_of_set hi hnext count)

theorem Early.not_child (h : Early doc children) (hi : children[i]? = some old) : False := by
  rw [h.children] at hi
  cases hi

theorem PatchSound.child (h : PatchSound service doc children patch)
    (hi : children[i]? = some old) (hnext : old.mayBecome next = true) :
    PatchSound service doc (children.set i next) patch := by
  cases hp : patch.stage with
  | created => simp only [PatchSound, hp] at h
  | started =>
    simp only [PatchSound, hp] at h ⊢
    split at h
    · rename_i hsub
      rw [if_pos hsub, Counting, length_set]
      exact ⟨h.1, h.2.1.child hi hnext, h.2.2⟩
    · exact absurd hi fun hi => h.1.not_child hi
  | finished =>
    simp only [PatchSound, hp] at h
    exact absurd h.2.allTerminal (not_allTerminal hi hnext)
  | failed =>
    simp only [PatchSound, hp] at h ⊢
    refine ⟨h.1, fun hfailure => mem_set_of_mem hi (h.2.1 hfailure) ?_, fun f g hfailure => ?_⟩
    · intro heq
      rw [← heq] at hnext
      cases next <;> cases hnext
    · exact absurd (h.2.2 f g hfailure).1 (not_allTerminal hi hnext)
  | cancelled =>
    simp only [PatchSound, hp] at h ⊢
    exact h

theorem Sound.child {op : Op} (h : Sound service doc children op)
    (hi : children[i]? = some old) (hnext : old.mayBecome next = true) :
    Sound service doc (children.set i next) op := by
  cases op with
  | prepare | datastores => exact (Early.not_child h hi).elim
  | timer ask => exact ⟨by rw [Counting, length_set]; exact h.1, h.2⟩
  | query ask patch failed =>
    exact ⟨by rw [Counting, length_set]; exact h.1, { h.2 with bounded := h.2.bounded.child hi hnext }⟩
  | patch patch => exact PatchSound.child h hi hnext

theorem DocSound.child (h : DocSound doc children) (hi : children[i]? = some old)
    (hnext : old.mayBecome next = true) : DocSound doc (children.set i next) where
  stage := h.stage
  subStage := h.subStage
  bounded := h.bounded.child hi hnext
  early := h.early
  counting := by
    intro hawaits
    rw [Counting, length_set]
    exact h.counting hawaits
  finished := fun hstage => absurd (h.finished hstage).allTerminal (not_allTerminal hi hnext)
  failed := fun hstage f g hfailure => absurd (h.failed hstage f g hfailure).1 (not_allTerminal hi hnext)

theorem Sound.failed {op : Op} (h : Sound service doc children op) :
    Sound service (applyPatch doc (buildPatch .failed none (some .childPost))) children op := by
  have hcounts : ∀ count, (applyPatch doc (buildPatch .failed none (some .childPost))).get count = doc.get count := by
    intro count
    rw [get_applyPatch, noCounts_buildPatch, none_or]
  have hcounting : Counting doc children →
    Counting (applyPatch doc (buildPatch .failed none (some .childPost))) children :=
    fun hdoc => hdoc
  have hearly : Early doc children → Early (applyPatch doc (buildPatch .failed none (some .childPost))) children :=
    fun he => ⟨he.children, fun count => (hcounts count).trans (he.counts count), nofun, nofun⟩
  cases op with
  | prepare | datastores => exact hearly h
  | timer ask | query ask patch failed => exact ⟨hcounting h.1, h.2⟩
  | patch patch =>
    cases hp : patch.stage with
    | started =>
      simp only [Sound, PatchSound, hp] at h ⊢
      split at h
      · rename_i hsub
        rw [if_pos hsub]
        refine ⟨h.1, h.2.1, ?_⟩
        rcases h.2.2 with hseeder | hone | ⟨hservice, hnone, hdoc⟩
        · exact .inl hseeder
        · exact .inr (.inl hone)
        · refine .inr (.inr ⟨hservice, hnone, ?_⟩)
          rcases hdoc with hdoc | ⟨htotal, hcomplete⟩
          · exact .inl fun count => (hcounts count).trans (hdoc count)
          · exact .inr ⟨htotal, complete_congr hcounts rfl hcomplete⟩
      · rename_i hsub
        rw [if_neg hsub]
        exact ⟨hearly h.1, h.2⟩
    | created => simp only [Sound, PatchSound, hp] at h
    | finished | failed | cancelled =>
      simp only [Sound, PatchSound, hp] at h ⊢
      exact h

end

/-! ## The steps -/

section

variable {config : Config} {s : System} {op : Op}

theorem eq_childPost_of_not_leadsOn (h : op.leadsOn = false) : op = failTask .childPost := by
  simpa [Op.leadsOn] using h

theorem Inv.enabled (h : Inv config s) (hmem : op ∈ s.pending) : ¬ config.isSelfProgressionDisabled = true := by
  intro hdisabled
  rw [(h.disabled hdisabled).1] at hmem
  cases hmem

variable {k : Nat}

theorem Inv.eraseIdx_sound (h : Inv config s) (hk : s.pending[k]? = some op) (hlead : op.leadsOn = true) :
    (s.pending.eraseIdx k).countP Op.leadsOn = 0 ∧
      ∀ o ∈ s.pending.eraseIdx k, o = failTask .childPost ∧ .rejected ∈ s.children := by
  have hcount := countP_eraseIdx hk Op.leadsOn
  have hone := h.one
  rw [hlead, if_pos rfl] at hcount
  have hzero : (s.pending.eraseIdx k).countP Op.leadsOn = 0 := by omega
  refine ⟨hzero, fun o ho => ?_⟩
  have hnot : o.leadsOn = false := Bool.eq_false_iff.2 (countP_eq_zero.1 hzero o ho)
  have heq := eq_childPost_of_not_leadsOn hnot
  have hsound := h.sound o (mem_of_mem_eraseIdx ho)
  rw [heq] at hsound
  exact ⟨heq, hsound.2.1 rfl⟩

/-- **An operation that leads on is followed.** -/
theorem Inv.follow (h : Inv config s) (hk : s.pending[k]? = some op) (hlead : op.leadsOn = true)
    {new : List Op} (hdoc : DocSound doc children)
    (hrejected : .rejected ∈ s.children → .rejected ∈ children) (hnew : ∀ o ∈ new, Sound config.service doc children o)
    (hone : new.countP Op.leadsOn ≤ 1) (hawaits : Awaits doc → new.countP Op.leadsOn = 1) :
    Inv config ⟨doc, s.pending.eraseIdx k ++ new, children⟩ := by
  obtain ⟨hzero, hothers⟩ := h.eraseIdx_sound hk hlead
  have hcount : (s.pending.eraseIdx k ++ new).countP Op.leadsOn = new.countP Op.leadsOn := by
    rw [countP_append, hzero, Nat.zero_add]
  refine ⟨hdoc, ?_, by rw [hcount]; exact hone, fun ha => by rw [hcount]; exact hawaits ha,
    fun hd => absurd hd (h.enabled (mem_of_getElem? hk))⟩
  intro o ho
  rcases mem_append.1 ho with ho | ho
  · obtain ⟨rfl, hmem⟩ := hothers o ho
    exact ⟨⟨rfl, noCounts_buildPatch _ _ _⟩, fun _ => hrejected hmem, nofun⟩
  · exact hnew o ho

theorem Inv.followed (h : Inv config s) (hk : s.pending[k]? = some op) (hlead : op.leadsOn = true)
    {new : List Op} (hnew : Follows config.service s.doc s.children new) : Inv config (s.replace k new) :=
  h.follow hk hlead h.doc id hnew.sound (Nat.le_of_eq hnew.count) (fun _ => hnew.count)

theorem follows_failTask {failure : Failure} (hpost : failure ≠ .childPost) (hcounts : ∀ f g, failure ≠ .counts f g) :
    Follows service doc children [failTask failure] := by
  refine ⟨_, rfl, ?_, ⟨rfl, noCounts_buildPatch _ _ _⟩, fun h => absurd (some.inj h) hpost,
    fun f g h => absurd (some.inj h) (hcounts f g)⟩
  rw [Op.leadsOn, bne_iff_ne]
  rintro h
  cases h
  exact hpost rfl

theorem Inv.child (h : Inv config s) {i : Nat} {child next : Child} (hi : s.children[i]? = some child)
    (hnext : child.mayBecome next = true) : Inv config { s with
      children := s.children.set i next
      pending := s.pending ++ if next = .rejected then [failTask .childPost] else [] } := by
  have hcount : ∀ b : Prop, [Decidable b] → (if b then [failTask .childPost] else []).countP Op.leadsOn = 0 := by
    intro b _
    split <;> rfl
  refine ⟨h.doc.child hi hnext, ?_, ?_, ?_, ?_⟩
  · intro op hop
    rcases mem_append.1 hop with hop | hop
    · exact (h.sound op hop).child hi hnext
    · split at hop
      · rename_i hrejected
        rw [mem_singleton.1 hop]
        refine ⟨⟨rfl, noCounts_buildPatch _ _ _⟩, fun _ => ?_, nofun⟩
        rw [hrejected]
        exact List.mem_set (List.getElem?_eq_some_iff.1 hi).1 .rejected
      · cases hop
  · rw [countP_append, hcount]
    exact h.one
  · intro hawaits
    rw [countP_append, hcount]
    exact h.awaits hawaits
  · intro hdisabled
    rw [(h.disabled hdisabled).2.1] at hi
    cases hi

theorem Inv.prepared (h : Inv config s) (hk : s.pending[k]? = some .prepare) (outcome : Prepared) :
    Inv config (s.replace k (afterPreparation config outcome)) := by
  have hearly : Early s.doc s.children := h.sound .prepare (mem_of_getElem? hk)
  cases outcome with
  | done =>
    rw [afterPreparation, if_neg (h.enabled (mem_of_getElem? hk))]
    exact h.followed hk rfl ⟨_, rfl, rfl, hearly, noCounts_buildPatch _ _ _⟩
  | failed => exact h.followed hk rfl (follows_failTask nofun nofun)
  | thrown =>
    exact h.follow hk rfl h.doc id (fun _ hop => absurd hop not_mem_nil) (Nat.zero_le 1)
      (fun hawaits => absurd hawaits.2 hearly.subStage)

theorem triggerChildren_cases (ids : Option (List String)) (henabled : ¬ config.isSelfProgressionDisabled = true) :
    (∃ n, triggerChildren config ids = (n, [.patch (awaitPatch n)])) ∨
      ∃ failure, triggerChildren config ids = (0, [failTask failure]) ∧ failure ≠ .childPost ∧
        ∀ f g, failure ≠ .counts f g := by
  cases ids with
  | none => exact .inr ⟨_, rfl, nofun, nofun⟩
  | some ids =>
    rw [triggerChildren]
    cases config.service with
    | imageReplicator | imageCleaner =>
      dsimp only
      rw [if_neg henabled]
      exact .inl ⟨_, rfl⟩
    | imageSeeder =>
      dsimp only
      split
      · exact .inr ⟨_, rfl, nofun, nofun⟩
      · split
        · exact .inr ⟨_, rfl, nofun, nofun⟩
        · exact .inl ⟨_, rfl⟩

theorem docSound_of_early {children' : List Child} (h : DocSound doc children) (hearly : Early doc children) :
    DocSound doc children' where
  stage := h.stage
  subStage := h.subStage
  bounded := bounded_of_noCounts hearly.counts
  early := h.early
  counting := fun hawaits => absurd hawaits.2 hearly.subStage
  finished := fun hstage => absurd hstage hearly.stage
  failed := by
    intro hstage f g hfailure
    obtain ⟨child, hmem, -⟩ := (h.failed hstage f g hfailure).2
    rw [hearly.children] at hmem
    cases hmem

theorem Inv.datastores (h : Inv config s) (hk : s.pending[k]? = some .datastores) (ids : Option (List String)) :
    Inv config { s.replace k (triggerChildren config ids).2 with
      children := s.children ++ replicate (triggerChildren config ids).1 .posted } := by
  have hearly : Early s.doc s.children := h.sound .datastores (mem_of_getElem? hk)
  have hleads : Follows config.service s.doc (s.children ++ replicate (triggerChildren config ids).1 .posted)
      (triggerChildren config ids).2 := by
    rcases triggerChildren_cases ids (h.enabled (mem_of_getElem? hk)) with ⟨n, heq⟩ | ⟨failure, heq, hpost, hcounts⟩
    · rw [heq]
      have hlength : (s.children ++ replicate n Child.posted).length = n := by
        rw [hearly.children, nil_append, length_replicate]
      have hnone : NoCounts (awaitPatch n) := fun count => by cases count <;> rfl
      refine ⟨_, rfl, rfl, .inl (by rw [hlength]; rfl), bounded_of_noCounts hnone, ?_⟩
      by_cases hseeder : config.service = .imageSeeder
      · exact .inl ⟨hseeder, .inl hnone⟩
      · exact .inr (.inr ⟨hseeder, hnone, .inl hearly.counts⟩)
    · rw [heq]
      exact follows_failTask hpost hcounts
  exact h.follow hk rfl (docSound_of_early h.doc hearly) (mem_append_left _) hleads.sound (Nat.le_of_eq hleads.count)
    (fun hawaits => absurd hawaits.2 hearly.subStage)

variable {ask : List Count}

theorem asks_nodup (h : Asks service ask) : ask.Nodup := by
  rw [Asks] at h
  split at h
  · rw [h]
    decide
  · obtain ⟨count, rfl⟩ := h
    exact nodup_singleton count

theorem Inv.fire (h : Inv config s) (hk : s.pending[k]? = some (.timer ask)) :
    Inv config (s.replace k [.query ask (buildPatch .started (some .awaitCompletion) none) false]) := by
  obtain ⟨hcounting, hask⟩ : Counting s.doc s.children ∧ Asks config.service ask :=
    h.sound (.timer ask) (mem_of_getElem? hk)
  have hnone := noCounts_buildPatch .started (some .awaitCompletion) none
  refine h.followed hk rfl ⟨_, rfl, rfl, hcounting, rfl, rfl, rfl, bounded_of_noCounts hnone, asks_nodup hask, ?_, ?_⟩
  · intro hseeder count
    rw [Asks, if_pos hseeder] at hask
    rw [hask]
    exact .inl (by cases count <;> decide)
  · intro hservice
    rw [Asks, if_neg hservice] at hask
    exact ⟨hask, hnone⟩

theorem bounded_set (h : Bounded patch children) (count : Count) :
    Bounded (patch.set (count.of children) count) children := by
  intro c n hn
  rw [get_set] at hn
  split at hn
  · rename_i heq
    rw [heq]
    exact Nat.le_of_eq (some.inj hn).symm
  · exact h c n hn

theorem set_stage (patch : State) (n : Nat) (count : Count) : (patch.set n count).stage = patch.stage := by
  cases count <;> rfl

theorem set_subStage (patch : State) (n : Nat) (count : Count) : (patch.set n count).subStage = patch.subStage := by
  cases count <;> rfl

theorem set_total (patch : State) (n : Nat) (count : Count) : (patch.set n count).total = patch.total := by
  cases count <;> rfl

theorem QuerySound.answer {failed : Bool}
    (h : QuerySound service children ask patch failed) (count : Count) (ok : Bool) (hseeder : service = .imageSeeder) :
    QuerySound service children (ask.erase count) (if ok then patch.set (count.of children) count else patch)
      (failed || !ok) := by
  have hanswered : ∀ c, c ∈ ask.erase count ∨
      ((if ok then patch.set (count.of children) count else patch).get c).isSome = true ∨ (failed || !ok) = true := by
    intro c
    cases ok with
    | false => exact .inr (.inr (Bool.or_true failed))
    | true =>
      rw [if_pos rfl, get_set]
      by_cases hc : c = count
      · rw [if_pos hc]
        exact .inr (.inl rfl)
      · rw [if_neg hc, h.nodup.mem_erase_iff, Bool.not_true, Bool.or_false]
        rcases h.answered hseeder c with hmem | hsome | hfailed
        · exact .inl ⟨hc, hmem⟩
        · exact .inr (.inl hsome)
        · exact .inr (.inr hfailed)
  cases ok with
  | false =>
    exact ⟨h.stage, h.subStage, h.total, h.bounded,
      h.nodup.erase count, fun _ => hanswered, fun hs => absurd hseeder hs⟩
  | true =>
    exact ⟨(set_stage ..).trans h.stage, (set_subStage ..).trans h.subStage, (set_total ..).trans h.total,
      bounded_set h.bounded count, h.nodup.erase count, fun _ => hanswered, fun hs => absurd hseeder hs⟩

theorem answered_sound {failed : Bool}
    (hcounting : Counting doc children) (h : QuerySound service children ask patch failed) (count : Count)
    (hlast : (ask.erase count).isEmpty = true) (hfailed : failed = false) :
    PatchSound service doc children (patch.set (count.of children) count) := by
  have hstage : (patch.set (count.of children) count).stage = .started := (set_stage ..).trans h.stage
  have hsub : (patch.set (count.of children) count).subStage = some .awaitCompletion :=
    (set_subStage ..).trans h.subStage
  simp only [PatchSound, hstage]
  rw [if_pos hsub]
  refine ⟨.inr ⟨(set_total ..).trans h.total, hcounting⟩, bounded_set h.bounded count, ?_⟩
  by_cases hseeder : service = .imageSeeder
  · refine .inl ⟨hseeder, .inr fun c => ?_⟩
    rcases (h.answer count true hseeder).answered hseeder c with hc | hc | hc
    · rw [isEmpty_iff.1 hlast] at hc
      cases hc
    · exact hc
    · rw [hfailed] at hc
      cases hc
  · refine .inr (.inl ⟨hseeder, count, ?_, ?_⟩)
    · rw [get_set, if_pos rfl]
      rfl
    · intro c hc
      rw [get_set, if_neg hc]
      exact (h.single hseeder).2 c

theorem Inv.answer (h : Inv config s) {failed : Bool}
    (hk : s.pending[k]? = some (.query ask patch failed)) (count : Count) (ok : Bool) (hmem : count ∈ ask) :
    Inv config (s.replace k (answerCount s.children ask patch failed count ok)) := by
  obtain ⟨hcounting, hquery⟩ : Counting s.doc s.children ∧ QuerySound config.service s.children ask patch failed :=
    h.sound (.query ask patch failed) (mem_of_getElem? hk)
  refine h.followed hk rfl ?_
  rw [answerCount]
  split
  · rename_i hlast
    cases hfailed : failed || !ok with
    | true => exact follows_failTask nofun nofun
    | false =>
      rw [Bool.or_eq_false_iff, Bool.not_eq_false'] at hfailed
      rw [hfailed.2, if_pos rfl]
      refine ⟨_, rfl, ?_, answered_sound hcounting hquery count hlast hfailed.1⟩
      have hstage : (patch.set (count.of s.children) count).stage = .started := (set_stage ..).trans hquery.stage
      rw [Op.leadsOn, bne_iff_ne]
      intro heq
      rw [Op.patch.inj heq] at hstage
      cases hstage
  · rename_i hmore
    by_cases hseeder : config.service = .imageSeeder
    · exact ⟨_, rfl, rfl, hcounting, hquery.answer count ok hseeder⟩
    · obtain ⟨c, rfl⟩ := (hquery.single hseeder).1
      rw [mem_singleton.1 hmem, erase_cons_head] at hmore
      exact absurd rfl hmore

theorem Inv.childPost (h : Inv config s) (hk : s.pending[k]? = some (failTask .childPost)) :
    Inv config { s.replace k (handlePatch config.service s.doc (buildPatch .failed none (some .childPost))).2 with
      doc := (handlePatch config.service s.doc (buildPatch .failed none (some .childPost))).1 } := by
  have hcount := countP_eraseIdx hk Op.leadsOn
  have hrest : s.pending.countP Op.leadsOn = (s.pending.eraseIdx k).countP Op.leadsOn := hcount
  have henabled := h.enabled (mem_of_getElem? hk)
  by_cases hstage : s.doc.stage = .started
  · have hhandled : handlePatch config.service s.doc (buildPatch .failed none (some .childPost)) =
        (applyPatch s.doc (buildPatch .failed none (some .childPost)), []) := handlePatch_ends hstage (by decide) rfl
    have hsound : PatchSound config.service s.doc s.children (buildPatch .failed none (some .childPost)) :=
      h.sound _ (mem_of_getElem? hk)
    have hdoc := (handled_of_sound h.doc hsound hstage).doc
    rw [hhandled] at hdoc ⊢
    refine ⟨hdoc, ?_, ?_, ?_, fun hd => absurd hd henabled⟩
    · intro op hop
      rcases mem_append.1 hop with hop | hop
      · exact (h.sound op (mem_of_mem_eraseIdx hop)).failed
      · cases hop
    · rw [System.replace, Outstanding.answered, append_nil, ← hrest]
      exact h.one
    · intro hawaits
      cases hawaits.1
  · rw [handlePatch_final hstage h.doc.stage]
    refine ⟨h.doc, ?_, ?_, fun hawaits => absurd hawaits.1 hstage, fun hd => absurd hd henabled⟩
    · intro op hop
      rcases mem_append.1 hop with hop | hop
      · exact h.sound op (mem_of_mem_eraseIdx hop)
      · cases hop
    · rw [System.replace, Outstanding.answered, append_nil, ← hrest]
      exact h.one

theorem Inv.deliver (h : Inv config s) (hk : s.pending[k]? = some (.patch patch)) :
    Inv config { s.replace k (handlePatch config.service s.doc patch).2 with
      doc := (handlePatch config.service s.doc patch).1 } := by
  cases hlead : (Op.patch patch).leadsOn with
  | false =>
    have heq := eq_childPost_of_not_leadsOn hlead
    rw [Op.patch.inj heq] at hk ⊢
    exact h.childPost hk
  | true =>
    by_cases hstage : s.doc.stage = .started
    · have hhandled := handled_of_sound h.doc (h.sound _ (mem_of_getElem? hk)) hstage
      exact h.follow hk hlead hhandled.doc id hhandled.sound hhandled.one hhandled.awaits
    · rw [handlePatch_final hstage h.doc.stage]
      exact h.follow hk hlead h.doc id (fun _ hop => absurd hop not_mem_nil) (Nat.zero_le 1)
        (fun hawaits => absurd hawaits.1 hstage)

theorem handleStart_of_stored (h : doc.stage ≠ .created) : handleStart config doc = (restarted config doc,
      if validateState config.service (restarted config doc) && !config.isSelfProgressionDisabled then
        [.patch (buildPatch (restarted config doc).stage (restarted config doc).subStage none)] else []) := by
  rw [handleStart, if_neg h]
  cases validateState config.service (restarted config doc) <;> cases config.isSelfProgressionDisabled <;> rfl

theorem restarted_stage (config : Config) (doc : State) : (restarted config doc).stage = doc.stage := by
  rw [restarted]
  split <;> rfl

theorem restarted_subStage (config : Config) (doc : State) : (restarted config doc).subStage = doc.subStage := by
  rw [restarted]
  split <;> rfl

theorem noCounts_clearCounts (doc : State) : NoCounts (clearCounts doc) := fun count => by cases count <;> rfl

theorem docSound_restarted (h : DocSound doc children) : DocSound (restarted config doc) children := by
  rw [restarted]
  split
  · have hnone := noCounts_clearCounts doc
    exact { h with bounded := bounded_of_noCounts hnone, early := fun _ _ => hnone }
  · exact h

theorem restarted_counts (hrestart : Restartable config s) (hawaits : Awaits s.doc)
    (hservice : config.service ≠ .imageSeeder) :
    NoCounts (restarted config s.doc) ∨ Complete (restarted config s.doc) := by
  rw [restarted]
  cases hconfig : config.service with
  | imageSeeder => exact absurd hconfig hservice
  | imageCleaner =>
    rw [if_pos ⟨rfl, hawaits.1, hawaits.2⟩]
    exact .inl (noCounts_clearCounts _)
  | imageReplicator =>
    rw [if_neg (fun hcleaner => nomatch hcleaner.1)]
    exact hrestart.counts hconfig hawaits

theorem restart_sound (h : DocSound s.doc s.children) (hrestart : Restartable config s) :
    PatchSound config.service (restarted config s.doc) s.children
      (buildPatch (restarted config s.doc).stage (restarted config s.doc).subStage none) := by
  have hdoc : DocSound (restarted config s.doc) s.children := docSound_restarted h
  have hnone := noCounts_buildPatch (restarted config s.doc).stage (restarted config s.doc).subStage none
  have hplain : (restarted config s.doc).stage ≠ .started →
      Plain (buildPatch (restarted config s.doc).stage (restarted config s.doc).subStage none) :=
    fun hstage => ⟨hdoc.subStage hstage, hnone⟩
  cases hstage : (restarted config s.doc).stage with
  | created => exact absurd hstage hdoc.stage
  | started =>
    rw [hstage] at hnone
    simp only [PatchSound, buildPatch]
    split
    · rename_i hsub
      have hawaits : Awaits s.doc := by
        rw [Awaits, ← restarted_stage config, ← restarted_subStage config]
        exact ⟨hstage, hsub⟩
      refine ⟨.inr ⟨trivial, hdoc.counting ⟨hstage, hsub⟩⟩, bounded_of_noCounts hnone, ?_⟩
      by_cases hseeder : config.service = .imageSeeder
      · exact .inl ⟨hseeder, .inl hnone⟩
      · refine .inr (.inr ⟨hseeder, hnone, ?_⟩)
        rcases restarted_counts hrestart hawaits hseeder with hcounts | hcomplete
        · exact .inl hcounts
        · exact .inr ⟨rfl, hcomplete⟩
    · rename_i hsub
      refine ⟨⟨hrestart.early ?_ ?_, hdoc.early hstage hsub, by rw [hstage]; decide, hsub⟩, hnone⟩
      · rw [← restarted_stage config, hstage]
      · rw [← restarted_subStage config]
        exact hsub
  | finished =>
    rw [hstage] at hplain
    exact ⟨hplain (by decide), hdoc.finished hstage⟩
  | failed =>
    rw [hstage] at hplain
    exact ⟨hplain (by decide), nofun, nofun⟩
  | cancelled =>
    rw [hstage] at hplain
    exact hplain (by decide)

theorem Inv.restart (h : Inv config s) (hrestart : Restartable config s) :
    Inv config { s with doc := (handleStart config s.doc).1, pending := (handleStart config s.doc).2 } := by
  rw [handleStart_of_stored h.doc.stage]
  have hdoc : DocSound (restarted config s.doc) s.children := docSound_restarted h.doc
  have hawaits : Awaits (restarted config s.doc) → Awaits s.doc := by
    rw [Awaits, restarted_stage, restarted_subStage]
    exact id
  refine ⟨hdoc, ?_, ?_, ?_, ?_⟩
  · intro op hop
    dsimp only at hop
    split at hop
    · rw [mem_singleton.1 hop]
      exact restart_sound h.doc hrestart
    · cases hop
  · dsimp only
    split
    · exact countP_le_length
    · exact Nat.zero_le 1
  · intro ha
    have hvalid : validateState config.service (restarted config s.doc) = true := by
      have hcounting := hdoc.counting ha
      obtain ⟨hstage, hsub⟩ := ha
      rw [validateState, hstage, hsub]
      dsimp only
      rw [hcounting, Option.isSome_some, Bool.or_true]
    have henabled : config.isSelfProgressionDisabled = false :=
      Bool.eq_false_iff.2 fun hd => (h.disabled hd).2.2 (hawaits ha)
    dsimp only
    rw [hvalid, henabled, Bool.not_false, Bool.and_true, if_pos rfl, ha.1]
    rfl
  · intro hd
    obtain ⟨-, hchildren, hnot⟩ := h.disabled hd
    refine ⟨?_, hchildren, fun ha => hnot (hawaits ha)⟩
    dsimp only
    rw [hd, Bool.not_true, Bool.and_false]
    rfl

theorem start_eq (config : Config) :
    System.start config = ⟨buildPatch .started (some (firstSubStage config.service)) none,
      if config.isSelfProgressionDisabled then []
      else [.patch (buildPatch .started (some (firstSubStage config.service)) none)], []⟩ := by
  obtain ⟨service, disabled, source⟩ := config
  cases service <;> cases disabled <;> rfl

theorem inv_start (config : Config) : Inv config (System.start config) := by
  rw [start_eq]
  have hnone := noCounts_buildPatch .started (some (firstSubStage config.service)) none
  have hsub : some (firstSubStage config.service) ≠ some .awaitCompletion := by
    cases config.service <;> decide
  have hearly : Early (buildPatch .started (some (firstSubStage config.service)) none) [] := ⟨rfl, hnone, nofun, hsub⟩
  have hnot : ¬ Awaits (buildPatch .started (some (firstSubStage config.service)) none) := fun ha => hsub ha.2
  refine ⟨docSound_of_started rfl (bounded_of_noCounts hnone) (fun _ => hnone) (fun ha => absurd ha hnot), ?_, ?_,
    fun ha => absurd ha hnot, ?_⟩
  · intro op hop
    dsimp only at hop
    split at hop
    · cases hop
    · rw [mem_singleton.1 hop]
      simp only [Sound, PatchSound, buildPatch]
      rw [if_neg hsub]
      exact ⟨hearly, hnone⟩
  · dsimp only
    split
    · exact Nat.zero_le 1
    · exact countP_le_length
  · intro hd
    refine ⟨?_, rfl, hnot⟩
    dsimp only
    rw [if_pos hd]

/-- **A step keeps the invariant.** -/
theorem Inv.step (h : Inv config s) (event : Event) (hallowed : Allowed config s event) :
    Inv config (s.step config event) := by
  cases event with
  | child i next =>
    simp only [System.step]
    split
    · exact h
    · rename_i child hi
      split
      · rename_i hnext
        exact h.child hi hnext
      · exact h
  | prepared k outcome =>
    simp only [System.step]
    split
    · rename_i hk
      exact h.prepared hk outcome
    · exact h
  | datastores k ids =>
    simp only [System.step]
    split
    · rename_i hk
      exact h.datastores hk ids
    · exact h
  | fire k =>
    simp only [System.step]
    split
    · rename_i ask hk
      exact h.fire hk
    · exact h
  | answer k count ok =>
    simp only [System.step]
    split
    · rename_i ask patch failed hk
      split
      · rename_i hmem
        exact h.answer hk count ok hmem
      · exact h
    · exact h
  | deliver k =>
    simp only [System.step]
    split
    · rename_i patch hk
      exact h.deliver hk
    · exact h
  | restart => exact h.restart hallowed

/-! ## The outcome -/

/-- **The service reports the true outcome.**  It is `FINISHED` only where every child is, and `FAILED` over the counts
only where every child has ended and one of them is not `FINISHED`. -/
def Truthful (s : System) : Prop :=
  (s.doc.stage = .finished → AllFinished s.children) ∧
  (s.doc.stage = .failed → ∀ f g, s.doc.failure = some (.counts f g) → EndedBadly s.children)

theorem Inv.truthful (h : Inv config s) : Truthful s := ⟨h.doc.finished, h.doc.failed⟩

end

/-- **The aggregators are truthful** in every run without restarts. -/
theorem aggregators_truthful (config : Config) (events : List Event) (h : ∀ e ∈ events, e ≠ .restart) :
    Always (System.step config) Truthful (System.start config) events := by
  have hallowed : ∀ (events : List Event) (s : System), (∀ e ∈ events, e ≠ .restart) →
      Meets (System.step config) (Allowed config) s events := by
    intro events
    induction events with
    | nil => exact fun _ _ => trivial
    | cons e events ih =>
      intro s hevents
      refine ⟨?_, ih _ fun e' he' => hevents e' (mem_cons_of_mem _ he')⟩
      cases e with
      | restart => exact absurd rfl (hevents .restart mem_cons_self)
      | _ => trivial
  exact (Runs.always_of_meets (fun s e hs he => hs.step e he) (inv_start config) (hallowed events _ h)).mono
    fun _ hs => hs.truthful

def twoCopies : List Event :=
  [.deliver 0, .datastores 0 (some ["ds-a", "ds-b"]), .deliver 0, .child 0 .created, .child 1 .created,
    .child 0 .finished, .fire 0,
    .answer 0 .failedOrCancelled true, .deliver 0, .fire 0, .child 1 .failed, .answer 0 .finished true,
      .deliver 0, .fire 0,
    .answer 0 .failedOrCancelled true, .deliver 0, .deliver 0]

/-- One of two copies fails after the first count has been taken. -/
theorem aggregators_truthful_twoCopies :
    (run (System.step ⟨.imageReplicator, false, "ds-a"⟩) (System.start ⟨.imageReplicator, false, "ds-a"⟩)
      twoCopies).doc.failure = some (.counts 1 1) ∧
    Always (System.step ⟨.imageReplicator, false, "ds-a"⟩) Truthful
      (System.start ⟨.imageReplicator, false, "ds-a"⟩) twoCopies :=
  ⟨by decide, aggregators_truthful _ twoCopies (by decide)⟩

/-- **No poll is lost or doubled.**  In every run with restarts at the allowed points, at most one of the operations
that are under way leads on, exactly one does while the service waits for its children, and the service stays
truthful. -/
theorem aggregators_lead_on_once (config : Config) (events : List Event)
    (h : Meets (System.step config) (Allowed config) (System.start config) events) :
    Always (System.step config) (fun s => s.pending.countP Op.leadsOn ≤ 1 ∧
      (Awaits s.doc → s.pending.countP Op.leadsOn = 1) ∧ Truthful s) (System.start config) events :=
  (Runs.always_of_meets (fun _ e hs he => hs.step e he) (inv_start config) h).mono
    fun _ hs => ⟨hs.one, hs.awaits, hs.truthful⟩

def plainReplicator : Config := ⟨.imageReplicator, false, "ds-a"⟩

def restartsWaiting : List Event := [.deliver 0, .datastores 0 (some ["ds-a", "ds-b"]), .deliver 0, .restart]

theorem aggregators_lead_on_once_restarted :
    Awaits (run (System.step plainReplicator) (System.start plainReplicator) restartsWaiting).doc ∧
    (run (System.step plainReplicator) (System.start plainReplicator) restartsWaiting).pending.countP
      Op.leadsOn = 1 := by
  have hawaits : Awaits (run (System.step plainReplicator) (System.start plainReplicator) restartsWaiting).doc :=
    ⟨by decide, by decide⟩
  exact ⟨hawaits, (aggregators_lead_on_once plainReplicator restartsWaiting
    ⟨trivial, trivial, trivial, ⟨by decide, fun _ _ => .inl (fun count => by cases count <;> rfl)⟩, trivial⟩).run.2.1
    hawaits⟩

end Photon.Housekeeper.Aggregator
