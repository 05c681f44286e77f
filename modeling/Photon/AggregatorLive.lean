import Photon.AggregatorTruth
import Photon.Leads
/-!
# AggregatorLive — the aggregators do not get stuck

Where an aggregator waits, the one operation that leads on is a delayed poll, a query for counts or a patch to itself.
Once all children have ended the counts that are asked for are final: the seeder has both after one more poll, and the
replicator and the cleaner have one of them after each, so a few operations later the outcome is decided.

What can go wrong is a restart.  Between the start of the children and the patch that stores `AWAIT_COMPLETION`, the
children are started twice and the counts pass the number that is waited for.  And the replicator, which keeps its
counts, schedules nothing on the patch of the restart unless they are both unknown.
-/
namespace Photon.Housekeeper.Aggregator

open Outstanding (getElem?_singleton)
open Runs (run Always Meets Within within_of_holds within_run)
open Xenon (TaskStage)

/-! ## Not to be stuck -/

def Op.polls : Op → Bool
  | .timer _ | .query _ _ _ | .patch _ => true
  | .prepare | .datastores => false

def Progress (s : System) : Event → Prop
  | .child _ _ | .restart => False
  | .prepared k _ => s.pending[k]? = some .prepare
  | .datastores k _ => s.pending[k]? = some .datastores
  | .fire k => ∃ ask, s.pending[k]? = some (.timer ask)
  | .answer k count _ => ∃ ask patch failed, s.pending[k]? = some (.query ask patch failed) ∧ count ∈ ask
  | .deliver k => ∃ patch, s.pending[k]? = some (.patch patch)

def Ended (s : System) : Prop := s.doc.stage ≠ .created ∧ s.doc.stage ≠ .started

/-- **The service is not stuck.**  Where it waits something is on its way; and once all children have ended, the service
has ended after any eight operations on their way have arrived or been answered, in whatever way. -/
def Live (config : Config) (s : System) : Prop :=
  Awaits s.doc → (∃ op ∈ s.pending, op.polls = true) ∧
    (AllTerminal s.children → ∀ events, Meets (System.step config) Progress s events → 8 ≤ events.length →
      Ended (run (System.step config) s events))

theorem Ended.step {config : Config} {s : System} (h : Ended s) (event : Event) : Ended (s.step config event) := by
  cases event with
  | child i next =>
    simp only [System.step]
    split
    · exact h
    · split <;> exact h
  | prepared k outcome | datastores k ids | fire k =>
    simp only [System.step]
    split <;> exact h
  | answer k count ok =>
    simp only [System.step]
    split
    · split <;> exact h
    · exact h
  | deliver k =>
    simp only [System.step]
    split
    · rw [handlePatch_final h.2 h.1]
      exact h
    · exact h
  | restart =>
    simp only [System.step]
    rw [handleStart_of_stored h.1, Ended, restarted_stage]
    exact h

/-! ## One operation at a time -/

section

variable {config : Config} {children : List Child}

def Leads (config : Config) (children : List Child) (n : Nat) (doc : State) (op : Op) : Prop :=
  Within (System.step config) Progress Ended n ⟨doc, [op], children⟩

theorem Leads.mono {n m : Nat} {doc : State} {op : Op} (h : Leads config children n doc op) (hle : n ≤ m) :
    Leads config children m doc op := Within.mono h hle

variable {doc : State}

theorem progress_cases {op : Op} {e : Event} (h : Progress ⟨doc, [op], children⟩ e) :
    (op = .prepare ∧ ∃ outcome, e = .prepared 0 outcome) ∨ (op = .datastores ∧ ∃ ids, e = .datastores 0 ids) ∨
    (∃ ask, op = .timer ask ∧ e = .fire 0) ∨
    (∃ ask patch failed count ok, op = .query ask patch failed ∧ e = .answer 0 count ok ∧ count ∈ ask) ∨
    ∃ patch, op = .patch patch ∧ e = .deliver 0 := by
  cases e with
  | child i next | restart => exact h.elim
  | prepared k outcome =>
    obtain ⟨rfl, hop⟩ := getElem?_singleton h
    exact .inl ⟨hop, outcome, rfl⟩
  | datastores k ids =>
    obtain ⟨rfl, hop⟩ := getElem?_singleton h
    exact .inr (.inl ⟨hop, ids, rfl⟩)
  | fire k =>
    obtain ⟨ask, hk⟩ := h
    obtain ⟨rfl, hop⟩ := getElem?_singleton hk
    exact .inr (.inr (.inl ⟨ask, hop, rfl⟩))
  | answer k count ok =>
    obtain ⟨ask, patch, failed, hk, hmem⟩ := h
    obtain ⟨rfl, hop⟩ := getElem?_singleton hk
    exact .inr (.inr (.inr (.inl ⟨ask, patch, failed, count, ok, hop, rfl, hmem⟩)))
  | deliver k =>
    obtain ⟨patch, hk⟩ := h
    obtain ⟨rfl, hop⟩ := getElem?_singleton hk
    exact .inr (.inr (.inr (.inr ⟨patch, hop, rfl⟩)))

variable {n : Nat} {ask : List Count}

theorem leads_timer (h :
    Leads config children n doc (.query ask (buildPatch .started (some .awaitCompletion) none) false)) :
    Leads config children (n + 1) doc (.timer ask) := by
  refine .inr fun e he => ?_
  rcases progress_cases he with ⟨hop, -⟩ | ⟨hop, -⟩ | ⟨ask', -, rfl⟩ | ⟨_, _, _, _, _, hop, -⟩ | ⟨_, hop, -⟩
  · cases hop
  · cases hop
  · exact h
  · cases hop
  · cases hop

variable {patch : State} {failed : Bool}

theorem leads_query
    (h : ∀ count ∈ ask, ∀ ok, ∃ op, answerCount children ask patch failed count ok = [op] ∧
    Leads config children n doc op) :
    Leads config children (n + 1) doc (.query ask patch failed) := by
  refine .inr fun e he => ?_
  rcases progress_cases he with ⟨hop, -⟩ | ⟨hop, -⟩ | ⟨_, hop, -⟩ |
    ⟨ask', patch', failed', count, ok, hop, rfl, hmem⟩ | ⟨_, hop, -⟩
  · cases hop
  · cases hop
  · cases hop
  · obtain ⟨rfl, rfl, rfl⟩ := Op.query.inj hop
    obtain ⟨op, hanswer, hleads⟩ := h count hmem ok
    have hstep : System.step config ⟨doc, [.query ask patch failed], children⟩ (.answer 0 count ok) =
        ⟨doc, [op], children⟩ := by
      simp only [System.step, List.getElem?_cons_zero, if_pos hmem, hanswer]
      rfl
    rw [hstep]
    exact hleads
  · cases hop

theorem leads_deliver (h : Within (System.step config) Progress Ended n
      ⟨(handlePatch config.service doc patch).1, (handlePatch config.service doc patch).2, children⟩) :
    Leads config children (n + 1) doc (.patch patch) := by
  refine .inr fun e he => ?_
  rcases progress_cases he with ⟨hop, -⟩ | ⟨hop, -⟩ | ⟨_, hop, -⟩ | ⟨_, _, _, _, _, hop, -⟩ | ⟨patch', -, rfl⟩
  · cases hop
  · cases hop
  · cases hop
  · cases hop
  · exact h

section

variable (hdoc : doc.stage = .started)
include hdoc

theorem leads_final (hfinal : patch.stage.ordinal ≥ TaskStage.finished.ordinal) (hsub : patch.subStage = none) :
    Leads config children 1 doc (.patch patch) := by
  refine leads_deliver ?_
  rw [handlePatch_ends hdoc hfinal hsub]
  have hstage : (applyPatch doc patch).stage = patch.stage := rfl
  refine within_of_holds ⟨?_, ?_⟩ 0
  · intro heq
    rw [← hstage, heq] at hfinal
    exact absurd hfinal (by decide)
  · intro heq
    rw [← hstage, heq] at hfinal
    exact absurd hfinal (by decide)

theorem leads_failTask (failure : Failure) :
    Leads config children 1 doc (failTask failure) := leads_final hdoc (Nat.le_succ 2) rfl

theorem leads_decided (hpatch : Awaits patch)
    (hcomplete : Complete (applyPatch doc patch)) : Leads config children 2 doc (.patch patch) := by
  obtain ⟨f, -, hop⟩ := processAwaitCompletion_of_complete config.service patch hcomplete
  have hstage : (applyPatch doc patch).stage = .started := hpatch.1
  have hsome : (applyPatch doc patch).total.isSome = true := by
    obtain ⟨f, -, htotal | ⟨g, -, htotal⟩⟩ := hcomplete
    · rw [htotal]
      rfl
    · rw [htotal]
      rfl
  refine leads_deliver ?_
  rw [handlePatch_awaits hdoc hpatch hsome]
  rcases hop with ⟨-, heq⟩ | ⟨g, -, -, -, heq⟩
  · rw [heq]
    exact leads_final hstage (by decide) rfl
  · rw [heq]
    exact leads_failTask hstage _

theorem leads_undecided (hpatch : Awaits patch)
    (hcounting : Counting (applyPatch doc patch) children) (hnot : ¬ Complete (applyPatch doc patch))
    (hpoll : nextPoll config.service (applyPatch doc patch) patch = [.timer ask])
    (h : Leads config children n (applyPatch doc patch) (.timer ask)) :
      Leads config children (n + 1) doc (.patch patch) := by
  refine leads_deliver ?_
  have hsome : (applyPatch doc patch).total.isSome = true := by rw [hcounting]; rfl
  rw [handlePatch_awaits hdoc hpatch hsome, processAwaitCompletion_of_not hcounting hnot, hpoll]
  exact h

end

/-! ## The counts once all children have ended -/

def Exact (children : List Child) (doc : State) (count : Count) : Prop := doc.get count = some (count.of children)

/-- All children have ended, and the service counts them. -/
structure Counted (children : List Child) (doc : State) : Prop where
  stage : doc.stage = .started
  counting : Counting doc children
  terminal : AllTerminal children

theorem complete_of_exact (hdoc : Counted children doc) (h : ∀ count, Exact children doc count) : Complete doc := by
  refine ⟨_, h .finished, .inr ⟨_, h .failedOrCancelled, ?_⟩⟩
  rw [hdoc.counting, of_add_of]
  exact congrArg some (List.countP_eq_length.2 hdoc.terminal).symm

theorem Counted.applyPatch (hdoc : Counted children doc) (hpatch : Awaits patch) (htotal : patch.total = none) :
    Counted children (applyPatch doc patch) :=
  ⟨hpatch.1, counting_applyPatch (.inr ⟨htotal, hdoc.counting⟩), hdoc.terminal⟩

variable {count : Count}

theorem exact_applyPatch (h : Exact children patch count) : Exact children (applyPatch doc patch) count := by
  rw [Exact, get_applyPatch, h, Option.some_or]

theorem awaits_set (h : Awaits patch) : Awaits (patch.set n count) :=
  ⟨(set_stage ..).trans h.1, (set_subStage ..).trans h.2⟩

theorem answerCount_last (count : Count) (patch : State) (failed ok : Bool) :
    answerCount children [count] patch failed count ok = [if failed || !ok then failTask .countQuery
        else .patch (if ok then patch.set (count.of children) count else patch)] := by
  rw [answerCount, List.erase_cons_head]
  rfl

theorem leads_query_last (hdoc : doc.stage = .started)
    (h : failed = false → Leads config children (n + 1) doc (.patch (patch.set (count.of children) count))) :
    Leads config children (n + 2) doc (.query [count] patch failed) := by
  refine leads_query fun c hc ok => ?_
  rw [List.mem_singleton.1 hc]
  refine ⟨_, answerCount_last count patch failed ok, ?_⟩
  cases failed with
  | true => exact (leads_failTask hdoc _).mono (Nat.le_add_left 1 n)
  | false =>
    cases ok with
    | false => exact (leads_failTask hdoc _).mono (Nat.le_add_left 1 n)
    | true => exact h rfl

/-! ## The replicator and the cleaner -/

section

variable {doc patch : State} {count : Count}

theorem leads_query_known (hdoc : Counted children doc) (hpatch : Awaits patch) (htotal : patch.total = none)
    (hnone : NoCounts patch) (hexact : Exact children doc count.other) :
    Leads config children 3 doc (.query [count] patch failed) := by
  have hdoc' := hdoc.applyPatch (awaits_set hpatch) ((set_total patch (count.of children) count).trans htotal)
  refine leads_query_last hdoc.stage fun _ => leads_decided hdoc.stage (awaits_set hpatch) (complete_of_exact hdoc' ?_)
  intro c
  by_cases hc : c = count
  · refine exact_applyPatch ?_
    rw [Exact, get_set, if_pos hc, hc]
  · rw [Exact, get_applyPatch, get_set, if_neg hc, hnone c, Option.none_or, Count.eq_other hc]
    exact hexact

theorem awaits_buildPatch : Awaits (buildPatch .started (some .awaitCompletion) none) := ⟨rfl, rfl⟩

theorem Count.other_other (count : Count) : count.other.other = count := by
  cases count <;> rfl

theorem leads_query_one (hservice : config.service ≠ .imageSeeder) (hdoc : Counted children doc) (hpatch : Awaits patch)
    (htotal : patch.total = none) (hnone : NoCounts patch) :
    Leads config children 6 doc (.query [count] patch failed) := by
  refine leads_query_last hdoc.stage fun _ => ?_
  have hawaits : Awaits (patch.set (count.of children) count) := awaits_set hpatch
  have hexact : Exact children (applyPatch doc (patch.set (count.of children) count)) count :=
    exact_applyPatch (by rw [Exact, get_set, if_pos rfl])
  have hdoc' := hdoc.applyPatch hawaits ((set_total patch (count.of children) count).trans htotal)
  by_cases hcomplete : Complete (applyPatch doc (patch.set (count.of children) count))
  · exact (leads_decided hdoc.stage hawaits hcomplete).mono (by decide)
  · have hpoll : nextPoll config.service (applyPatch doc (patch.set (count.of children) count))
        (patch.set (count.of children) count) = [.timer [count.other]] := by
      refine nextPoll_of_count hservice ?_ ?_
      · rw [get_set, if_pos rfl]
        rfl
      · rw [get_set, if_neg count.other_ne, hnone]
    refine leads_undecided hdoc.stage hawaits hdoc'.counting hcomplete hpoll
      (leads_timer (leads_query_known hdoc' awaits_buildPatch rfl (noCounts_buildPatch _ _ _) ?_))
    rw [count.other_other]
    exact hexact

end

/-! ## The seeder -/

section

variable {doc patch : State} {count : Count}

theorem answerCount_of_two (patch : State) (failed ok : Bool) {c d : Count} (h : d ∈ [c, c.other]) :
    answerCount children [c, c.other] patch failed d ok =
      [.query [d.other] (if ok then patch.set (d.of children) d else patch) (failed || !ok)] := by
  cases c <;> cases d <;> rfl

theorem leads_timer_both (hdoc : Counted children doc) :
    Leads config children 5 doc (.timer [.finished, .failedOrCancelled]) := by
  refine leads_timer (leads_query fun c hc ok =>
    ⟨_, @answerCount_of_two _ _ _ _ .finished c hc, leads_query_last hdoc.stage fun hok => ?_⟩)
  have hok : ok = true := by simpa using hok
  rw [if_pos hok]
  refine leads_decided hdoc.stage (awaits_set (awaits_set awaits_buildPatch)) (complete_of_exact
    (hdoc.applyPatch (awaits_set (awaits_set awaits_buildPatch)) ((set_total ..).trans (set_total ..))) fun d => ?_)
  refine exact_applyPatch ?_
  rw [Exact, get_set]
  by_cases hd : d = c.other
  · rw [if_pos hd, hd]
  · rw [if_neg hd, get_set, Count.eq_other hd, c.other_other, if_pos rfl]

theorem leads_patch_seeder (hservice : config.service = .imageSeeder) (hdoc : doc.stage = .started)
    (hpatch : Awaits patch)
    (hdoc' : Counted children (applyPatch doc patch)) : Leads config children 6 doc (.patch patch) := by
  by_cases hcomplete : Complete (applyPatch doc patch)
  · exact (leads_decided hdoc hpatch hcomplete).mono (by decide)
  · refine leads_undecided hdoc hpatch hdoc'.counting hcomplete ?_ (leads_timer_both hdoc')
    rw [hservice]
    rfl

theorem leads_query_seeder_one (hservice : config.service = .imageSeeder) (hdoc : Counted children doc)
    (hpatch : Awaits patch) (htotal : patch.total = none) : Leads config children 7 doc (.query [count] patch failed) :=
  leads_query_last hdoc.stage fun _ => leads_patch_seeder hservice hdoc.stage (awaits_set hpatch)
    (hdoc.applyPatch (awaits_set hpatch) ((set_total ..).trans htotal))

theorem nodup_cases : ∀ {ask : List Count}, ask.Nodup → ask = [] ∨ (∃ c, ask = [c]) ∨ ∃ c, ask = [c, c.other]
  | [], _ => .inl rfl
  | [c], _ => .inr (.inl ⟨c, rfl⟩)
  | [c, d], h => by
    have hne : d ≠ c := by
      intro heq
      rw [heq] at h
      exact absurd h (by simp)
    rw [Count.eq_other hne]
    exact .inr (.inr ⟨c, rfl⟩)
  | c :: d :: e :: ask, h => by
    cases c <;> cases d <;> cases e <;> simp at h

theorem leads_query_seeder (hservice : config.service = .imageSeeder) (hdoc : Counted children doc) {ask : List Count}
    (hquery : QuerySound config.service children ask patch failed) :
    Leads config children 8 doc (.query ask patch failed) := by
  have hpatch : Awaits patch := ⟨hquery.stage, hquery.subStage⟩
  rcases nodup_cases hquery.nodup with rfl | ⟨c, rfl⟩ | ⟨c, rfl⟩
  · exact leads_query nofun
  · exact (leads_query_seeder_one hservice hdoc hpatch hquery.total).mono (by decide)
  · refine leads_query fun d hd ok => ⟨_, answerCount_of_two patch failed ok hd, ?_⟩
    have hanswer := hquery.answer d ok hservice
    exact leads_query_seeder_one hservice hdoc ⟨hanswer.stage, hanswer.subStage⟩ hanswer.total

end

/-! ## Any operation -/

section

variable {doc : State}

theorem leads_timer_any (hdoc : Counted children doc) {ask : List Count} (hask : Asks config.service ask) :
    Leads config children 7 doc (.timer ask) := by
  by_cases hservice : config.service = .imageSeeder
  · rw [Asks, if_pos hservice] at hask
    rw [hask]
    exact (leads_timer_both hdoc).mono (by decide)
  · rw [Asks, if_neg hservice] at hask
    obtain ⟨count, rfl⟩ := hask
    exact leads_timer (leads_query_one hservice hdoc awaits_buildPatch rfl (noCounts_buildPatch _ _ _))

theorem leads_query_any (hdoc : Counted children doc) {ask : List Count} {patch : State}
    (hquery : QuerySound config.service children ask patch failed) :
    Leads config children 8 doc (.query ask patch failed) := by
  by_cases hservice : config.service = .imageSeeder
  · exact leads_query_seeder hservice hdoc hquery
  · obtain ⟨⟨count, rfl⟩, hnone⟩ := hquery.single hservice
    exact (leads_query_one hservice hdoc ⟨hquery.stage, hquery.subStage⟩ hquery.total hnone).mono (by decide)

theorem leads_patch_any (hterminal : AllTerminal children) (hdoc : Awaits doc) {patch : State}
    (hpatch : PatchSound config.service doc children patch) : Leads config children 8 doc (.patch patch) := by
  cases hp : patch.stage with
  | created => simp only [PatchSound, hp] at hpatch
  | started =>
    simp only [PatchSound, hp] at hpatch
    split at hpatch
    · rename_i hsub
      obtain ⟨htotal, -, hcontinues⟩ := hpatch
      have hcounting := counting_applyPatch htotal
      by_cases hcomplete : Complete (applyPatch doc patch)
      · exact (leads_decided hdoc.1 ⟨hp, hsub⟩ hcomplete).mono (by decide)
      · obtain ⟨ask, hpoll, hask⟩ := nextPoll_eq hcontinues hcomplete
        have hdoc' : Counted children (applyPatch doc patch) := ⟨hp, hcounting, hterminal⟩
        exact leads_undecided hdoc.1 ⟨hp, hsub⟩ hcounting hcomplete hpoll (leads_timer_any hdoc' hask)
    · exact absurd hdoc.2 hpatch.1.subStage
  | finished | failed | cancelled =>
    have hfinal : patch.stage.ordinal ≥ Xenon.TaskStage.finished.ordinal := by simp [hp, Xenon.TaskStage.ordinal]
    exact (leads_final hdoc.1 hfinal (hpatch.plain hfinal).1).mono (by decide)

theorem leads_of_sound (hterminal : AllTerminal children) (hdoc : Awaits doc) {op : Op}
    (hsound : Sound config.service doc children op) : Leads config children 8 doc op := by
  cases op with
  | prepare | datastores => exact absurd hdoc.2 (Early.subStage hsound)
  | timer ask => exact (leads_timer_any ⟨hdoc.1, hsound.1, hterminal⟩ hsound.2).mono (by decide)
  | query ask patch failed => exact leads_query_any ⟨hdoc.1, hsound.1, hterminal⟩ hsound.2
  | patch patch => exact leads_patch_any hterminal hdoc hsound

end

end

/-! ## The aggregators -/

section

variable {config : Config} {s : System}

theorem Inv.exists_polls (h : Inv config s) (hawaits : Awaits s.doc) : ∃ op ∈ s.pending, op.polls = true := by
  have hpos : 0 < s.pending.countP Op.leadsOn := by
    rw [h.awaits hawaits]
    decide
  obtain ⟨op, hop, -⟩ := List.countP_pos_iff.1 hpos
  have hsound := h.sound op hop
  refine ⟨op, hop, ?_⟩
  cases op with
  | prepare | datastores => exact absurd hawaits.2 (Early.subStage hsound)
  | timer ask | query ask patch failed | patch patch => rfl

theorem Inv.pending_eq (h : Inv config s) (hawaits : Awaits s.doc) (hterminal : AllTerminal s.children) :
    ∃ op, s.pending = [op] := by
  have hall : ∀ op ∈ s.pending, op.leadsOn = true := by
    intro op hop
    cases hlead : op.leadsOn with
    | true => rfl
    | false =>
      have hsound := h.sound op hop
      rw [eq_childPost_of_not_leadsOn hlead] at hsound
      exact absurd (hterminal .rejected (hsound.2.1 rfl)) (by decide)
  have hone := h.awaits hawaits
  rw [List.countP_eq_length.2 hall] at hone
  exact List.length_eq_one_iff.1 hone

theorem Inv.live (h : Inv config s) : Live config s := by
  intro hawaits
  refine ⟨h.exists_polls hawaits, fun hterminal events hprogress hlength => ?_⟩
  obtain ⟨op, hpending⟩ := h.pending_eq hawaits hterminal
  have hsound := h.sound op (by rw [hpending]; exact List.mem_singleton_self op)
  have hleads := leads_of_sound hterminal hawaits hsound
  obtain ⟨doc, pending, children⟩ := s
  obtain rfl : pending = [op] := hpending
  exact within_run (fun _ e hs => hs.step e) hleads hprogress hlength

end

/-- **The aggregators do not get stuck**, in every run in which a service is restarted only before its children are
started or after `AWAIT_COMPLETION` has been stored, and the replicator not with counts that are known and do not decide
the outcome. -/
theorem aggregators_live (config : Config) (events : List Event)
    (h : Meets (System.step config) (Allowed config) (System.start config) events) :
    Always (System.step config) (Live config) (System.start config) events :=
  (Runs.always_of_meets (fun _ e hs he => hs.step e he) (inv_start config) h).mono fun _ hs => hs.live

def replicator : Config := ⟨.imageReplicator, false, "ds-a"⟩

def restartsInTime : List Event :=
  [.restart, .deliver 0, .datastores 0 (some ["ds-a"]), .deliver 0, .restart, .deliver 0, .child 0 .created,
    .child 0 .finished,
    .fire 0, .answer 0 .failedOrCancelled true, .deliver 0, .fire 0, .answer 0 .finished true, .deliver 0, .deliver 0]

theorem aggregators_live_restartsInTime :
    (run (System.step replicator) (System.start replicator) restartsInTime).doc.stage = .finished ∧
    Always (System.step replicator) (Live replicator) (System.start replicator) restartsInTime := by
  refine ⟨by decide, aggregators_live replicator restartsInTime ?_⟩
  have hstart : Restartable replicator (System.start replicator) := ⟨fun _ _ => rfl, fun _ h => nomatch h.2⟩
  have hawaits : Restartable replicator
    (run (System.step replicator) (System.start replicator) (restartsInTime.take 4)) :=
    ⟨fun _ h => absurd rfl h, fun _ _ => .inl fun count => by cases count <;> rfl⟩
  exact ⟨hstart, trivial, trivial, trivial, hawaits, trivial, trivial, trivial, trivial, trivial, trivial, trivial,
    trivial, trivial,
    trivial, trivial⟩

def restartWithCount : List Event :=
  [.deliver 0, .datastores 0 (some ["ds-a"]), .deliver 0, .child 0 .created, .fire 0, .answer 0 .failedOrCancelled true,
    .deliver 0, .restart, .deliver 0]

def cleaner : Config := ⟨.imageCleaner, false, "ds-a"⟩

/-- The cleaner is restarted when it has started its only child but not stored that it waits for it. -/
def restartTwiceTriggered : List Event :=
  [.deliver 0, .prepared 0 .done, .deliver 0, .datastores 0 (some ["ds-a"]), .restart, .deliver 0,
    .datastores 0 (some ["ds-a"]),
    .deliver 0, .child 0 .created, .child 0 .finished, .child 1 .created, .child 1 .finished]

def twoPolls : List Event :=
  [.fire 0, .answer 0 .failedOrCancelled true, .deliver 0, .fire 0, .answer 0 .finished true, .deliver 0, .fire 0,
    .answer 0 .failedOrCancelled true]

/-- The replicator waits and nothing is on its way.  The cleaner goes on polling when both children have finished. -/
theorem restarts_get_stuck :
    (Awaits (run (System.step replicator) (System.start replicator) restartWithCount).doc ∧
      (run (System.step replicator) (System.start replicator) restartWithCount).pending = [] ∧
      ¬ Live replicator (run (System.step replicator) (System.start replicator) restartWithCount)) ∧
    AllFinished (run (System.step cleaner) (System.start cleaner) restartTwiceTriggered).children ∧
      ¬ Live cleaner (run (System.step cleaner) (System.start cleaner) restartTwiceTriggered) := by
  have hawaits : Awaits (run (System.step replicator) (System.start replicator) restartWithCount).doc :=
    ⟨by decide, by decide⟩
  have hawaits' : Awaits (run (System.step cleaner) (System.start cleaner) restartTwiceTriggered).doc :=
    ⟨by decide, by decide⟩
  have hfinished : AllFinished (run (System.step cleaner) (System.start cleaner) restartTwiceTriggered).children := by
    unfold AllFinished
    decide
  refine ⟨⟨hawaits, by decide, fun h => ?_⟩, hfinished, fun h => ?_⟩
  · obtain ⟨op, hop, -⟩ := (h hawaits).1
    have hnone : (run (System.step replicator) (System.start replicator) restartWithCount).pending = [] := by decide
    rw [hnone] at hop
    cases hop
  · have hended := (h hawaits').2 hfinished.allTerminal twoPolls
      ⟨⟨_, rfl⟩, ⟨_, _, _, rfl, by decide⟩, ⟨_, rfl⟩, ⟨_, rfl⟩, ⟨_, _, _, rfl, by decide⟩, ⟨_, rfl⟩, ⟨_, rfl⟩,
        ⟨_, _, _, rfl, by decide⟩, trivial⟩ (by decide)
    exact hended.2 (by decide)

end Photon.Housekeeper.Aggregator
