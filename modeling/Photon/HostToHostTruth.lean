import Photon.HostToHostCopy
import Photon.Runs
/-!
# HostToHostTruth — when a finished copy is a copy

A task that is `FINISHED` over an answer of the agent has had the image copied, or found it there.  But a task is also
`FINISHED` when the read of the mapping document fails with anything but `404`.  And the host of the source is compared
with the address of the destination, a string with an object, so that `copy_image` is never called.
-/
namespace Photon.Housekeeper.HostToHostCopy

open Outstanding (mem_answered)
open Runs (run Always Meets)
open Xenon (TaskStage)

structure System where
  task : Task
  mapped : Bool
  deriving DecidableEq

inductive SystemEvent where
  | task (event : Event)
  | mappedByOther
  deriving DecidableEq

def createsMapping (task : Task) : Event → Bool
  | .posted k .created =>
    match task.pending[k]? with
    | some (.postMapping _) => true
    | _ => false
  | _ => false

def System.step (s : System) : SystemEvent → System
  | .task event => ⟨s.task.step event, s.mapped || createsMapping s.task event⟩
  | .mappedByOther => { s with mapped := true }

def System.start (request : Request) (mapped : Bool) : System := ⟨Task.start request, mapped⟩

/-! ## A truthful task -/

def SameDatastore (request : Request) : Prop := request.sourceDatastore = request.destinationDatastore

/-- The image is at the destination: it is the source, a document maps the image to it, or an agent has said so. -/
def AtDestination (s : System) : Prop :=
  SameDatastore s.task.request ∨ s.mapped = true ∨ .ok ∈ s.task.answers ∨ .destinationAlreadyExist ∈ s.task.answers

/-- **The task is truthful.**  It is `FINISHED` only where the image is at the destination; and where the hosts chosen
for different datastores have one address, the image is copied with `copy_image` on that host, and `transfer_image` is
not called. -/
structure Truthful (s : System) : Prop where
  finished : s.task.doc.stage = .finished → AtDestination s
  sameHost : ∀ host address, s.task.doc.host = some host → s.task.doc.destinationHost = some address →
    host = address.host → ¬ SameDatastore s.task.request →
    .copyImage host ∈ s.task.calls ∧ ∀ h destinationHost, .transferImage h destinationHost ∉ s.task.calls

/-- The read of the mapping document is answered with `404`, or the image is at the destination; and the hosts that are
chosen for different datastores have different addresses. -/
def Regular (s : System) : SystemEvent → Prop
  | .task (.mapping _ statusCode) => statusCode = 404 ∨ AtDestination s
  | .task (.hosts _ (some hosts) (some addresses) i j) => ∀ host address, selectRandomItem hosts i = some host →
      selectRandomItem addresses j = some address → SameDatastore s.task.request ∨ host ≠ address.host
  | _ => True

/-! ## What is on its way -/

section

variable {request : Request} {there : Prop}

structure HostsDiffer (request : Request) (state : State) : Prop where
  both : state.host.isSome = state.destinationHost.isSome
  differ : ∀ host address, state.host = some host → state.destinationHost = some address →
    SameDatastore request ∨ host ≠ address.host

structure StateSound (request : Request) (there : Prop) (state : State) : Prop where
  finished : state.stage = .finished → there
  update : state.subStage = some .updateImageReplicationDocument → there
  hosts : HostsDiffer request state

def Sound (request : Request) (there : Prop) : Op → Prop
  | .getImage _ | .postMapping _ | .createReplicator => there
  | .patch patch => StateSound request there patch
  | .getMapping | .queryHosts | .agentCall _ | .adjustCount _ => True

theorem Sound.mono {there' : Prop} (h : there → there') : ∀ {op : Op}, Sound request there op → Sound request there' op
  | .getImage _, hop | .postMapping _, hop | .createReplicator, hop => h hop
  | .patch _, hop => ⟨fun hs => h (hop.finished hs), fun hs => h (hop.update hs), hop.hosts⟩
  | .getMapping, _ | .queryHosts, _ | .agentCall _, _ | .adjustCount _, _ => trivial

theorem stateSound_buildPatch {stage : TaskStage} {subStage : Option SubStage} (hfinished : stage = .finished → there)
    (hupdate : subStage = some .updateImageReplicationDocument → there) :
    StateSound request there (buildPatch stage subStage) := ⟨hfinished, hupdate, rfl, nofun⟩

theorem sound_failTask : Sound request there failTask := stateSound_buildPatch nofun nofun

def AllSound (request : Request) (there : Prop) (ops : List Op) : Prop := ∀ op ∈ ops, Sound request there op

theorem allSound_nil : AllSound request there [] := nofun

theorem allSound_cons {op : Op} {ops : List Op} (hop : Sound request there op) (hops : AllSound request there ops) :
    AllSound request there (op :: ops) := by
  intro o ho
  rcases List.mem_cons.1 ho with rfl | ho
  · exact hop
  · exact hops o ho

theorem allSound_progress {stage : TaskStage} {subStage : Option SubStage} (hfinished : stage = .finished → there)
    (hupdate : subStage = some .updateImageReplicationDocument → there) :
    AllSound request there (sendStageProgressPatch request stage subStage) := by
  rw [sendStageProgressPatch]
  split
  · exact allSound_nil
  · exact allSound_cons (stateSound_buildPatch hfinished hupdate) allSound_nil

theorem HostsDiffer.applyPatch {current patch : State} (hcurrent : HostsDiffer request current)
    (hpatch : HostsDiffer request patch) : HostsDiffer request (applyPatch current patch) := by
  cases hh : patch.host with
  | none =>
    have hd : patch.destinationHost = none := by
      have hboth := hpatch.both
      rw [hh] at hboth
      exact Option.isSome_eq_false_iff.1 hboth.symm |> Option.isNone_iff_eq_none.1
    have hhost : (HostToHostCopy.applyPatch current patch).host = current.host := by
      rw [HostToHostCopy.applyPatch, hh, Option.none_or]
    have hdest : (HostToHostCopy.applyPatch current patch).destinationHost = current.destinationHost := by
      rw [HostToHostCopy.applyPatch, hd, Option.none_or]
    refine ⟨?_, ?_⟩
    · rw [hhost, hdest]
      exact hcurrent.both
    · rw [hhost, hdest]
      exact hcurrent.differ
  | some host =>
    obtain ⟨address, hd⟩ : ∃ address, patch.destinationHost = some address := by
      have hboth := hpatch.both
      rw [hh] at hboth
      exact Option.isSome_iff_exists.1 hboth.symm
    have hhost : (HostToHostCopy.applyPatch current patch).host = some host := by
      rw [HostToHostCopy.applyPatch, hh, Option.some_or]
    have hdest : (HostToHostCopy.applyPatch current patch).destinationHost = some address := by
      rw [HostToHostCopy.applyPatch, hd, Option.some_or]
    refine ⟨?_, ?_⟩
    · rw [hhost, hdest]
      rfl
    · rw [hhost, hdest, ← hh, ← hd]
      exact hpatch.differ

section

variable (hsame : SameDatastore request → there)
include hsame

theorem copyImageHostToHost_sound (current : State) : AllSound request there (copyImageHostToHost request current) := by
  rw [copyImageHostToHost]
  split
  · rename_i hsource
    exact allSound_progress (fun _ => hsame hsource) nofun
  · split
    · exact allSound_nil
    · split <;> exact allSound_cons trivial allSound_nil

theorem handleStartedStage_sound {current : State}
    (hcurrent : StateSound request there current) : AllSound request there (handleStartedStage request current) := by
  rw [handleStartedStage]
  split
  · exact allSound_nil
  · exact allSound_cons trivial allSound_nil
  · exact allSound_cons trivial allSound_nil
  · exact copyImageHostToHost_sound hsame current
  · rename_i hsub
    exact allSound_cons (hcurrent.update hsub) allSound_nil

/-- **A sound patch leaves a sound document**, and what follows it is sound. -/
theorem handlePatch_sound {current patch : State} (fromScheduler : Bool)
    (hcurrent : StateSound request there current) (hpatch : StateSound request there patch) :
    StateSound request there (handlePatch request current patch fromScheduler).1 ∧
      AllSound request there (handlePatch request current patch fromScheduler).2 := by
  have hnext : StateSound request there (applyPatch current patch) :=
    { hpatch with hosts := hcurrent.hosts.applyPatch hpatch.hosts }
  rw [handlePatch]
  split
  · dsimp only
    split
    · refine ⟨hnext, ?_⟩
      dsimp only
      split
      · exact handleStartedStage_sound hsame hnext
      · exact allSound_nil
    · exact ⟨hcurrent, allSound_nil⟩
  · exact ⟨hcurrent, allSound_nil⟩

end

theorem hostsAnswered_sound {source : Option (List String)} {destination : Option (List ServerAddress)} {i j : Nat}
    (h : ∀ hosts addresses host address, source = some hosts → destination = some addresses →
      selectRandomItem hosts i = some host → selectRandomItem addresses j = some address →
      SameDatastore request ∨ host ≠ address.host) : AllSound request there
        (hostsAnswered request source destination i j) := by
  have hfail : AllSound request there [failTask] := allSound_cons sound_failTask allSound_nil
  unfold hostsAnswered
  split
  · rename_i hosts addresses
    split
    · exact hfail
    · rename_i host hhost
      split
      · exact hfail
      · rename_i address haddress
        split
        · exact allSound_nil
        · refine allSound_cons ⟨nofun, nofun, rfl, ?_⟩ allSound_nil
          intro host' address' hh hd
          cases hh
          cases hd
          exact h hosts addresses host address rfl rfl hhost haddress
  · exact hfail

end

/-! ## The steps -/

structure TaskSound (there : Prop) (task : Task) : Prop where
  doc : StateSound task.request there task.doc
  pending : AllSound task.request there task.pending

section

variable {there : Prop} {task : Task}

theorem TaskSound.mono {there' : Prop} (h : TaskSound there task) (hthere : there → there') : TaskSound there' task :=
  ⟨⟨fun hs => hthere (h.doc.finished hs), fun hs => hthere (h.doc.update hs), h.doc.hosts⟩,
    fun op hop => (h.pending op hop).mono hthere⟩

theorem TaskSound.answer (h : TaskSound there task) {k : Nat} {new : List Op} (hnew : AllSound task.request there new) :
    TaskSound there (task.answer k new) := by
  refine ⟨h.doc, fun op hop => ?_⟩
  rcases mem_answered hop with hop | hop
  · exact h.pending op hop
  · exact hnew op hop

/-- What is not in the answer but in where it comes from: why a mapping that is not missing, hosts, and an agent that
has the image say that the image is at the destination. -/
structure Justified (there : Prop) (task : Task) (event : Event) : Prop where
  same : SameDatastore task.request → there
  mapping : ∀ k statusCode, event = .mapping k statusCode → statusCode ≠ 404 → there
  hosts : ∀ k hosts addresses i j host address, event = .hosts k (some hosts) (some addresses) i j →
    selectRandomItem hosts i = some host → selectRandomItem addresses j = some address →
    SameDatastore task.request ∨ host ≠ address.host
  agent : ∀ k call answer, event = .agent k answer → task.pending[k]? = some (.agentCall call) →
    answer = .ok ∨ answer = .destinationAlreadyExist → there

theorem TaskSound.step (h : TaskSound there task) {event : Event} (hj : Justified there task event) :
    TaskSound there (task.step event) := by
  cases event with
  | schedulerPatch =>
    have hpatch : StateSound task.request there (buildPatch .started (some .checkImageToImageDatastoreMappingDoc)) :=
      stateSound_buildPatch nofun nofun
    obtain ⟨hdoc, hnew⟩ := handlePatch_sound hj.same true h.doc hpatch
    refine ⟨hdoc, fun op hop => ?_⟩
    rcases List.mem_append.1 hop with hop | hop
    · exact h.pending op hop
    · exact hnew op hop
  | mapping k statusCode =>
    simp only [Task.step]
    split
    · refine h.answer ?_
      rw [mappingAnswered]
      split
      · rename_i hstatus
        exact allSound_progress (fun _ => hj.mapping k statusCode rfl hstatus) nofun
      · exact allSound_progress nofun nofun
    · exact h
  | hosts k source destination i j =>
    simp only [Task.step]
    split
    · refine h.answer (hostsAnswered_sound ?_)
      intro hosts addresses host address hs hd
      exact hj.hosts k hosts addresses i j host address (by rw [hs, hd])
    · exact h
  | agent k answer =>
    simp only [Task.step]
    split
    · rename_i call hk
      have hanswered : AllSound task.request there (agentAnswered task.request answer) := by
        cases answer with
        | ok => exact allSound_progress nofun (fun _ => hj.agent k call .ok rfl hk (.inl rfl))
        | destinationAlreadyExist =>
          have hthere := hj.agent k call .destinationAlreadyExist rfl hk (.inr rfl)
          exact allSound_cons ⟨fun _ => hthere, fun _ => hthere, rfl, nofun⟩ allSound_nil
        | unknown => exact allSound_nil
        | imageNotFound | transferInProgress | systemError | failed => exact allSound_cons sound_failTask allSound_nil
      exact ⟨h.doc, (h.answer hanswered).pending⟩
    · exact h
  | image k failed isEagerCopy =>
    simp only [Task.step]
    split
    · rename_i flag hk
      have hthere : there := h.pending _ (List.mem_of_getElem? hk)
      refine h.answer fun op hop => ?_
      rcases List.mem_append.1 hop with hop | hop
      · split at hop
        · rw [List.mem_singleton.1 hop]
          exact sound_failTask
        · cases hop
      · cases isEagerCopy with
        | none => cases hop
        | some eager =>
          have hpost : Sound task.request there (.postMapping flag) := hthere
          refine allSound_cons hpost ?_ op hop
          cases eager with
          | true => exact allSound_cons hthere allSound_nil
          | false => exact allSound_progress (fun _ => hthere) nofun
    · exact h
  | posted k outcome =>
    simp only [Task.step]
    split
    · refine h.answer ?_
      cases outcome with
      | created => exact allSound_cons trivial allSound_nil
      | conflict => exact allSound_nil
      | failed => exact allSound_cons sound_failTask allSound_nil
    · exact h
  | replicator k ok =>
    simp only [Task.step]
    split
    · rename_i hk
      have hthere : there := h.pending _ (List.mem_of_getElem? hk)
      refine h.answer ?_
      cases ok with
      | true => exact allSound_progress (fun _ => hthere) nofun
      | false => exact allSound_cons sound_failTask allSound_nil
    · exact h
  | adjusted k =>
    simp only [Task.step]
    split
    · exact h.answer allSound_nil
    · exact h
  | deliver k =>
    simp only [Task.step]
    split
    · rename_i patch hk
      obtain ⟨hdoc, hnew⟩ := handlePatch_sound hj.same false h.doc (h.pending _ (List.mem_of_getElem? hk))
      exact ⟨hdoc, (h.answer hnew).pending⟩
    · exact h

theorem mem_answers_step (task : Task) (event : Event) {answer : AgentAnswer} (h : answer ∈ task.answers) :
    answer ∈ (task.step event).answers := by
  cases event with
  | agent k a =>
    simp only [Task.step]
    split
    · exact List.mem_cons_of_mem _ h
    · exact h
  | schedulerPatch => exact h
  | _ =>
    simp only [Task.step]
    split <;> exact h

end

/-! ## The runs -/

section

variable {s : System}

theorem AtDestination.step (h : AtDestination s) (event : SystemEvent) : AtDestination (s.step event) := by
  cases event with
  | mappedByOther => exact .inr (.inl rfl)
  | task event =>
    rcases h with hsame | hmapped | hok | hexists
    · refine .inl ?_
      cases event <;> simp only [System.step, Task.step] <;> first | exact hsame | (split <;> exact hsame)
    · refine .inr (.inl ?_)
      rw [System.step, hmapped, Bool.true_or]
    · exact .inr (.inr (.inl (mem_answers_step s.task event hok)))
    · exact .inr (.inr (.inr (mem_answers_step s.task event hexists)))

def Inv (s : System) : Prop := TaskSound (AtDestination s) s.task

theorem inv_step (s : System) (event : SystemEvent) (h : Inv s) (hregular : Regular s event) : Inv (s.step event) := by
  have hnext : TaskSound (AtDestination (s.step event)) s.task := h.mono fun hs => hs.step event
  cases event with
  | mappedByOther => exact hnext
  | task event =>
    refine hnext.step ⟨fun hsame => AtDestination.step (.inl hsame) _, ?_, ?_, ?_⟩
    · intro k statusCode heq hstatus
      subst heq
      rcases hregular with h404 | hthere
      · exact absurd h404 hstatus
      · exact hthere.step _
    · intro k hosts addresses i j host address heq
      subst heq
      exact hregular host address
    · intro k call answer heq hk hanswer
      subst heq
      have hmem : answer ∈ (s.step (.task (.agent k answer))).task.answers := by
        simp only [System.step, Task.step, hk]
        exact List.mem_cons_self
      rcases hanswer with rfl | rfl
      · exact .inr (.inr (.inl hmem))
      · exact .inr (.inr (.inr hmem))

theorem Inv.truthful (h : Inv s) : Truthful s where
  finished := h.doc.finished
  sameHost := by
    intro host address hhost haddress heq hdiffer
    rcases h.doc.hosts.differ host address hhost haddress with hsame | hne
    · exact absurd hsame hdiffer
    · exact absurd heq hne

theorem inv_start (request : Request) (mapped : Bool) : Inv (System.start request mapped) :=
  ⟨⟨nofun, nofun, rfl, nofun⟩, nofun⟩

end

/-- **A copy from host to host is truthful** in every run in which the read of the mapping document is answered with
`404` unless the image is at the destination, and the hosts chosen for different datastores have different addresses. -/
theorem hostToHostCopy_truthful (request : Request) (mapped : Bool) (events : List SystemEvent)
    (h : Meets System.step Regular (System.start request mapped) events) :
    Always System.step Truthful (System.start request mapped) events :=
  (Runs.always_of_meets inv_step (inv_start request mapped) h).mono fun _ hs => hs.truthful

def fromAToB : Request := ⟨"datastore-a", "datastore-b", false⟩

def hostsFound (source destination : String) : SystemEvent :=
    .task (.hosts 0 (some [source]) (some [⟨destination, 8835⟩]) 0 0)

def twoHosts : List SystemEvent :=
  [.task .schedulerPatch, .task (.mapping 0 404), .task (.deliver 0), hostsFound "10.0.0.1" "10.0.0.2",
    .task (.deliver 0),
    .task (.agent 0 .ok), .task (.deliver 0), .task (.image 0 false (some false)), .task (.posted 0 .created),
      .task (.deliver 0)]

theorem hostToHostCopy_truthful_twoHosts :
    (run System.step (System.start fromAToB false) twoHosts).task.doc.stage = .finished ∧
    Always System.step Truthful (System.start fromAToB false) twoHosts := by
  refine ⟨by decide, hostToHostCopy_truthful fromAToB false twoHosts ?_⟩
  refine ⟨trivial, .inl rfl, trivial, ?_, trivial, trivial, trivial, trivial, trivial, trivial, trivial⟩
  intro host address hhost haddress
  cases hhost
  cases haddress
  exact .inr (by decide)

/-- The read of the mapping document fails: the task is `FINISHED`, and nothing has been copied.  Both datastores are on
one host: `transfer_image` is called. -/
theorem hostToHostCopy_untruthful :
    (run System.step (System.start fromAToB false) [.task .schedulerPatch, .task (.mapping 0 500),
      .task (.deliver 0)]).task = ⟨fromAToB, ⟨.finished, none, none, none, some false⟩, [], [], []⟩ ∧
    ¬ Truthful (run System.step (System.start fromAToB false)
      [.task .schedulerPatch, .task (.mapping 0 500), .task (.deliver 0)]) ∧
    (run System.step (System.start fromAToB false) [.task .schedulerPatch, .task (.mapping 0 404), .task (.deliver 0),
      hostsFound "10.0.0.1" "10.0.0.1", .task (.deliver 0)]).task.calls =
      [.transferImage "10.0.0.1" (some ⟨"10.0.0.1", 8835⟩)] ∧
    ¬ Truthful (run System.step (System.start fromAToB false) [.task .schedulerPatch, .task (.mapping 0 404),
      .task (.deliver 0), hostsFound "10.0.0.1" "10.0.0.1", .task (.deliver 0)]) := by
  refine ⟨by decide, fun h => ?_, by decide, fun h => ?_⟩
  · have hthere := h.finished (by decide)
    revert hthere
    unfold AtDestination SameDatastore
    decide
  · have hcalls := (h.sameHost "10.0.0.1" ⟨"10.0.0.1", 8835⟩ (by decide) (by decide) rfl
      (by unfold SameDatastore; decide)).1
    revert hcalls
    decide

end Photon.Housekeeper.HostToHostCopy
