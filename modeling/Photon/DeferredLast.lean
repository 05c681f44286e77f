import Photon.Deferred
/-!
# DeferredLast — who deletes a document when its last VM is gone

A document whose deletion was requested is gone, or a VM refers to it, or some request attends to it: it will still ask
for the VMs of the document, or has found that there are none.  What attends to a document changes hands when a VM is
found or a VM is deleted, and `Careful` says when these hand-overs are safe.
-/
namespace Photon.ApiFrontend.Deferred

open Keyed (LinkedMap)
open Machines (EntityState)
open Runs (Always Meets)
open Keyed.LinkedMap (get_of_get_remove get_put get_put_cases get_remove mem_entries_iff mem_values_iff)

/-! ## The condition -/

/-- The request has found that no VM refers to the document, and is about to delete it; an image gets its tombstone
before that. -/
def Stage.foundUnused (e : Ref) : Stage → Bool
  | .tombstone _ .create e' _ => decide (e' = e ∧ e'.kind = .image)
  | .tombstone _ .delete e' _ => decide (e' = e)
  | _ => false

/-- The request will ask for the VMs of the document, or has found that there are none. -/
def Stage.attends (locks : List Ref) (e : Ref) : Stage → Bool
  | .lock e' => decide (e' = e ∧ e ∉ locks)
  | .mark e' => decide (e' = e)
  | .tombstone _ .query e' rest => decide (e' = e ∨ e ∈ rest)
  | .tombstone _ .create e' rest => decide (e' = e ∧ e'.kind = .image ∨ e ∈ rest)
  | .tombstone _ .delete e' rest => decide (e' = e ∨ e ∈ rest)
  | .tombstone _ _ _ rest => decide (e ∈ rest)
  | _ => false

namespace System

/-- Without the request and the VM, the document is gone, or referred to by a VM, or attended to. -/
def Held (s : System) (i : Nat) (id : Option Nat) (e : Ref) : Prop :=
  s.docs e = none ∨ (∃ p ∈ s.vms.entries, some p.1 ≠ id ∧ e ∈ p.2.refs) ∨
    ∃ p ∈ s.requests.entries, p.1 ≠ i ∧ p.2.attends s.locks e = true

/-- The call of `tombstone` throws. -/
def throws (s : System) (goes : Bool) (e : Ref) : Phase → Bool
  | .convert vm _ => (s.docs vm.flavor).isNone
  | .disks _ => !goes
  | .update => (s.docs e).isNone
  | _ => false

/-- The hand-overs are safe:
- a VM is posted while nothing that it refers to is deleted or found unused;
- a VM that is deleted is not the last one for a document that was marked behind the back of the request;
- a request that throws is not the last one for another document. -/
def CarefulAt (s : System) (i : Nat) (goes : Bool) : Stage → Prop
  | .post vm => ∀ e ∈ vm.refs, e ∉ s.deleted ∧ ∀ p ∈ s.requests.entries, p.2.foundUnused e = false
  | .deleteVm id vm pending =>
    s.vms.get id ≠ none → ∀ e ∈ vm.refs, e ∈ s.requested → e ∈ pending ∨ s.Held i (some id) e
  | .tombstone _ phase e rest => s.throws goes e phase = true → ∀ e' ∈ rest, e' ∈ s.requested → s.Held i none e'
  | _ => True

def Careful (s : System) : Event → Prop
  | .request _ _ => True
  | .call i goes => ∀ stage ∈ s.requests.get i, s.CarefulAt i goes stage

instance (s : System) (i : Nat) (id : Option Nat) (e : Ref) : Decidable (s.Held i id e) :=
    inferInstanceAs (Decidable (_ ∨ _ ∨ _))

instance (s : System) (i : Nat) (goes : Bool) : ∀ stage, Decidable (s.CarefulAt i goes stage)
  | .post _ => inferInstanceAs (Decidable (∀ e ∈ _, _ ∧ _))
  | .deleteVm _ _ _ => inferInstanceAs (Decidable (_ → ∀ e ∈ _, _ → _))
  | .tombstone _ _ _ _ => inferInstanceAs (Decidable (_ → ∀ e' ∈ _, _ → _))
  | .findFlavor _ => .isTrue trivial
  | .findImage _ => .isTrue trivial
  | .consumeQuota _ => .isTrue trivial
  | .findVm _ => .isTrue trivial
  | .findReferred _ _ _ _ _ => .isTrue trivial
  | .find _ => .isTrue trivial
  | .lock _ => .isTrue trivial
  | .mark _ => .isTrue trivial

instance (s : System) : ∀ event, Decidable (s.Careful event)
  | .request _ _ => .isTrue trivial
  | .call i goes => inferInstanceAs (Decidable (∀ stage ∈ s.requests.get i, s.CarefulAt i goes stage))

end System

/-! ## The invariant -/

def Stage.deletes : Stage → Option (Nat × Vm)
  | .findReferred id vm _ _ _ => some (id, vm)
  | .deleteVm id vm _ => some (id, vm)
  | _ => none

def System.Used (s : System) (e : Ref) : Prop := ∃ id vm, s.vms.get id = some vm ∧ e ∈ vm.refs

def System.Attended (s : System) (i : Option Nat) (e : Ref) : Prop :=
  ∃ j stage, some j ≠ i ∧ s.requests.get j = some stage ∧ stage.attends s.locks e = true

/-- The invariant, leaving out one request, to which some documents are owed. -/
structure Inv (s : System) (i : Option Nat) (owed : Ref → Prop) : Prop where
  vms : ∀ id vm, s.vms.get id = some vm → id < s.nextVm
  safe : ∀ e ∈ s.deleted, ¬s.Used e
  unused : ∀ j stage, some j ≠ i → s.requests.get j = some stage → ∀ e, stage.foundUnused e = true → ¬s.Used e
  known : ∀ j stage, some j ≠ i → s.requests.get j = some stage → ∀ id vm, stage.deletes = some (id, vm) →
    id < s.nextVm ∧ ∀ vm', s.vms.get id = some vm' → vm' = vm
  asked : ∀ j e, some j ≠ i → s.requests.get j = some (.lock e) → e ∈ s.requested
  locked : ∀ e ∈ s.locks, e ∈ s.requested
  covered : ∀ e ∈ s.requested, s.docs e ≠ none → owed e ∨ s.Used e ∨ s.Attended i e

/-- The invariant between the calls. -/
abbrev Settled (s : System) : Prop := Inv s none fun _ => False

namespace Inv

variable {s : System} {i : Nat} {owed owed' : Ref → Prop}

theorem start (docs : Ref → Option EntityState) : Settled (.start docs) where
  vms _ _ h := by cases h
  safe e he := by cases he
  unused _ _ _ h := by cases h
  known _ _ _ h := by cases h
  asked _ _ _ h := by cases h
  locked _ he := by cases he
  covered e he := by cases he

variable {stage : Stage}

theorem open_any (h : Settled s)
    (hi : ∀ stage e, s.requests.get i = some stage → stage.attends s.locks e = true → owed e) :
    Inv s (some i) owed where
  vms := h.vms
  safe := h.safe
  unused j stage' _ hj := h.unused j stage' nofun hj
  known j stage' _ hj := h.known j stage' nofun hj
  asked j e _ hj := h.asked j e nofun hj
  locked := h.locked
  covered e he hdoc := by
    rcases h.covered e he hdoc with howed | hused | ⟨j, stage', -, hj, hattends⟩
    · exact howed.elim
    · exact .inr (.inl hused)
    · by_cases hij : j = i
      · rw [hij] at hj
        exact .inl (hi stage' e hj hattends)
      · exact .inr (.inr ⟨j, stage', fun heq => hij (Option.some.inj heq), hj, hattends⟩)

theorem open_request (h : Settled s) (hi : s.requests.get i = some stage) :
    Inv s (some i) (fun e => stage.attends s.locks e = true) := by
  refine h.open_any fun stage' e hget hattends => ?_
  cases hi.symm.trans hget
  exact hattends

theorem open_idle (h : Settled s) (hi : s.requests.get i = some stage) (hidle : ∀ e, stage.attends s.locks e = false) :
    Inv s (some i) (fun _ => False) := by
  refine h.open_any fun stage' e hget hattends => ?_
  cases hi.symm.trans hget
  exact nomatch (hidle e).symm.trans hattends

theorem open_new (h : Settled s) (hi : s.requests.get i = none) : Inv s (some i) (fun _ => False) :=
  h.open_any fun _ _ hget _ => nomatch hi.symm.trans hget

theorem owing (h : Inv s (some i) owed)
    (howed : ∀ e ∈ s.requested, s.docs e ≠ none → owed e → owed' e ∨ s.Used e ∨ s.Attended (some i) e) :
    Inv s (some i) owed' :=
  { h with
    covered := by
      intro e he hdoc
      rcases h.covered e he hdoc with ho | hcovered
      · exact howed e he hdoc ho
      · exact .inr hcovered }

theorem goOn (h : Inv s (some i) owed) {stage : Stage} (howed : ∀ e, owed e → stage.attends s.locks e = true)
    (hunused : ∀ e, stage.foundUnused e = true → ¬s.Used e)
    (hknown : ∀ id vm, stage.deletes = some (id, vm) → id < s.nextVm ∧ ∀ vm', s.vms.get id = some vm' → vm' = vm)
    (hasked : ∀ e, stage = .lock e → e ∈ s.requested) : Settled (s.goOn i stage) := by
  have hget : ∀ j stage', (s.goOn i stage).requests.get j = some stage' →
      (j = i ∧ stage' = stage) ∨ (some j ≠ some i ∧ s.requests.get j = some stage') := by
    intro j stage' hj
    rcases get_put_cases hj with ⟨hij, heq⟩ | ⟨hij, hj⟩
    · exact .inl ⟨hij, heq.symm⟩
    · exact .inr ⟨fun heq => hij (Option.some.inj heq), hj⟩
  refine ⟨h.vms, h.safe, fun j stage' _ hj e he => ?_, fun j stage' _ hj id vm hdeletes => ?_, fun j e _ hj => ?_,
    h.locked, fun e he hdoc => ?_⟩
  · rcases hget j stage' hj with ⟨-, heq⟩ | ⟨hij, hj'⟩
    · rw [heq] at he
      exact hunused e he
    · exact h.unused j stage' hij hj' e he
  · rcases hget j stage' hj with ⟨-, heq⟩ | ⟨hij, hj'⟩
    · rw [heq] at hdeletes
      exact hknown id vm hdeletes
    · exact h.known j stage' hij hj' id vm hdeletes
  · rcases hget j (.lock e) hj with ⟨-, heq⟩ | ⟨hij, hj'⟩
    · exact hasked e heq.symm
    · exact h.asked j e hij hj'
  · right
    rcases h.covered e he hdoc with ho | hused | ⟨j, stage', hij, hj, hattends⟩
    · refine .inr ⟨i, stage, fun heq => (by cases heq), ?_, howed e ho⟩
      show (s.requests.put i stage).get i = some stage
      rw [get_put, if_pos rfl]
    · exact .inl hused
    · refine .inr ⟨j, stage', fun heq => (by cases heq), ?_, hattends⟩
      show (s.requests.put i stage).get j = some stage'
      rw [get_put, if_neg (fun heq => hij (congrArg some heq))]
      exact hj

variable {e : Ref}

theorem attends_of_free {locks locks' : List Ref} (hfree : e ∉ locks → e ∉ locks') (h : stage.attends locks e = true) :
    stage.attends locks' e = true := by
  cases stage with
  | lock e' =>
    obtain ⟨heq, hnot⟩ := of_decide_eq_true h
    exact decide_eq_true ⟨heq, hfree hnot⟩
  | tombstone lock phase e' rest => cases phase <;> exact h
  | _ => exact h

theorem finish (h : Inv s (some i) (fun _ => False)) (lock : Option Ref) : Settled (s.finish i lock) := by
  have hget : ∀ j stage, (s.finish i lock).requests.get j = some stage → some j ≠ some i ∧
      s.requests.get j = some stage := by
    intro j stage hj
    have hj' : (s.requests.remove i).get j = some stage := hj
    rw [get_remove] at hj'
    split at hj'
    · cases hj'
    · rename_i hij
      exact ⟨fun heq => hij (Option.some.inj heq), hj'⟩
  refine ⟨h.vms, h.safe, fun j stage _ hj => ?_, fun j stage _ hj => ?_, fun j e _ hj => ?_,
    fun e he => h.locked e (List.mem_filter.1 he).1, fun e he hdoc => ?_⟩
  · exact h.unused j stage (hget j stage hj).1 (hget j stage hj).2
  · exact h.known j stage (hget j stage hj).1 (hget j stage hj).2
  · exact h.asked j e (hget j _ hj).1 (hget j _ hj).2
  · rcases h.covered e he hdoc with ho | hused | ⟨j, stage, hij, hj, hattends⟩
    · exact ho.elim
    · exact .inr (.inl hused)
    · refine .inr (.inr ⟨j, stage, fun heq => (by cases heq), ?_, ?_⟩)
      · show (s.requests.remove i).get j = some stage
        rw [get_remove, if_neg (fun heq => hij (congrArg some heq))]
        exact hj
      · exact attends_of_free (fun hnot he => hnot (List.mem_filter.1 he).1) hattends

variable {rest : List Ref}

theorem goOnOr (h : Inv s (some i) (fun e => e ∈ rest)) (lock : Option Ref) :
    Settled (s.goOnOr i lock (nextTombstone lock rest)) := by
  cases rest with
  | nil => exact (h.owing fun e _ _ he => by cases he).finish lock
  | cons e rest =>
    refine h.goOn (fun e' he' => ?_) nofun nofun nofun
    rcases List.mem_cons.1 he' with heq | hmem
    · exact decide_eq_true (.inl heq.symm)
    · exact decide_eq_true (.inr hmem)

/-! ## What the calls change -/

theorem addVm (h : Inv s (some i) owed) {vm : Vm}
    (hcareful : ∀ e ∈ vm.refs, e ∉ s.deleted ∧ ∀ p ∈ s.requests.entries, p.2.foundUnused e = false) :
    Inv (s.addVm vm) (some i) owed := by
  have hget : ∀ id vm', (s.addVm vm).vms.get id = some vm' → (id = s.nextVm ∧ vm' = vm) ∨ s.vms.get id = some vm' := by
    intro id vm' hvm
    exact (get_put_cases hvm).imp (fun h => ⟨h.1, h.2.symm⟩) And.right
  have hused : ∀ e, (s.addVm vm).Used e → e ∈ vm.refs ∨ s.Used e := by
    intro e he
    obtain ⟨id, vm', hvm, hmem⟩ := he
    rcases hget id vm' hvm with ⟨-, heq⟩ | hold
    · rw [heq] at hmem
      exact .inl hmem
    · exact .inr ⟨id, vm', hold, hmem⟩
  refine ⟨fun id vm' hvm => ?_, fun e he hu => ?_, fun j stage hij hj e he hu => ?_,
    fun j stage hij hj id vm' hdeletes => ?_, h.asked, h.locked, fun e he hdoc => ?_⟩
  · rcases hget id vm' hvm with ⟨hid, -⟩ | hold
    · rw [hid]
      exact Nat.lt_succ_self _
    · exact Nat.lt_succ_of_lt (h.vms id vm' hold)
  · rcases hused e hu with hmem | hold
    · exact (hcareful e hmem).1 he
    · exact h.safe e he hold
  · rcases hused e hu with hmem | hold
    · have hfalse := (hcareful e hmem).2 (j, stage) (mem_entries_iff.2 hj)
      rw [hfalse] at he
      cases he
    · exact h.unused j stage hij hj e he hold
  · obtain ⟨hlt, hvm⟩ := h.known j stage hij hj id vm' hdeletes
    refine ⟨Nat.lt_succ_of_lt hlt, fun vm'' hget' => ?_⟩
    rcases hget id vm'' hget' with ⟨hid, -⟩ | hold
    · exact absurd hlt (hid ▸ Nat.lt_irrefl _)
    · exact hvm vm'' hold
  · rcases h.covered e he hdoc with ho | ⟨id, vm', hvm, hmem⟩ | ha
    · exact .inl ho
    · refine .inr (.inl ⟨id, vm', ?_, hmem⟩)
      show (s.vms.put s.nextVm vm).get id = some vm'
      rw [get_put, if_neg (Nat.ne_of_lt (h.vms id vm' hvm))]
      exact hvm
    · exact .inr (.inr ha)

variable {id : Nat}

theorem used_of_removeVm (h : (s.removeVm id).Used e) : s.Used e := by
  obtain ⟨id', vm, hvm, hmem⟩ := h
  exact ⟨id', vm, get_of_get_remove hvm, hmem⟩

section

variable (h : Inv s (some i) owed)
include h

theorem removeVm {id : Nat} {vm : Vm} (hvm : s.vms.get id = some vm) :
    Inv (s.removeVm id) (some i) (fun e => owed e ∨ e ∈ vm.refs) where
  vms id' vm' hget := h.vms id' vm' (get_of_get_remove hget)
  safe e he hu := h.safe e he (used_of_removeVm hu)
  unused j stage hij hj e he hu := h.unused j stage hij hj e he (used_of_removeVm hu)
  known j stage hij hj id' vm' hdeletes :=
    ⟨(h.known j stage hij hj id' vm' hdeletes).1,
      fun vm'' hget => (h.known j stage hij hj id' vm' hdeletes).2 vm'' (get_of_get_remove hget)⟩
  asked := h.asked
  locked := h.locked
  covered e he hdoc := by
    rcases h.covered e he hdoc with ho | ⟨id', vm', hvm', hmem⟩ | ha
    · exact .inl (.inl ho)
    · by_cases hid : id' = id
      · rw [hid, hvm] at hvm'
        cases hvm'
        exact .inl (.inr hmem)
      · refine .inr (.inl ⟨id', vm', ?_, hmem⟩)
        show (s.vms.remove id).get id' = some vm'
        rw [get_remove, if_neg hid]
        exact hvm'
    · exact .inr (.inr ha)

theorem addRequested (e : Ref) : Inv (s.addRequested e) (some i) (fun e' => owed e' ∨ e' = e) :=
  { h with
    asked := fun j e' hij hj => List.mem_cons_of_mem e (h.asked j e' hij hj)
    locked := fun e' he' => List.mem_cons_of_mem e (h.locked e' he')
    covered := by
      intro e' he' hdoc
      rcases List.mem_cons.1 he' with heq | hmem
      · exact .inl (.inr heq)
      · exact (h.covered e' hmem hdoc).imp .inl id }

theorem addLock {e : Ref} (he : e ∈ s.requested) : Inv (s.addLock e) (some i) (fun e' => owed e' ∨ e' = e) :=
  { h with
    locked := by
      intro e' he'
      rcases List.mem_cons.1 he' with rfl | hmem
      · exact he
      · exact h.locked e' hmem
    covered := by
      intro e' he' hdoc
      by_cases heq : e' = e
      · exact .inl (.inr heq)
      · rcases h.covered e' he' hdoc with ho | hused | ⟨j, stage, hij, hj, hattends⟩
        · exact .inl (.inl ho)
        · exact .inr (.inl hused)
        · exact .inr (.inr ⟨j, stage, hij, hj, attends_of_free (List.not_mem_cons_of_ne_of_not_mem heq) hattends⟩) }

theorem addTombstone (e : Ref) : Inv (s.addTombstone e) (some i) owed :=
  { h with }

theorem updateState {e : Ref} (hdoc : s.docs e ≠ none) (state : EntityState) :
    Inv (s.updateState e state) (some i) owed :=
  { h with
    covered := by
      intro e' he' hdoc'
      refine h.covered e' he' ?_
      by_cases heq : e' = e
      · rw [heq]
        exact hdoc
      · simpa only [System.updateState, Function.update_of_ne heq] using hdoc' }

theorem deleteDocument {e : Ref} (hunused : ¬s.Used e) :
    Inv (s.deleteDocument e) (some i) (fun e' => owed e' ∧ e' ≠ e) := by
  unfold System.deleteDocument
  split
  · rename_i hnone
    refine h.owing fun e' _ hdoc ho => .inl ⟨ho, fun heq => hdoc ?_⟩
    rw [heq]
    exact hnone
  · refine { h with safe := fun e' he' => ?_, covered := fun e' he' hdoc => ?_ }
    · rcases List.mem_cons.1 he' with rfl | hmem
      · exact hunused
      · exact h.safe e' hmem
    · change Function.update s.docs e none e' ≠ none at hdoc
      by_cases heq : e' = e
      · rw [heq, Function.update_self] at hdoc
        exact absurd rfl hdoc
      · rw [Function.update_of_ne heq] at hdoc
        exact (h.covered e' he' hdoc).imp (fun ho => ⟨ho, heq⟩) id

end

/-! ## Calls -/

theorem covered_of_held {id : Option Nat} (h : s.Held i id e) (hdoc : s.docs e ≠ none) :
    s.Used e ∨ s.Attended (some i) e := by
  rcases h with hnone | ⟨p, hp, -, hmem⟩ | ⟨p, hp, hne, hattends⟩
  · exact absurd hnone hdoc
  · exact .inl ⟨p.1, p.2, mem_entries_iff.1 hp, hmem⟩
  · exact .inr ⟨p.1, p.2, fun heq => hne (Option.some.inj heq), mem_entries_iff.1 hp, hattends⟩

theorem finish_of_held (h : Inv s (some i) (fun e => e ∈ rest))
    (hheld : ∀ e ∈ rest, e ∈ s.requested → s.Held i none e) (lock : Option Ref) : Settled (s.finish i lock) :=
  (h.owing fun e he hdoc hmem => .inr (covered_of_held (hheld e hmem he) hdoc)).finish lock

theorem used_of_filterBy {vm : Vm} (h : vm ∈ s.filterBy e) : s.Used e := by
  obtain ⟨hvm, hmem⟩ := List.mem_filter.1 h
  obtain ⟨id, hget⟩ := mem_values_iff.1 hvm
  exact ⟨id, vm, hget, of_decide_eq_true hmem⟩

theorem not_used_of_filterBy (h : s.filterBy e = []) : ¬s.Used e := by
  intro hused
  obtain ⟨id, vm, hget, hmem⟩ := hused
  have hvm : vm ∈ s.filterBy e :=
    List.mem_filter.2 ⟨mem_values_iff.2 ⟨id, hget⟩, decide_eq_true hmem⟩
  rw [h] at hvm
  cases hvm

theorem goOnTombstone {lock : Option Ref} {phase : Phase} (h : Inv s (some i) owed)
    (howed : ∀ e', owed e' → (Stage.tombstone lock phase e rest).attends s.locks e' = true)
    (hunused : ∀ e', (Stage.tombstone lock phase e rest).foundUnused e' = true → ¬s.Used e') :
    Settled (s.goOn i (.tombstone lock phase e rest)) :=
  h.goOn howed hunused nofun nofun

theorem queryVms {lock : Option Ref} {goes : Bool} (h : Settled s)
    (hi : s.requests.get i = some (.tombstone lock .query e rest)) :
    Settled (s.performTombstone i goes lock e rest .query) := by
  have ho := h.open_request hi
  rw [System.performTombstone]
  split
  · rename_i hnone
    have hnot : ∀ e', e = e' → ¬s.Used e' := fun e' heq => heq ▸ not_used_of_filterBy hnone
    by_cases himage : e.kind = .image
    · rw [if_pos himage]
      refine ho.goOnTombstone (fun e' h' => decide_eq_true ?_) (fun e' h' => hnot e' (of_decide_eq_true h').1)
      rcases of_decide_eq_true h' with heq | hmem
      · exact .inl ⟨heq, himage⟩
      · exact .inr hmem
    · rw [if_neg himage]
      exact ho.goOnTombstone (fun _ h' => h') (fun e' h' => hnot e' (of_decide_eq_true h'))
  · rename_i vm vms hsome
    have hused : s.Used e := used_of_filterBy (hsome ▸ List.mem_cons_self)
    have hrest : Inv s (some i) (fun e' => e' ∈ rest) := by
      refine ho.owing fun e' _ _ h' => ?_
      rcases of_decide_eq_true h' with heq | hmem
      · exact .inr (.inl (heq ▸ hused))
      · exact .inl hmem
    exact hrest.goOnTombstone (fun _ h' => decide_eq_true h') nofun

theorem performTombstone {lock : Option Ref} {phase : Phase} {e : Ref} {goes : Bool} (h : Settled s)
    (hi : s.requests.get i = some (.tombstone lock phase e rest))
    (hcareful : s.CarefulAt i goes (.tombstone lock phase e rest)) :
    Settled (s.performTombstone i goes lock e rest phase) := by
  have ho := h.open_request hi
  have hunused := h.unused i _ (fun heq => (by cases heq)) hi
  cases phase with
  | query => exact h.queryVms hi
  | convert vm vms =>
    have hrest : Inv s (some i) (fun e' => e' ∈ rest) := ho.owing fun e' _ _ h' => .inl (of_decide_eq_true h')
    rw [System.performTombstone]
    split
    · rename_i hnone
      exact hrest.finish_of_held (hcareful (Option.isNone_iff_eq_none.2 hnone)) lock
    · exact hrest.goOnTombstone (fun _ h' => decide_eq_true h') nofun
  | disks vms =>
    have hrest : Inv s (some i) (fun e' => e' ∈ rest) := ho.owing fun e' _ _ h' => .inl (of_decide_eq_true h')
    cases goes with
    | false => exact hrest.finish_of_held (hcareful rfl) lock
    | true =>
      cases vms with
      | cons vm vms => exact hrest.goOnTombstone (fun _ h' => decide_eq_true h') nofun
      | nil =>
        show Inv (if e.kind = .image then s.goOn i (.tombstone lock .update e rest) else s.goOnOr i lock
          (nextTombstone lock rest)) none _
        by_cases himage : e.kind = .image
        · rw [if_pos himage]
          exact hrest.goOnTombstone (fun _ h' => decide_eq_true h') nofun
        · rw [if_neg himage]
          exact hrest.goOnOr lock
  | update =>
    have hrest : Inv s (some i) (fun e' => e' ∈ rest) := ho.owing fun e' _ _ h' => .inl (of_decide_eq_true h')
    rw [System.performTombstone]
    split
    · rename_i hnone
      exact hrest.finish_of_held (hcareful (Option.isNone_iff_eq_none.2 hnone)) lock
    · rename_i hsome
      exact (hrest.updateState hsome .pendingDelete).goOnOr lock
  | create =>
    rw [System.performTombstone]
    by_cases himage : e.kind = .image
    · rw [if_pos himage]
      refine (ho.addTombstone e).goOnTombstone (fun e' h' => decide_eq_true ?_)
        (fun e' h' => hunused e' (decide_eq_true ⟨of_decide_eq_true h', himage⟩))
      rcases of_decide_eq_true h' with heq | hmem
      · exact .inl heq.1
      · exact .inr hmem
    · rw [if_neg himage]
      refine Inv.goOnOr ((ho.addTombstone e).owing fun e' _ _ h' => ?_) lock
      rcases of_decide_eq_true h' with heq | hmem
      · exact absurd heq.2 himage
      · exact .inl hmem
  | delete =>
    have hdeleted := ho.deleteDocument (hunused e (decide_eq_true rfl))
    have hrest : ∀ e', (Stage.tombstone lock .delete e rest).attends s.locks e' = true ∧ e' ≠ e → e' ∈ rest := by
      intro e' h'
      rcases of_decide_eq_true h'.1 with heq | hmem
      · exact absurd heq.symm h'.2
      · exact hmem
    rw [System.performTombstone]
    by_cases himage : e.kind = .image
    · rw [if_pos himage]
      exact (hdeleted.owing fun e' _ _ h' => .inl (hrest e' h')).goOnOr lock
    · rw [if_neg himage]
      exact hdeleted.goOnTombstone (fun e' h' => decide_eq_true (.inr (hrest e' h')))
        (fun e' h' => absurd (of_decide_eq_true h').2 himage)

theorem goOn_nextReferred (h : Inv s (some i) (fun _ => False)) {vm : Vm} (pending todo : List Ref)
    (hknown : id < s.nextVm ∧ ∀ vm', s.vms.get id = some vm' → vm' = vm) :
    Settled (s.goOn i (nextReferred id vm pending todo)) := by
  cases todo with
  | nil | cons e todo =>
    refine h.goOn (fun _ h' => h'.elim) nofun (fun id' vm' h' => ?_) nofun
    cases h'
    exact hknown

theorem deleteVm {vm : Vm} {pending : List Ref} (h : Settled s) (hi : s.requests.get i = some (.deleteVm id vm pending))
    (hcareful : ∀ e ∈ vm.refs, e ∈ s.requested → e ∈ pending ∨ s.Held i (some id) e) {vm' : Vm}
    (hvm : s.vms.get id = some vm') : Settled ((s.removeVm id).goOnOr i none (nextTombstone none pending)) := by
  have hsame : vm' = vm := (h.known i _ (fun heq => (by cases heq)) hi id vm rfl).2 vm' hvm
  have hremoved := (h.open_request hi).removeVm hvm
  refine Inv.goOnOr (hremoved.owing fun e he hdoc howed => ?_) none
  rcases howed with howed | hmem
  · cases howed
  · rw [hsame] at hmem
    rcases hcareful e hmem he with hpending | hnone | ⟨p, hp, hne, hmem'⟩ | ⟨p, hp, hne, hattends⟩
    · exact .inl hpending
    · exact absurd hnone hdoc
    · refine .inr (.inl ⟨p.1, p.2, ?_, hmem'⟩)
      show (s.vms.remove id).get p.1 = some p.2
      rw [get_remove, if_neg (fun heq => hne (congrArg some heq))]
      exact mem_entries_iff.1 hp
    · exact .inr (.inr ⟨p.1, p.2, fun heq => hne (Option.some.inj heq), mem_entries_iff.1 hp, hattends⟩)

theorem find {goes : Bool} (h : Settled s) (hi : s.requests.get i = some (.find e)) :
    Settled (s.perform i goes (.find e)) := by
  have ho := h.open_request hi
  rw [System.perform]
  split
  · exact (h.open_idle hi fun _ => rfl).finish none
  · split
    · have hrequested := ho.addRequested e
      by_cases himage : e.kind = .image
      · rw [if_pos himage]
        have hfree : Inv (s.addRequested e) (some i) (fun e' => e' = e ∧ e ∉ s.locks) := by
          refine hrequested.owing fun e' _ hdoc h' => ?_
          rcases h' with h' | heq
          · cases h'
          · by_cases hlocked : e ∈ s.locks
            · rcases ho.covered e (h.locked e hlocked) (heq ▸ hdoc) with h' | hcovered
              · cases h'
              · rw [heq]
                exact .inr hcovered
            · exact .inl ⟨heq, hlocked⟩
        refine hfree.goOn (fun e' h' => ?_) nofun nofun (fun e' h' => ?_)
        · exact decide_eq_true ⟨h'.1.symm, h'.1 ▸ h'.2⟩
        · cases h'
          exact List.mem_cons_self
      · rw [if_neg himage]
        refine hrequested.goOn (fun e' h' => ?_) nofun nofun nofun
        rcases h' with h' | heq
        · cases h'
        · exact decide_eq_true heq.symm
    · exact (h.open_idle hi fun _ => rfl).finish none

/-- **A careful call keeps the invariant.** -/
theorem perform {stage : Stage} {goes : Bool} (h : Settled s) (hi : s.requests.get i = some stage)
    (hcareful : s.CarefulAt i goes stage) : Settled (s.perform i goes stage) := by
  have ho := h.open_request hi
  cases stage with
  | findFlavor vm | findImage vm | consumeQuota vm =>
    have hnothing := h.open_idle hi fun _ => rfl
    rw [System.perform]
    split
    · exact hnothing.goOn nofun nofun nofun nofun
    · exact hnothing.finish none
  | post vm => exact ((h.open_idle hi fun _ => rfl).addVm hcareful).finish none
  | findVm id =>
    have hnothing := h.open_idle hi fun _ => rfl
    rw [System.perform]
    split
    · exact hnothing.finish none
    · rename_i vm hvm
      split
      · refine hnothing.goOn_nextReferred [] vm.lookedUp ⟨h.vms id vm hvm, fun vm' hvm' => ?_⟩
        exact Option.some.inj (hvm'.symm.trans hvm)
      · exact hnothing.finish none
  | findReferred id vm e todo pending =>
    have hnothing := h.open_idle hi fun _ => rfl
    rw [System.perform]
    split
    · exact hnothing.finish none
    · exact hnothing.goOn_nextReferred _ todo (h.known i _ (fun heq => (by cases heq)) hi id vm rfl)
  | deleteVm id vm pending =>
    rw [System.perform]
    by_cases hvm : s.vms.get id = none
    · rw [System.removeVm, LinkedMap.remove_of_absent _ _ hvm]
      exact ((h.open_idle hi fun _ => rfl).owing fun _ _ _ howed => howed.elim).goOnOr none
    · obtain ⟨vm', hvm'⟩ := Option.ne_none_iff_exists'.1 hvm
      exact h.deleteVm hi (hcareful hvm) hvm'
  | find e => exact h.find hi
  | lock e =>
    rw [System.perform]
    split
    · rename_i hlocked
      refine (ho.owing fun e' _ _ h' => ?_).finish none
      obtain ⟨heq, hfree⟩ := of_decide_eq_true h'
      exact absurd (heq ▸ hlocked) hfree
    · have hasked : e ∈ s.requested := h.asked i e nofun hi
      refine (ho.addLock hasked).goOnTombstone (fun e' h' => ?_) nofun
      rcases h' with h' | heq
      · exact decide_eq_true (.inl (of_decide_eq_true h').1)
      · exact decide_eq_true (.inl heq.symm)
  | mark e =>
    rw [System.perform]
    split
    · rename_i hnone
      refine (ho.owing fun e' _ hdoc h' => ?_).finish none
      exact absurd ((of_decide_eq_true h' : e = e') ▸ hnone) hdoc
    · rename_i hsome
      exact (ho.updateState hsome .pendingDelete).goOnTombstone
        (fun e' h' => decide_eq_true (.inl (of_decide_eq_true h'))) nofun
  | tombstone lock phase e rest => exact h.performTombstone hi hcareful

theorem step {event : Event} (h : Settled s) (hcareful : s.Careful event) : Settled (s.step event) := by
  cases event with
  | request i request =>
    rw [System.step]
    split
    · rename_i hnone
      cases request <;> exact (h.open_new hnone).goOn nofun nofun nofun nofun
    · exact h
  | call i goes =>
    rw [System.step]
    split
    · exact h
    · rename_i stage hi
      exact h.perform hi (hcareful stage hi)

theorem isSafe (h : Settled s) : s.Safe := by
  intro vm hvm e he hdeleted
  obtain ⟨id, hget⟩ := mem_values_iff.1 hvm
  exact h.safe e hdeleted ⟨id, vm, hget, he⟩

theorem isComplete (h : Settled s) : s.Complete := by
  intro hidle e he hunused
  by_contra hdoc
  rcases h.covered e he hdoc with howed | ⟨id, vm, hget, hmem⟩ | ⟨j, stage, -, hj, -⟩
  · exact howed
  · exact hunused vm (mem_values_iff.2 ⟨id, hget⟩) hmem
  · have hmem := mem_entries_iff.2 hj
    rw [hidle] at hmem
    cases hmem

end Inv

/-- **Deferred deletion is safe and complete** in every run whose hand-overs are safe: no VM refers to a deleted
document, and when no request is in progress, a document whose deletion was requested and to which no VM refers is
gone. -/
theorem deletion_deferred (docs : Ref → Option EntityState) (events : List Event)
    (hcareful : Meets System.step System.Careful (.start docs) events) :
    Always System.step (fun s => s.Safe ∧ s.Complete) (.start docs) events := by
  have hinv : Always System.step Settled (.start docs) events :=
    Runs.always_of_meets (fun _ _ h hstep => Inv.step h hstep) (Inv.start docs) hcareful
  exact hinv.mono fun _ h => ⟨h.isSafe, h.isComplete⟩

def sampleDocs (e : Ref) : Option EntityState :=
    if e = ⟨.flavor, "core"⟩ ∨ e = ⟨.image, "os"⟩ then some .ready else none

def sampleVm : Vm := ⟨"core", "os", []⟩

def created : List Event := [.request 0 (.createVm sampleVm), .call 0 true, .call 0 true, .call 0 true, .call 0 true]

def imageMarked : List Event :=
  [.request 0 (.delete ⟨.image, "os"⟩), .call 0 true, .call 0 true, .call 0 true, .call 0 true, .call 0 true,
    .call 0 true]

def vmDeleted : List Event :=
  [.request 0 (.deleteVm 0), .call 0 true, .call 0 true, .call 0 true, .call 0 true, .call 0 true, .call 0 true,
    .call 0 true]

theorem deletion_deferred_image :
    (Runs.run System.step (.start sampleDocs) (created ++ imageMarked)).docs ⟨.image, "os"⟩ = some .pendingDelete ∧
      (Runs.run System.step (.start sampleDocs) (created ++ imageMarked ++ vmDeleted)).docs ⟨.image, "os"⟩ = none ∧
      Always System.step (fun s => s.Safe ∧ s.Complete) (.start sampleDocs) (created ++ imageMarked ++ vmDeleted) :=
  ⟨by decide +kernel, by decide +kernel, deletion_deferred sampleDocs _ (by decide +kernel)⟩

/-- **The hand-overs that fail.**  A VM is posted between the query and the delete of the image that it is made from;
and the last VM of an image is deleted by a request that has read the image before it was marked. -/
theorem deletion_lost :
    ¬ Always System.step System.Safe (.start sampleDocs)
        [.request 0 (.createVm sampleVm), .call 0 true, .call 0 true, .call 0 true,
          .request 1 (.delete ⟨.image, "os"⟩), .call 1 true, .call 1 true, .call 1 true,
          .call 0 true, .call 1 true, .call 1 true] ∧
      ¬ Always System.step System.Complete (.start sampleDocs)
        (created ++ [.request 0 (.deleteVm 0), .call 0 true, .call 0 true, .call 0 true,
          .request 1 (.delete ⟨.image, "os"⟩), .call 1 true, .call 1 true, .call 1 true,
          .call 0 true, .call 1 true, .call 1 true, .call 1 true]) := by
  constructor
  · intro h
    have hsafe := h.run sampleVm (by decide +kernel) ⟨.image, "os"⟩ (by decide +kernel)
    revert hsafe
    decide +kernel
  · intro h
    have hgone := h.run (by decide +kernel) ⟨.image, "os"⟩ (by decide +kernel)
    revert hgone
    decide +kernel

end Photon.ApiFrontend.Deferred
