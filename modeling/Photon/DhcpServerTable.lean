import Mathlib.Algebra.Ring.Nat
import Photon.DhcpServer
import Photon.Outstanding
import Photon.Runs
/-!
# DhcpServerTable — the table of transactions is consistent

The map has an entry for exactly the routines that are not gone, each under its id (`Table`).  A routine leaves the map
when its report is taken, and only then can a routine with the same id be started.  A call is in one place: waiting, at
the lock, in a channel or received.
-/
namespace Photon.Slingshot

open List
open Keyed (LinkedMap)
open Outstanding (countP_eraseIdx sum_set)
open Runs (run Always)

/-! ## A consistent table -/

def Server.Active (s : Server) (id : TxnID) (r : Nat) : Prop :=
  ∃ routine, s.routines[r]? = some routine ∧ routine.id = id ∧ routine.status ≠ .gone

def Server.Serves (s : Server) (id : TxnID) (r : Nat) : Prop :=
  ∃ routine, s.routines[r]? = some routine ∧ routine.id = id ∧ routine.status = .running

/-- **The table of transactions is consistent.** -/
structure Consistent (s : Server) : Prop where
  contains_iff : ∀ id, (s.txnMap.get id).isSome = true ↔ ∃! r, s.Active id r
  apart : ∀ id r r', s.Serves id r → s.Serves id r' → r = r'
  ownEntry : ∀ r routine, s.routines[r]? = some routine → routine.status = .reporting → s.txnMap.get routine.id = some r
  discover : ∀ routine ∈ s.routines, routine.startedBy.messageType = .discover
  once : ((s.routines.flatMap Routine.received).map Call.number).Nodup

/-! ## The invariant -/

def Table (s : Server) : Prop := ∀ id r, s.txnMap.get id = some r ↔ s.Active id r

def Call.is (n : Nat) (call : Call) : Bool := call.number = n

def Routine.held (n : Nat) (routine : Routine) : Nat :=
    routine.channel.countP (Call.is n) + routine.received.countP (Call.is n)

/-- How often a call is held: it waits for the lock, has it, or is with a routine. -/
def held (s : Server) (n : Nat) : Nat :=
  s.waiting.countP (Call.is n) + (s.holder.toList.map Prod.fst).countP (Call.is n) +
    (s.routines.map (Routine.held n)).sum

structure Inv (s : Server) : Prop where
  table : Table s
  discover : ∀ routine ∈ s.routines, routine.startedBy.messageType = .discover
  held_le : ∀ n, held s n ≤ 1
  fresh : ∀ n, s.nextCall ≤ n → held s n = 0

section

variable {s : Server} {r : Nat}

theorem getElem?_set_cases {α : Type} {l : List α} {i : Nat} {a b : α} (h : (l.set r b)[i]? = some a) :
    i = r ∧ a = b ∨ i ≠ r ∧ l[i]? = some a := by
  by_cases heq : r = i
  · subst heq
    rw [getElem?_set_self'] at h
    obtain ⟨old, -, hb⟩ := Option.map_eq_some_iff.1 h
    exact .inl ⟨rfl, hb.symm⟩
  · rw [getElem?_set_ne heq] at h
    exact .inr ⟨Ne.symm heq, h⟩

theorem getElem?_set_of_some {α : Type} {l : List α} {a : α} (h : l[r]? = some a) (b : α) :
    (l.set r b)[r]? = some b := by
  rw [getElem?_set_self', h]
  rfl

variable {routine : Routine}

theorem Table.set (h : Table s) (hr : s.routines[r]? = some routine) (next : Routine)
    (hid : next.id = routine.id) (hgone : routine.status ≠ .gone) (hnext : next.status ≠ .gone) (waiting : List Call)
    (holder : Option (Call × Section)) (nextCall : Nat) :
      Table ⟨s.txnMap, s.routines.set r next, waiting, holder, nextCall⟩ := by
  intro id i
  refine (h id i).trans ⟨fun hactive => ?_, fun hactive => ?_⟩
  · obtain ⟨old, hi, holdid, hold⟩ := hactive
    by_cases heq : i = r
    · subst heq
      cases hr.symm.trans hi
      exact ⟨next, getElem?_set_of_some hr next, hid.trans holdid, hnext⟩
    · exact ⟨old, (getElem?_set_ne (Ne.symm heq)).trans hi, holdid, hold⟩
  · obtain ⟨new, hi, hnewid, hnew⟩ := hactive
    rcases getElem?_set_cases hi with ⟨rfl, rfl⟩ | ⟨-, hi⟩
    · exact ⟨routine, hr, hid.symm.trans hnewid, hgone⟩
    · exact ⟨new, hi, hnewid, hnew⟩

theorem Table.gone (h : Table s) (hr : s.routines[r]? = some routine) (hgone : routine.status ≠ .gone) :
    Table { s with
      txnMap := s.txnMap.remove routine.id
      routines := s.routines.set r { routine with status := .gone } } := by
  have hown : s.txnMap.get routine.id = some r := (h _ _).2 ⟨routine, hr, rfl, hgone⟩
  intro id i
  rw [LinkedMap.get_remove]
  split
  · rename_i hid
    constructor
    · intro hnone
      cases hnone
    · intro hactive
      obtain ⟨new, hi, hnewid, hnew⟩ := hactive
      rcases getElem?_set_cases hi with ⟨-, rfl⟩ | ⟨hne, hi⟩
      · exact absurd rfl hnew
      · have hother : s.txnMap.get routine.id = some i := (h _ _).2 ⟨new, hi, hnewid.trans hid, hnew⟩
        exact absurd (Option.some.inj (hother.symm.trans hown)) hne
  · rename_i hid
    refine (h id i).trans ⟨fun hactive => ?_, fun hactive => ?_⟩
    · obtain ⟨old, hi, holdid, hold⟩ := hactive
      have hne : r ≠ i := by
        intro heq
        subst heq
        cases hr.symm.trans hi
        exact hid holdid.symm
      exact ⟨old, (getElem?_set_ne hne).trans hi, holdid, hold⟩
    · obtain ⟨new, hi, hnewid, hnew⟩ := hactive
      rcases getElem?_set_cases hi with ⟨-, rfl⟩ | ⟨-, hi⟩
      · exact absurd rfl hnew
      · exact ⟨new, hi, hnewid, hnew⟩

theorem Table.started (h : Table s) (routine : Routine) (hnone : s.txnMap.get routine.id = none)
    (hrunning : routine.status ≠ .gone) (holder : Option (Call × Section)) : Table { s with
      txnMap := s.txnMap.put routine.id s.routines.length, routines := s.routines ++ [routine], holder := holder } := by
  intro id i
  rw [LinkedMap.get_put]
  split
  · rename_i hid
    constructor
    · intro heq
      cases heq
      exact ⟨routine, getElem?_concat_length, hid.symm, hrunning⟩
    · intro hactive
      obtain ⟨new, hi, hnewid, hnew⟩ := hactive
      rcases Nat.lt_trichotomy i s.routines.length with hlt | rfl | hgt
      · have hold : s.routines[i]? = some new := (getElem?_append_left hlt).symm.trans hi
        have hget : s.txnMap.get id = some i := (h _ _).2 ⟨new, hold, hnewid, hnew⟩
        rw [hid, hnone] at hget
        cases hget
      · rfl
      · rw [getElem?_eq_none (by rw [length_append]; exact hgt)] at hi
        cases hi
  · rename_i hid
    refine (h id i).trans ⟨fun hactive => ?_, fun hactive => ?_⟩
    · obtain ⟨old, hi, holdid, hold⟩ := hactive
      exact ⟨old, (List.getElem?_append_left (List.getElem?_eq_some_iff.1 hi).1).trans hi, holdid, hold⟩
    · obtain ⟨new, hi, hnewid, hnew⟩ := hactive
      rcases Nat.lt_trichotomy i s.routines.length with hlt | rfl | hgt
      · exact ⟨new, (getElem?_append_left hlt).symm.trans hi, hnewid, hnew⟩
      · cases getElem?_concat_length.symm.trans hi
        exact absurd hnewid.symm hid
      · rw [getElem?_eq_none (by rw [length_append]; exact hgt)] at hi
        cases hi

/-! ## Where calls are -/

theorem held_set (hr : s.routines[r]? = some routine) (next : Routine) (n : Nat) :
    ((s.routines.set r next).map (Routine.held n)).sum + routine.held n = (s.routines.map (Routine.held n)).sum +
    next.held n :=
  sum_set (Routine.held n) hr next

section

variable (h : Inv s)
include h

theorem Inv.of_held_le {s' : Server} (htable : Table s')
    (hdiscover : ∀ routine ∈ s'.routines, routine.startedBy.messageType = .discover) (hheld : ∀ n, held s' n ≤ held s n)
    (hnext : s'.nextCall = s.nextCall) : Inv s' := by
  refine ⟨htable, hdiscover, fun n => le_trans (hheld n) (h.held_le n), fun n hn => ?_⟩
  have hzero := h.fresh n (hnext ▸ hn)
  have hle := hheld n
  omega

theorem Inv.discover_set {next : Routine} (hr : s.routines[r]? = some routine)
    (hstarted : next.startedBy = routine.startedBy) :
    ∀ routine' ∈ s.routines.set r next, routine'.startedBy.messageType = .discover := by
  intro routine' hmem
  rcases mem_or_eq_of_mem_set hmem with hold | rfl
  · exact h.discover routine' hold
  · rw [hstarted]
    exact h.discover routine (mem_of_getElem? hr)

theorem Inv.set {next : Routine} (hr : s.routines[r]? = some routine) (hid : next.id = routine.id)
    (hstarted : next.startedBy = routine.startedBy) (hgone : routine.status ≠ .gone) (hnext : next.status ≠ .gone)
    (hheld : ∀ n, next.held n = routine.held n) : Inv { s with routines := s.routines.set r next } := by
  refine h.of_held_le (h.table.set hr next hid hgone hnext _ _ _) ?_ ?_ rfl
  · exact h.discover_set hr hstarted
  · intro n
    have hsum := held_set hr next n
    have hsame := hheld n
    simp only [held]
    omega

/-! ## Steps -/

theorem Inv.serveDHCP (req : Request) (serverID : Option String) : Inv (s.serveDHCP req serverID) := by
  have hcall : Inv { s with waiting := s.waiting ++ [⟨s.nextCall, req⟩], nextCall := s.nextCall + 1 } := by
    have hheld : ∀ n, held { s with waiting := s.waiting ++ [⟨s.nextCall, req⟩], nextCall := s.nextCall + 1 } n =
        held s n + if s.nextCall = n then 1 else 0 := by
      intro n
      simp only [held, countP_append, countP_singleton, Call.is, decide_eq_true_eq]
      omega
    refine ⟨h.table, h.discover, fun n => ?_, fun n hn => ?_⟩
    · rw [hheld n]
      split
      · rename_i heq
        have hzero := h.fresh n (Nat.le_of_eq heq)
        omega
      · exact h.held_le n
    · have hlt : s.nextCall < n := hn
      rw [hheld n, if_neg (Nat.ne_of_lt hlt), h.fresh n (Nat.le_of_lt hlt)]
  cases serverID with
  | none => exact h
  | some ip =>
    simp only [Server.serveDHCP]
    split
    · split
      · exact h
      · exact h
      · exact hcall
    · exact h

theorem Inv.lock (k : Nat) : Inv (s.lock k) := by
  rw [Server.lock]
  split
  · rename_i call hholder hk
    refine h.of_held_le h.table h.discover (fun n => ?_) rfl
    have hcount := countP_eraseIdx hk (Call.is n)
    simp only [held, hholder, Option.toList_some, Option.toList_none, map_singleton, map_nil,
      countP_singleton, countP_nil]
    omega
  · exact h

theorem Inv.takeReport (r : Nat) : Inv (s.takeReport r) := by
  rw [Server.takeReport]
  split
  · rename_i call routine hholder hr
    split
    · rename_i hreporting
      have hgone : routine.status ≠ .gone := by
        rw [hreporting]
        decide
      refine h.of_held_le (h.table.gone hr hgone) ?_ ?_ rfl
      · exact h.discover_set hr rfl
      · intro n
        have hsum := held_set hr { routine with status := .gone } n
        have hsame : Routine.held n { routine with status := .gone } = routine.held n := rfl
        simp only [held]
        omega
    · exact h
  · exact h

theorem Inv.drained : Inv s.drained := by
  rw [Server.drained]
  split
  · rename_i call hholder
    split
    · exact h
    · split
      · refine h.of_held_le h.table h.discover (fun n => ?_) rfl
        simp only [held, hholder]
        exact le_refl _
      · rename_i hnone
        split
        · rename_i hdiscover
          refine h.of_held_le (h.table.started ⟨generateTxnID call.req, call.req, [], [], false, [], .running⟩ hnone
            (by intro heq; cases heq) _) ?_ ?_ rfl
          · intro routine hmem
            rcases mem_append.1 hmem with hold | hnew
            · exact h.discover routine hold
            · rw [mem_singleton.1 hnew]
              exact hdiscover
          · intro n
            simp only [held, hholder, map_append, sum_append]
            exact le_refl _
        · refine h.of_held_le h.table h.discover (fun n => ?_) rfl
          simp only [held, hholder, Option.toList_none, map_nil, countP_nil]
          omega
  · exact h

theorem Inv.post : Inv s.post := by
  have hdrop : Inv { s with holder := none } := by
    refine h.of_held_le h.table h.discover (fun n => ?_) rfl
    simp only [held, Option.toList_none, map_nil, countP_nil]
    omega
  rw [Server.post]
  split
  · rename_i call hholder
    split
    · exact hdrop
    · rename_i r hget
      split
      · exact hdrop
      · rename_i routine hr
        split
        · obtain ⟨active, hactive, -, hgone⟩ := (h.table _ _).1 hget
          cases hr.symm.trans hactive
          have htable : Table { s with
              routines := s.routines.set r { routine with channel := routine.channel ++ [call] }
              holder := none } :=
            h.table.set hr { routine with channel := routine.channel ++ [call] } rfl hgone hgone _ _ _
          refine h.of_held_le htable ?_ ?_ rfl
          · exact h.discover_set hr rfl
          · intro n
            have hsum := held_set hr { routine with channel := routine.channel ++ [call] } n
            have hmore : Routine.held n { routine with channel := routine.channel ++ [call] } =
                routine.held n + [call].countP (Call.is n) := by
              simp only [Routine.held, countP_append]
              omega
            simp only [held, hholder, Option.toList_some, Option.toList_none, map_singleton, map_nil, countP_nil]
            omega
        · exact hdrop
  · exact h

end

theorem Routine.serve_spec {call : Call} {channel : List Call} (hchannel : routine.channel = call :: channel)
    (hrunning : routine.status = .running) (newTxnOk writeOk : Bool) :
    (routine.serve call channel newTxnOk writeOk).id = routine.id ∧
    (routine.serve call channel newTxnOk writeOk).startedBy = routine.startedBy ∧
    (routine.serve call channel newTxnOk writeOk).status ≠ .gone ∧
    ∀ n, (routine.serve call channel newTxnOk writeOk).held n = routine.held n := by
  have hheld : ∀ n, channel.countP (Call.is n) + (routine.received ++ [call]).countP (Call.is n) = routine.held n := by
    intro n
    simp only [Routine.held, hchannel, countP_append, countP_cons, countP_nil]
    omega
  have hstatus : (if writeOk then Status.running else .ended) ≠ .gone := by cases writeOk <;> decide
  rw [Routine.serve]
  split
  · split
    · exact ⟨rfl, rfl, hstatus, hheld⟩
    · exact ⟨rfl, rfl, hstatus, hheld⟩
    · refine ⟨rfl, rfl, ?_, hheld⟩
      dsimp only
      rw [hrunning]
      decide
  · refine ⟨rfl, rfl, ?_, hheld⟩
    intro hended
    cases hended

theorem Inv.receive (h : Inv s) (r : Nat) (newTxnOk writeOk : Bool) : Inv (s.receive r newTxnOk writeOk) := by
  rw [Server.receive]
  split
  · rename_i routine hr
    split
    · rename_i hrunning
      split
      · exact h
      · rename_i call channel hchannel
        obtain ⟨hid, hstarted, hgone, hheld⟩ := Routine.serve_spec hchannel hrunning newTxnOk writeOk
        exact h.set hr hid hstarted (by rw [hrunning]; decide) hgone hheld
    · exact h
  · exact h

theorem Inv.move (h : Inv s) (r : Nat) {current next : Status} (hcurrent : current ≠ .gone) (hnext : next ≠ .gone) :
    Inv (s.move r current next) := by
  rw [Server.move]
  split
  · rename_i routine hr
    split
    · rename_i hstatus
      exact h.set hr rfl rfl (by rw [hstatus]; exact hcurrent) hnext fun _ => rfl
    · exact h
  · exact h

/-- **A step keeps the invariant.** -/
theorem Inv.step (s : Server) (event : Event) (h : Inv s) : Inv (s.step event) := by
  cases event with
  | serveDHCP req serverID => exact h.serveDHCP req serverID
  | lock k => exact h.lock k
  | takeReport r => exact h.takeReport r
  | drained => exact h.drained
  | post => exact h.post
  | receive r newTxnOk writeOk => exact h.receive r newTxnOk writeOk
  | timeout r | report r => exact h.move r (by decide) (by decide)

theorem inv_start : Inv .start := by
  refine ⟨fun id r => ⟨nofun, fun h => ?_⟩, nofun, fun n => Nat.zero_le 1, fun _ _ => rfl⟩
  · obtain ⟨routine, hr, -⟩ := h
    cases hr

theorem count_received (s : Server) (n : Nat) :
    ((s.routines.flatMap Routine.received).map Call.number).count n ≤ held s n := by
  have hcount : ∀ routines : List Routine, ((routines.flatMap Routine.received).map Call.number).count n ≤
      (routines.map (Routine.held n)).sum := by
    intro routines
    induction routines with
    | nil => exact le_refl _
    | cons routine routines ih =>
      have hreceived : (routine.received.map Call.number).count n = routine.received.countP (Call.is n) := by
        rw [count, countP_map]
        rfl
      simp only [flatMap_cons, map_append, count_append, map_cons, sum_cons, hreceived, Routine.held]
      omega
  have hle := hcount s.routines
  rw [held]
  omega

theorem Inv.consistent (h : Inv s) : Consistent s := by
  have hsame : ∀ {id r r'}, s.Active id r → s.Active id r' → r = r' := by
    intro id r r' hr hr'
    exact Option.some.inj (((h.table id r).2 hr).symm.trans ((h.table id r').2 hr'))
  refine ⟨fun id => ⟨fun hsome => ?_, fun hunique => ?_⟩, ?_, ?_, h.discover, ?_⟩
  · obtain ⟨r, hr⟩ := Option.isSome_iff_exists.1 hsome
    have hactive := (h.table id r).1 hr
    exact ⟨r, hactive, fun r' hr' => hsame hr' hactive⟩
  · obtain ⟨r, hactive, -⟩ := hunique
    exact Option.isSome_iff_exists.2 ⟨r, (h.table id r).2 hactive⟩
  · intro id r r' hr hr'
    obtain ⟨routine, hget, hid, hrunning⟩ := hr
    obtain ⟨routine', hget', hid', hrunning'⟩ := hr'
    exact hsame ⟨routine, hget, hid, by rw [hrunning]; decide⟩ ⟨routine', hget', hid', by rw [hrunning']; decide⟩
  · intro r routine hr hreporting
    exact (h.table _ _).2 ⟨routine, hr, rfl, by rw [hreporting]; decide⟩
  · rw [nodup_iff_count_le_one]
    intro n
    exact le_trans (count_received s n) (h.held_le n)

end

/-- **The table of transactions is consistent**, in every interleaving of calls, routines and reports. -/
theorem dhcpServer_consistent (events : List Event) : Always Server.step Consistent .start events :=
  (Runs.always_of_inv Inv.step events inv_start).mono fun _ h => h.consistent

/-- An id is used again: the report of the first routine is taken by the call that starts the second. -/
example :
    let discover : Request := ⟨.discover, none, 1, [0xde, 0xad], [0, 1], none⟩
    ((run Server.step .start [.serveDHCP discover (some "10.0.0.1"), .lock 0, .drained, .post,
      .receive 0 true true, .timeout 0,
      .report 0, .serveDHCP discover (some "10.0.0.1"), .lock 0, .takeReport 0, .drained, .post]).routines.map
        Routine.status,
     (run Server.step .start [.serveDHCP discover (some "10.0.0.1"), .lock 0, .drained, .post,
      .receive 0 true true, .timeout 0,
      .report 0, .serveDHCP discover (some "10.0.0.1"), .lock 0, .takeReport 0, .drained, .post]).txnMap.values) =
    ([.gone, .running], [1]) := by decide

end Photon.Slingshot
