import Photon.Announcements
import Photon.Runs
/-!
# ServerSets — what the listeners of a server set are told

`ZookeeperServerSet` counts the node paths of each address and tells its listeners of the first and of the last; a
listener that joins is told of the addresses that are there.  `HeartbeatServerSet` moves servers between an active and
an inactive set, and tells a listener that joins of both.  Both are monitors: the calls come one after the other.
-/
namespace Photon.Common.ServerSets

open List
open Runs (Always)
open Announcements (Announcement Book Agree stands)
open Function (update update_of_ne update_self)

variable {L A P : Type}

/-! ## ZookeeperServerSet -/

inductive Data (A : Type) where
  | null
  | address (address : A)
  | malformed
  deriving DecidableEq

structure ZookeeperServerSet (L A P : Type) where
  /-- The addresses with their node paths, a `HashMultimap`. -/
  servers : List (A × P)
  listeners : List L
  needToPopulateServers : Bool
  /-- What the listeners have been told, and what of it since they were last added. -/
  log : Book L A
  recent : Book L A
  live : P → Bool

inductive Fetch where
  | data
  | noNode
  | fails
  deriving DecidableEq

namespace ZookeeperServerSet

def create (subscribeToUpdates : Bool) : ZookeeperServerSet L A P where
  servers := []
  listeners := []
  needToPopulateServers := !subscribeToUpdates
  log := fun _ => []
  recent := fun _ => []
  live := fun _ => false

variable [DecidableEq L] [DecidableEq A] [DecidableEq P]

def getServers (s : ZookeeperServerSet L A P) : List A := (s.servers.map Prod.fst).dedup

def nodes (servers : List (A × P)) (address : A) : List P :=
    (servers.filter fun p => decide (p.1 = address)).map Prod.snd

def tellAll (s : ZookeeperServerSet L A P) (announcement : Announcement A) : ZookeeperServerSet L A P :=
  { s with log := s.log.tellAll s.listeners announcement, recent := s.recent.tellAll s.listeners announcement }

/-- The second component is false if the payload does not deserialize. -/
def addServer (s : ZookeeperServerSet L A P) (data : Data A) (path : P) : ZookeeperServerSet L A P × Bool :=
  match data with
  | .null => (s, true)
  | .malformed => (s, false)
  | .address address =>
    if (address, path) ∈ s.servers then (s, true)
    else
      let s' := { s with servers := s.servers ++ [(address, path)] }
      if (nodes s'.servers address).length = 1 then (s'.tellAll (.added address), true) else (s', true)

def removeServer (s : ZookeeperServerSet L A P) (data : Data A) (path : P) : ZookeeperServerSet L A P × Bool :=
  match data with
  | .address address =>
    if (address, path) ∈ s.servers then
      let s' := { s with servers := s.servers.filter fun p => decide (p ≠ (address, path)) }
      if (nodes s'.servers address).isEmpty then (s'.tellAll (.removed address), true) else (s', true)
    else (s, true)
  | _ => (s, false)

def childAdded (s : ZookeeperServerSet L A P) (data : P → Data A) (path : P) : ZookeeperServerSet L A P × Bool :=
  { s with live := Function.update s.live path true }.addServer (data path) path

def childRemoved (s : ZookeeperServerSet L A P) (data : P → Data A) (path : P) : ZookeeperServerSet L A P × Bool :=
  { s with live := Function.update s.live path false }.removeServer (data path) path

def readNodes (s : ZookeeperServerSet L A P) (data : P → Data A) : List (P × Fetch) → ZookeeperServerSet L A P × Bool
  | [] => (s, true)
  | (_, .noNode) :: rest => s.readNodes data rest
  | (_, .fails) :: _ => (s, false)
  | (path, .data) :: rest =>
    match s.childAdded data path with
    | (s', true) => s'.readNodes data rest
    | (s', false) => (s', false)

def populateServers (s : ZookeeperServerSet L A P) (data : P → Data A) :
    Option (List (P × Fetch)) → ZookeeperServerSet L A P × Bool
  | none => (s, false)
  | some nodes => s.readNodes data nodes

def renew (s : ZookeeperServerSet L A P) (listener : L) : ZookeeperServerSet L A P :=
  if listener ∈ s.listeners then s else { s with recent := Function.update s.recent listener [] }

/-- The part of `addChangeListener` after the servers have been read. -/
def join (s : ZookeeperServerSet L A P) (listener : L) : ZookeeperServerSet L A P :=
  let replay := s.getServers.map Announcement.added
  { s.renew listener with
    log := (s.renew listener).log.tell listener replay
    recent := (s.renew listener).recent.tell listener replay
    listeners := s.listeners.insert listener }

/-- With what `populateServers` finds, if it is called. -/
def addChangeListener (s : ZookeeperServerSet L A P) (data : P → Data A) (listener : L)
    (found : Option (List (P × Fetch))) : ZookeeperServerSet L A P :=
  if s.needToPopulateServers then
    match s.populateServers data found with
    | (s', true) => { s' with needToPopulateServers := false }.join listener
    | (s', false) => s'
  else s.join listener

def removeChangeListener (s : ZookeeperServerSet L A P) (listener : L) : ZookeeperServerSet L A P :=
  { s with listeners := s.listeners.filter fun l => decide (l ≠ listener) }

inductive Event (L P : Type) where
  | addChangeListener (listener : L) (found : Option (List (P × Fetch)))
  | removeChangeListener (listener : L)
  | childAdded (path : P)
  | childRemoved (path : P)

/-- The payload of a path never changes. -/
def step (data : P → Data A) (s : ZookeeperServerSet L A P) : Event L P → ZookeeperServerSet L A P
  | .addChangeListener listener found => s.addChangeListener data listener found
  | .removeChangeListener listener => s.removeChangeListener listener
  | .childAdded path => (s.childAdded data path).1
  | .childRemoved path => (s.childRemoved data path).1

/-- What stands for every listener, counted since it was last added, are the addresses that have a live node path, and
so are the servers. -/
def Truthful (data : P → Data A) (s : ZookeeperServerSet L A P) : Prop :=
  Agree s.listeners s.recent (· ∈ s.getServers) ∧
    ∀ address, address ∈ s.getServers ↔ ∃ path, s.live path = true ∧ data path = .address address

/-- The pairs of the multimap are those of the live paths, and every listener knows their addresses. -/
structure Inv (data : P → Data A) (s : ZookeeperServerSet L A P) : Prop where
  told : Agree s.listeners s.recent fun address => ∃ path, (address, path) ∈ s.servers
  exact : ∀ address path, (address, path) ∈ s.servers ↔ s.live path = true ∧ data path = .address address

variable {address : A}

omit [DecidableEq L] [DecidableEq P] in
theorem mem_getServers {s : ZookeeperServerSet L A P} :
    address ∈ s.getServers ↔ ∃ path, (address, path) ∈ s.servers := by
  simp only [getServers, mem_dedup, mem_map, Prod.exists, exists_and_right, exists_eq_right]

omit [DecidableEq P] in
theorem mem_nodes {servers : List (A × P)} {path : P} : path ∈ nodes servers address ↔ (address, path) ∈ servers := by
  simp [nodes]

omit [DecidableEq P] in
theorem length_nodes_append {servers : List (A × P)} {path : P} :
    (nodes (servers ++ [(address, path)]) address).length = 1 ↔ ¬ ∃ path', (address, path') ∈ servers := by
  have hlength : (nodes (servers ++ [(address, path)]) address).length = (nodes servers address).length + 1 := by
    simp [nodes, filter_append]
  rw [hlength, Nat.add_eq_right, length_eq_zero_iff, eq_nil_iff_forall_not_mem]
  simp only [mem_nodes, not_exists]

omit [DecidableEq A] [DecidableEq P] in
theorem exists_mem_append {servers : List (A × P)} {path : P} {address' : A} :
    (∃ path', (address', path') ∈ servers ++ [(address, path)]) ↔ (∃ path', (address', path') ∈ servers) ∨
    address' = address := by
  simp [exists_or]

section

variable {data : P → Data A} {s : ZookeeperServerSet L A P}

omit [DecidableEq L] [DecidableEq P] in
theorem Inv.truthful (h : Inv data s) : Truthful data s := by
  refine ⟨h.told.congr fun address => mem_getServers.symm, fun address => ?_⟩
  rw [mem_getServers]
  exact exists_congr fun path => h.exact address path

omit [DecidableEq L] in
theorem Inv.append (h : Inv data s) {address : A} {path : P} (hdata : data path = .address address) :
    ∀ address' path', (address', path') ∈ s.servers ++ [(address, path)] ↔
      update s.live path true path' = true ∧ data path' = .address address' := by
  intro address' path'
  rw [mem_append, mem_singleton, h.exact, Prod.mk.injEq]
  by_cases heq : path' = path
  · subst heq
    simp only [hdata, Data.address.injEq, update_self]
    tauto
  · simp only [heq, and_false, or_false, update_of_ne heq]

theorem Inv.childAdded (h : Inv data s) (path : P) : Inv data (s.childAdded data path).1 := by
  simp only [ZookeeperServerSet.childAdded, addServer]
  -- a path without an address adds no pair
  have hother : (∀ address, data path ≠ .address address) → Inv data { s with live := update s.live path true } := by
    intro hdata
    refine ⟨h.told, fun address' path' => ?_⟩
    rw [h.exact]
    by_cases heq : path' = path
    · subst heq
      simp only [hdata address', and_false]
    · simp only [update_of_ne heq]
  cases hdata : data path with
  | null | malformed => exact hother fun address hne => by rw [hdata] at hne; cases hne
  | address address =>
    simp only
    split
    · rename_i hmem
      refine ⟨h.told, fun address' path' => ?_⟩
      rw [← h.append hdata, mem_append, mem_singleton]
      refine ⟨.inl, fun hcase => hcase.elim id fun heq => ?_⟩
      rw [heq]
      exact hmem
    · rename_i hnew
      split
      · exact ⟨(h.told.tellAll_added address).congr fun address' => exists_mem_append.symm, h.append hdata⟩
      · rename_i hlength
        rw [length_nodes_append, not_not] at hlength
        refine ⟨h.told.congr fun address' => ?_, h.append hdata⟩
        rw [exists_mem_append]
        exact ⟨.inl, fun hcase => hcase.elim id fun heq => heq ▸ hlength⟩

omit [DecidableEq L] in
theorem Inv.filter (h : Inv data s) {address : A} {path : P} (hdata : data path = .address address) :
    ∀ address' path', (address', path') ∈ s.servers.filter (fun p => decide (p ≠ (address, path))) ↔
      update s.live path false path' = true ∧ data path' = .address address' := by
  intro address' path'
  rw [mem_filter, h.exact]
  by_cases heq : path' = path
  · subst heq
    simp only [hdata, Data.address.injEq, update_self, Bool.false_eq_true, false_and, iff_false,
      decide_eq_true_eq, ne_eq, Prod.mk.injEq, and_true]
    intro hcase
    exact hcase.2 hcase.1.2.symm
  · simp only [update_of_ne heq, ne_eq, Prod.mk.injEq, heq, and_false, not_false_eq_true, decide_true, and_true]

theorem Inv.childRemoved (h : Inv data s) (path : P) : Inv data (s.childRemoved data path).1 := by
  simp only [ZookeeperServerSet.childRemoved, removeServer]
  have hother : (∀ address, data path = .address address → (address, path) ∉ s.servers) →
      Inv data { s with live := update s.live path false } := by
    intro hnone
    refine ⟨h.told, fun address' path' => ?_⟩
    by_cases heq : path' = path
    · subst heq
      simp only [update_self, Bool.false_eq_true, false_and, iff_false]
      exact fun hmem => hnone address' ((h.exact address' path').1 hmem).2 hmem
    · simp only [update_of_ne heq]
      exact h.exact address' path'
  cases hdata : data path with
  | null | malformed => exact hother fun address hne => by rw [hdata] at hne; cases hne
  | address address =>
    simp only
    split
    · split
      · rename_i hempty
        rw [List.isEmpty_iff, List.eq_nil_iff_forall_not_mem] at hempty
        simp only [mem_nodes] at hempty
        refine ⟨(h.told.tellAll_removed address).congr fun address' => ?_, h.filter hdata⟩
        constructor
        · rintro ⟨⟨path', hmem⟩, hne⟩
          exact ⟨path', mem_filter.2 ⟨hmem, by simp [hne]⟩⟩
        · rintro ⟨path', hmem⟩
          exact ⟨⟨path', mem_of_mem_filter hmem⟩, fun heq => hempty path' (heq ▸ hmem)⟩
      · rename_i hleft
        rw [List.isEmpty_iff] at hleft
        obtain ⟨path₀, hpath₀⟩ := exists_mem_of_ne_nil _ hleft
        rw [mem_nodes] at hpath₀
        refine ⟨h.told.congr fun address' => ⟨?_, fun hcase => hcase.imp fun _ => mem_of_mem_filter⟩, h.filter hdata⟩
        rintro ⟨path', hmem⟩
        by_cases heq : address' = address
        · exact ⟨path₀, heq ▸ hpath₀⟩
        · exact ⟨path', mem_filter.2 ⟨hmem, by simp [heq]⟩⟩
    · rename_i hnot
      refine hother fun address' hdata' => ?_
      obtain rfl := Data.address.inj (hdata.symm.trans hdata')
      exact hnot

theorem Inv.readNodes : ∀ (nodes : List (P × Fetch)) {s : ZookeeperServerSet L A P}, Inv data s →
    Inv data (s.readNodes data nodes).1
  | [], _, h => h
  | (_, .noNode) :: rest, _, h => readNodes rest h
  | (_, .fails) :: _, _, h => h
  | (path, .data) :: rest, s, h => by
    have hnext := h.childAdded path
    rw [ZookeeperServerSet.readNodes]
    split <;> rename_i s' heq <;> rw [heq] at hnext
    · exact readNodes rest hnext
    · exact hnext

omit [DecidableEq P] in
theorem Inv.renew (h : Inv data s) (listener : L) :
    Inv data (s.renew listener) ∧ ((s.renew listener).recent listener = [] ∨ listener ∈ s.listeners) := by
  unfold ZookeeperServerSet.renew
  split
  · rename_i hmem
    exact ⟨h, .inr hmem⟩
  · rename_i hnot
    refine ⟨⟨fun listener' hlistener' => ?_, h.exact⟩, .inl (update_self ..)⟩
    have hne : listener' ≠ listener := fun heq => hnot (heq ▸ hlistener')
    simp only [update_of_ne hne]
    exact h.told listener' hlistener'

omit [DecidableEq A] [DecidableEq P] in
@[simp] theorem renew_servers (listener : L) : (s.renew listener).servers = s.servers := by
  unfold ZookeeperServerSet.renew
  split <;> rfl

omit [DecidableEq A] [DecidableEq P] in
@[simp] theorem renew_listeners (listener : L) : (s.renew listener).listeners = s.listeners := by
  unfold ZookeeperServerSet.renew
  split <;> rfl

omit [DecidableEq P] in
theorem Inv.join (h : Inv data s) (listener : L) : Inv data (s.join listener) := by
  obtain ⟨hrenew, hrecent⟩ := h.renew listener
  have htold := hrenew.told
  rw [renew_listeners, renew_servers] at htold
  refine ⟨?_, hrenew.exact⟩
  simp only [ZookeeperServerSet.join, renew_servers]
  refine htold.join fun address => ?_
  rw [Announcements.stands_append_added, mem_getServers]
  rcases hrecent with hnil | hmem
  · rw [hnil, Announcements.stands_nil]
    simp only [Bool.false_eq_true, false_or]
  · rw [htold listener hmem]
    exact or_self_iff

theorem Inv.step (h : Inv data s) (e : Event L P) : Inv data (s.step data e) := by
  cases e with
  | addChangeListener listener found =>
    simp only [ZookeeperServerSet.step, addChangeListener]
    split
    · have hpopulated : Inv data (s.populateServers data found).1 := by
        cases found with
        | none => exact h
        | some nodes => exact Inv.readNodes nodes h
      split
      · rename_i s' heq
        rw [heq] at hpopulated
        have hread : Inv data { s' with needToPopulateServers := false } := ⟨hpopulated.told, hpopulated.exact⟩
        exact hread.join listener
      · rename_i s' heq
        rw [heq] at hpopulated
        exact hpopulated
    · exact h.join listener
  | removeChangeListener listener => exact ⟨h.told.sub fun l hl => (mem_filter.1 hl).1, h.exact⟩
  | childAdded path => exact h.childAdded path
  | childRemoved path => exact h.childRemoved path

omit [DecidableEq L] [DecidableEq P] in
theorem inv_create (data : P → Data A) (subscribeToUpdates : Bool) :
    Inv data (create subscribeToUpdates : ZookeeperServerSet L A P) where
  told _ hlistener := by cases hlistener
  exact address path := by simp [create]

end

end ZookeeperServerSet

/-! ## HeartbeatServerSet -/

structure HeartbeatServerSet (L A : Type) where
  listeners : List L
  activeServers : List A
  inactiveServers : List A
  log : Book L A

namespace HeartbeatServerSet

def create : HeartbeatServerSet L A := ⟨[], [], [], fun _ => []⟩

variable [DecidableEq L] [DecidableEq A]

def addChangeListener (s : HeartbeatServerSet L A) (listener : L) : HeartbeatServerSet L A :=
  { s with
    listeners := s.listeners.insert listener
    log := s.log.tell listener (s.activeServers.map .added ++ s.inactiveServers.map .removed) }

def removeChangeListener (s : HeartbeatServerSet L A) (listener : L) : HeartbeatServerSet L A :=
  { s with listeners := s.listeners.filter fun l => decide (l ≠ listener) }

def pingSucceeded (s : HeartbeatServerSet L A) (server : A) : HeartbeatServerSet L A :=
  if server ∈ s.activeServers then s
  else
    { s with
      activeServers := s.activeServers.insert server
      inactiveServers := s.inactiveServers.filter fun a => decide (a ≠ server)
      log := s.log.tellAll s.listeners (.added server) }

def pingFailed (s : HeartbeatServerSet L A) (server : A) : HeartbeatServerSet L A :=
  if server ∈ s.inactiveServers then s
  else
    { s with
      inactiveServers := s.inactiveServers.insert server
      activeServers := s.activeServers.filter fun a => decide (a ≠ server)
      log := s.log.tellAll s.listeners (.removed server) }

inductive Event (L A : Type) where
  | addChangeListener (listener : L)
  | removeChangeListener (listener : L)
  | pingSucceeded (server : A)
  | pingFailed (server : A)

def step (s : HeartbeatServerSet L A) : Event L A → HeartbeatServerSet L A
  | .addChangeListener listener => s.addChangeListener listener
  | .removeChangeListener listener => s.removeChangeListener listener
  | .pingSucceeded server => s.pingSucceeded server
  | .pingFailed server => s.pingFailed server

/-- What stands for every listener are the active servers. -/
def Truthful (s : HeartbeatServerSet L A) : Prop := Agree s.listeners s.log (· ∈ s.activeServers)

/-- No server is active and inactive; and what stands for anyone who has ever listened is one or the other. -/
structure Inv (s : HeartbeatServerSet L A) : Prop where
  told : Truthful s
  apart : ∀ server ∈ s.activeServers, server ∉ s.inactiveServers
  known : ∀ listener server, stands (s.log listener) server = true → server ∈ s.activeServers ∨
    server ∈ s.inactiveServers

section

variable {s : HeartbeatServerSet L A}

theorem stands_tellAll {book : Book L A} {listeners : List L} {announcement : Announcement A} {listener : L} {a : A}
    (h : stands (book.tellAll listeners announcement listener) a = true) :
    stands (book listener) a = true ∨ announcement = .added a := by
  unfold Book.tellAll at h
  split at h
  · rw [Announcements.stands_append] at h
    cases announcement with
    | added a' =>
      simp only [Announcement.apply, Bool.or_eq_true, decide_eq_true_eq] at h
      rcases h with rfl | h
      · exact .inr rfl
      · exact .inl h
    | removed a' =>
      simp only [Announcement.apply, Bool.and_eq_true] at h
      exact .inl h.2
  · exact .inl h

/-- The replay tells a listener that comes back what it has missed, for it is told of the inactive servers too. -/
theorem Inv.addChangeListener (h : Inv s) (listener : L) : Inv (s.addChangeListener listener) := by
  have hreplay : ∀ server,
    stands (s.log listener ++ (s.activeServers.map .added ++ s.inactiveServers.map .removed)) server = true ↔
      server ∈ s.activeServers := by
    intro server
    rw [← append_assoc, Announcements.stands_append_removed, Announcements.stands_append_added]
    constructor
    · intro hcase
      obtain ⟨hold | hactive, hnot⟩ := hcase
      · exact (h.known listener server hold).resolve_right hnot
      · exact hactive
    · exact fun hactive => ⟨.inr hactive, h.apart server hactive⟩
  refine ⟨Agree.join h.told hreplay, h.apart, fun listener' server hstands => ?_⟩
  simp only [HeartbeatServerSet.addChangeListener, Book.tell] at hstands
  by_cases heq : listener' = listener
  · subst heq
    rw [update_self] at hstands
    exact .inl ((hreplay server).1 hstands)
  · rw [update_of_ne heq] at hstands
    exact h.known listener' server hstands

theorem Inv.pingSucceeded (h : Inv s) (server : A) : Inv (s.pingSucceeded server) := by
  unfold HeartbeatServerSet.pingSucceeded
  split
  · exact h
  · refine ⟨(h.told.tellAll_added server).congr fun a => ?_, fun a ha => ?_, fun listener a hstands => ?_⟩
    · rw [mem_insert_iff]
      exact or_comm
    · rw [mem_filter, not_and]
      intro hmem
      rcases mem_insert_iff.1 ha with rfl | hactive
      · simp
      · exact absurd hmem (h.apart a hactive)
    · by_cases heq : a = server
      · exact .inl (mem_insert_iff.2 (.inl heq))
      · rcases stands_tellAll hstands with hold | hnew
        · rcases h.known listener a hold with hactive | hinactive
          · exact .inl (mem_insert_of_mem hactive)
          · exact .inr (mem_filter.2 ⟨hinactive, by simp [heq]⟩)
        · obtain rfl := Announcement.added.inj hnew
          exact absurd rfl heq

theorem Inv.pingFailed (h : Inv s) (server : A) : Inv (s.pingFailed server) := by
  unfold HeartbeatServerSet.pingFailed
  split
  · exact h
  · refine ⟨(h.told.tellAll_removed server).congr fun a => ?_, fun a ha => ?_, fun listener a hstands => ?_⟩
    · rw [mem_filter, decide_eq_true_eq]
    · obtain ⟨hactive, hne⟩ := mem_filter.1 ha
      rw [mem_insert_iff, not_or]
      exact ⟨of_decide_eq_true hne, h.apart a hactive⟩
    · by_cases heq : a = server
      · exact .inr (mem_insert_iff.2 (.inl heq))
      · rcases stands_tellAll hstands with hold | hnew
        · rcases h.known listener a hold with hactive | hinactive
          · exact .inl (mem_filter.2 ⟨hactive, by simp [heq]⟩)
          · exact .inr (mem_insert_of_mem hinactive)
        · cases hnew

theorem Inv.step (h : Inv s) (e : Event L A) : Inv (s.step e) := by
  cases e with
  | addChangeListener listener => exact h.addChangeListener listener
  | removeChangeListener listener => exact ⟨h.told.sub fun l hl => (mem_filter.1 hl).1, h.apart, h.known⟩
  | pingSucceeded server => exact h.pingSucceeded server
  | pingFailed server => exact h.pingFailed server

omit [DecidableEq L] in
theorem inv_create : Inv (create : HeartbeatServerSet L A) where
  told _ hlistener := by cases hlistener
  apart _ hserver := by cases hserver
  known _ _ hstands := by cases hstands

end

end HeartbeatServerSet

section

variable [DecidableEq L] [DecidableEq A] [DecidableEq P]

/-- **The listeners of both server sets see the truth.**  What stands for a listener of a `ZookeeperServerSet`, since it
was last added, and for a listener of a `HeartbeatServerSet`, are the active servers, in every state of every run. -/
theorem serverSets_truthful (data : P → Data A) (subscribeToUpdates : Bool)
    (events : List (ZookeeperServerSet.Event L P)) (events' : List (HeartbeatServerSet.Event L A)) :
    Always (ZookeeperServerSet.step data) (ZookeeperServerSet.Truthful data)
      (.create subscribeToUpdates : ZookeeperServerSet L A P) events ∧
      Always HeartbeatServerSet.step HeartbeatServerSet.Truthful (.create : HeartbeatServerSet L A) events' :=
  ⟨(Runs.always_of_inv (fun _ e h =>
    h.step e) events (ZookeeperServerSet.inv_create data subscribeToUpdates)).mono fun _ h => h.truthful,
    (Runs.always_of_inv (fun _ e h => h.step e) events' HeartbeatServerSet.inv_create).mono fun _ h => h.told⟩

end

/-- **A listener that comes back to a `ZookeeperServerSet` has missed a removal**: the replay only tells of the servers
that are there. -/
theorem zookeeperServerSet_missedRemoval :
    ¬ Always (ZookeeperServerSet.step fun _ : Nat => Data.address 7)
      (fun s => Agree s.listeners s.log (· ∈ s.getServers)) (.create true : ZookeeperServerSet Nat Nat Nat)
      [.addChangeListener 0 none, .childAdded 1, .removeChangeListener 0, .childRemoved 1,
        .addChangeListener 0 none] := by
  intro h
  exact absurd ((h.run 0 (by decide) 7).1 (by decide)) (by decide)

end Photon.Common.ServerSets
