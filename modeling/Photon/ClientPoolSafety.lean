import Photon.ClientPoolClients
import Photon.Runs
/-!
# ClientPoolSafety — a pool hands no client out twice and leaks no transport

`Kept` is what every operation keeps: the clients are each in one place, those handed out are the acquired ones, the
queue is in the order of the calls of `acquire` behind those served, and there are not more clients than the options
allow.  Each operation has its lemma, along its code, and `kept_step` puts them together.  After `close` the available
clients are gone for good only if no server is added any more: `onServerAdded` does not look whether the pool is closed.
-/
namespace Photon.ClientPool

open List
open Keyed (LinkedMap ListMultimap)
open Custody (Exclusive Out receivers)
open Pool (Same)
open Runs (Always Meets)

/-- **The queue is in order**: the promises are numbered in the order of the calls of `acquire`; those served were
served in this order, and before those that are queued; and a promise is served, failed or queued. -/
structure Queued (s : Pool) : Prop where
  order : (receivers s.handed ++ s.promises.map Promise.id).Pairwise (· < ·)
  numbered : ∀ id ∈ receivers s.handed ++ s.promises.map Promise.id, id < s.nextPromise
  accounted : ∀ id < s.nextPromise, id ∈ receivers s.handed ∨ id ∈ s.failures.map Prod.fst ∨
    ∃ p ∈ s.promises, p.id = id ∧ p.done = false

structure Kept (options : ClientPoolOptions) (s : Pool) : Prop where
  placed : Placed [] s
  lent : Lent s
  queued : Queued s
  bound : (s.total : Int) ≤ max options.maxClients 0

variable {options : ClientPoolOptions} {s : Pool}

theorem kept_new (options : ClientPoolOptions) : Kept options Pool.new where
  placed := Placed.new
  lent := by
    refine ⟨?_, Custody.exclusive_nil⟩
    intro c
    constructor
    · intro h
      cases h
    · intro h
      exact absurd h (Custody.not_out_nil c)
  queued := by
    refine ⟨List.Pairwise.nil, nofun, ?_⟩
    · intro id h
      exact absurd h (Nat.not_lt_zero id)
  bound := Int.le_max_right _ _

/-! ## The queue -/

variable {s' : Pool}

theorem Lent.of_same (h : Lent s) (hsame : Same s s') : Lent s' := by
  refine ⟨?_, ?_⟩
  · intro c
    rw [hsame.acquiredClients, hsame.handed]
    exact h.out c
  · rw [hsame.handed]
    exact h.exclusive

theorem Lent.hand (h : Lent s) {c : Client} (hnew : c ∉ s.acquiredClients.keys) (address : InetSocketAddress)
    (promise : Promise)
    (rest : List Promise) {s' : Pool} (hacquired : s'.acquiredClients = s.acquiredClients.put c address)
    (hhanded : s'.handed = s.handed) : Lent (s'.serve promise rest c) := by
  have hout : ¬Out s.handed c := fun hout => hnew ((h.out c).2 hout)
  refine ⟨?_, ?_⟩
  · intro d
    show d ∈ s'.acquiredClients.keys ↔ Out (s'.handed ++ [.hand promise.id c]) d
    rw [hacquired, hhanded, LinkedMap.mem_keys_put, Custody.out_hand_iff, h.out d]
  · show Exclusive (s'.handed ++ [.hand promise.id c])
    rw [hhanded]
    exact h.exclusive.hand hout

theorem Lent.back (h : Lent s) (c : Client) : Lent (s.giveBack c) := by
  refine ⟨?_, h.exclusive.back c⟩
  intro d
  show d ∈ (s.acquiredClients.remove c).keys ↔ Out (s.handed ++ [.back c]) d
  rw [LinkedMap.mem_keys_remove, Custody.out_back_iff, h.out d]

theorem Placed.serve {limbo : List Client} (h : Placed limbo s) (promise : Promise) (rest : List Promise) (c : Client) :
    Placed limbo (s.serve promise rest c) :=
  { h with }

variable {rest : List Promise}

theorem Queued.serve {promise : Promise} (h : Queued s) (hqueue : s.promises = promise :: rest) {s' : Pool}
    (hsame : s'.handed = s.handed ∧ s'.nextPromise = s.nextPromise ∧ s'.failures = s.failures) (c : Client) :
    Queued (s'.serve promise rest c) := by
  obtain ⟨hhanded, hnext, hfailures⟩ := hsame
  have hlist : receivers (s'.serve promise rest c).handed ++ (s'.serve promise rest c).promises.map Promise.id =
      receivers s.handed ++ s.promises.map Promise.id := by
    show receivers (s'.handed ++ [.hand promise.id c]) ++ rest.map Promise.id = _
    rw [hhanded, Custody.receivers_append, hqueue, map_cons, append_assoc]
    rfl
  have hserved : receivers (s'.serve promise rest c).handed = receivers s.handed ++ [promise.id] := by
    show receivers (s'.handed ++ [.hand promise.id c]) = _
    rw [hhanded, Custody.receivers_append]
    rfl
  refine ⟨?_, ?_, ?_⟩
  · rw [hlist]
    exact h.order
  · rw [hlist]
    intro id hid
    show id < s'.nextPromise
    rw [hnext]
    exact h.numbered id hid
  · intro id hid
    have hid' : id < s'.nextPromise := hid
    rw [hnext] at hid'
    rw [hserved]
    rcases h.accounted id hid' with hserved | hfailed | ⟨p, hp, hpid, hdone⟩
    · exact .inl (mem_append_left _ hserved)
    · refine .inr (.inl ?_)
      show id ∈ s'.failures.map Prod.fst
      rw [hfailures]
      exact hfailed
    · rw [hqueue] at hp
      rcases mem_cons.1 hp with rfl | hp
      · exact .inl (mem_append_right _ (by rw [hpid]; exact mem_cons_self))
      · exact .inr (.inr ⟨p, hp, hpid, hdone⟩)

theorem Queued.shrink (h : Queued s) (hsame : s'.handed = s.handed ∧ s'.nextPromise = s.nextPromise)
    (hsub : (s'.promises.map Promise.id).Sublist (s.promises.map Promise.id))
    (hfailures : ∀ id ∈ s.failures.map Prod.fst, id ∈ s'.failures.map Prod.fst)
    (hgone : ∀ p ∈ s.promises, p.done = false → p.id ∈ s'.failures.map Prod.fst ∨ ∃ q ∈ s'.promises, q.id = p.id ∧
      q.done = false) : Queued s' := by
  obtain ⟨hhanded, hnext⟩ := hsame
  have hsublist := (List.Sublist.refl (receivers s.handed)).append hsub
  refine ⟨?_, ?_, ?_⟩
  · rw [hhanded]
    exact h.order.sublist hsublist
  · rw [hhanded, hnext]
    intro id hid
    exact h.numbered id (hsublist.subset hid)
  · rw [hhanded, hnext]
    intro id hid
    rcases h.accounted id hid with hserved | hfailed | ⟨p, hp, rfl, hdone⟩
    · exact .inl hserved
    · exact .inr (.inl (hfailures id hfailed))
    · exact .inr (hgone p hp hdone)

theorem Queued.of_same (h : Queued s) (hsame : Same s s') : Queued s' := by
  refine h.shrink ⟨hsame.handed, hsame.nextPromise⟩ ?_ ?_ ?_
  · rw [hsame.promises]
  · intro id hid
    rw [hsame.failures]
    exact hid
  · intro p hp hdone
    rw [hsame.promises]
    exact .inr ⟨p, hp, rfl, hdone⟩

theorem Placed.withQueue {limbo : List Client} (h : Placed limbo s) (promises : List Promise)
    (failures : List (Nat × Failure)) : Placed limbo { s with promises := promises, failures := failures } :=
  { h with }

theorem size_put_new {c : Client} (hnew : c ∉ s.acquiredClients.keys) (address : InetSocketAddress) :
    (s.acquiredClients.put c address).size = s.acquiredClients.size + 1 := by
  rw [LinkedMap.size_put, (LinkedMap.get_eq_none_iff _ _).2 hnew]
  rfl

/-- **What becomes of the first promise that is not done keeps the pool.** -/
theorem Kept.fulfilled {world : World} {promise : Promise} (h : Kept options s)
    (hqueue : s.promises = promise :: rest) (hs' : Fulfilled world options promise rest s s') : Kept options s' := by
  have hbound := h.bound
  unfold Pool.total at hbound
  cases hs' with
  | @available s₁ c address others placed same size take =>
    have htaken := placed.takeAvailable take
    have hnew : c ∉ s.acquiredClients.keys := same.acquiredClients ▸ htaken.notMem_acquired
    refine ⟨(htaken.putAcquired address).serve promise rest c, ?_, ?_, ?_⟩
    · exact h.lent.hand hnew address promise rest (by rw [← same.acquiredClients]) same.handed
    · refine h.queued.serve hqueue ?_ c
      exact ⟨same.handed, same.nextPromise, same.failures⟩
    · have hsize := ListMultimap.size_removeFirst take
      show ((others.size + (s₁.acquiredClients.put c address).size : Nat) : Int) ≤ _
      rw [same.acquiredClients, size_put_new hnew]
      omega
  | @new s₁ s₂ c address placed same empty room create =>
    obtain ⟨hsame, heq⟩ := Pool.same_createNewClient create
    have hall := same.trans hsame
    have hcreated := placed.create world address create
    have hnew : c ∉ s.acquiredClients.keys := hall.acquiredClients ▸ hcreated.notMem_acquired
    refine ⟨(hcreated.putAcquired address).serve promise rest c, ?_, ?_, ?_⟩
    · exact h.lent.hand hnew address promise rest (by rw [← hall.acquiredClients]) hall.handed
    · refine h.queued.serve hqueue ?_ c
      exact ⟨hall.handed, hall.nextPromise, hall.failures⟩
    · unfold Pool.canCreateClient Pool.total at room
      rw [Bool.and_eq_true, decide_eq_true_eq, empty, same.acquiredClients] at room
      show ((s₂.availableClients.size + (s₂.acquiredClients.put c address).size : Nat) : Int) ≤ _
      rw [heq, empty, hall.acquiredClients, size_put_new hnew]
      omega
  | @failed s₁ k address placed same empty fails =>
    refine ⟨placed.withQueue _ _, ⟨?_, ?_⟩, h.queued.shrink ⟨same.handed, same.nextPromise⟩ ?_ ?_ ?_, ?_⟩
    · exact (h.lent.of_same same).out
    · exact (h.lent.of_same same).exclusive
    · rw [hqueue, map_cons]
      exact sublist_cons_self _ _
    · intro id hid
      rw [map_append, same.failures]
      exact mem_append_left _ hid
    · intro p hp hdone
      rw [hqueue] at hp
      rw [map_append]
      rcases mem_cons.1 hp with rfl | hp
      · exact .inl (mem_append_right _ mem_cons_self)
      · exact .inr ⟨p, hp, rfl, hdone⟩
    · show ((s₁.availableClients.size + s₁.acquiredClients.size : Nat) : Int) ≤ _
      rw [empty, same.acquiredClients]
      omega
  | waits placed same empty room =>
    refine ⟨placed, h.lent.of_same same, h.queued.of_same same, ?_⟩
    unfold Pool.total
    rw [empty, same.acquiredClients]
    omega

theorem Kept.withQueue (h : Kept options s) {promises : List Promise}
    (hqueued : Queued { s with promises := promises }) : Kept options { s with promises := promises } :=
  ⟨h.placed.withQueue _ _, ⟨h.lent.out, h.lent.exclusive⟩, hqueued, h.bound⟩

/-- **The queue is processed.** -/
theorem Kept.processQueue (world : World) :
    ∀ (queue : List Promise) {s : Pool}, Kept options { s with promises := queue } →
    Kept options (s.processQueue world options queue)
  | [], _, h => h
  | promise :: rest, s, h => by
    unfold Pool.processQueue
    split
    · rename_i hdone
      refine Kept.processQueue world rest (h.withQueue (h.queued.shrink ⟨rfl, rfl⟩ ?_ ?_ ?_))
      · exact sublist_cons_self _ _
      · intro id hid
        exact hid
      · intro p hp hlive
        rcases mem_cons.1 hp with rfl | hp
        · rw [hdone] at hlive
          cases hlive
        · exact .inr ⟨p, hp, rfl, hlive⟩
    · exact h.fulfilled rfl (h.placed.fulfill world options promise rest)

section

variable (h : Kept options s)
include h

theorem Kept.processPromises (world : World) : Kept options (s.processPromises world options) :=
  Kept.processQueue world s.promises h

/-! ## The operations -/

theorem Kept.of_placed (hplaced : Placed [] s') (hsame : Same s s')
    (hsize : s'.availableClients.size ≤ s.availableClients.size) : Kept options s' := by
  refine ⟨hplaced, h.lent.of_same hsame, h.queued.of_same hsame, ?_⟩
  have hbound := h.bound
  unfold Pool.total at hbound ⊢
  rw [hsame.acquiredClients]
  omega

theorem Kept.createForServer (world : World) {address : InetSocketAddress} (hlisted : address ∈ s.availableServers) :
    Kept options (s.createForServer world options address) := by
  unfold Pool.createForServer
  split
  · rename_i hroom
    rcases Pool.createNewClient_cases world address s with ⟨-, hfail⟩ | ⟨s', -, hnew⟩
    · rw [hfail]
      exact h.of_placed h.placed.tick (Same.tick s) (Nat.le_refl _)
    · rw [hnew]
      obtain ⟨hsame, heq⟩ := Pool.same_createNewClient hnew
      have hlisted' : address ∈ s'.availableServers := by
        rw [hsame.availableServers]
        exact hlisted
      have hsame' := hsame.withAvailable (s'.availableClients.put address s.nextClient)
      refine ⟨(h.placed.create world address hnew).putAvailable hlisted', h.lent.of_same hsame',
        h.queued.of_same hsame', ?_⟩
      have hbound := h.bound
      unfold Pool.canCreateClient at hroom
      simp only [Bool.and_eq_true, decide_eq_true_eq] at hroom
      unfold Pool.total at hbound hroom ⊢
      dsimp only
      rw [ListMultimap.size_put, heq, hsame.acquiredClients]
      omega
  · exact h

theorem Kept.withServer (address : InetSocketAddress) : Kept options (s.withServer address) := by
  refine ⟨{ h.placed with listed := ?_ }, ⟨h.lent.out, h.lent.exclusive⟩, { h.queued with }, h.bound⟩
  intro p hp
  exact mem_insert_of_mem (h.placed.listed p hp)

theorem Kept.onServerAdded (world : World) (address : InetSocketAddress) :
    Kept options (s.onServerAdded world options address) :=
  ((h.withServer address).createForServer world mem_insert_self).processPromises world

theorem Kept.onServerRemoved (address : InetSocketAddress) : Kept options (s.onServerRemoved address) := by
  have hplaced := (h.placed.takeServer address).removeClients
  obtain ⟨hsame, heq⟩ := Pool.same_removeClients (s.availableClients.get address) (s.withoutServer address)
  have hlent : Lent (s.withoutServer address) := ⟨h.lent.out, h.lent.exclusive⟩
  have hqueued : Queued (s.withoutServer address) := { h.queued with }
  refine ⟨hplaced, hlent.of_same hsame, hqueued.of_same hsame, ?_⟩
  have hbound := h.bound
  have hsize : (s.withoutServer address).availableClients.size ≤ s.availableClients.size := length_filter_le _ _
  have hacquired : (s.withoutServer address).acquiredClients = s.acquiredClients := rfl
  unfold Pool.total at hbound ⊢
  unfold Pool.onServerRemoved
  rw [heq, hsame.acquiredClients, hacquired]
  omega

end

theorem Queued.enqueue (h : Queued s) (options : ClientPoolOptions) : Queued (s.enqueue options) := by
  have hlist : receivers (s.enqueue options).handed ++ (s.enqueue options).promises.map Promise.id =
      (receivers s.handed ++ s.promises.map Promise.id) ++ [s.nextPromise] := by
    unfold Pool.enqueue
    rw [map_append, append_assoc]
    rfl
  refine ⟨?_, ?_, ?_⟩
  · rw [hlist, pairwise_append]
    refine ⟨h.order, pairwise_singleton _ _, ?_⟩
    intro id hid id' hid'
    rw [mem_singleton.1 hid']
    exact h.numbered id hid
  · rw [hlist]
    intro id hid
    rcases mem_append.1 hid with hid | hid
    · exact Nat.lt_succ_of_lt (h.numbered id hid)
    · rw [mem_singleton.1 hid]
      exact Nat.lt_succ_self _
  · intro id hid
    rcases Nat.lt_succ_iff_lt_or_eq.1 hid with hid | rfl
    · rcases h.accounted id hid with hserved | hfailed | ⟨p, hp, hpid, hdone⟩
      · exact .inl hserved
      · exact .inr (.inl hfailed)
      · exact .inr (.inr ⟨p, mem_append_left _ hp, hpid, hdone⟩)
    · exact .inr (.inr ⟨_, mem_append_right _ mem_cons_self, rfl, rfl⟩)

theorem Kept.enqueue (h : Kept options s) : Kept options (s.enqueue options) :=
  ⟨{ h.placed with }, ⟨h.lent.out, h.lent.exclusive⟩, h.queued.enqueue options, h.bound⟩

theorem Kept.acquire (h : Kept options s) (world : World) : Kept options (s.acquire world options).2 := by
  unfold Pool.acquire
  split
  · exact h.enqueue.processPromises world
  · exact h

theorem Queued.giveBack (h : Queued s) (client : Client) : Queued (s.giveBack client) := by
  have hreceivers : receivers (s.giveBack client).handed = receivers s.handed := by
    unfold Pool.giveBack
    rw [Custody.receivers_append]
    exact append_nil _
  refine ⟨?_, ?_, ?_⟩
  · rw [hreceivers]
    exact h.order
  · rw [hreceivers]
    exact h.numbered
  · rw [hreceivers]
    exact h.accounted

section

variable (h : Kept options s)
include h

theorem Kept.takeBack {client : Client} {address : InetSocketAddress}
    (hget : s.acquiredClients.get client = some address) (healthy : Bool) :
    Kept options (Pool.takeBack client address healthy (s.giveBack client)) := by
  have htaken := h.placed.takeAcquired hget
  have hlent := h.lent.back client
  have hqueued := h.queued.giveBack client
  have hsize : (s.giveBack client).acquiredClients.size + 1 = s.acquiredClients.size :=
    s.acquiredClients.size_remove_add_one client address hget
  have havailable : (s.giveBack client).availableClients = s.availableClients := rfl
  have hbound := h.bound
  unfold Pool.total at hbound
  unfold Pool.takeBack
  split
  · rename_i hback
    simp only [Bool.and_eq_true, decide_eq_true_eq] at hback
    have hsame := (Same.refl (s.giveBack client)).withAvailable
      ((s.giveBack client).availableClients.put address client)
    refine ⟨htaken.putAvailable hback.2, hlent.of_same hsame, hqueued.of_same hsame, ?_⟩
    unfold Pool.total
    dsimp only
    rw [ListMultimap.size_put, havailable]
    omega
  · obtain ⟨hsame, heq⟩ := Pool.same_removeClient client (s.giveBack client)
    refine ⟨htaken.removeClient, hlent.of_same hsame, hqueued.of_same hsame, ?_⟩
    unfold Pool.total
    rw [heq, hsame.acquiredClients, havailable]
    omega

theorem Kept.release (world : World) {client : Client} {healthy : Bool} {s' : Pool}
    (hs' : s.release world options client healthy = .ok s') : Kept options s' := by
  unfold Pool.release at hs'
  split at hs'
  · cases hs'
  · rename_i address hget
    cases hs'
    exact (h.takeBack hget healthy).processPromises world

theorem Kept.runTimeout (world : World) (id : Nat) : Kept options (s.runTimeout world id) := by
  unfold Pool.runTimeout
  split
  · refine ⟨h.placed.withQueue _ _, ⟨h.lent.out, h.lent.exclusive⟩, h.queued.shrink ⟨rfl, rfl⟩ ?_ ?_ ?_, h.bound⟩
    · have hids : (s.promises.map (fun p => if p.id = id then { p with done := true } else p)).map Promise.id =
          s.promises.map Promise.id := by
        rw [map_map]
        refine map_congr_left ?_
        intro p _
        show (if p.id = id then { p with done := true } else p).id = p.id
        split <;> rfl
      dsimp only
      rw [hids]
    · intro i hi
      rw [map_append]
      exact mem_append_left _ hi
    · intro p hp hdone
      by_cases hpid : p.id = id
      · refine .inl ?_
        rw [map_append, hpid]
        exact mem_append_right _ mem_cons_self
      · exact .inr ⟨p, mem_map.2 ⟨p, hp, if_neg hpid⟩, rfl, hdone⟩
  · exact h

theorem Kept.failPromises (message : String) : Kept options (s.failPromises message) := by
  refine ⟨h.placed.withQueue _ _, ⟨h.lent.out, h.lent.exclusive⟩,
    h.queued.shrink ⟨rfl, rfl⟩ (nil_sublist _) ?_ ?_, h.bound⟩
  · intro id hid
    unfold Pool.failPromises
    rw [map_append]
    exact mem_append_left _ hid
  · intro p hp hdone
    refine .inl ?_
    unfold Pool.failPromises
    rw [map_append, map_map]
    refine mem_append_right _ (mem_map.2 ⟨p, mem_filter.2 ⟨hp, ?_⟩, rfl⟩)
    rw [hdone]
    rfl

theorem Kept.close {s' : Pool} (hs' : s.close = .ok s') : Kept options s' := by
  unfold Pool.close at hs'
  split at hs'
  · cases hs'
  · cases hs'
    have hfailed := h.failPromises "Client pool closing"
    have hsame := (Same.refl (s.failPromises "Client pool closing")).withAvailable ListMultimap.empty
    obtain ⟨hsame', heq⟩ := Pool.same_removeClients s.availableClients.values
      { s.failPromises "Client pool closing" with availableClients := ListMultimap.empty }
    have hplaced := hfailed.placed.takeAll.removeClients
    have hemptied := hfailed.of_placed hplaced (hsame.trans hsame') (by
      show (Pool.removeClients s.availableClients.values _).availableClients.size ≤ _
      rw [heq]
      exact Nat.zero_le _)
    exact ⟨{ hplaced with }, ⟨hemptied.lent.out, hemptied.lent.exclusive⟩, { hemptied.queued with }, hemptied.bound⟩

theorem Kept.turnErroneous (client : Client) : Kept options (s.turnErroneous client) := by
  unfold Pool.turnErroneous
  split
  · rename_i hlt
    refine ⟨{ h.placed with erroneous := ?_ }, ⟨h.lent.out, h.lent.exclusive⟩, { h.queued with }, h.bound⟩
    intro c hc
    rcases mem_cons.1 hc with rfl | hc
    · exact hlt
    · exact h.placed.erroneous c hc
  · exact h

end

/-- **Every operation keeps the pool.** -/
theorem kept_step (world : World) (s : Pool) (e : Event) (h : Kept options s) :
    Kept options (step world options s e) := by
  cases e with
  | serverAdded address => exact h.onServerAdded world address
  | serverRemoved address => exact h.onServerRemoved address
  | acquire => exact h.acquire world
  | release client healthy =>
    rw [step]
    cases hs' : s.release world options client healthy with
    | error f => exact h
    | ok s' => exact h.release world hs'
  | timeout id => exact h.runTimeout world id
  | erroneous client => exact h.turnErroneous client
  | close =>
    rw [step]
    cases hs' : s.close with
    | error f => exact h
    | ok s' => exact h.close hs'

/-! ## After the close -/

theorem Fulfilled.size_le {world : World} {promise : Promise} (h : Fulfilled world options promise rest s s') :
    s'.closed = s.closed ∧ s'.availableClients.size ≤ s.availableClients.size := by
  cases h with
  | @available s₁ c address others placed same size take =>
    have hsize := ListMultimap.size_removeFirst take
    refine ⟨same.closed, ?_⟩
    show others.size ≤ s.availableClients.size
    omega
  | @new s₁ s₂ c address placed same empty room create =>
    obtain ⟨hsame, heq⟩ := Pool.same_createNewClient create
    refine ⟨hsame.closed.trans same.closed, ?_⟩
    show s₂.availableClients.size ≤ s.availableClients.size
    rw [heq, empty]
    exact Nat.zero_le _
  | @failed s₁ k address placed same empty fails =>
    refine ⟨same.closed, ?_⟩
    show s₁.availableClients.size ≤ s.availableClients.size
    rw [empty]
    exact Nat.zero_le _
  | waits placed same empty room =>
    refine ⟨same.closed, ?_⟩
    rw [empty]
    exact Nat.zero_le _

theorem processQueue_size_le (world : World) : ∀ (queue : List Promise) {s : Pool}, Placed [] s →
    (s.processQueue world options queue).closed = s.closed ∧
      (s.processQueue world options queue).availableClients.size ≤ s.availableClients.size
  | [], _, _ => ⟨rfl, Nat.le_refl _⟩
  | promise :: rest, s, h => by
    unfold Pool.processQueue
    split
    · exact processQueue_size_le world rest h
    · exact ((h.withQueue (promise :: rest) s.failures).fulfill world options promise rest).size_le

def ClosedEmpty (s : Pool) : Prop := s.closed = true → s.availableClients.size = 0

theorem ClosedEmpty.processPromises (h : ClosedEmpty s) (hplaced : Placed [] s) (world : World) :
    ClosedEmpty (s.processPromises world options) := by
  obtain ⟨hclosed, hsize⟩ : (s.processPromises world options).closed = s.closed ∧ _ :=
    processQueue_size_le world s.promises hplaced
  intro hc
  have hempty := h (hclosed ▸ hc)
  exact Nat.le_zero.1 (hempty ▸ hsize)

/-- No server is added once the pool is closed: `close` has removed the pool from the listeners of its server set. -/
def AddedWhileOpen (s : Pool) : Event → Prop
  | .serverAdded _ => s.closed = false
  | _ => True

instance (s : Pool) : ∀ e, Decidable (AddedWhileOpen s e)
  | .serverAdded _ => inferInstanceAs (Decidable (s.closed = false))
  | .serverRemoved _ => .isTrue trivial
  | .acquire => .isTrue trivial
  | .release _ _ => .isTrue trivial
  | .timeout _ => .isTrue trivial
  | .erroneous _ => .isTrue trivial
  | .close => .isTrue trivial

theorem closed_createForServer (world : World) (address : InetSocketAddress) (s : Pool) :
    (s.createForServer world options address).closed = s.closed := by
  unfold Pool.createForServer
  split
  · rcases Pool.createNewClient_cases world address s with ⟨-, hfail⟩ | ⟨s', -, hnew⟩
    · rw [hfail]
      rfl
    · rw [hnew]
      exact (Pool.same_createNewClient hnew).1.closed
  · rfl

theorem closedEmpty_step (world : World) (s : Pool) (e : Event) (h : Kept options s ∧ ClosedEmpty s)
    (he : AddedWhileOpen s e) : Kept options (step world options s e) ∧ ClosedEmpty (step world options s e) := by
  refine ⟨kept_step world s e h.1, ?_⟩
  obtain ⟨hkept, hempty⟩ := h
  cases e with
  | serverAdded address =>
    have hopen : s.closed = false := he
    have hserver : Kept options (s.withServer address) := hkept.withServer address
    refine ClosedEmpty.processPromises ?_ (hserver.createForServer world mem_insert_self).placed world
    intro hclosed
    rw [closed_createForServer] at hclosed
    exact absurd (hopen.symm.trans hclosed) (by decide)
  | serverRemoved address =>
    obtain ⟨hsame, heq⟩ := Pool.same_removeClients (s.availableClients.get address) (s.withoutServer address)
    intro hclosed
    have hnone := hempty (hsame.closed ▸ hclosed)
    have hsize : (s.withoutServer address).availableClients.size ≤ s.availableClients.size := length_filter_le _ _
    show (Pool.removeClients _ _).availableClients.size = 0
    rw [heq]
    omega
  | acquire =>
    show ClosedEmpty (s.acquire world options).2
    unfold Pool.acquire
    split
    · have hqueued : ClosedEmpty (s.enqueue options) := hempty
      exact hqueued.processPromises hkept.enqueue.placed world
    · exact hempty
  | release client healthy =>
    rw [step]
    unfold Pool.release
    cases hget : s.acquiredClients.get client with
    | none => exact hempty
    | some address =>
      refine ClosedEmpty.processPromises ?_ (hkept.takeBack hget healthy).placed world
      unfold Pool.takeBack
      split
      · rename_i hback
        simp only [Bool.and_eq_true, Bool.not_eq_true'] at hback
        intro hclosed
        exact absurd (hback.1.1.symm.trans hclosed) (by decide)
      · obtain ⟨hsame, heq⟩ := Pool.same_removeClient client (s.giveBack client)
        intro hclosed
        rw [heq]
        exact hempty (hsame.closed ▸ hclosed)
  | timeout id =>
    show ClosedEmpty (s.runTimeout world id)
    unfold Pool.runTimeout
    split <;> exact hempty
  | erroneous client =>
    show ClosedEmpty (s.turnErroneous client)
    unfold Pool.turnErroneous
    split <;> exact hempty
  | close =>
    rw [step]
    unfold Pool.close
    split
    · exact hempty
    · obtain ⟨-, heq⟩ := Pool.same_removeClients s.availableClients.values
        { s.failPromises "Client pool closing" with availableClients := ListMultimap.empty }
      intro _
      show (Pool.removeClients _ _).availableClients.size = 0
      rw [heq]
      rfl

/-! ## The pool is safe -/

/-- **What is asked of a pool after every operation.**  There are at most `maxClients` clients; those with a transport
are the available and the acquired ones, which are disjoint; every available client is listed under a server; a client
is out to one acquirer only; promises are served in the order of the calls of `acquire`, and none that has neither been
served nor failed leaves the queue; and no operation has met a client without a transport. -/
structure Safe (options : ClientPoolOptions) (s : Pool) : Prop where
  bound : (s.total : Int) ≤ max options.maxClients 0
  keys : ∀ c, c ∈ s.clientTransportMap.keys ↔ c ∈ s.availableClients.values ∨ c ∈ s.acquiredClients.keys
  disjoint : (s.availableClients.values ++ s.acquiredClients.keys).Nodup
  listed : ∀ p ∈ s.availableClients.pairs, p.1 ∈ s.availableServers
  acquired : ∀ c, c ∈ s.acquiredClients.keys ↔ Out s.handed c
  exclusive : Exclusive s.handed
  order : (receivers s.handed ++ s.promises.map Promise.id).Pairwise (· < ·)
  accounted : ∀ id < s.nextPromise, id ∈ receivers s.handed ∨ id ∈ s.failures.map Prod.fst ∨
    ∃ p ∈ s.promises, p.id = id ∧ p.done = false
  sound : s.broken = false

/-- After the close, with every acquired client released, no transport is left, and each was closed once. -/
def Drained (s : Pool) : Prop :=
  s.closed = true → s.acquiredClients.size = 0 →
    s.clientTransportMap = LinkedMap.empty ∧ ∀ transport < s.nextClient, s.closings.count transport = 1

theorem Kept.safe (h : Kept options s) : Safe options s where
  bound := h.bound
  keys := by
    intro c
    rw [h.placed.keys.mem_iff, nil_append, mem_append]
  disjoint := h.placed.nodup
  listed := h.placed.listed
  acquired := h.lent.out
  exclusive := h.lent.exclusive
  order := h.queued.order
  accounted := h.queued.accounted
  sound := h.placed.sound

theorem Kept.drained (h : Kept options s) (hempty : ClosedEmpty s) : Drained s := by
  intro hclosed hacquired
  have hvalues : s.availableClients.values = [] := by
    rw [ListMultimap.eq_empty_of_size (hempty hclosed)]
    rfl
  have hnone : s.acquiredClients.keys = [] := by
    unfold LinkedMap.keys
    rw [length_eq_zero_iff.1 hacquired]
    rfl
  have hkeys : s.clientTransportMap.keys = [] := by
    have hperm := h.placed.keys
    rw [hvalues, hnone] at hperm
    exact hperm.eq_nil
  refine ⟨LinkedMap.eq_empty_of_get _ ?_, ?_⟩
  · intro c
    rw [LinkedMap.get_eq_none_iff, hkeys]
    simp
  · intro t ht
    rw [h.placed.closings t, if_pos ⟨ht, by rw [hkeys]; simp⟩]

/-- **A pool is safe, and drained if no server is added after its close.**  In every run of its operations the pool is
safe after each; and in every run in which no server is added after the close it is drained after each. -/
theorem clientPool_safe (world : World) (options : ClientPoolOptions) (events : List Event) :
    Always (step world options) (Safe options) Pool.new events ∧
    (Meets (step world options) AddedWhileOpen Pool.new events →
      Always (step world options) Drained Pool.new events) := by
  constructor
  · exact (Runs.always_of_inv (kept_step world) events (kept_new options)).mono (fun _ h => h.safe)
  · intro hmeets
    have hinv := Runs.always_of_meets (closedEmpty_step world) ⟨kept_new options, fun h => by cases h⟩ hmeets
    exact hinv.mono (fun _ h => h.1.drained h.2)

/-- **The transport of a client is closed once, as the client leaves the pool.**  After each operation of every run no
transport has been closed twice, and those closed are of the clients that are neither idle nor handed out: none is
closed under its user. -/
theorem transport_closed_once (world : World) (options : ClientPoolOptions) (events : List Event) :
    Always (step world options) (fun s => ∀ c, s.closings.count c ≤ 1 ∧
      (c ∈ s.closings ↔ c < s.nextClient ∧ c ∉ s.availableClients.values ∧ ¬Out s.handed c)) Pool.new events := by
  refine (Runs.always_of_inv (kept_step world) events (kept_new options)).mono (fun s h c => ?_)
  rw [← h.safe.acquired c, ← not_or, ← h.safe.keys c, ← count_pos_iff, h.placed.closings c]
  split <;> simp_all

def plainWorld : World where
  createFails := fun _ _ => false
  nextInt := fun _ _ => 0
  order := fun _ addresses => addresses
  serverSet := "servers"
  nextInt_lt := fun _ _ h => h
  order_perm := fun _ _ => List.Perm.refl _

/-- **A server that is added after the close leaves a client behind.** -/
theorem added_after_close_leaks :
    ¬Drained (Runs.run (step plainWorld ⟨1, 1, 0⟩) Pool.new [.close, .serverAdded ⟨"127.0.0.1", 80⟩]) := by
  intro h
  have hmap := (h rfl rfl).1
  exact absurd (congrArg LinkedMap.size hmap) (by decide)

/-- Two clients that are handed out, one released before and one after the close. -/
theorem clientPool_safe_twoClients : Always (step plainWorld ⟨2, 2, 0⟩) Drained Pool.new
    [.serverAdded ⟨"127.0.0.1", 80⟩, .acquire, .acquire, .release 0 true, .close, .release 1 true] :=
  (clientPool_safe plainWorld ⟨2, 2, 0⟩ _).2 (by decide)

end Photon.ClientPool
