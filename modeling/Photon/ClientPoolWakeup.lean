import Photon.ClientPoolSafety
/-!
# ClientPoolWakeup — who waits although there is a client

`processPromises` returns as soon as it has served one promise.  That is enough where an operation makes room for one
client, as a release does; a server that is added to a pool without servers can make room for several.  And `acquire`
compares the whole queue with `maxWaiters`, the promises that have timed out included.
-/
namespace Photon.ClientPool

open List
open Keyed (LinkedMap ListMultimap)
open Pool (Same)
open Runs (Always Meets)

variable {world : World} {options : ClientPoolOptions} {s s' : Pool}

def Pool.waiting (s : Pool) : List Promise := s.promises.filter (fun p => !p.done)

def Exhausted (options : ClientPoolOptions) (s : Pool) : Prop :=
  s.availableClients.size = 0 ∧ (s.availableServers = [] ∨ (s.total : Int) = max options.maxClients 0)

/-- Nobody waits for a client that is there or could be created. -/
def Awake (options : ClientPoolOptions) (s : Pool) : Prop := s.waiting ≠ [] → Exhausted options s

/-- A call of `acquire` is refused only if as many promises as the options allow are waiting. -/
def RefusedIfFull (world : World) (options : ClientPoolOptions) (s : Pool) (e : Event) : Prop :=
  e = .acquire → (s.acquire world options).1 = .failed (.clientPoolException "Too many waiters") →
    options.maxWaiters ≤ s.waiting.length

/-- What the pool needs of an event: the first server is added when one promise waits at most, or there is room for one
client at most; and a call of `acquire` finds no promise that is done in a full queue. -/
def Served (options : ClientPoolOptions) (s : Pool) : Event → Prop
  | .serverAdded _ => s.availableServers = [] → s.waiting.length ≤ 1 ∨ options.maxClients ≤ s.total + 1
  | .acquire => options.maxWaiters ≤ s.promises.length → ∀ p ∈ s.promises, p.done = false
  | _ => True

instance (options : ClientPoolOptions) (s : Pool) : ∀ e, Decidable (Served options s e)
  | .serverAdded _ =>
    inferInstanceAs (Decidable (s.availableServers = [] → s.waiting.length ≤ 1 ∨ options.maxClients ≤ s.total + 1))
  | .acquire => inferInstanceAs (Decidable (options.maxWaiters ≤ s.promises.length → ∀ p ∈ s.promises, p.done = false))
  | .serverRemoved _ => .isTrue trivial
  | .release _ _ => .isTrue trivial
  | .timeout _ => .isTrue trivial
  | .erroneous _ => .isTrue trivial
  | .close => .isTrue trivial

/-! ## What the processing of the queue does for those who wait -/

def World.Creates (world : World) : Prop := ∀ k address, world.createFails k address = false

/-- One promise is served at most, with a client that is there or a new one; and one is left waiting only in an
exhausted pool. -/
inductive Processed (options : ClientPoolOptions) (s s' : Pool) : Prop
  | idle (none : s.waiting = []) (none' : s'.waiting = [])
  | served (promise : Promise) (waiting : s.waiting = promise :: s'.waiting)
      (servers : s'.availableServers = s.availableServers)
      (acquired : s'.acquiredClients.size = s.acquiredClients.size + 1)
      (available : s'.availableClients.size ≤ s.availableClients.size - 1)
  | waits (waiting : s'.waiting = s.waiting) (servers : s'.availableServers = s.availableServers)
      (acquired : s'.acquiredClients.size = s.acquiredClients.size) (exhausted : Exhausted options s')

theorem Kept.exhausted (h : Kept options s) (hempty : s.availableClients.size = 0)
    (hfull : s.availableServers = [] ∨ options.maxClients ≤ s.acquiredClients.size) : Exhausted options s := by
  refine ⟨hempty, hfull.imp id ?_⟩
  intro hmax
  have hbound := h.bound
  unfold Pool.total at hbound ⊢
  omega

theorem Exhausted.full (h : Exhausted options s) :
    s.availableServers = [] ∨ options.maxClients ≤ s.acquiredClients.size := by
  obtain ⟨hempty, hfull⟩ := h
  refine hfull.imp id ?_
  intro htotal
  unfold Pool.total at htotal
  omega

theorem cannotCreate {options : ClientPoolOptions} (h : s.canCreateClient options = false) :
    s.availableServers = [] ∨ options.maxClients ≤ s.total := by
  unfold Pool.canCreateClient at h
  rw [Bool.and_eq_false_iff, decide_eq_false_iff_not, Bool.not_eq_false', List.isEmpty_iff] at h
  exact h.symm.imp id (fun hfull => by omega)

theorem Fulfilled.processed {promise : Promise} {rest : List Promise} (h : Fulfilled world options promise rest s s')
    (hcreate : world.Creates) (hkept : Kept options s')
    (hqueue : s.promises = promise :: rest) (hdone : promise.done = false) : Processed options s s' := by
  have hwaiting : s.waiting = promise :: rest.filter (fun p => !p.done) := by
    unfold Pool.waiting
    rw [hqueue, filter_cons_of_pos (by rw [hdone]; rfl)]
  cases h with
  | @available s₁ c address others placed same size take =>
    have hnew := (placed.takeAvailable take).notMem_acquired
    have hsize := ListMultimap.size_removeFirst take
    refine .served promise hwaiting same.availableServers ?_ ?_
    · show (s₁.acquiredClients.put c address).size = _
      rw [size_put_new hnew, same.acquiredClients]
    · show others.size ≤ _
      omega
  | @new s₁ s₂ c address placed same empty room create =>
    obtain ⟨hsame, heq⟩ := Pool.same_createNewClient create
    have hnew := (placed.create world address create).notMem_acquired
    refine .served promise hwaiting (hsame.availableServers.trans same.availableServers) ?_ ?_
    · show (s₂.acquiredClients.put c address).size = _
      rw [size_put_new hnew, hsame.acquiredClients, same.acquiredClients]
    · show s₂.availableClients.size ≤ _
      rw [heq, empty]
      exact Nat.zero_le _
  | @failed s₁ k address placed same empty fails =>
    rw [hcreate k address] at fails
    cases fails
  | waits placed same empty room =>
    refine .waits ?_ same.availableServers ?_ (hkept.exhausted empty ((cannotCreate room).imp id ?_))
    · unfold Pool.waiting
      rw [same.promises]
    · rw [same.acquiredClients]
    · intro hfull
      unfold Pool.total at hfull
      omega

theorem Kept.processedQueue (hcreate : world.Creates) : ∀ (queue : List Promise) {s : Pool},
    Kept options { s with promises := queue } →
      Processed options { s with promises := queue } (s.processQueue world options queue)
  | [], _, _ => .idle rfl rfl
  | promise :: rest, s, h => by
    unfold Pool.processQueue
    cases hdone : promise.done with
    | true =>
      rw [if_pos rfl]
      have hrest : Pool.waiting { s with promises := promise :: rest } = Pool.waiting { s with promises := rest } :=
        filter_cons_of_neg (by rw [hdone]; decide)
      have hkept : Kept options { s with promises := rest } := by
        refine h.withQueue (h.queued.shrink ⟨rfl, rfl⟩ (sublist_cons_self _ _) (fun _ hid => hid) ?_)
        intro p hp hlive
        rcases mem_cons.1 hp with rfl | hp
        · rw [hdone] at hlive
          cases hlive
        · exact .inr ⟨p, hp, rfl, hlive⟩
      cases Kept.processedQueue hcreate rest hkept with
      | idle none none' => exact .idle (hrest.trans none) none'
      | served p waiting servers acquired available => exact .served p (hrest.trans waiting) servers acquired available
      | waits waiting servers acquired exhausted => exact .waits (waiting.trans hrest.symm) servers acquired exhausted
    | false =>
      rw [if_neg (by decide)]
      have hfulfilled := h.placed.fulfill world options promise rest
      exact hfulfilled.processed hcreate (h.fulfilled rfl hfulfilled) rfl hdone

theorem Kept.processed (h : Kept options s) (hcreate : world.Creates) :
    Processed options s (s.processPromises world options) :=
  Kept.processedQueue hcreate s.promises h

/-- **Where two wait for one client at most, none that could be served is left waiting.** -/
theorem Kept.awake_processPromises (h : Kept options s) (hcreate : world.Creates)
    (hone : 2 ≤ s.waiting.length → s.availableClients.size ≤ 1 ∧
      (s.availableServers = [] ∨ options.maxClients ≤ s.acquiredClients.size + 1)) :
    Awake options (s.processPromises world options) := by
  intro hwaiting
  cases h.processed hcreate with
  | idle none none' => exact absurd none' hwaiting
  | waits waiting servers acquired exhausted => exact exhausted
  | served promise waiting servers acquired available =>
    have htwo : 2 ≤ s.waiting.length := by
      rw [waiting, length_cons]
      exact Nat.succ_le_succ (length_pos_of_ne_nil hwaiting)
    obtain ⟨hsize, hfull⟩ := hone htwo
    refine (h.processPromises world).exhausted (by omega) ?_
    rw [servers, acquired]
    exact hfull

theorem Fulfilled.length_le {promise : Promise} {rest : List Promise} (h : Fulfilled world options promise rest s s')
    (hqueue : s.promises = promise :: rest) : s'.promises.length ≤ s.promises.length := by
  have hrest : rest.length ≤ s.promises.length := by
    rw [hqueue]
    exact Nat.le_succ _
  cases h with
  | available placed same size take | new placed same empty room create | failed placed same empty fails => exact hrest
  | waits placed same empty room => exact Nat.le_of_eq (congrArg length same.promises)

theorem length_processQueue_le : ∀ (queue : List Promise) {s : Pool}, Placed [] s →
    (s.processQueue world options queue).promises.length ≤ queue.length
  | [], _, _ => Nat.le_refl _
  | promise :: rest, s, h => by
    unfold Pool.processQueue
    split
    · exact Nat.le_succ_of_le (length_processQueue_le rest h)
    · exact ((h.withQueue (promise :: rest) s.failures).fulfill world options promise rest).length_le rfl

theorem Kept.length_processPromises (h : Kept options s) (world : World) :
    (s.processPromises world options).promises.length ≤ s.promises.length :=
  length_processQueue_le s.promises h.placed

/-! ## The operations -/

/-- What holds after every operation of a run whose events are `Served`. -/
structure Wakeful (options : ClientPoolOptions) (s : Pool) : Prop where
  kept : Kept options s
  awake : Awake options s
  length : (s.promises.length : Int) ≤ max options.maxWaiters 0

theorem wakeful_new (options : ClientPoolOptions) : Wakeful options Pool.new where
  kept := kept_new options
  awake := fun h => absurd rfl h
  length := Int.le_max_right _ _

theorem Awake.mono (h : Awake options s) (hwaiting : s'.waiting ≠ [] → s.waiting ≠ []) (hkept : Kept options s')
    (havailable : s'.availableClients.size ≤ s.availableClients.size) (hacquired : s'.acquiredClients =
    s.acquiredClients)
    (hservers : s.availableServers = [] → s'.availableServers = []) : Awake options s' := by
  intro hwait
  have hexhausted := h (hwaiting hwait)
  refine hkept.exhausted (Nat.le_zero.1 (hexhausted.1 ▸ havailable)) ?_
  rw [hacquired]
  exact hexhausted.full.imp hservers id

theorem Wakeful.acquire (h : Wakeful options s) (hcreate : world.Creates) :
    Awake options (s.acquire world options).2 := by
  unfold Pool.acquire
  split
  · refine h.kept.enqueue.awake_processPromises hcreate ?_
    intro htwo
    rw [Pool.waiting, Pool.enqueue, filter_append, length_append] at htwo
    change 2 ≤ s.waiting.length + 1 at htwo
    have hexhausted := h.awake (ne_nil_of_length_pos (by omega))
    refine ⟨?_, hexhausted.full.imp id ?_⟩
    · show s.availableClients.size ≤ 1
      rw [hexhausted.1]
      exact Nat.zero_le _
    · intro hfull
      show options.maxClients ≤ s.acquiredClients.size + 1
      omega
  · exact h.awake

/-- The pool has at most one more client available, and `given` fewer are acquired. -/
structure Gains (given : Nat) (s s' : Pool) : Prop where
  promises : s'.promises = s.promises
  availableServers : s'.availableServers = s.availableServers
  acquired : s'.acquiredClients.size + given = s.acquiredClients.size
  available : s'.availableClients.size ≤ s.availableClients.size + 1

theorem Gains.waiting {given : Nat} (h : Gains given s s') : s'.waiting = s.waiting := congrArg (filter _) h.promises

theorem gains_createForServer (world : World) (options : ClientPoolOptions) (address : InetSocketAddress) (s : Pool) :
    Gains 0 s (s.createForServer world options address) := by
  unfold Pool.createForServer
  split
  · rcases Pool.createNewClient_cases world address s with ⟨-, hfail⟩ | ⟨s', -, hnew⟩
    · rw [hfail]
      exact ⟨rfl, rfl, rfl, Nat.le_succ _⟩
    · obtain ⟨hsame, heq⟩ := Pool.same_createNewClient hnew
      rw [hnew]
      refine ⟨hsame.promises, hsame.availableServers, congrArg LinkedMap.size hsame.acquiredClients, ?_⟩
      show (s'.availableClients.put address s.nextClient).size ≤ _
      rw [ListMultimap.size_put, heq]
  · exact ⟨rfl, rfl, rfl, Nat.le_succ _⟩

/-- **A server is added**: the pool serves one promise. -/
theorem Wakeful.onServerAdded_iff (h : Wakeful options s) (hcreate : world.Creates) (address : InetSocketAddress) :
    Awake options (s.onServerAdded world options address) ↔
      (s.availableServers = [] → s.waiting.length ≤ 1 ∨ options.maxClients ≤ s.total + 1) := by
  have hkept := (h.kept.withServer address).createForServer world mem_insert_self
  have hgains := gains_createForServer world options address (s.withServer address)
  rw [Pool.onServerAdded]
  generalize (s.withServer address).createForServer world options address = created at hkept hgains ⊢
  have hwaiting : created.waiting = s.waiting := hgains.waiting
  have hsize : created.availableClients.size ≤ s.availableClients.size + 1 := hgains.available
  have hacquired : created.acquiredClients.size = s.acquiredClients.size := hgains.acquired
  constructor
  · intro hawake hnone
    by_contra hlost
    obtain ⟨hmany, hroom⟩ := not_or.1 hlost
    have hempty : s.availableClients.size = 0 := (h.awake (ne_nil_of_length_pos (by omega))).1
    unfold Pool.total at hroom
    have hlisted : (s.withServer address).availableServers ≠ [] := ne_nil_of_mem mem_insert_self
    -- there is a server, and not more than one client is added to those that are acquired
    have hoffer : ∀ {s' : Pool}, s'.availableServers = (s.withServer address).availableServers →
        s'.acquiredClients.size ≤ s.acquiredClients.size + 1 → ¬Exhausted options s' := by
      intro s' hsame hle hexhausted
      rcases hexhausted.full with hnil | hfull
      · exact hlisted (hsame.symm.trans hnil)
      · omega
    cases hkept.processed hcreate with
    | idle none none' =>
      rw [hwaiting] at none
      rw [none] at hmany
      exact hmany (Nat.zero_le _)
    | served promise waiting servers acquired available =>
      refine hoffer (servers.trans hgains.availableServers) ?_ (hawake ?_)
      · rw [acquired, hacquired]
      · intro hnil
        have hlength := congrArg List.length (hwaiting.symm.trans waiting)
        rw [length_cons, hnil, length_nil] at hlength
        omega
    | waits waiting servers acquired exhausted =>
      refine hoffer (servers.trans hgains.availableServers) ?_ exhausted
      rw [acquired, hacquired]
      exact Nat.le_succ _
  · intro hcondition
    refine hkept.awake_processPromises hcreate ?_
    intro htwo
    rw [hwaiting] at htwo
    have hexhausted := h.awake (ne_nil_of_length_pos (by omega))
    have hempty := hexhausted.1
    refine ⟨by omega, .inr ?_⟩
    rw [hacquired]
    rcases hexhausted.full with hnone | hfull
    · have hroom := (hcondition hnone).resolve_left (by omega)
      unfold Pool.total at hroom
      omega
    · omega

theorem Wakeful.onServerRemoved (h : Wakeful options s) (address : InetSocketAddress) :
    Awake options (s.onServerRemoved address) := by
  obtain ⟨hsame, heq⟩ := Pool.same_removeClients (s.availableClients.get address) (s.withoutServer address)
  refine h.awake.mono ?_ (h.kept.onServerRemoved address) ?_ hsame.acquiredClients ?_
  · intro hwait
    unfold Pool.waiting Pool.onServerRemoved at hwait
    rw [hsame.promises] at hwait
    exact hwait
  · show (Pool.removeClients _ _).availableClients.size ≤ _
    rw [heq]
    exact length_filter_le _ _
  · intro hnone
    show (Pool.removeClients _ _).availableServers = []
    rw [hsame.availableServers]
    show s.availableServers.filter _ = []
    rw [hnone]
    rfl

theorem gains_takeBack {client : Client} {address : InetSocketAddress}
    (hget : s.acquiredClients.get client = some address)
    (healthy : Bool) : Gains 1 s (Pool.takeBack client address healthy (s.giveBack client)) := by
  have hsize : (s.giveBack client).acquiredClients.size + 1 = s.acquiredClients.size :=
    s.acquiredClients.size_remove_add_one client address hget
  unfold Pool.takeBack
  split
  · refine ⟨rfl, rfl, hsize, ?_⟩
    show ((s.giveBack client).availableClients.put address client).size ≤ _
    rw [ListMultimap.size_put]
    exact Nat.le_refl _
  · obtain ⟨hsame, heq⟩ := Pool.same_removeClient client (s.giveBack client)
    refine ⟨hsame.promises, hsame.availableServers, ?_, ?_⟩
    · rw [hsame.acquiredClients]
      exact hsize
    · rw [heq]
      exact Nat.le_succ _

/-- **A release makes room for one.** -/
theorem Wakeful.release (h : Wakeful options s) (hcreate : world.Creates) {client : Client}
    {address : InetSocketAddress} (hget : s.acquiredClients.get client = some address) (healthy : Bool) :
    Awake options ((Pool.takeBack client address healthy (s.giveBack client)).processPromises world options) := by
  have hgains := gains_takeBack hget healthy
  have hsize := hgains.available
  have hacquired := hgains.acquired
  refine (h.kept.takeBack hget healthy).awake_processPromises hcreate ?_
  intro htwo
  rw [hgains.waiting] at htwo
  have hexhausted := h.awake (ne_nil_of_length_pos (Nat.lt_of_lt_of_le (by decide) htwo))
  have hempty := hexhausted.1
  refine ⟨by omega, ?_⟩
  rw [hgains.availableServers]
  exact hexhausted.full.imp id (fun hfull => by omega)

theorem Wakeful.runTimeout (h : Wakeful options s) (world : World) (id : Nat) :
    Awake options (s.runTimeout world id) := by
  have hkept := h.kept.runTimeout world id
  unfold Pool.runTimeout at hkept ⊢
  split
  · rename_i hany
    rw [if_pos hany] at hkept
    refine h.awake.mono ?_ hkept (Nat.le_refl _) rfl (fun hnone => hnone)
    intro hwait
    obtain ⟨q, hq⟩ := exists_mem_of_ne_nil _ hwait
    obtain ⟨hmem, hlive⟩ := mem_filter.1 hq
    obtain ⟨p, hp, rfl⟩ := mem_map.1 hmem
    refine ne_nil_of_mem (mem_filter.2 ⟨hp, ?_⟩)
    by_cases hid : p.id = id
    · rw [if_pos hid] at hlive
      cases hlive
    · rw [if_neg hid] at hlive
      exact hlive
  · exact h.awake

theorem promises_close (h : s.close = .ok s') : s'.promises = [] := by
  unfold Pool.close at h
  split at h
  · cases h
  · cases h
    obtain ⟨hsame, -⟩ := Pool.same_removeClients s.availableClients.values
      { s.failPromises "Client pool closing" with availableClients := ListMultimap.empty }
    exact hsame.promises

/-! ## The runs -/

theorem Wakeful.length_step (h : Wakeful options s) (world : World) (e : Event) :
    ((step world options s e).promises.length : Int) ≤ max options.maxWaiters 0 := by
  have hlength := h.length
  cases e with
  | serverAdded address =>
    have hle := ((h.kept.withServer address).createForServer world mem_insert_self).length_processPromises world
    rw [(gains_createForServer world options address (s.withServer address)).promises] at hle
    have hle' : (step world options s (.serverAdded address)).promises.length ≤ s.promises.length := hle
    omega
  | serverRemoved address =>
    obtain ⟨hsame, -⟩ := Pool.same_removeClients (s.availableClients.get address) (s.withoutServer address)
    show (((s.withoutServer address).removeClients _).promises.length : Int) ≤ _
    rw [hsame.promises]
    exact hlength
  | acquire =>
    show ((s.acquire world options).2.promises.length : Int) ≤ _
    unfold Pool.acquire
    split
    · have hle := h.kept.enqueue.length_processPromises world
      have henqueue : (s.enqueue options).promises.length = s.promises.length + 1 := length_append
      dsimp only
      omega
    · exact hlength
  | release client healthy =>
    rw [step]
    unfold Pool.release
    cases hget : s.acquiredClients.get client with
    | none => exact hlength
    | some address =>
      have hle := (h.kept.takeBack hget healthy).length_processPromises world
      rw [(gains_takeBack hget healthy).promises] at hle
      exact (Int.ofNat_le.2 hle).trans hlength
  | timeout id =>
    show ((s.runTimeout world id).promises.length : Int) ≤ _
    unfold Pool.runTimeout
    split
    · dsimp only
      rw [length_map]
      exact hlength
    · exact hlength
  | erroneous client =>
    show ((s.turnErroneous client).promises.length : Int) ≤ _
    unfold Pool.turnErroneous
    split <;> exact hlength
  | close =>
    rw [step]
    cases hclose : s.close with
    | error fault => exact hlength
    | ok s' =>
      show (s'.promises.length : Int) ≤ _
      rw [promises_close hclose]
      exact Int.le_max_right _ _

theorem Wakeful.awake_step (h : Wakeful options s) (hcreate : world.Creates) (e : Event)
    (hserved : Served options s e) : Awake options (step world options s e) := by
  cases e with
  | serverAdded address => exact (h.onServerAdded_iff hcreate address).2 hserved
  | serverRemoved address => exact h.onServerRemoved address
  | acquire => exact h.acquire hcreate
  | release client healthy =>
    rw [step]
    unfold Pool.release
    cases hget : s.acquiredClients.get client with
    | none => exact h.awake
    | some address => exact h.release hcreate hget healthy
  | timeout id => exact h.runTimeout world id
  | erroneous client =>
    show Awake options (s.turnErroneous client)
    unfold Pool.turnErroneous
    split <;> exact h.awake
  | close =>
    rw [step]
    cases hclose : s.close with
    | error fault => exact h.awake
    | ok s' =>
      intro hwait
      refine absurd ?_ hwait
      show s'.promises.filter _ = []
      rw [promises_close hclose]
      rfl

theorem refused_iff (world : World) (options : ClientPoolOptions) (s : Pool) :
    (s.acquire world options).1 = .failed (.clientPoolException "Too many waiters") ↔
    options.maxWaiters ≤ s.promises.length := by
  unfold Pool.acquire
  split
  · rename_i hroom
    constructor
    · intro h
      cases h
    · intro h
      omega
  · rename_i hfull
    exact ⟨fun _ => Int.not_lt.1 hfull, fun _ => rfl⟩

theorem Wakeful.refusedIfFull_iff (h : Wakeful options s) (world : World) :
    RefusedIfFull world options s .acquire ↔ Served options s .acquire := by
  have hlength := h.length
  have hle : s.waiting.length ≤ s.promises.length := length_filter_le _ _
  constructor
  · intro hrefused hfull
    have hwaiting := hrefused rfl ((refused_iff world options s).2 hfull)
    have hall : s.waiting.length = s.promises.length := by omega
    intro p hp
    simpa using length_filter_eq_length_iff.1 hall p hp
  · intro hserved _ hrefused
    have hfull := (refused_iff world options s).1 hrefused
    have hall : s.waiting.length = s.promises.length :=
      length_filter_eq_length_iff.2 (fun p hp => by rw [hserved hfull p hp]; rfl)
    rw [hall]
    exact hfull

theorem Wakeful.served_of_awake (h : Wakeful options s) (hcreate : world.Creates) (e : Event)
    (hawake : Awake options (step world options s e)) (hrefused : RefusedIfFull world options s e) :
    Served options s e := by
  cases e with
  | serverAdded address => exact (h.onServerAdded_iff hcreate address).1 hawake
  | acquire => exact (h.refusedIfFull_iff world).1 hrefused
  | serverRemoved address | release client healthy | timeout id | erroneous client | close => trivial

theorem Wakeful.refusedIfFull (h : Wakeful options s) (world : World) (e : Event) (hserved : Served options s e) :
    RefusedIfFull world options s e := by
  intro he
  subst he
  exact (h.refusedIfFull_iff world).2 hserved rfl

/-- **When a pool loses no wake-up.**  If creation never fails, then in a run nobody ever waits for a client that is
there or could be created, and no call of `acquire` is refused but by a queue of waiting promises, exactly if the first
server is always added when one promise waits at most or there is room for one client at most, and `acquire` is never
called with a full queue in which a promise has timed out. -/
theorem clientPool_wakeup_iff (world : World) (options : ClientPoolOptions) (events : List Event)
    (hcreate : ∀ k address, world.createFails k address = false) :
    Always (step world options) (Awake options) Pool.new events ∧
        Meets (step world options) (RefusedIfFull world options) Pool.new events ↔
      Meets (step world options) (Served options) Pool.new events :=
  Runs.always_and_meets_iff_of_inv (fun s e h hserved =>
    ⟨kept_step world s e h.kept, h.awake_step hcreate e hserved, h.length_step world e⟩) (fun _ h => h.awake)
      (fun _ e h => h.refusedIfFull world e)
    (fun _ e h => h.served_of_awake hcreate e) (wakeful_new options)

/-- Two that wait for one client get it one after the other. -/
theorem clientPool_wakeup_iff_twoWaiters : Always (step plainWorld ⟨1, 2, 0⟩) (Awake ⟨1, 2, 0⟩) Pool.new
    [.acquire, .acquire, .serverAdded ⟨"127.0.0.1", 80⟩, .release 0 true, .release 0 false] :=
  ((clientPool_wakeup_iff plainWorld ⟨1, 2, 0⟩ _ (fun _ _ => rfl)).2 (by decide)).1

/-- **A wake-up that is lost, and a refusal by a promise that has timed out.**  Of two that wait for the first server
one is not served, although there may be two clients; and with one waiter allowed, the one that has timed out stands in
the way of the next. -/
theorem wakeup_lost :
    ¬Awake ⟨2, 2, 0⟩ (Runs.run (step plainWorld ⟨2, 2, 0⟩) Pool.new
      [.acquire, .acquire, .serverAdded ⟨"127.0.0.1", 80⟩]) ∧
    ¬RefusedIfFull plainWorld ⟨1, 1, 1⟩ (Runs.run (step plainWorld ⟨1, 1, 1⟩) Pool.new [.acquire, .timeout 0])
      .acquire := by
  constructor
  · intro h
    rcases (h (by decide)).2 with hnone | htotal
    · exact absurd hnone (by decide)
    · exact absurd htotal (by decide)
  · intro h
    exact absurd (h rfl (by decide)) (by decide)

end Photon.ClientPool
