import Photon.ClientPool
/-!
# ClientPoolClients — where the clients of a pool are

`Placed limbo s` says that the clients with a transport are the available ones, the acquired ones and those in `limbo`,
each in one place only: the clients an operation has in its hands at the moment.  Every move of a client has its rule,
so the proofs about the operations follow their code.  The rules about `total` say when the pool grows.
-/
namespace Photon.ClientPool

open List
open Keyed (LinkedMap ListMultimap)

/-- **The clients of a pool are each in one place.** -/
structure Placed (limbo : List Client) (s : Pool) : Prop where
  keys : s.clientTransportMap.keys.Perm (limbo ++ (s.availableClients.values ++ s.acquiredClients.keys))
  transports : ∀ c t, s.clientTransportMap.get c = some t → t = c
  created : ∀ c ∈ s.clientTransportMap.keys, c < s.nextClient
  listed : ∀ p ∈ s.availableClients.pairs, p.1 ∈ s.availableServers
  sound : s.broken = false
  closings : ∀ c, s.closings.count c = if c < s.nextClient ∧ c ∉ s.clientTransportMap.keys then 1 else 0
  erroneous : ∀ c ∈ s.erroneous, c < s.nextClient

/-- **What is out is acquired.** -/
structure Lent (s : Pool) : Prop where
  out : ∀ c, c ∈ s.acquiredClients.keys ↔ Custody.Out s.handed c
  exclusive : Custody.Exclusive s.handed

namespace Placed

variable {limbo : List Client} {s : Pool}

theorem nodup (h : Placed limbo s) : (limbo ++ (s.availableClients.values ++ s.acquiredClients.keys)).Nodup :=
  h.keys.nodup_iff.1 s.clientTransportMap.nodup_keys

variable {c : Client}

theorem notMem_acquired (h : Placed (c :: limbo) s) : c ∉ s.acquiredClients.keys := by
  intro hmem
  exact (nodup_cons.1 h.nodup).1 (mem_append_right _ (mem_append_right _ hmem))

theorem new : Placed [] Pool.new where
  keys := List.Perm.refl _
  transports := by
    intro c t h
    cases h
  created := by
    intro c h
    cases h
  listed := by
    intro p h
    cases h
  sound := rfl
  closings := by
    intro c
    rw [if_neg]
    · rfl
    · intro h
      exact Nat.not_lt_zero c h.1
  erroneous := by
    intro c h
    cases h

theorem tick (h : Placed limbo s) : Placed limbo s.tick :=
  { h with }

theorem create (h : Placed limbo s) (world : World) (address : InetSocketAddress) {s' : Pool}
    (hc : s.createNewClient world address = (some c, s')) : Placed (c :: limbo) s' := by
  unfold Pool.createNewClient at hc
  split at hc
  · cases hc
  · cases hc
    have hfresh : s.nextClient ∉ s.clientTransportMap.keys := fun hmem => absurd (h.created _ hmem) (Nat.lt_irrefl _)
    have hkeys := s.clientTransportMap.keys_put_of_absent _ s.nextClient
      ((s.clientTransportMap.get_eq_none_iff _).2 hfresh)
    refine ⟨?_, ?_, ?_, h.listed, h.sound, ?_, ?_⟩
    · show (s.clientTransportMap.put s.nextClient s.nextClient).keys.Perm _
      rw [hkeys]
      exact perm_append_singleton _ _ |>.trans (h.keys.cons _)
    · intro c t hget
      rcases LinkedMap.get_put_cases hget with ⟨hcn, rfl⟩ | ⟨-, hget⟩
      · exact hcn.symm
      · exact h.transports c t hget
    · intro c hc
      have hc' : c ∈ (s.clientTransportMap.put s.nextClient s.nextClient).keys := hc
      rw [hkeys] at hc'
      show c < s.nextClient + 1
      rcases mem_append.1 hc' with hc' | hc'
      · exact Nat.lt_succ_of_lt (h.created c hc')
      · rw [mem_singleton.1 hc']
        exact Nat.lt_succ_self _
    · intro c
      show s.closings.count c = if c < s.nextClient + 1 ∧
        c ∉ (s.clientTransportMap.put s.nextClient s.nextClient).keys then 1 else 0
      rw [h.closings c, hkeys]
      refine if_congr ?_ rfl rfl
      rw [mem_append, mem_singleton, not_or]
      constructor
      · intro hc
        exact ⟨Nat.lt_succ_of_lt hc.1, hc.2, Nat.ne_of_lt hc.1⟩
      · intro hc
        exact ⟨Nat.lt_of_le_of_ne (Nat.le_of_lt_succ hc.1) hc.2.2, hc.2.1⟩
    · intro c hc
      exact Nat.lt_succ_of_lt (h.erroneous c hc)

variable {address : InetSocketAddress}

theorem putAvailable (h : Placed (c :: limbo) s) (hlisted : address ∈ s.availableServers) :
    Placed limbo { s with availableClients := s.availableClients.put address c } := by
  refine { h with keys := ?_, listed := ?_ }
  · refine h.keys.trans ?_
    show (c :: limbo ++ (s.availableClients.values ++ s.acquiredClients.keys)).Perm
      (limbo ++ ((s.availableClients.put address c).values ++ s.acquiredClients.keys))
    rw [ListMultimap.values_put, append_assoc, singleton_append, cons_append, ← append_assoc,
      ← append_assoc limbo s.availableClients.values]
    exact perm_middle.symm
  · intro p hp
    have hp' : p ∈ s.availableClients.pairs ++ [(address, c)] := hp
    rcases mem_append.1 hp' with hp' | hp'
    · exact h.listed p hp'
    · rw [mem_singleton.1 hp']
      exact hlisted

section

variable (h : Placed limbo s)
include h

theorem takeAvailable
    {rest : ListMultimap InetSocketAddress Client} (htake : s.availableClients.removeFirst address = some (c, rest)) :
    Placed (c :: limbo) { s with availableClients := rest } := by
  refine { h with keys := ?_, listed := ?_ }
  · refine h.keys.trans ?_
    refine (((ListMultimap.values_removeFirst htake).append_right _).append_left limbo).trans ?_
    exact perm_middle
  · intro p hp
    exact h.listed p (ListMultimap.mem_of_mem_removeFirst htake hp)

theorem takeServer (address : InetSocketAddress) :
    Placed (s.availableClients.get address ++ limbo) (s.withoutServer address) := by
  refine { h with keys := ?_, listed := ?_ }
  · refine h.keys.trans ((((s.availableClients.values_removeAll address).append_right _).append_left limbo).trans ?_)
    rw [append_assoc, append_assoc, ← append_assoc]
    exact perm_append_comm.append_right _ |>.trans (List.Perm.of_eq (append_assoc _ _ _))
  · intro p hp
    obtain ⟨hp, hne⟩ := mem_filter.1 hp
    exact mem_filter.2 ⟨h.listed p hp, by simpa using hne⟩

theorem takeAll : Placed (s.availableClients.values ++ limbo) { s with availableClients := ListMultimap.empty } := by
  refine { h with keys := h.keys.trans ?_, listed := nofun }
  · rw [← append_assoc]
    exact perm_append_comm.append_right _

theorem takeAcquired (hget : s.acquiredClients.get c = some address) : Placed (c :: limbo) (s.giveBack c) := by
  refine { h with keys := h.keys.trans ?_ }
  refine (((s.acquiredClients.keys_remove c address hget).append_left s.availableClients.values).append_left
    limbo).trans ?_
  show (limbo ++ (s.availableClients.values ++ c :: (s.acquiredClients.remove c).keys)).Perm
    (c :: (limbo ++ (s.availableClients.values ++ (s.acquiredClients.remove c).keys)))
  rw [← append_assoc, ← append_assoc limbo]
  exact perm_middle

end

theorem putAcquired (h : Placed (c :: limbo) s) (address : InetSocketAddress) :
    Placed limbo { s with acquiredClients := s.acquiredClients.put c address } := by
  have hnew := h.notMem_acquired
  refine { h with keys := h.keys.trans ?_ }
  show (c :: (limbo ++ (s.availableClients.values ++ s.acquiredClients.keys))).Perm
    (limbo ++ (s.availableClients.values ++ (s.acquiredClients.put c address).keys))
  rw [s.acquiredClients.keys_put_of_absent c address ((s.acquiredClients.get_eq_none_iff c).2 hnew), ← append_assoc,
    ← append_assoc, ← append_assoc]
  exact (perm_append_singleton c _).symm

/-- **A client in hand is removed**, and its transport is closed. -/
theorem removeClient {c : Client} (h : Placed (c :: limbo) s) : Placed limbo (s.removeClient c) := by
  have hmem : c ∈ s.clientTransportMap.keys := h.keys.mem_iff.2 mem_cons_self
  obtain ⟨t, hget⟩ := LinkedMap.mem_keys_iff.1 hmem
  obtain rfl := h.transports c t hget
  have hkeys := s.clientTransportMap.keys_remove t t hget
  have hnodup := hkeys.nodup_iff.1 s.clientTransportMap.nodup_keys
  have hrest : ∀ d, d ∈ (s.clientTransportMap.remove t).keys ↔ d ∈ s.clientTransportMap.keys ∧ d ≠ t := by
    intro d
    rw [hkeys.mem_iff, mem_cons]
    constructor
    · intro hd
      refine ⟨.inr hd, ?_⟩
      intro heq
      exact (nodup_cons.1 hnodup).1 (heq ▸ hd)
    · intro hd
      exact hd.1.resolve_left hd.2
  unfold Pool.removeClient
  rw [hget]
  refine ⟨?_, ?_, ?_, h.listed, h.sound, ?_, h.erroneous⟩
  · exact (hkeys.symm.trans h.keys).cons_inv
  · intro d u hd
    exact h.transports d u (LinkedMap.get_of_get_remove hd)
  · intro d hd
    exact h.created d ((hrest d).1 hd).1
  · intro d
    show (s.closings ++ [t]).count d = if d < s.nextClient ∧ d ∉ (s.clientTransportMap.remove t).keys then 1 else 0
    rw [count_append, h.closings d]
    by_cases hd : d = t
    · subst hd
      have hlt := h.created d hmem
      rw [if_neg (fun hn => hn.2 hmem), if_pos ⟨hlt, fun hn => ((hrest d).1 hn).2 rfl⟩, count_singleton_self]
    · have hzero : [t].count d = 0 := count_eq_zero.2 (fun hn => hd (mem_singleton.1 hn))
      rw [hzero, Nat.add_zero]
      refine if_congr ?_ rfl rfl
      rw [hrest d]
      simp [hd]

theorem removeClients : ∀ (clients : List Client) {s : Pool}, Placed (clients ++ limbo) s →
    Placed limbo (s.removeClients clients)
  | [], _, h => h
  | _ :: clients, _, h => removeClients clients h.removeClient

end Placed

/-! ## What the moves of a client leave alone -/

namespace Pool

structure Same (s s' : Pool) : Prop where
  acquiredClients : s'.acquiredClients = s.acquiredClients
  availableServers : s'.availableServers = s.availableServers
  promises : s'.promises = s.promises
  closed : s'.closed = s.closed
  erroneous : s'.erroneous = s.erroneous
  nextPromise : s'.nextPromise = s.nextPromise
  handed : s'.handed = s.handed
  failures : s'.failures = s.failures

theorem Same.refl (s : Pool) : Same s s := ⟨rfl, rfl, rfl, rfl, rfl, rfl, rfl, rfl⟩

theorem Same.trans {s s' s'' : Pool} (h : Same s s') (h' : Same s' s'') : Same s s'' :=
  ⟨h'.acquiredClients.trans h.acquiredClients, h'.availableServers.trans h.availableServers,
    h'.promises.trans h.promises,
    h'.closed.trans h.closed, h'.erroneous.trans h.erroneous, h'.nextPromise.trans h.nextPromise,
      h'.handed.trans h.handed,
    h'.failures.trans h.failures⟩

theorem same_removeClient (c : Client) (s : Pool) :
    Same s (s.removeClient c) ∧ (s.removeClient c).availableClients = s.availableClients := by
  unfold removeClient
  cases s.clientTransportMap.get c <;> exact ⟨⟨rfl, rfl, rfl, rfl, rfl, rfl, rfl, rfl⟩, rfl⟩

theorem same_createNewClient {world : World} {address : InetSocketAddress} {s s' : Pool} {c : Option Client}
    (h : s.createNewClient world address = (c, s')) : Same s s' ∧ s'.availableClients = s.availableClients := by
  unfold createNewClient at h
  split at h <;> cases h <;> exact ⟨⟨rfl, rfl, rfl, rfl, rfl, rfl, rfl, rfl⟩, rfl⟩

theorem Same.withAvailable {s s' : Pool} (h : Same s s') (clients : ListMultimap InetSocketAddress Client) :
    Same s { s' with availableClients := clients } :=
  { h with }

theorem Same.tick (s : Pool) : Same s s.tick := ⟨rfl, rfl, rfl, rfl, rfl, rfl, rfl, rfl⟩

theorem same_removeClients : ∀ (clients : List Client) (s : Pool),
    Same s (s.removeClients clients) ∧ (s.removeClients clients).availableClients = s.availableClients
  | [], s => ⟨Same.refl s, rfl⟩
  | c :: clients, s => by
    obtain ⟨hsame, heq⟩ := same_removeClient c s
    obtain ⟨hsame', heq'⟩ := same_removeClients clients (s.removeClient c)
    exact ⟨hsame.trans hsame', heq'.trans heq⟩

theorem createNewClient_cases (world : World) (address : InetSocketAddress) (s : Pool) :
    (world.createFails s.ticks address = true ∧ s.createNewClient world address = (none, s.tick)) ∨
      ∃ s', world.createFails s.ticks address = false ∧ s.createNewClient world address = (some s.nextClient, s') := by
  unfold createNewClient
  cases hfails : world.createFails s.ticks address with
  | true => exact .inl ⟨rfl, if_pos rfl⟩
  | false => exact .inr ⟨_, rfl, if_neg (by decide)⟩

end Pool

open Pool (Same)

section Serving

variable {limbo : List Client} (world : World) {address : InetSocketAddress}

theorem Placed.removeFirstClient {s : Pool} (h : Placed limbo s) (hkey : address ∈ s.availableClients.keySet) :
    Placed limbo (s.removeFirstClient address) ∧ Same s (s.removeFirstClient address) ∧
      (s.removeFirstClient address).availableClients.size + 1 = s.availableClients.size := by
  obtain ⟨c, rest, htake⟩ := ListMultimap.exists_removeFirst hkey
  obtain ⟨hsame, heq⟩ := Pool.same_removeClient c { s with availableClients := rest }
  unfold Pool.removeFirstClient
  rw [htake]
  dsimp only
  refine ⟨(h.takeAvailable htake).removeClient, ((Same.refl s).withAvailable rest).trans hsame, ?_⟩
  rw [heq]
  exact (ListMultimap.size_removeFirst htake).symm

/-- **A client moves to an address that has none**: the pool does not grow. -/
theorem Placed.moveClient {s : Pool} (h : Placed limbo s) (hlisted : address ∈ s.availableServers) :
    Placed limbo (s.moveClient world address) ∧ Same s (s.moveClient world address) ∧
      (s.moveClient world address).availableClients.size = s.availableClients.size := by
  unfold Pool.moveClient
  split
  · exact ⟨h.tick, Same.tick s, rfl⟩
  · rename_i a hfind
    have hkey : a ∈ s.availableClients.keySet :=
      (world.order_perm _ _).mem_iff.1 (mem_of_find?_eq_some hfind)
    rcases Pool.createNewClient_cases world address s.tick with ⟨-, hfail⟩ | ⟨s', -, hnew⟩
    · rw [hfail]
      exact ⟨h.tick.tick, (Same.tick s).trans (Same.tick s.tick), rfl⟩
    · rw [hnew]
      obtain ⟨hsame, heq⟩ := Pool.same_createNewClient hnew
      have hkey' : a ∈ s'.availableClients.keySet := by
        rw [heq]
        exact hkey
      obtain ⟨hplaced, hsame', hsize⟩ := (h.tick.create world address hnew).removeFirstClient hkey'
      have hall := ((Same.tick s).trans hsame).trans hsame'
      dsimp only
      refine ⟨hplaced.putAvailable ?_, hall.withAvailable _, ?_⟩
      · rw [hall.availableServers]
        exact hlisted
      · rw [ListMultimap.size_put, hsize, heq]
        rfl

theorem Placed.moveClients : ∀ (servers : List InetSocketAddress) {s : Pool}, Placed limbo s →
    (∀ a ∈ servers, a ∈ s.availableServers) →
    Placed limbo (s.moveClients world servers) ∧ Same s (s.moveClients world servers) ∧
      (s.moveClients world servers).availableClients.size = s.availableClients.size
  | [], s, h, _ => ⟨h, Same.refl s, rfl⟩
  | server :: servers, s, h, hlisted => by
    obtain ⟨hplaced, hsame, hsize⟩ :
        Placed limbo (if s.availableClients.containsKey server then s else s.moveClient world server) ∧
        Same s (if s.availableClients.containsKey server then s else s.moveClient world server) ∧
        (if s.availableClients.containsKey server then s else s.moveClient world server).availableClients.size =
          s.availableClients.size := by
      split
      · exact ⟨h, Same.refl s, rfl⟩
      · exact h.moveClient world (hlisted server mem_cons_self)
    obtain ⟨hplaced', hsame', hsize'⟩ := Placed.moveClients servers hplaced (fun a ha => by
      rw [hsame.availableServers]
      exact hlisted a (mem_cons_of_mem _ ha))
    exact ⟨hplaced', hsame.trans hsame', hsize'.trans hsize⟩

/-- What a search among the available clients ends with: none is left, or one has been taken and is acquired. -/
inductive Reserved (limbo : List Client) (s : Pool) : Option Client → Pool → Prop
  | none {s₁ : Pool} (placed : Placed limbo s₁) (same : Same s s₁) (empty : s₁.availableClients.size = 0) :
    Reserved limbo s none s₁
  | some {s₁ : Pool} {c : Client} {address : InetSocketAddress} {rest : ListMultimap InetSocketAddress Client}
      (placed : Placed limbo s₁) (same : Same s s₁) (size : s₁.availableClients.size ≤ s.availableClients.size)
      (take : s₁.availableClients.removeFirst address = some (c, rest)) :
      Reserved limbo s (some c)
        { s₁ with availableClients := rest, acquiredClients := s₁.acquiredClients.put c address }

theorem Reserved.of_same {s s' s'' : Pool} {r : Option Client} (h : Reserved limbo s' r s'') (hsame : Same s s')
    (hsize : s'.availableClients.size ≤ s.availableClients.size) : Reserved limbo s r s'' := by
  cases h with
  | none placed same empty => exact .none placed (hsame.trans same) empty
  | some placed same size take => exact .some placed (hsame.trans same) (size.trans hsize) take

/-- **The search ends**, with a client as long as there is one without an error. -/
theorem Placed.reserveLoop : ∀ (fuel : Nat) {s : Pool}, Placed limbo s → s.availableClients.size ≤ fuel →
    Reserved limbo s (Pool.reserveLoop world fuel s).1 (Pool.reserveLoop world fuel s).2
  | 0, s, h, hfuel => .none h (Same.refl s) (Nat.le_zero.1 hfuel)
  | fuel + 1, s, h, hfuel => by
    unfold Pool.reserveLoop
    split
    · rename_i hempty
      exact .none h (Same.refl s) ((ListMultimap.isEmpty_iff_size _).1 hempty)
    · rename_i hsome
      have hpos : 0 < s.availableClients.keySet.length := by
        refine length_pos_of_ne_nil ?_
        intro hnil
        exact hsome ((ListMultimap.isEmpty_iff_size _).2 ((ListMultimap.keySet_eq_nil_iff _).1 hnil))
      have hlt := world.nextInt_lt s.ticks _ hpos
      dsimp only
      rw [getElem?_eq_getElem hlt]
      dsimp only
      generalize haddress : s.availableClients.keySet[world.nextInt s.ticks s.availableClients.keySet.length] = address
      have hkey : address ∈ s.availableClients.keySet := haddress ▸ getElem_mem hlt
      obtain ⟨c, rest, htake⟩ := ListMultimap.exists_removeFirst hkey
      have htake' : s.tick.availableClients.removeFirst address = some (c, rest) := htake
      have hsame := (Same.tick s).withAvailable rest
      have hsize := ListMultimap.size_removeFirst htake
      by_cases herror : c ∈ s.erroneous
      · have hreserve : s.tick.reserveAvailableClient address =
            (none, Pool.removeClient c { s.tick with availableClients := rest }) := by
          unfold Pool.reserveAvailableClient
          rw [htake']
          exact if_pos herror
        obtain ⟨hsame', heq⟩ := Pool.same_removeClient c { s.tick with availableClients := rest }
        rw [hreserve]
        refine (Placed.reserveLoop fuel (h.tick.takeAvailable htake').removeClient ?_).of_same (hsame.trans hsame') ?_
        · rw [heq]
          show rest.size ≤ fuel
          omega
        · rw [heq]
          show rest.size ≤ s.availableClients.size
          omega
      · have hreserve : s.tick.reserveAvailableClient address = (some c,
            { s.tick with availableClients := rest, acquiredClients := s.acquiredClients.put c address }) := by
          unfold Pool.reserveAvailableClient
          rw [htake']
          exact if_neg herror
        rw [hreserve]
        exact .some h.tick (Same.tick s) (Nat.le_refl _) htake'

theorem Placed.fulfillWithAvailableClient {s : Pool} (h : Placed limbo s) :
    Reserved limbo s (s.fulfillWithAvailableClient world).1 (s.fulfillWithAvailableClient world).2 := by
  have hlisted : ∀ a ∈ world.order s.ticks s.availableServers, a ∈ s.tick.availableServers :=
    fun a ha => (world.order_perm _ _).mem_iff.1 ha
  obtain ⟨hplaced, hsame, hsize⟩ := Placed.moveClients world _ h.tick hlisted
  exact (hplaced.reserveLoop world _ (Nat.le_refl _)).of_same ((Same.tick s).trans hsame) (Nat.le_of_eq hsize)

/-- **What becomes of the first promise that is not done**: it is served with a client that was available, or with a new
one; the creation of the new one fails, and the promise with it; or there is neither a client nor room for one, and the
promise waits. -/
inductive Fulfilled (world : World) (options : ClientPoolOptions) (promise : Promise) (rest : List Promise) (s : Pool) :
  Pool → Prop
  | available {s₁ : Pool} {c : Client} {address : InetSocketAddress} {others : ListMultimap InetSocketAddress Client}
      (placed : Placed [] s₁) (same : Same s s₁) (size : s₁.availableClients.size ≤ s.availableClients.size)
      (take : s₁.availableClients.removeFirst address = some (c, others)) :
      Fulfilled world options promise rest s (Pool.serve promise rest c
        { s₁ with availableClients := others, acquiredClients := s₁.acquiredClients.put c address })
  | new {s₁ s₂ : Pool} {c : Client} {address : InetSocketAddress} (placed : Placed [] s₁) (same : Same s s₁)
      (empty : s₁.availableClients.size = 0) (room : s₁.canCreateClient options = true)
      (create : s₁.createNewClient world address = (some c, s₂)) :
      Fulfilled world options promise rest s (Pool.serve promise rest c
        { s₂ with acquiredClients := s₂.acquiredClients.put c address })
  | failed {s₁ : Pool} {k : Nat} {address : InetSocketAddress} (placed : Placed [] s₁) (same : Same s s₁)
      (empty : s₁.availableClients.size = 0) (fails : world.createFails k address = true) :
      Fulfilled world options promise rest s
        { s₁ with promises := rest, failures := s₁.failures ++ [(promise.id, .ioException)] }
  | waits {s₁ : Pool} (placed : Placed [] s₁) (same : Same s s₁) (empty : s₁.availableClients.size = 0)
      (room : s₁.canCreateClient options = false) : Fulfilled world options promise rest s s₁

theorem Placed.fulfill {s : Pool} (h : Placed [] s) (options : ClientPoolOptions) (promise : Promise)
    (rest : List Promise) : Fulfilled world options promise rest s (s.fulfill world options promise rest) := by
  have hreserved := h.fulfillWithAvailableClient world
  unfold Pool.fulfill
  generalize s.fulfillWithAvailableClient world = result at hreserved
  obtain ⟨r, s₁⟩ := result
  cases hreserved with
  | some placed same size take => exact .available placed same size take
  | none placed same empty =>
    dsimp only
    cases hroom : s₁.canCreateClient options with
    | false => exact .waits placed same empty hroom
    | true =>
      have hservers : 0 < s₁.availableServers.length := by
        unfold Pool.canCreateClient at hroom
        rw [Bool.and_eq_true, Bool.not_eq_true', isEmpty_eq_false_iff] at hroom
        exact length_pos_of_ne_nil hroom.2
      have hlt := world.nextInt_lt s₁.ticks _ hservers
      rw [if_pos rfl]
      unfold Pool.fulfillWithNewClient
      rw [getElem?_eq_getElem hlt]
      dsimp only
      generalize s₁.availableServers[world.nextInt s₁.ticks s₁.availableServers.length] = address
      rcases Pool.createNewClient_cases world address s₁.tick with ⟨hfails, hfail⟩ | ⟨s₂, -, hnew⟩
      · rw [hfail]
        exact .failed placed.tick.tick ((same.trans (Same.tick s₁)).trans (Same.tick s₁.tick)) empty hfails
      · rw [hnew]
        exact .new placed.tick (same.trans (Same.tick s₁)) empty hroom hnew

end Serving
end Photon.ClientPool
