import Mathlib.Data.List.Perm.Subperm
import Photon.Runs
import Photon.ServiceNode
/-!
# ServiceNodeLife — a process that always finds back into its cluster

As long as no join condition that is fulfilled waits to be handled when the connection is suspended or lost, and no
lease expires whose next join condition is fulfilled at once, there is exactly one thing that leads on (`Token`): a call
of `joinService`, a join condition, a request for a znode or a lease.
-/
namespace Photon.Zookeeper.ServiceNode

open List
open Runs (Always Meets)

/-! ## What is asked of a node -/

/-- Every future is completed, or its join condition is not completed or not handled, or its request is not answered. -/
def Node.Completes (node : Node) : Prop :=
  ∀ leasePromise < node.joins, leasePromise ∈ node.completed ∨ leasePromise ∈ node.conditions ∨
    leasePromise ∈ node.fulfilled ∨ ∃ membership, .create membership leasePromise ∈ node.requests

/-- A join is to come or not finished, or there is a lease that expires when the connection is suspended or lost. -/
def Node.Recovers (node : Node) : Prop :=
  0 < node.calls ∨ node.conditions ≠ [] ∨ node.fulfilled ≠ [] ∨
    (∃ membership leasePromise, .create membership leasePromise ∈ node.requests) ∨
    ∃ membership ∈ node.leases, node.state = .joined ∧ node.membership = some membership

/-- Without requests there is one znode at most, and none in state `NOT_JOINED`. -/
def Node.Single (node : Node) : Prop :=
  node.requests = [] → node.znodes.length ≤ 1 ∧ (node.state = .notJoined → node.znodes = [])

structure Node.Healthy (node : Node) : Prop where
  completes : node.Completes
  recovers : node.Recovers
  single : node.Single

/-- Whether the join that follows an expired lease finds its condition fulfilled at once, and asks for a znode. -/
def renewsAtOnce : List JoinCondition → Bool
  | [] => false
  | .pending :: _ => false
  | .fulfilled false :: _ => true
  | .failed :: conditions | .fulfilled true :: conditions => renewsAtOnce conditions

/-- When the connection is suspended or lost, no fulfilled join condition waits to be handled, and the lease that
expires is not renewed at once. -/
def Timely (node : Node) : Event → Prop
  | .disconnected conditions => node.fulfilled = [] ∧ (node.leases ≠ [] → renewsAtOnce conditions = false)
  | _ => True

instance (node : Node) : (e : Event) → Decidable (Timely node e)
  | .disconnected _ => inferInstanceAs (Decidable (_ ∧ _))
  | .joinService _ | .conditionFulfilled _ | .conditionFailed _ | .handle _ _ | .answer _ => .isTrue trivial

/-! ## What leads on -/

/-- The one thing that leads on.  A membership that was expired before it was created is among the requests twice. -/
inductive Token where
  | call
  | condition (leasePromise : Nat)
  | fulfilled (leasePromise : Nat)
  | creating (membership leasePromise : Nat)
  | expired (membership leasePromise : Nat)
  | lease (membership : Nat)
  deriving DecidableEq

namespace Token

def calls : Token → Nat
  | call => 1
  | _ => 0

def conditions : Token → List Nat
  | condition p => [p]
  | _ => []

def handled : Token → List Nat
  | fulfilled p => [p]
  | _ => []

def leases : Token → List Nat
  | lease m => [m]
  | _ => []

def requests : Token → List Request
  | creating m p => [.create m p]
  | expired m p => [.create m p, .delete m]
  | _ => []

def state : Token → State
  | fulfilled _ | creating _ _ | lease _ => .joined
  | call | condition _ | expired _ _ => .notJoined

def future : Token → List Nat
  | condition p | fulfilled p | creating _ p | expired _ p => [p]
  | call | lease _ => []

/-- The membership that is kept for the next time the connection is suspended or lost. -/
def current : Token → Option Nat
  | creating m _ | lease m => some m
  | _ => none

def uncreated : Token → Option Nat
  | creating m _ | expired m _ => some m
  | _ => none

end Token

/-- The node is where the token is, and has asked for deletions before. -/
structure At (node : Node) (token : Token) (deletions : List Nat) : Prop where
  calls : node.calls = token.calls
  conditions : node.conditions = token.conditions
  fulfilled : node.fulfilled = token.handled
  leases : node.leases = token.leases
  state : node.state = token.state
  requests : node.requests = deletions.map .delete ++ token.requests
  current : ∀ m, token.current = some m → node.membership = some m ∧ m ∉ node.expired ∧ m < node.memberships
  uncreated : ∀ m, token.uncreated = some m → m ∉ node.znodes ∧ m < node.memberships
  expired : ∀ m p, token = .expired m p → m ∈ node.expired
  expired_lt : ∀ m ∈ node.expired, m < node.memberships
  znodes_nodup : node.znodes.Nodup
  znodes_lt : ∀ znode ∈ node.znodes, znode < node.memberships
  znodes : ∀ znode ∈ node.znodes, znode ∈ deletions ∨ znode ∈ node.leases
  futures : ∀ p < node.joins, p ∈ node.completed ∨ p ∈ token.future

def Inv (node : Node) : Prop := ∃ token deletions, At node token deletions

section

variable {node : Node} {token : Token} {deletions : List Nat}

theorem At.healthy (h : At node token deletions) : node.Healthy where
  completes p hp := by
    rcases h.futures p hp with hdone | hfuture
    · exact .inl hdone
    · right
      rw [h.conditions, h.fulfilled, h.requests]
      cases token with
      | call | lease m => cases hfuture
      | condition q => exact .inl hfuture
      | fulfilled q => exact .inr (.inl hfuture)
      | creating m q | expired m q =>
        obtain rfl := mem_singleton.1 hfuture
        exact .inr (.inr ⟨m, mem_append_right _ mem_cons_self⟩)
  recovers := by
    rw [Node.Recovers, h.calls, h.conditions, h.fulfilled, h.requests, h.leases, h.state]
    cases token with
    | call => exact .inl Nat.one_pos
    | condition q => exact .inr (.inl (cons_ne_nil _ _))
    | fulfilled q => exact .inr (.inr (.inl (cons_ne_nil _ _)))
    | creating m q | expired m q => exact .inr (.inr (.inr (.inl ⟨m, q, mem_append_right _ mem_cons_self⟩)))
    | lease m => exact .inr (.inr (.inr (.inr ⟨m, mem_cons_self, rfl, (h.current m rfl).1⟩)))
  single hrequests := by
    rw [h.requests, append_eq_nil_iff, map_eq_nil_iff] at hrequests
    obtain ⟨rfl, htoken⟩ := hrequests
    have hleased : ∀ znode ∈ node.znodes, znode ∈ token.leases := by
      intro znode hznode
      rcases h.znodes znode hznode with hdeleted | hlease
      · cases hdeleted
      · rwa [h.leases] at hlease
    have hlength : token.leases.length ≤ 1 := by
      cases token with
      | lease m => exact Nat.le_refl 1
      | _ => exact Nat.zero_le 1
    have hsub : node.znodes.length ≤ token.leases.length := (subperm_of_subset h.znodes_nodup hleased).length_le
    refine ⟨Nat.le_trans hsub hlength, fun hstate => ?_⟩
    have hnone : token.leases = [] := by
      rw [h.state] at hstate
      cases token <;> first | rfl | cases hstate
    rw [hnone] at hsub
    exact eq_nil_of_length_eq_zero (Nat.le_zero.1 hsub)

/-! ## Joining -/

section

variable (h : node.state = .notJoined)
include h

theorem join_pending :
    node.join .pending = { node with joins := node.joins + 1, conditions := node.joins :: node.conditions } := by
  simp only [Node.join, h]

theorem join_failed : node.join .failed = { node with joins := node.joins + 1 }.fail node.joins := by
  simp only [Node.join, h]

theorem join_throws : node.join (.fulfilled true) = { node with
      joins := node.joins + 1
      membership := some node.memberships
      memberships := node.memberships + 1 }.fail node.joins := by
  simp only [Node.join, h, Node.handleSuccessfulJoinCondition, if_true]

end

theorem lt_succ_of_forall_lt {l : List Nat} {n : Nat} (h : ∀ m ∈ l, m < n) : ∀ m ∈ l, m < n + 1 :=
  fun m hm => Nat.lt_succ_of_lt (h m hm)

theorem notMem_of_forall_lt {l : List Nat} {n : Nat} (h : ∀ m ∈ l, m < n) : n ∉ l := fun hn => Nat.lt_irrefl n (h n hn)

variable {p : Nat}

theorem At.futures_succ (h : At node token deletions) (htoken : token.future = []) (hp : p < node.joins + 1) :
    p ∈ node.completed ∨ p = node.joins := by
  rcases Nat.lt_or_eq_of_le (Nat.le_of_lt_succ hp) with hp | hp
  · rcases h.futures p hp with hdone | hfuture
    · exact .inl hdone
    · rw [htoken] at hfuture
      cases hfuture
  · exact .inr hp

theorem At.conditionFulfilled (h : At node (.condition p) deletions) : At { node with
    conditions := node.conditions.erase p, state := .joined, fulfilled :=
      p :: node.fulfilled } (.fulfilled p) deletions := by
  refine { h with conditions := ?_, fulfilled := ?_, state := rfl, expired := nofun }
  · simp only [h.conditions, Token.conditions, erase_cons_head]
  · simp only [h.fulfilled, Token.handled]

theorem At.futures_cons (h : At node token deletions) (htoken : token.future = [p]) :
    ∀ q < node.joins, q ∈ p :: node.completed ∨ q ∈ Token.call.future := by
  intro q hq
  rcases h.futures q hq with hdone | hfuture
  · exact .inl (mem_cons_of_mem _ hdone)
  · rw [htoken] at hfuture
    exact .inl (mem_singleton.1 hfuture ▸ mem_cons_self)

theorem At.conditionFailed (h : At node (.condition p) deletions) :
    Inv ({ node with conditions := node.conditions.erase p }.fail p) := by
  refine ⟨.call, deletions, { h with calls := ?_, conditions := ?_, expired := nofun, futures := h.futures_cons rfl }⟩
  · simp only [Node.fail, h.calls]
    rfl
  · simp only [Node.fail, h.conditions, Token.conditions, erase_cons_head]

theorem At.handle (h : At node (.fulfilled p) deletions) (createThrows : Bool) :
    Inv ({ node with fulfilled := node.fulfilled.erase p }.handleSuccessfulJoinCondition p createThrows) := by
  have hfulfilled : node.fulfilled.erase p = [] := by
    rw [h.fulfilled]
    exact erase_cons_head ..
  have hstate : node.state = .joined := h.state
  cases createThrows with
  | true =>
    simp only [Node.handleSuccessfulJoinCondition, hstate, if_true]
    refine ⟨.call, deletions, { h with
      calls := ?_
      fulfilled := hfulfilled
      state := rfl
      current := nofun
      uncreated := nofun
      expired := nofun
      expired_lt := lt_succ_of_forall_lt h.expired_lt
      znodes_lt := lt_succ_of_forall_lt h.znodes_lt
      futures := h.futures_cons rfl }⟩
    · simp only [Node.fail, h.calls]
      rfl
  | false =>
    simp only [Node.handleSuccessfulJoinCondition, hstate, Bool.false_eq_true, if_false]
    refine ⟨.creating node.memberships p, deletions, { h with
      fulfilled := hfulfilled
      state := rfl
      requests := ?_
      current := ?_
      uncreated := ?_
      expired := nofun
      expired_lt := lt_succ_of_forall_lt h.expired_lt
      znodes_lt := lt_succ_of_forall_lt h.znodes_lt }⟩
    · simp only [h.requests, Token.requests, append_nil]
    · intro m hm
      cases hm
      exact ⟨rfl, notMem_of_forall_lt h.expired_lt, Nat.lt_succ_self _⟩
    · intro m hm
      cases hm
      exact ⟨notMem_of_forall_lt h.znodes_lt, Nat.lt_succ_self _⟩

/-- A join is as one whose condition is pending, and then fails or is fulfilled. -/
theorem At.join (h : At node .call deletions) (condition : JoinCondition) :
    Inv ({ node with calls := node.calls - 1 }.join condition) := by
  have hstate : node.state = .notJoined := h.state
  have hpending : At ({ node with calls := node.calls - 1 }.join .pending) (.condition node.joins) deletions := by
    simp only [Node.join, hstate]
    refine { h with calls := ?_, conditions := ?_, state := rfl, expired := nofun, futures := ?_ }
    · simp only [h.calls]
      rfl
    · simp only [h.conditions]
      rfl
    · intro p hp
      exact (h.futures_succ rfl hp).imp id mem_singleton.2
  cases condition with
  | pending => exact ⟨_, _, hpending⟩
  | failed =>
    have hfailed := hpending.conditionFailed
    simp only [Node.join, hstate, erase_cons_head] at hfailed ⊢
    exact hfailed
  | fulfilled createThrows =>
    have hhandled := hpending.conditionFulfilled.handle createThrows
    simp only [Node.join, hstate, erase_cons_head] at hhandled ⊢
    exact hhandled

/-- What the joins leave that follow an expired lease, where none is renewed at once: the last one waits for its
condition. -/
structure Rejoined (node node' : Node) : Prop where
  state : node'.state = .notJoined
  calls : node'.calls = node.calls
  conditions : ∃ p, node'.conditions = p :: node.conditions ∧ node'.joins = p + 1 ∧ node.joins ≤ p
  futures : ∀ p, node.joins ≤ p → p + 1 < node'.joins → p ∈ node'.completed
  completed : ∀ p ∈ node.completed, p ∈ node'.completed
  memberships : node.memberships ≤ node'.memberships
  same : node'.expired = node.expired ∧ node'.znodes = node.znodes ∧ node'.requests = node.requests ∧
    node'.leases = node.leases ∧ node'.fulfilled = node.fulfilled

theorem Rejoined.after_failure {node₁ node₂ : Node} (h : Rejoined node₁ node₂) (hjoins : node₁.joins = node.joins + 1)
    (hcalls : node₁.calls = node.calls)
    (hcompleted : node₁.completed = node.joins :: node.completed) (hconditions : node₁.conditions = node.conditions)
    (hmemberships : node.memberships ≤ node₁.memberships)
    (hsame : node₁.expired = node.expired ∧ node₁.znodes = node.znodes ∧ node₁.requests = node.requests ∧
      node₁.leases = node.leases ∧ node₁.fulfilled = node.fulfilled) : Rejoined node node₂ where
  state := h.state
  calls := h.calls.trans hcalls
  conditions := by
    obtain ⟨p, hp, hlast, hle⟩ := h.conditions
    rw [hconditions] at hp
    exact ⟨p, hp, hlast, by omega⟩
  futures p hp hlt := by
    rcases Nat.eq_or_lt_of_le hp with hp | hp
    · refine h.completed p ?_
      rw [hcompleted, hp]
      exact mem_cons_self
    · exact h.futures p (by omega) hlt
  completed p hp := h.completed p (by rw [hcompleted]; exact mem_cons_of_mem _ hp)
  memberships := Nat.le_trans hmemberships h.memberships
  same := by
    obtain ⟨h₁, h₂, h₃, h₄, h₅⟩ := h.same
    obtain ⟨g₁, g₂, g₃, g₄, g₅⟩ := hsame
    exact ⟨h₁.trans g₁, h₂.trans g₂, h₃.trans g₃, h₄.trans g₄, h₅.trans g₅⟩

theorem rejoined_pending (hstate : node.state = .notJoined) : Rejoined node (node.join .pending) := by
  rw [join_pending hstate]
  refine ⟨hstate, rfl, ⟨node.joins, rfl, rfl, Nat.le_refl _⟩, fun p hp hlt => ?_, fun _ hp => hp,
    Nat.le_refl _, rfl, rfl, rfl, rfl, rfl⟩
  simp only at hlt
  omega

theorem rejoined_of_not_renewsAtOnce : ∀ (conditions : List JoinCondition) (node : Node), node.state = .notJoined →
    renewsAtOnce conditions = false → Rejoined node (node.rejoin conditions)
  | [], _, hstate, _ | .pending :: _, _, hstate, _ => rejoined_pending hstate
  | .fulfilled false :: _, _, _, h => by cases h
  | .failed :: conditions, node, hstate, h => by
    simp only [Node.rejoin, JoinCondition.fails, if_true, join_failed hstate]
    refine (rejoined_of_not_renewsAtOnce conditions _ ?_ h).after_failure rfl rfl rfl rfl (Nat.le_refl _)
      ⟨rfl, rfl, rfl, rfl, rfl⟩
    exact hstate
  | .fulfilled true :: conditions, node, hstate, h => by
    simp only [Node.rejoin, JoinCondition.fails, if_true, join_throws hstate]
    refine (rejoined_of_not_renewsAtOnce conditions _ ?_ h).after_failure rfl rfl rfl rfl (Nat.le_succ _)
      ⟨rfl, rfl, rfl, rfl, rfl⟩
    exact hstate

/-! ## The other steps -/

variable {m : Nat}

theorem At.expire_creating (h : At node (.creating m p) deletions) (conditions : List JoinCondition) :
    Inv (node.handleConnectionStateChange conditions) := by
  have hstate : node.state = .joined := h.state
  have hleases : node.leases = [] := h.leases
  obtain ⟨hmembership, -, hlt⟩ := h.current m rfl
  simp only [Node.handleConnectionStateChange, hstate, hmembership, Node.expire, hleases, not_mem_nil, if_false]
  refine ⟨.expired m p, deletions, { h with
    leases := rfl
    state := rfl
    requests := ?_
    current := nofun
    expired := ?_
    expired_lt := ?_
    znodes := ?_ }⟩
  · simp only [h.requests, Token.requests, append_assoc, singleton_append]
  · intro m' q htoken
    cases htoken
    exact mem_cons_self
  · intro m' hm'
    rcases mem_cons.1 hm' with rfl | hm'
    · exact hlt
    · exact h.expired_lt m' hm'
  · intro znode hznode
    have := h.znodes znode hznode
    rwa [hleases] at this

theorem At.expire_lease (h : At node (.lease m) deletions) {conditions : List JoinCondition}
    (hrenews : renewsAtOnce conditions = false) : Inv (node.handleConnectionStateChange conditions) := by
  have hstate : node.state = .joined := h.state
  have hleases : node.leases = [m] := h.leases
  obtain ⟨hmembership, -, hlt⟩ := h.current m rfl
  simp only [Node.handleConnectionStateChange, hstate, hmembership, Node.expire, hleases, mem_cons_self, if_true,
    erase_cons_head]
  have hrejoined := rejoined_of_not_renewsAtOnce conditions
    { node with state := .notJoined, membership := some m, expired := m :: node.expired, leases := [] } rfl hrenews
  generalize ({ node with state := .notJoined, membership := some m, expired := m :: node.expired, leases := [] } :
    Node).rejoin conditions = after at hrejoined ⊢
  obtain ⟨p, hconditions, hjoins, hle⟩ := hrejoined.conditions
  obtain ⟨hexpired, hznodes, hrequests, hleases', hfulfilled⟩ := hrejoined.same
  simp only at hexpired hznodes hrequests hleases' hfulfilled
  have hmemberships := hrejoined.memberships
  refine ⟨.condition p, deletions ++ [m], {
    calls := hrejoined.calls.trans h.calls
    conditions := ?_
    fulfilled := hfulfilled.trans h.fulfilled
    leases := hleases'
    state := hrejoined.state
    requests := ?_
    current := nofun
    uncreated := nofun
    expired := nofun
    expired_lt := ?_
    znodes_nodup := ?_
    znodes_lt := ?_
    znodes := ?_
    futures := ?_ }⟩
  · simp only [hconditions, h.conditions]
    rfl
  · simp only [hrequests, h.requests, Token.requests, append_nil, map_append, map_cons, map_nil]
  · simp only [hexpired]
    intro m' hm'
    rcases mem_cons.1 hm' with rfl | hm'
    · exact Nat.lt_of_lt_of_le hlt hmemberships
    · exact Nat.lt_of_lt_of_le (h.expired_lt m' hm') hmemberships
  · simp only [hznodes]
    exact h.znodes_nodup
  · simp only [hznodes]
    exact fun znode hznode => Nat.lt_of_lt_of_le (h.znodes_lt znode hznode) hmemberships
  · simp only [hznodes]
    intro znode hznode
    rcases h.znodes znode hznode with hdeleted | hlease
    · exact .inl (mem_append_left _ hdeleted)
    · rw [hleases] at hlease
      exact .inl (mem_append_right _ hlease)
  · intro q hq
    simp only [hjoins] at hq
    rcases Nat.lt_or_ge q node.joins with hold | hnew
    · rcases h.futures q hold with hdone | hfuture
      · exact .inl (hrejoined.completed q hdone)
      · cases hfuture
    · rcases Nat.lt_or_eq_of_le (Nat.le_of_lt_succ hq) with hlast | hlast
      · exact .inl (hrejoined.futures q hnew (by omega))
      · exact .inr (mem_singleton.2 hlast)

/-! ## The answers of ZooKeeper -/

theorem At.answer_delete {d : Nat} {rest : List Nat} (h : At node token (d :: rest)) (ok : Bool) :
    Inv (node.answer ok) := by
  have hrequests : node.requests = .delete d :: (rest.map .delete ++ token.requests) := h.requests
  simp only [Node.answer, hrequests]
  refine ⟨token, rest, { h with
    requests := rfl
    uncreated := ?_
    znodes_nodup := ?_
    znodes_lt := ?_
    znodes := ?_ }⟩
  · intro m hm
    obtain ⟨hnotin, hlt⟩ := h.uncreated m hm
    exact ⟨fun hmem => hnotin (mem_of_mem_filter hmem), hlt⟩
  · exact h.znodes_nodup.filter _
  · exact fun znode hznode => h.znodes_lt znode (mem_of_mem_filter hznode)
  · intro znode hznode
    obtain ⟨hmem, hne⟩ := mem_filter.1 hznode
    rcases h.znodes znode hmem with hdeleted | hlease
    · rcases mem_cons.1 hdeleted with hd | hdeleted
      · exact absurd hd (of_decide_eq_true hne)
      · exact .inl hdeleted
    · exact .inr hlease

theorem At.nodup_cons {m : Nat} (h : At node token deletions) (hm : token.uncreated = some m) :
    (m :: node.znodes).Nodup :=
  List.nodup_cons.2 ⟨(h.uncreated m hm).1, h.znodes_nodup⟩

theorem At.lt_cons (h : At node token deletions) (hm : token.uncreated = some m) :
    ∀ znode ∈ m :: node.znodes, znode < node.memberships := by
  intro znode hznode
  rcases mem_cons.1 hznode with rfl | hznode
  · exact (h.uncreated _ hm).2
  · exact h.znodes_lt znode hznode

theorem At.answer_creating (h : At node (.creating m p) []) (ok : Bool) : Inv (node.answer ok) := by
  have hrequests : node.requests = [.create m p] := h.requests
  simp only [Node.answer, hrequests]
  cases ok with
  | true =>
    obtain ⟨-, hexpired, hlt⟩ := h.current m rfl
    simp only [if_true, Node.grant, hexpired, if_false]
    refine ⟨.lease m, [], { h with
      leases := ?_
      requests := rfl
      uncreated := nofun
      expired := nofun
      znodes_nodup := h.nodup_cons rfl
      znodes_lt := h.lt_cons rfl
      znodes := ?_
      futures := h.futures_cons rfl }⟩
    · simp only [h.leases]
      rfl
    · intro znode hznode
      rcases mem_cons.1 hznode with rfl | hznode
      · exact .inr mem_cons_self
      · exact (h.znodes znode hznode).imp id (mem_cons_of_mem _)
  | false =>
    simp only [Bool.false_eq_true, if_false]
    refine ⟨.call, [], { h with
      calls := ?_
      state := rfl
      requests := rfl
      current := nofun
      uncreated := nofun
      expired := nofun
      futures := h.futures_cons rfl }⟩
    · simp only [Node.fail, h.calls]
      rfl

theorem At.answer_expired (h : At node (.expired m p) []) (ok : Bool) : Inv (node.answer ok) := by
  have hrequests : node.requests = [.create m p, .delete m] := h.requests
  have hexpired : m ∈ node.expired := h.expired m p rfl
  simp only [Node.answer, hrequests]
  cases ok with
  | true =>
    simp only [if_true, Node.grant, hexpired]
    refine ⟨.call, [m], { h with
      calls := ?_
      requests := rfl
      uncreated := nofun
      expired := nofun
      znodes_nodup := h.nodup_cons rfl
      znodes_lt := h.lt_cons rfl
      znodes := ?_
      futures := h.futures_cons rfl }⟩
    · simp only [h.calls]
      rfl
    · intro znode hznode
      rcases mem_cons.1 hznode with rfl | hznode
      · exact .inl mem_cons_self
      · rcases h.znodes znode hznode with hdeleted | hlease
        · cases hdeleted
        · exact .inr hlease
  | false =>
    simp only [Bool.false_eq_true, if_false]
    refine ⟨.call, [m], { h with
      calls := ?_
      state := rfl
      requests := rfl
      uncreated := nofun
      expired := nofun
      znodes := ?_
      futures := h.futures_cons rfl }⟩
    · simp only [Node.fail, h.calls]
      rfl
    · intro znode hznode
      rcases h.znodes znode hznode with hdeleted | hlease
      · cases hdeleted
      · exact .inr hlease

theorem At.answer (h : At node token deletions) (ok : Bool) : Inv (node.answer ok) := by
  cases deletions with
  | cons d rest => exact h.answer_delete ok
  | nil =>
    cases token with
    | creating m p => exact h.answer_creating ok
    | expired m p => exact h.answer_expired ok
    | call | condition p | fulfilled p | lease m =>
      have hrequests : node.requests = [] := h.requests
      simp only [Node.answer, hrequests]
      exact ⟨_, [], h⟩

/-! ## Runs -/

theorem Inv.step (h : Inv node) (e : Event) (htimely : Timely node e) : Inv (node.step e) := by
  obtain ⟨token, deletions, hat⟩ := h
  cases e with
  | joinService condition =>
    simp only [Node.step]
    split
    · rename_i hcalls
      rw [hat.calls] at hcalls
      cases token with
      | call => exact hat.join condition
      | _ => exact absurd hcalls (Nat.lt_irrefl 0)
    · exact ⟨token, deletions, hat⟩
  | conditionFulfilled p =>
    simp only [Node.step]
    split
    · rename_i hmem
      rw [hat.conditions] at hmem
      cases token with
      | condition q =>
        obtain rfl := mem_singleton.1 hmem
        exact ⟨_, _, hat.conditionFulfilled⟩
      | _ => cases hmem
    · exact ⟨token, deletions, hat⟩
  | conditionFailed p =>
    simp only [Node.step]
    split
    · rename_i hmem
      rw [hat.conditions] at hmem
      cases token with
      | condition q =>
        obtain rfl := mem_singleton.1 hmem
        exact hat.conditionFailed
      | _ => cases hmem
    · exact ⟨token, deletions, hat⟩
  | handle p createThrows =>
    simp only [Node.step]
    split
    · rename_i hmem
      rw [hat.fulfilled] at hmem
      cases token with
      | fulfilled q =>
        obtain rfl := mem_singleton.1 hmem
        exact hat.handle createThrows
      | _ => cases hmem
    · exact ⟨token, deletions, hat⟩
  | disconnected conditions =>
    obtain ⟨hfulfilled, hrenews⟩ := htimely
    rw [hat.fulfilled] at hfulfilled
    cases token with
    | fulfilled p => cases hfulfilled
    | creating m p => exact hat.expire_creating conditions
    | lease m =>
      refine hat.expire_lease (hrenews ?_)
      rw [hat.leases]
      exact cons_ne_nil _ _
    | call | condition p | expired m p =>
      have hstate : node.state = .notJoined := hat.state
      simp only [Node.step, Node.handleConnectionStateChange, hstate]
      exact ⟨_, deletions, hat⟩
  | answer ok => exact hat.answer ok

theorem at_start : At .start .call [] where
  calls := rfl
  conditions := rfl
  fulfilled := rfl
  leases := rfl
  state := rfl
  requests := rfl
  current _ h := by cases h
  uncreated _ h := by cases h
  expired _ _ h := by cases h
  expired_lt _ h := by cases h
  znodes_nodup := nodup_nil
  znodes_lt _ h := by cases h
  znodes _ h := by cases h
  futures p h := absurd h (Nat.not_lt_zero p)

end

/-- **Cluster membership recovers**, in every run in which the connection is never suspended or lost while a fulfilled
join condition waits to be handled, and no lease that expires is renewed at once. -/
theorem serviceNode_recovers (events : List Event) (h : Meets Node.step Timely .start events) :
    Always Node.step Node.Healthy .start events := by
  have hinv : Always Node.step Inv .start events := Runs.always_of_meets (fun _ e hinv htimely =>
    hinv.step e htimely) ⟨.call, [], at_start⟩ h
  exact hinv.mono fun node hnode => by
    obtain ⟨token, deletions, hat⟩ := hnode
    exact hat.healthy

/-- The znode is created, the lease expires, and the condition of the next join is fulfilled later. -/
theorem serviceNode_recovers_leaderElected :
    (Runs.run Node.step .start [.joinService .pending, .conditionFulfilled 0, .handle 0 false, .answer true,
      .disconnected [], .answer true, .conditionFulfilled 1, .handle 1 false, .answer true]).znodes = [1] ∧
    Always Node.step Node.Healthy .start [.joinService .pending, .conditionFulfilled 0, .handle 0 false, .answer true,
      .disconnected [], .answer true, .conditionFulfilled 1, .handle 1 false, .answer true] :=
  ⟨by decide, serviceNode_recovers _ (by decide)⟩

/-- The connection is lost before a fulfilled join condition is handled: its future is never completed and nothing leads
on. A lease that is renewed at once is not known any more when the connection is lost for the second time: its znode
stays. -/
theorem serviceNode_stranded :
    ¬(Runs.run Node.step .start [.joinService .pending, .conditionFulfilled 0, .disconnected [],
    .handle 0 false]).Completes ∧
    ¬(Runs.run Node.step .start [.joinService .pending, .conditionFulfilled 0, .disconnected [],
      .handle 0 false]).Recovers ∧
    ¬(Runs.run Node.step .start [.joinService (.fulfilled false), .answer true, .disconnected [.fulfilled false],
      .answer true, .answer true, .disconnected []]).Single := by
  refine ⟨?_, ?_, ?_⟩
  · intro h
    rcases h 0 (by decide) with h | h | h | ⟨_, h⟩ <;> cases h
  · intro h
    rcases h with h | h | h | ⟨_, _, h⟩ | ⟨_, h, _⟩
    · exact absurd h (by decide)
    · exact absurd rfl h
    · exact absurd rfl h
    · cases h
    · cases h
  · intro h
    exact absurd ((h (by decide)).2 (by decide)) (by decide)

end Photon.Zookeeper.ServiceNode
