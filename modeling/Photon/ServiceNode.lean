import Mathlib.Data.List.Basic
/-!
# ServiceNode — how a process joins its cluster

`AbstractServiceNode` joins a cluster when its join condition is fulfilled, by creating a znode, and expires the lease
it has given when the connection to ZooKeeper is suspended or lost.  `ServiceNodeUtils.joinService` joins again whenever
a join has failed or a lease has expired.  The callbacks of a future run in the thread that completes it, so a lease
that expires is followed by the next join inside of `expire`.  A future or membership is known by its number; ZooKeeper
answers the requests in the order they were sent.
-/
namespace Photon.Zookeeper.ServiceNode

inductive State where
  | notJoined
  | joined
  deriving DecidableEq

/-- What ZooKeeper is asked for: the znode of a membership, for the future that is given the lease, or its deletion. -/
inductive Request where
  | create (membership : Nat) (leasePromise : Nat)
  | delete (membership : Nat)
  deriving DecidableEq

/-- The join condition when `joinCondition` returns; it has failed also if `joinCondition` throws.  Where it is
fulfilled, the request for the znode may throw. -/
inductive JoinCondition where
  | pending
  | failed
  | fulfilled (createThrows : Bool)
  deriving DecidableEq

/-- The node, the futures it has returned, what ZooKeeper has, and what `joinService` waits for. -/
structure Node where
  state : State
  membership : Option Nat
  memberships : Nat
  expired : List Nat
  znodes : List Nat
  requests : List Request
  joins : Nat
  completed : List Nat
  /-- The futures whose join condition is not completed. -/
  conditions : List Nat
  /-- The futures whose join condition is fulfilled, and not yet handled. -/
  fulfilled : List Nat
  /-- The calls of `joinService` that are to come. -/
  calls : Nat
  /-- The leases whose expiration `joinService` waits for. -/
  leases : List Nat
  deriving DecidableEq

/-- `leasePromise.setException`: `joinService` is called again. -/
def Node.fail (node : Node) (leasePromise : Nat) : Node :=
  { node with completed := leasePromise :: node.completed, calls := node.calls + 1 }

/-- `leasePromise.set`: `joinService` waits for the expiration, or is called again if the lease has expired. -/
def Node.grant (node : Node) (membership leasePromise : Nat) : Node :=
  if membership ∈ node.expired then { node with completed := leasePromise :: node.completed, calls := node.calls + 1 }
  else { node with completed := leasePromise :: node.completed, leases := membership :: node.leases }

def Node.handleSuccessfulJoinCondition (node : Node) (leasePromise : Nat) (createThrows : Bool) : Node :=
  match node.state with
  | .joined =>
    let node' := { node with membership := some node.memberships, memberships := node.memberships + 1 }
    if createThrows then { node' with state := .notJoined }.fail leasePromise
    else { node' with requests := node.requests ++ [.create node.memberships leasePromise] }
  -- only `cleanup` is called
  | .notJoined => node

def Node.join (node : Node) (condition : JoinCondition) : Node :=
  let node' := { node with joins := node.joins + 1 }
  match node.state with
  | .joined => node'.fail node.joins
  | .notJoined =>
    match condition with
    | .pending => { node' with conditions := node.joins :: node.conditions }
    | .failed => node'.fail node.joins
    | .fulfilled createThrows => { node' with state := .joined }.handleSuccessfulJoinCondition node.joins createThrows

def JoinCondition.fails : JoinCondition → Bool
  | .failed | .fulfilled true => true
  | .pending | .fulfilled false => false

/-- The calls of `joinService` one inside of the other, until a join does not fail at once. -/
def Node.rejoin (node : Node) : List JoinCondition → Node
  | [] => node.join .pending
  | condition :: conditions =>
    let node' := node.join condition
    if condition.fails then { node' with calls := node.calls }.rejoin conditions else node'

def Node.expire (node : Node) (membership : Nat) (conditions : List JoinCondition) : Node :=
  let node' := { node with expired := membership :: node.expired, leases := node.leases.erase membership }
  let node'' := if membership ∈ node.leases then node'.rejoin conditions else node'
  { node'' with requests := node''.requests ++ [.delete membership] }

def Node.handleConnectionStateChange (node : Node) (conditions : List JoinCondition) : Node :=
  match node.state with
  | .notJoined => node
  | .joined =>
    let node' := { node with state := .notJoined }
    match node.membership with
    | none => node'
    | some membership => { node'.expire membership conditions with membership := none }

/-- ZooKeeper executes the first request and answers it.  After an error the state is reset before `leasePromise` is
completed. -/
def Node.answer (node : Node) (ok : Bool) : Node :=
  match node.requests with
  | [] => node
  | .delete membership :: requests =>
    { node with requests := requests, znodes := node.znodes.filter fun znode => znode ≠ membership }
  | .create membership leasePromise :: requests =>
    if ok then { node with requests := requests, znodes := membership :: node.znodes }.grant membership leasePromise
    else { node with requests := requests, state := .notJoined }.fail leasePromise

inductive Event where
  | joinService (condition : JoinCondition)
  | conditionFulfilled (leasePromise : Nat)
  | conditionFailed (leasePromise : Nat)
  | handle (leasePromise : Nat) (createThrows : Bool)
  | disconnected (conditions : List JoinCondition)
  | answer (ok : Bool)
  deriving DecidableEq

def Node.step (node : Node) : Event → Node
  | .joinService condition =>
    if 0 < node.calls then { node with calls := node.calls - 1 }.join condition else node
  | .conditionFulfilled leasePromise =>
    if leasePromise ∈ node.conditions then
      { node with
        conditions := node.conditions.erase leasePromise
        state := .joined
        fulfilled := leasePromise :: node.fulfilled }
    else node
  | .conditionFailed leasePromise =>
    if leasePromise ∈ node.conditions then
      { node with conditions := node.conditions.erase leasePromise }.fail leasePromise
    else node
  | .handle leasePromise createThrows =>
    if leasePromise ∈ node.fulfilled then
      { node with fulfilled := node.fulfilled.erase leasePromise }.handleSuccessfulJoinCondition
        leasePromise createThrows
    else node
  | .disconnected conditions => node.handleConnectionStateChange conditions
  | .answer ok => node.answer ok

def Node.start : Node := ⟨.notJoined, none, 0, [], [], [], 0, [], [], [], 1, []⟩

end Photon.Zookeeper.ServiceNode
