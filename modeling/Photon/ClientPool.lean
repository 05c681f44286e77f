import Photon.Custody
import Photon.Keyed
import Photon.ListMultimap
/-!
# ClientPool — `ClientPoolImpl`, the pool of Thrift clients of a service

The clients of a pool are in `availableClients` or in `acquiredClients`; `clientTransportMap` has the transport of each.
A call of `acquire` queues a promise, and `processPromises` serves the queue from the front.  All operations are
synchronized on the pool, so a pool goes through a sequence of them.

What the pool does not decide is asked of the `World`: whether the socket of a new client can be opened, the random
numbers, and the order in which a hash set is gone through.  Each question has its number, so that a world can answer in
any way. Clients and promises are numbered in their order; a client and its transport have the same number.  The last
fields of a pool are for the statements about it: what has been handed to whom, which transports have been closed and
which promises have failed.
-/
namespace Photon.ClientPool

open Keyed (LinkedMap ListMultimap)

structure InetSocketAddress where
  host : String
  port : Nat
  deriving DecidableEq

abbrev Client := Nat

abbrev Transport := Nat

structure ClientPoolOptions where
  maxClients : Int
  maxWaiters : Int
  timeoutMs : Int
  deriving DecidableEq

/-- The answers to the questions of a pool, by their numbers. -/
structure World where
  createFails : Nat → InetSocketAddress → Bool
  nextInt : Nat → Nat → Nat
  order : Nat → List InetSocketAddress → List InetSocketAddress
  serverSet : String
  nextInt_lt : ∀ k bound, 0 < bound → nextInt k bound < bound
  order_perm : ∀ k addresses, (order k addresses).Perm addresses

structure Promise where
  id : Nat
  timeout : Bool
  done : Bool
  deriving DecidableEq

inductive Failure
  | clientPoolException (message : String)
  | ioException
  deriving DecidableEq

structure Pool where
  availableClients : ListMultimap InetSocketAddress Client
  acquiredClients : LinkedMap Client InetSocketAddress
  availableServers : List InetSocketAddress
  clientTransportMap : LinkedMap Client Transport
  promises : List Promise
  closed : Bool
  erroneous : List Client
  ticks : Nat
  nextClient : Client
  nextPromise : Nat
  /-- An operation has met a client without a transport, or an empty list. -/
  broken : Bool
  handed : List (Custody.Act Nat Client)
  closings : List Transport
  failures : List (Nat × Failure)

inductive Future
  | promise (id : Nat)
  | failed (failure : Failure)
  deriving DecidableEq

inductive Fault
  | illegalArgument (client : Client)
  | illegalState
  deriving DecidableEq

namespace Pool

def new : Pool where
  availableClients := ListMultimap.empty
  acquiredClients := LinkedMap.empty
  availableServers := []
  clientTransportMap := LinkedMap.empty
  promises := []
  closed := false
  erroneous := []
  ticks := 0
  nextClient := 0
  nextPromise := 0
  broken := false
  handed := []
  closings := []
  failures := []

def total (s : Pool) : Nat := s.availableClients.size + s.acquiredClients.size

def canCreateClient (options : ClientPoolOptions) (s : Pool) : Bool :=
  decide ((s.total : Int) < options.maxClients) && !s.availableServers.isEmpty

def tick (s : Pool) : Pool := { s with ticks := s.ticks + 1 }

def createNewClient (world : World) (address : InetSocketAddress) (s : Pool) : Option Client × Pool :=
  if world.createFails s.ticks address then (none, s.tick)
  else
    (some s.nextClient,
      { s.tick with
        nextClient := s.nextClient + 1
        clientTransportMap := s.clientTransportMap.put s.nextClient s.nextClient })

def removeClient (client : Client) (s : Pool) : Pool :=
  match s.clientTransportMap.get client with
  | none => { s with broken := true }
  | some transport =>
    { s with clientTransportMap := s.clientTransportMap.remove client, closings := s.closings ++ [transport] }

def removeClients (clients : List Client) (s : Pool) : Pool := clients.foldl (fun s client => s.removeClient client) s

def removeFirstClient (address : InetSocketAddress) (s : Pool) : Pool :=
  match s.availableClients.removeFirst address with
  | none => { s with broken := true }
  | some (client, rest) => removeClient client { s with availableClients := rest }

/-- The first address with more than one client gives one of them up for a new one at this address. -/
def moveClient (world : World) (address : InetSocketAddress) (s : Pool) : Pool :=
  match (world.order s.ticks s.availableClients.keySet).find?
    (fun a => decide (1 < (s.availableClients.get a).length)) with
  | none => s.tick
  | some availableClientAddress =>
    match s.tick.createNewClient world address with
    | (none, s) => s
    | (some newClient, s) =>
      let s := s.removeFirstClient availableClientAddress
      { s with availableClients := s.availableClients.put address newClient }

def reserveAvailableClient (address : InetSocketAddress) (s : Pool) : Option Client × Pool :=
  match s.availableClients.removeFirst address with
  | none => (none, { s with broken := true })
  | some (client, rest) =>
    if client ∈ s.erroneous then (none, removeClient client { s with availableClients := rest })
    else (some client, { s with availableClients := rest, acquiredClients := s.acquiredClients.put client address })

/-- The loop over random addresses, until there is a client without an error or no client is left. -/
def reserveLoop (world : World) : Nat → Pool → Option Client × Pool
  | 0, s => (none, s)
  | fuel + 1, s =>
    if s.availableClients.isEmpty then (none, s)
    else
      let addresses := s.availableClients.keySet
      match addresses[world.nextInt s.ticks addresses.length]? with
      | none => (none, { s.tick with broken := true })
      | some randomAddress =>
        match s.tick.reserveAvailableClient randomAddress with
        | (some client, s) => (some client, s)
        | (none, s) => reserveLoop world fuel s

def moveClients (world : World) (servers : List InetSocketAddress) (s : Pool) : Pool :=
  servers.foldl (fun s server => if s.availableClients.containsKey server then s else s.moveClient world server) s

def fulfillWithAvailableClient (world : World) (s : Pool) : Option Client × Pool :=
  let s := s.tick.moveClients world (world.order s.ticks s.availableServers)
  reserveLoop world s.availableClients.size s

def fulfillWithNewClient (world : World) (s : Pool) : Option Client × Pool :=
  match s.availableServers[world.nextInt s.ticks s.availableServers.length]? with
  | none => (none, { s.tick with broken := true })
  | some address =>
    match s.tick.createNewClient world address with
    | (none, s) => (none, s)
    | (some client, s) => (some client, { s with acquiredClients := s.acquiredClients.put client address })

def serve (promise : Promise) (rest : List Promise) (client : Client) (s : Pool) : Pool :=
  { s with promises := rest, handed := s.handed ++ [.hand promise.id client] }

/-- What `processPromises` does with the first promise that is not done. -/
def fulfill (world : World) (options : ClientPoolOptions) (promise : Promise) (rest : List Promise) (s : Pool) : Pool :=
  match s.fulfillWithAvailableClient world with
  | (some client, s) => s.serve promise rest client
  | (none, s) =>
    if s.canCreateClient options then
      match s.fulfillWithNewClient world with
      | (some client, s) => s.serve promise rest client
      | (none, s) => { s with promises := rest, failures := s.failures ++ [(promise.id, .ioException)] }
    else s

def processQueue (world : World) (options : ClientPoolOptions) : List Promise → Pool → Pool
  | [], s => { s with promises := [] }
  | promise :: rest, s =>
    if promise.done then processQueue world options rest s
    else fulfill world options promise rest { s with promises := promise :: rest }

def processPromises (world : World) (options : ClientPoolOptions) (s : Pool) : Pool :=
    processQueue world options s.promises s

/-! ## The operations -/

def createForServer (world : World) (options : ClientPoolOptions) (address : InetSocketAddress) (s : Pool) : Pool :=
  if !s.availableClients.containsKey address && s.canCreateClient options then
    match s.createNewClient world address with
    | (none, s) => s
    | (some client, s) => { s with availableClients := s.availableClients.put address client }
  else s

def withServer (address : InetSocketAddress) (s : Pool) : Pool :=
  { s with availableServers := s.availableServers.insert address }

def onServerAdded (world : World) (options : ClientPoolOptions) (address : InetSocketAddress) (s : Pool) : Pool :=
  processPromises world options (createForServer world options address (s.withServer address))

def withoutServer (address : InetSocketAddress) (s : Pool) : Pool :=
  { s with
    availableServers := s.availableServers.filter (fun server => !decide (server = address))
    availableClients := s.availableClients.removeAll address }

def onServerRemoved (address : InetSocketAddress) (s : Pool) : Pool :=
  removeClients (s.availableClients.get address) (s.withoutServer address)

def enqueue (options : ClientPoolOptions) (s : Pool) : Pool :=
  { s with
    promises := s.promises ++ [⟨s.nextPromise, decide (0 < options.timeoutMs), false⟩]
    nextPromise := s.nextPromise + 1 }

def acquire (world : World) (options : ClientPoolOptions) (s : Pool) : Future × Pool :=
  if (s.promises.length : Int) < options.maxWaiters then
    (.promise s.nextPromise, processPromises world options (s.enqueue options))
  else (.failed (.clientPoolException "Too many waiters"), s)

/-- A timeout that is scheduled runs; it has no effect on a promise that is done. -/
def runTimeout (world : World) (id : Nat) (s : Pool) : Pool :=
  if s.promises.any (fun p => decide (p.id = id) && p.timeout && !p.done) then
    { s with
      promises := s.promises.map (fun p => if p.id = id then { p with done := true } else p)
      failures := s.failures ++ [(id, .clientPoolException ("Timeout acquiring client: " ++ world.serverSet))] }
  else s

def failPromises (message : String) (s : Pool) : Pool :=
  { s with
    promises := []
    failures := s.failures ++ (s.promises.filter (fun p => !p.done)).map
      (fun p => (p.id, .clientPoolException message)) }

def close (s : Pool) : Except Fault Pool :=
  if s.closed then .error .illegalState
  else
    let emptied := removeClients s.availableClients.values
      { failPromises "Client pool closing" s with availableClients := ListMultimap.empty }
    .ok { emptied with closed := true }

def giveBack (client : Client) (s : Pool) : Pool :=
  { s with acquiredClients := s.acquiredClients.remove client, handed := s.handed ++ [.back client] }

def takeBack (client : Client) (address : InetSocketAddress) (healthy : Bool) (s : Pool) : Pool :=
  if !s.closed && healthy && decide (address ∈ s.availableServers) then
    { s with availableClients := s.availableClients.put address client }
  else s.removeClient client

def release (world : World) (options : ClientPoolOptions) (client : Client) (healthy : Bool) (s : Pool) :
    Except Fault Pool :=
  match s.acquiredClients.get client with
  | none => .error (.illegalArgument client)
  | some address => .ok (processPromises world options (takeBack client address healthy (s.giveBack client)))

def turnErroneous (client : Client) (s : Pool) : Pool :=
  if client < s.nextClient then { s with erroneous := client :: s.erroneous } else s

end Pool

inductive Event
  | serverAdded (address : InetSocketAddress)
  | serverRemoved (address : InetSocketAddress)
  | acquire
  | release (client : Client) (healthy : Bool)
  | timeout (id : Nat)
  | erroneous (client : Client)
  | close
  deriving DecidableEq

/-- One operation; one that throws an exception leaves the pool as it was. -/
def step (world : World) (options : ClientPoolOptions) (s : Pool) : Event → Pool
  | .serverAdded address => s.onServerAdded world options address
  | .serverRemoved address => s.onServerRemoved address
  | .acquire => (s.acquire world options).2
  | .release client healthy => (s.release world options client healthy).toOption.getD s
  | .timeout id => s.runTimeout world id
  | .erroneous client => s.turnErroneous client
  | .close => s.close.toOption.getD s

end Photon.ClientPool
