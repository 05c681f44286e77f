import Photon.Keyed
/-!
# DhcpServer — the transactions of the DHCP server

`ServeDHCP` looks up the transaction of a request and posts the request to its routine, or starts one.  A routine serves
its channel until it ends, and then reports that it is done on a channel without a buffer, where it waits until some
call of `ServeDHCP` takes the report.  The map of transactions is used under a lock: the calls wait for it, and the one
that has it takes the reports of the routines that are waiting, then looks up or starts the transaction, then posts its
request. Routines go on at any time.

What a call does to the map and to the routines at once is one step, since no other call can look at the map in between:
it takes a report and deletes the entry, and it makes the entry and starts the routine.
-/
namespace Photon.Slingshot

open Keyed (LinkedMap)

inductive MessageType where
  | discover
  | offer
  | request
  | decline
  | ack
  | nak
  | release
  | inform
  deriving DecidableEq

structure Request where
  messageType : MessageType
  clientIDOption : Option (List UInt8)
  hType : UInt8
  chAddr : List UInt8
  xid : List UInt8
  serverIDOption : Option String
  deriving DecidableEq

abbrev TxnID := List UInt8

def hexDigit (n : UInt8) : UInt8 := if n < 10 then 48 + n else 87 + n

def hex (bytes : List UInt8) : List UInt8 := bytes.flatMap fun b => [hexDigit (b / 16), hexDigit (b % 16)]

def clientID (req : Request) : List UInt8 :=
  match req.clientIDOption with
  | some (b :: cid) => hex (b :: cid)
  | _ => hex [req.hType] ++ hex req.chAddr

def generateTxnID (req : Request) : TxnID := clientID req ++ 45 :: req.xid

structure Call where
  number : Nat
  req : Request
  deriving DecidableEq

/-- What a routine does: it serves its channel, has ended, waits for its report to be taken, or is no more. -/
inductive Status where
  | running
  | ended
  | reporting
  | gone
  deriving DecidableEq

/-- The routine of a transaction, with the request that started it, what it has received and the replies it has
written. -/
structure Routine where
  id : TxnID
  startedBy : Request
  channel : List Call
  received : List Call
  hasTxn : Bool
  replies : List MessageType
  status : Status
  deriving DecidableEq

inductive Section where
  | draining
  | posting
  deriving DecidableEq

structure Server where
  txnMap : LinkedMap TxnID Nat
  routines : List Routine
  waiting : List Call
  holder : Option (Call × Section)
  nextCall : Nat

inductive Event where
  | serveDHCP (req : Request) (serverID : Option String)
  | lock (k : Nat)
  | takeReport (r : Nat)
  | drained
  | post
  | receive (r : Nat) (newTxnOk writeOk : Bool)
  | timeout (r : Nat)
  | report (r : Nat)
  deriving DecidableEq

/-- A request is for this server if it names no other. -/
def isForServer (req : Request) (serverID : String) : Bool := req.serverIDOption.all fun id => id == serverID

/-- The call, up to the lock.  `serverID` is `none` if the request has come on no interface of the server.  The handlers
of `DHCPRELEASE` and `DHCPINFORM` have nothing to do with transactions. -/
def Server.serveDHCP (s : Server) (req : Request) (serverID : Option String) : Server :=
  match serverID with
  | none => s
  | some ip =>
    if isForServer req ip then
      match req.messageType with
      | .release | .inform => s
      | _ => { s with waiting := s.waiting ++ [⟨s.nextCall, req⟩], nextCall := s.nextCall + 1 }
    else s

def Server.lock (s : Server) (k : Nat) : Server :=
  match s.holder, s.waiting[k]? with
  | none, some call => { s with holder := some (call, .draining), waiting := s.waiting.eraseIdx k }
  | _, _ => s

def Server.takeReport (s : Server) (r : Nat) : Server :=
  match s.holder, s.routines[r]? with
  | some (_, .draining), some routine =>
    if routine.status = .reporting then
      { s with txnMap := s.txnMap.remove routine.id, routines := s.routines.set r { routine with status := .gone } }
    else s
  | _, _ => s

/-- No routine waits to report: the call looks up its transaction, and starts one if it may. -/
def Server.drained (s : Server) : Server :=
  match s.holder with
  | some (call, .draining) =>
    if s.routines.any fun routine => routine.status = .reporting then s
    else
      match s.txnMap.get (generateTxnID call.req) with
      | some _ => { s with holder := some (call, .posting) }
      | none =>
        if call.req.messageType = .discover then
          { s with
            txnMap := s.txnMap.put (generateTxnID call.req) s.routines.length
            routines := s.routines ++ [⟨generateTxnID call.req, call.req, [], [], false, [], .running⟩]
            holder := some (call, .posting) }
        else { s with holder := none }
  | _ => s

def channelSize : Nat := 2

def Server.post (s : Server) : Server :=
  match s.holder with
  | some (call, .posting) =>
    match s.txnMap.get (generateTxnID call.req) with
    | none => { s with holder := none }
    | some r =>
      match s.routines[r]? with
      | none => { s with holder := none }
      | some routine =>
        if routine.channel.length < channelSize then
          { s with routines := s.routines.set r { routine with channel := routine.channel ++ [call] }, holder := none }
        else { s with holder := none }
  | _ => s

/-- The routine has a request: a transaction is set up for the first one, and a reply is written.  If one of them fails
the routine ends. -/
def Routine.serve (routine : Routine) (call : Call) (channel : List Call) (newTxnOk writeOk : Bool) : Routine :=
  let received := { routine with channel := channel, received := routine.received ++ [call] }
  if routine.hasTxn || newTxnOk then
    match call.req.messageType with
    | .discover => { received with
        hasTxn := true
        replies := if writeOk then routine.replies ++ [.offer] else routine.replies
        status := if writeOk then .running else .ended }
    | .request => { received with
        hasTxn := true
        replies := if writeOk then routine.replies ++ [.ack] else routine.replies
        status := if writeOk then .running else .ended }
    | _ => { received with hasTxn := true }
  else { received with status := .ended }

def Server.receive (s : Server) (r : Nat) (newTxnOk writeOk : Bool) : Server :=
  match s.routines[r]? with
  | some routine =>
    if routine.status = .running then
      match routine.channel with
      | [] => s
      | call :: channel => { s with routines := s.routines.set r (routine.serve call channel newTxnOk writeOk) }
    else s
  | none => s

def Server.move (s : Server) (r : Nat) (current next : Status) : Server :=
  match s.routines[r]? with
  | some routine =>
    if routine.status = current then { s with routines := s.routines.set r { routine with status := next } } else s
  | none => s

def Server.step (s : Server) : Event → Server
  | .serveDHCP req serverID => s.serveDHCP req serverID
  | .lock k => s.lock k
  | .takeReport r => s.takeReport r
  | .drained => s.drained
  | .post => s.post
  | .receive r newTxnOk writeOk => s.receive r newTxnOk writeOk
  | .timeout r => s.move r .running .ended
  | .report r => s.move r .ended .reporting

def Server.start : Server := ⟨.empty, [], [], none, 0⟩

end Photon.Slingshot
