import IpcPubsub.FiniteMap
import IpcPubsub.LowerBound
import IpcPubsub.WordOrder
import IpcPubsub.Messages

/-!
# The hub

The state and the operations of `lib/TopologyServer.cc`.  An operation returns
the new server together with everything it lets be observed: the messages
written to each connection, the messages it put into the history (minted by the
hub itself or accepted from a client), and the assertions that did not hold.
Execution goes on after a failed assertion, as it does in a build without them.

Two kinds of values come from outside: the random uid of a minted message, and
the order in which the hash set of departed nodes is iterated.  Both are
arguments.  What `ParseFromArray` leaves in the message is the parameter
`parse` of `onData`.

Writing to a connection is taken to succeed.  The sets `mMessageHashes` and the
socket server are not modelled: no operation of the hub reads the former, and
the latter only calls the operations below.
-/

namespace IpcPubsub

open FiniteMap LowerBound

/-- A file descriptor. -/
abbrev Fd := Int

/-- What the hub remembers of a connection. -/
structure Client where
  /-- The largest sequence number sent on the connection. -/
  seq : UInt64 := 0
  /-- The node named by the last packet. -/
  nodeId : UInt64 := 0
  /-- The messages of this client the hub put into its history. -/
  history : List TopologyMessage := []
  deriving DecidableEq, Inhabited

structure TopologyServer where
  mClients : UnorderedMap Fd Client := ∅
  mNextSeq : UInt64 := 1
  mHistory : List TopologyMessage := []
  deriving DecidableEq

/-- The assertions of the hub that are not about a missing descriptor. -/
inductive Assertion
  /-- `msg.seq() >= client.seq` in `OnConnect`. -/
  | connectSeq
  /-- `msg.seq() < mNextSeq` in `Broadcast`. -/
  | broadcastSeq
  /-- `msg.uid() != 0` in `AddOldMessage`. -/
  | oldUid
  /-- `*hit == msg` in `AddOldMessage`. -/
  | oldMatch
  deriving DecidableEq

/-- The server after an operation and what the operation showed. -/
structure Outcome where
  server : TopologyServer
  sent : Fd → List TopologyMessage := fun _ => []
  minted : List TopologyMessage := []
  accepted : List TopologyMessage := []
  failed : List Assertion := []

/-- Everything the operation put into the history, in order. -/
def Outcome.added (o : Outcome) : List TopologyMessage :=
  o.minted ++ o.accepted

namespace TopologyServer

/-- The constructor: the digest is loaded as it is. -/
def create (digest : List TopologyMessage) : TopologyServer where
  mNextSeq := digest.foldl (fun _ msg => msg.seq + 1) 1
  mHistory := digest

/-- The loop of `OnConnect`: the mark after the whole history was sent, and the
assertions that failed on the way. -/
def sendHistory : UInt64 → List TopologyMessage → UInt64 × List Assertion
  | seq, [] => (seq, [])
  | seq, msg :: rest =>
      let r := sendHistory msg.seq rest
      (r.1, if msg.seq ≥ seq then r.2 else .connectSeq :: r.2)

def onConnect (s : TopologyServer) (fd : Fd) : Outcome :=
  let client := (s.mClients.lookup fd).getD {}
  let r := sendHistory client.seq s.mHistory
  { server := { s with mClients := s.mClients.insert fd { client with seq := r.1 } }
    sent := fun fd' => if fd' = fd then s.mHistory else []
    failed := r.2 }

/-- The first loop of `PruneRemoved`. -/
def noteLeft (left : Finset UInt64) (msg : TopologyMessage) : Finset UInt64 :=
  match msg.op with
  | .nodeChange change => if change.op = .leave then insert change.id left else left
  | _ => left

/-- The set `left` of `PruneRemoved`: the nodes that have a LEAVE. -/
def leftNodes (history : List TopologyMessage) : Finset UInt64 :=
  history.foldl noteLeft ∅

/-- Whether the second loop of `PruneRemoved` keeps a message. -/
def keeps (left : Finset UInt64) (msg : TopologyMessage) : Bool :=
  match msg.op with
  | .nodeChange change => !(decide (change.id ∈ left) && decide (change.op ≠ .leave))
  -- what is counted is the comparison `node_id() > 0`, that is 1 or 0
  | .topicChange change => !decide ((if change.nodeId > 0 then 1 else 0) ∈ left)
  | .notSet => true

def pruneRemoved (history : List TopologyMessage) : List TopologyMessage :=
  history.filter (keeps (leftNodes history))

/-- The inner loop of `Broadcast`: the client after it and what it was sent. -/
def broadcastTo : Client → List TopologyMessage → Client × List TopologyMessage
  | client, [] => (client, [])
  | client, msg :: rest =>
      if msg.seq > client.seq then
        let r := broadcastTo { client with seq := msg.seq } rest
        (r.1, msg :: r.2)
      else broadcastTo client rest

/-- What `Broadcast` writes to a connection. -/
def broadcastSent (s : TopologyServer) (fd : Fd) : List TopologyMessage :=
  match s.mClients.lookup fd with
  | some client => (broadcastTo client s.mHistory).2
  | none => []

def broadcast (s : TopologyServer) : Outcome where
  server := { s with
    mClients := mapValues (fun _ client => (broadcastTo client s.mHistory).1) s.mClients }
  sent := s.broadcastSent
  failed :=
    if ∀ fd ∈ s.mClients.keys, ∀ msg ∈ s.broadcastSent fd, msg.seq < s.mNextSeq then []
    else [.broadcastSeq]

/-- `PruneRemoved(); Broadcast();`, the end of every operation but `OnConnect`. -/
def settle (s : TopologyServer) : Outcome :=
  broadcast { s with mHistory := pruneRemoved s.mHistory }

/-- Append a message to the history under the next sequence number. -/
def mint (s : TopologyServer) (msg : TopologyMessage) : TopologyServer :=
  { s with
    mNextSeq := s.mNextSeq + 1
    mHistory := s.mHistory ++ [{ msg with seq := s.mNextSeq }] }

/-- The LEAVE the hub writes for a node; its uid is not set. -/
def leaveMessage (id : UInt64) : TopologyMessage where
  op := .nodeChange { id := id, op := .leave }

/-- `none` when the descriptor is unknown, which the source asserts against. -/
def onDisconnect (s : TopologyServer) (fd : Fd) : Option Outcome :=
  match s.mClients.lookup fd with
  | none => none
  | some client =>
      let msg := leaveMessage client.nodeId
      let s' := s.mint msg
      some { settle { s' with mClients := s'.mClients.erase fd } with
        minted := [{ msg with seq := s.mNextSeq }] }

def isRedundant (msg : TopologyMessage) (client : Client) : Bool :=
  client.history.any fun hMsg => hMsg.op.equal msg.op

/-- What `AddNovelMessage` and `AddOldMessage` do to server and client. -/
structure Added where
  server : TopologyServer
  client : Client
  minted : List TopologyMessage := []
  accepted : List TopologyMessage := []
  failed : List Assertion := []

/-- `random` is the value `randomGen` returns. -/
def addNovelMessage (s : TopologyServer) (msg : TopologyMessage) (client : Client)
    (random : UInt64) : Added :=
  if isRedundant msg client then { server := s, client := client }
  else
    let tmp := { msg with seq := s.mNextSeq, uid := random }
    { server := s.mint { msg with uid := random }
      client := { client with history := client.history ++ [tmp] }
      minted := [tmp] }

/-- The result of `std::lower_bound` in `AddOldMessage`, `none` at the end. -/
def hit (s : TopologyServer) (msg : TopologyMessage) : Option TopologyMessage :=
  s.mHistory[lowerBound (fun lhs => decide (lhs.seq < msg.seq)) s.mHistory]?

def addOldMessage (s : TopologyServer) (msg : TopologyMessage) (client : Client) : Added :=
  match s.hit msg with
  | none =>
      -- inserting at the end, where the search stopped
      { server := { s with mNextSeq := msg.seq + 1, mHistory := s.mHistory ++ [msg] }
        client := { client with history := client.history ++ [msg] }
        accepted := [msg]
        failed := if msg.uid ≠ 0 then [] else [.oldUid] }
  | some found =>
      if found.seq = msg.seq ∧ found.uid = msg.uid then
        { server := s
          client := client
          failed := if found.equal msg then [] else [.oldMatch] }
      else { server := s, client := client }

/-- `OnData` from the point where the packet has been parsed.  `none` when the
descriptor is unknown, which the source asserts against. -/
def onMessage (s : TopologyServer) (fd : Fd) (msg : TopologyMessage) (random : UInt64) :
    Option Outcome :=
  if msg.nodeId = 0 then some { server := s }
  else
    match s.mClients.lookup fd with
    | none => none
    | some found =>
        let client := { found with nodeId := msg.nodeId }
        let a :=
          if msg.seq = 0 then s.addNovelMessage msg client random
          else s.addOldMessage msg client
        let settled := settle { a.server with mClients := a.server.mClients.insert fd a.client }
        some { settled with
          minted := a.minted
          accepted := a.accepted
          failed := a.failed ++ settled.failed }

/-- `OnData`; whether the packet parsed is not looked at. -/
def onData (parse : List UInt8 → TopologyMessage) (s : TopologyServer) (fd : Fd)
    (data : List UInt8) (random : UInt64) : Option Outcome :=
  if data.length = 0 then some { server := s } else s.onMessage fd (parse data) random

/-- The loop of `PurgeDisconnected` over the history. -/
def noteActive (active : Finset UInt64) (msg : TopologyMessage) : Finset UInt64 :=
  match msg.op with
  | .nodeChange change =>
      if change.op = .join then insert change.id active
      else if change.op = .leave then active.erase change.id
      else active
  | _ => active

/-- The set `historicallyActive` of `PurgeDisconnected`. -/
def historicallyActive (history : List TopologyMessage) : Finset UInt64 :=
  history.foldl noteActive ∅

/-- The keys of the map `connected` of `PurgeDisconnected`. -/
def connected (s : TopologyServer) : Finset UInt64 :=
  image Client.nodeId s.mClients

/-- Mint a LEAVE for each node of a list. -/
def mintLeaves (s : TopologyServer) : List UInt64 → TopologyServer × List TopologyMessage
  | [] => (s, [])
  | id :: ids =>
      let r := mintLeaves (s.mint (leaveMessage id)) ids
      (r.1, { leaveMessage id with seq := s.mNextSeq } :: r.2)

/-- `order` is the order in which `historicallyActive` is iterated. -/
def purgeDisconnected (s : TopologyServer) (order : List UInt64) : Outcome :=
  let r := s.mintLeaves (order.filter fun id => id ∉ s.connected)
  { settle r.1 with minted := r.2 }

end TopologyServer

end IpcPubsub
