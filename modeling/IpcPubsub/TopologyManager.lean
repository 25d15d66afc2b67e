import IpcPubsub.FiniteMap
import IpcPubsub.LowerBound
import IpcPubsub.WordOrder
import IpcPubsub.Messages

/-!
# The spoke

The part of `lib/TopologyManager.cc` that keeps a node's view of the topology:
`ApplyUpdate` with its six callbacks, the messages the public calls build, and
what `IntroduceOurselves` sends.  A handler may be null; an update returns every
handler call it makes, a call of a null handler included.

The order in which the publications and subscriptions of a node are iterated is
an argument, since the containers are hash tables.
-/

namespace IpcPubsub

open FiniteMap LowerBound

structure Publication where
  name : String
  mime : String
  deriving DecidableEq

structure Node where
  id : UInt64
  name : String
  address : String
  publications : UnorderedMap String Publication := ∅
  subscriptions : Finset String := ∅
  deriving DecidableEq

/-- The container `mNodes`. -/
abbrev Nodes := UnorderedMap UInt64 Node

/-- Which of the six handlers are not null. -/
structure Handlers where
  onJoin : Bool := true
  onLeave : Bool := true
  onAnnounce : Bool := true
  onRetract : Bool := true
  onSubscribe : Bool := true
  onUnsubscribe : Bool := true
  deriving DecidableEq

/-- A handler call with its argument. -/
inductive Callback
  | onJoin (change : NodeChange)
  | onLeave (change : NodeChange)
  | onAnnounce (change : TopicChange)
  | onRetract (change : TopicChange)
  | onSubscribe (change : TopicChange)
  | onUnsubscribe (change : TopicChange)
  deriving DecidableEq

/-- The branches of `ApplyUpdate` for a topic change of a present node. -/
def Node.applyTopicChange (handlers : Handlers) (node : Node) (change : TopicChange) :
    Node × List Callback :=
  match change.op with
  | .announce =>
      match node.publications.lookup change.name with
      | none =>
          ({ node with publications :=
              node.publications.insert change.name { name := change.name, mime := change.mime } },
            if handlers.onAnnounce then [.onAnnounce change] else [])
      | some publication =>
          if change.mime ≠ publication.mime then
            -- this call is not guarded by a test of the handler
            ({ node with publications :=
                node.publications.insert change.name { publication with mime := change.mime } },
              [.onAnnounce change])
          else (node, [])
  | .subscribe =>
      ({ node with subscriptions := insert change.name node.subscriptions },
        if change.name ∉ node.subscriptions ∧ handlers.onSubscribe then
          [.onSubscribe change] else [])
  | .unsubscribe =>
      ({ node with subscriptions := node.subscriptions.erase change.name },
        if change.name ∈ node.subscriptions ∧ handlers.onUnsubscribe then
          [.onUnsubscribe change] else [])
  | .retract =>
      ({ node with publications := node.publications.erase change.name },
        if change.name ∈ node.publications ∧ handlers.onRetract then
          [.onRetract change] else [])
  | _ => (node, [])

/-- The branches of `ApplyUpdate` for a node change. -/
def applyNodeChange (handlers : Handlers) (nodes : Nodes) (change : NodeChange) :
    Nodes × List Callback :=
  match change.op with
  | .join =>
      match nodes.lookup change.id with
      | none =>
          (nodes.insert change.id
              { id := change.id, name := change.name, address := change.address },
            if handlers.onJoin then [.onJoin change] else [])
      | some node =>
          -- the entry keeps its name and address
          (nodes,
            if (node.name ≠ change.name ∨ node.address ≠ change.address) ∧ handlers.onJoin then
              [.onJoin change] else [])
  | .leave =>
      if change.id ∈ nodes then
        (nodes.erase change.id, if handlers.onLeave then [.onLeave change] else [])
      else (nodes, [])
  | _ => (nodes, [])

/-- What `ApplyUpdate` does to `mNodes`, and the handlers it calls. -/
def updateNodes (handlers : Handlers) (nodes : Nodes) (msg : TopologyMessage) :
    Nodes × List Callback :=
  match msg.op with
  | .nodeChange change => applyNodeChange handlers nodes change
  | .topicChange change =>
      match nodes.lookup change.nodeId with
      | none => (nodes, [])
      | some node =>
          let r := node.applyTopicChange handlers change
          (nodes.insert change.nodeId r.1, r.2)
  | .notSet => (nodes, [])

structure TopologyManager where
  mNodeId : UInt64
  mName : String := ""
  mAddress : String := ""
  handlers : Handlers := {}
  mHistory : List TopologyMessage := []
  mNodes : Nodes := ∅
  deriving DecidableEq

namespace TopologyManager

/-- `ApplyUpdate` on a parsed message. -/
def applyUpdate (m : TopologyManager) (msg : TopologyMessage) :
    TopologyManager × List Callback :=
  let hit := lowerBound (fun lhs => decide (lhs.seq < msg.seq)) m.mHistory
  let r := updateNodes m.handlers m.mNodes msg
  ({ m with mHistory := m.mHistory.insertIdx hit msg, mNodes := r.1 }, r.2)

/-- A topic change of the manager's own node, as the public calls build it. -/
def topicMessage (m : TopologyManager) (op : TopicOperation) (topic : String)
    (mime : String := "") : TopologyMessage where
  op := .topicChange { name := topic, mime := mime, nodeId := m.mNodeId, op := op }

/-- The message `Announce` sends. -/
def announce (m : TopologyManager) (topic mime : String) : TopologyMessage :=
  m.topicMessage .announce topic mime

/-- The message `Retract` sends. -/
def retract (m : TopologyManager) (topic : String) : TopologyMessage :=
  m.topicMessage .retract topic

/-- The message `Subscribe` sends. -/
def subscribe (m : TopologyManager) (topic : String) : TopologyMessage :=
  m.topicMessage .subscribe topic

/-- The message `Unsubscribe` sends. -/
def unsubscribe (m : TopologyManager) (topic : String) : TopologyMessage :=
  m.topicMessage .unsubscribe topic

/-- The JOIN `IntroduceOurselves` crafts. -/
def joinMessage (m : TopologyManager) : TopologyMessage where
  op := .nodeChange
    { id := m.mNodeId, op := .join, name := m.mName, address := m.mAddress }

/-- The loop over the own publications.  `topicMsg` is the one object all
rounds write to; it is returned as the loop leaves it. -/
def introducePublications (m : TopologyManager) (topicMsg : TopicChange) :
    List Publication → List TopologyMessage × TopicChange
  | [] => ([], topicMsg)
  | pub :: rest =>
      let topicMsg := { topicMsg with
        name := pub.name, mime := pub.mime, nodeId := m.mNodeId, op := .announce }
      let r := m.introducePublications topicMsg rest
      ({ op := .topicChange topicMsg } :: r.1, r.2)

/-- The loop over the own subscriptions, on the same object. -/
def introduceSubscriptions (m : TopologyManager) (topicMsg : TopicChange) :
    List String → List TopologyMessage
  | [] => []
  | name :: rest =>
      let topicMsg := { topicMsg with name := name, nodeId := m.mNodeId, op := .subscribe }
      { op := .topicChange topicMsg } :: m.introduceSubscriptions topicMsg rest

/-- What follows the JOIN: the own publications and subscriptions, if the own
node is present, in the order `pubs` and `subs` of the two containers. -/
def introduceTopics (m : TopologyManager) (pubs : List Publication) (subs : List String) :
    List TopologyMessage :=
  match m.mNodes.lookup m.mNodeId with
  | none => []
  | some _ =>
      let r := m.introducePublications {} pubs
      r.1 ++ m.introduceSubscriptions r.2 subs

/-- Everything `IntroduceOurselves` sends. -/
def introduceOurselves (m : TopologyManager) (pubs : List Publication) (subs : List String) :
    List TopologyMessage :=
  m.mHistory ++ m.joinMessage :: m.introduceTopics pubs subs

end TopologyManager

/-- The map `mNodes` that `ApplyUpdate` builds by applying a log in order. -/
def applyAll (nodes : Nodes) (log : List TopologyMessage) : Nodes :=
  log.foldl (fun nodes msg => (updateNodes {} nodes msg).1) nodes

/-- The map `mNodes` that a log builds from nothing. -/
def replay (log : List TopologyMessage) : Nodes :=
  applyAll ∅ log

end IpcPubsub
