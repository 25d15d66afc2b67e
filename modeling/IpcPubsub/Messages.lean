import Mathlib

/-!
# Topology messages

The messages of `protos/index.proto` that hub and spokes exchange.  Proto3
enumerations are open, so a received operation may be a value the schema does
not name; such a value is kept and takes none of the named branches.  A message
whose `oneof` is not set carries no operation at all.
-/

namespace IpcPubsub

inductive NodeOperation
  | unset
  | join
  | leave
  | unrecognized (value : Int32)
  deriving DecidableEq, Inhabited

inductive TopicOperation
  | unset
  | announce
  | retract
  | subscribe
  | unsubscribe
  | unrecognized (value : Int32)
  deriving DecidableEq, Inhabited

structure NodeChange where
  id : UInt64 := 0
  op : NodeOperation := .unset
  name : String := ""
  address : String := ""
  deriving DecidableEq, Inhabited

structure TopicChange where
  name : String := ""
  mime : String := ""
  nodeId : UInt64 := 0
  op : TopicOperation := .unset
  socket : String := ""
  deriving DecidableEq, Inhabited

/-- The `oneof op` of a topology message. -/
inductive MessageOp
  | notSet
  | nodeChange (change : NodeChange)
  | topicChange (change : TopicChange)
  deriving DecidableEq, Inhabited

/-- A topology message.  `seq` is 0 until the hub mints the message. -/
structure TopologyMessage where
  seq : UInt64 := 0
  uid : UInt64 := 0
  op : MessageOp := .notSet
  deriving DecidableEq, Inhabited

/-- `operator==` on node changes. -/
def NodeChange.equal (lhs rhs : NodeChange) : Bool :=
  lhs.id == rhs.id && lhs.op == rhs.op && lhs.name == rhs.name &&
    lhs.address == rhs.address

/-- `operator==` on topic changes. -/
def TopicChange.equal (lhs rhs : TopicChange) : Bool :=
  lhs.name == rhs.name && lhs.mime == rhs.mime && lhs.nodeId == rhs.nodeId &&
    lhs.op == rhs.op && lhs.socket == rhs.socket

/-- The operations of two messages compared as `operator==` does: two messages
without an operation are not equal. -/
def MessageOp.equal : MessageOp → MessageOp → Bool
  | .nodeChange lhs, .nodeChange rhs => lhs.equal rhs
  | .topicChange lhs, .topicChange rhs => lhs.equal rhs
  | _, _ => false

/-- `operator==` on topology messages. -/
def TopologyMessage.equal (lhs rhs : TopologyMessage) : Bool :=
  lhs.seq == rhs.seq && lhs.uid == rhs.uid && lhs.op.equal rhs.op

/-- The node a message is about, 0 when it carries no operation. -/
def MessageOp.nodeId : MessageOp → UInt64
  | .notSet => 0
  | .nodeChange change => change.id
  | .topicChange change => change.nodeId

def TopologyMessage.nodeId (msg : TopologyMessage) : UInt64 :=
  msg.op.nodeId

/-- The operation is the node change `o` of node `id`. -/
def MessageOp.Reports (o : NodeOperation) (id : UInt64) : MessageOp → Prop
  | .nodeChange change => change.op = o ∧ change.id = id
  | _ => False

instance (o : NodeOperation) (id : UInt64) : DecidablePred (MessageOp.Reports o id)
  | .nodeChange change => inferInstanceAs (Decidable (change.op = o ∧ change.id = id))
  | .notSet => isFalse fun h => h
  | .topicChange _ => isFalse fun h => h

/-- The message says that node `id` joined. -/
abbrev TopologyMessage.JoinOf (id : UInt64) (msg : TopologyMessage) : Prop :=
  msg.op.Reports .join id

/-- The message says that node `id` left. -/
abbrev TopologyMessage.LeaveOf (id : UInt64) (msg : TopologyMessage) : Prop :=
  msg.op.Reports .leave id

@[simp] theorem MessageOp.reports_nodeChange {o : NodeOperation} {id : UInt64}
    {change : NodeChange} :
    (MessageOp.nodeChange change).Reports o id ↔ change.op = o ∧ change.id = id := Iff.rfl

@[simp] theorem MessageOp.not_reports_topicChange {o : NodeOperation} {id : UInt64}
    {change : TopicChange} : ¬ (MessageOp.topicChange change).Reports o id := fun h => h

@[simp] theorem MessageOp.not_reports_notSet {o : NodeOperation} {id : UInt64} :
    ¬ MessageOp.notSet.Reports o id := fun h => h

/-- `operator==` compares all fields of a node change. -/
theorem NodeChange.equal_iff {lhs rhs : NodeChange} : lhs.equal rhs = true ↔ lhs = rhs := by
  cases lhs
  cases rhs
  simp [NodeChange.equal, and_assoc]

/-- `operator==` compares all fields of a topic change. -/
theorem TopicChange.equal_iff {lhs rhs : TopicChange} :
    lhs.equal rhs = true ↔ lhs = rhs := by
  cases lhs
  cases rhs
  simp [TopicChange.equal, and_assoc]

/-- Two messages without an operation are not equal for `operator==`, not even to themselves. -/
theorem MessageOp.equal_iff {lhs rhs : MessageOp} :
    lhs.equal rhs = true ↔ lhs = rhs ∧ lhs ≠ .notSet := by
  cases lhs <;> cases rhs <;>
    simp [MessageOp.equal, NodeChange.equal_iff, TopicChange.equal_iff]

/-- `operator==` is equality of messages that carry an operation. -/
theorem TopologyMessage.equal_iff {lhs rhs : TopologyMessage} :
    lhs.equal rhs = true ↔ lhs = rhs ∧ lhs.op ≠ .notSet := by
  cases lhs
  cases rhs
  simp [TopologyMessage.equal, MessageOp.equal_iff, and_assoc]

/-- A message about a node says something about it. -/
theorem TopologyMessage.op_ne_notSet {msg : TopologyMessage} (h : msg.nodeId ≠ 0) :
    msg.op ≠ .notSet := by
  intro hop
  exact h (by simp [TopologyMessage.nodeId, MessageOp.nodeId, hop])

/-- What a message reports about a node, spelled out. -/
theorem MessageOp.reports_iff {o : NodeOperation} {id : UInt64} {op : MessageOp} :
    op.Reports o id ↔
      ∃ change, op = .nodeChange change ∧ change.op = o ∧ change.id = id := by
  cases op <;> simp

/-- What reports about a node is a message about that node. -/
theorem MessageOp.Reports.nodeId {o : NodeOperation} {id : UInt64} {op : MessageOp}
    (h : op.Reports o id) : op.nodeId = id := by
  cases op with
  | nodeChange change => exact h.2
  | topicChange change => exact h.elim
  | notSet => exact h.elim

/-- A message reports one operation of one node. -/
theorem MessageOp.Reports.unique {o o' : NodeOperation} {id id' : UInt64} {op : MessageOp}
    (h : op.Reports o id) (h' : op.Reports o' id') : o = o' ∧ id = id' := by
  cases op with
  | nodeChange change => exact ⟨h.1.symm.trans h'.1, h.2.symm.trans h'.2⟩
  | topicChange change => exact h.elim
  | notSet => exact h.elim

end IpcPubsub
