import IpcPubsub.Messages

/-!
# What protobuf does with topology messages

The code that protobuf generates, and the streams it writes through, are not part of this
repository.  `TopologyCodec` stands for them wherever the model works on bytes:
`SerializeToString`, `ParseFromArray`, and the calls of `write` that
`SerializeToFileDescriptor` makes.

What the results rely on is named in `TopologyCodec.Lawful` and `TopologyCodec.Blockwise`:
parsing undoes serialising, a message that was cut is not read as it was sent, an encoding
is not much longer than its strings, and a stream passes its bytes on block by block.
-/

namespace IpcPubsub

/-- `UINT16_MAX`, the size of the buffers that packets and datagrams are read into. -/
def uint16Max : Nat := 65535

/-! ## Messages that C++ can hold -/

/-- A value that has a name is not spelled as an unrecognized one. -/
def NodeOperation.Proper : NodeOperation → Prop
  | .unrecognized value => value ∉ [0, 1, 2]
  | _ => True

/-- A value that has a name is not spelled as an unrecognized one. -/
def TopicOperation.Proper : TopicOperation → Prop
  | .unrecognized value => value ∉ [0, 1, 2, 3, 4]
  | _ => True

def MessageOp.Proper : MessageOp → Prop
  | .notSet => True
  | .nodeChange change => change.op.Proper
  | .topicChange change => change.op.Proper

instance : DecidablePred NodeOperation.Proper
  | .unrecognized value => inferInstanceAs (Decidable (value ∉ [0, 1, 2]))
  | .unset => isTrue trivial
  | .join => isTrue trivial
  | .leave => isTrue trivial

instance : DecidablePred TopicOperation.Proper
  | .unrecognized value => inferInstanceAs (Decidable (value ∉ [0, 1, 2, 3, 4]))
  | .unset => isTrue trivial
  | .announce => isTrue trivial
  | .retract => isTrue trivial
  | .subscribe => isTrue trivial
  | .unsubscribe => isTrue trivial

instance : DecidablePred MessageOp.Proper
  | .notSet => isTrue trivial
  | .nodeChange change => inferInstanceAs (Decidable change.op.Proper)
  | .topicChange change => inferInstanceAs (Decidable change.op.Proper)

/-- The bytes of all strings. -/
def NodeChange.textLength (change : NodeChange) : Nat :=
  change.name.utf8ByteSize + change.address.utf8ByteSize

/-- The bytes of all strings. -/
def TopicChange.textLength (change : TopicChange) : Nat :=
  change.name.utf8ByteSize + change.mime.utf8ByteSize + change.socket.utf8ByteSize

/-- The bytes of all strings. -/
def MessageOp.textLength : MessageOp → Nat
  | .notSet => 0
  | .nodeChange change => change.textLength
  | .topicChange change => change.textLength

/-! ## The codec -/

/-- The generated code for topology messages. -/
structure TopologyCodec where
  /-- `SerializeToString`. -/
  serialize : TopologyMessage → List UInt8
  /-- `ParseFromArray`: whether it returns true, and the message it leaves. -/
  parse : List UInt8 → Bool × TopologyMessage
  /-- What each `write` of `SerializeToFileDescriptor` passes on. -/
  written : TopologyMessage → List (List UInt8)

/-- The blocks in which a stream passes its bytes on. -/
def blocks (size : Nat) (bytes : List UInt8) : List (List UInt8) :=
  if bytes = [] ∨ size = 0 then [] else bytes.take size :: blocks size (bytes.drop size)
termination_by bytes.length
decreasing_by
  rename_i h
  rw [not_or] at h
  have := List.length_pos_iff.mpr h.1
  rw [List.length_drop]
  omega

namespace TopologyCodec

/-- What protobuf promises of the encoding. -/
structure Lawful (codec : TopologyCodec) : Prop where
  /-- No bytes are the encoding of the empty message. -/
  parse_nil : codec.parse [] = (true, {})
  /-- Parsing undoes serialising. -/
  parse_serialize : ∀ msg : TopologyMessage, msg.op.Proper →
    codec.parse (codec.serialize msg) = (true, msg)
  /-- The operation comes last, so an encoding that was cut has lost it or does not parse. -/
  parse_cut : ∀ (msg : TopologyMessage) (cut : List UInt8), msg.op.Proper → msg.op ≠ .notSet →
    cut <+: codec.serialize msg → cut.length < (codec.serialize msg).length →
      codec.parse cut ≠ (true, msg)
  /-- Tags, lengths and numbers take at most 60 bytes. -/
  length_serialize_le : ∀ msg : TopologyMessage, msg.op.textLength < 2 ^ 20 →
    (codec.serialize msg).length ≤ msg.op.textLength + 60

/-- `SerializeToFileDescriptor` writes the encoding through a stream with blocks of a size. -/
def Blockwise (codec : TopologyCodec) (block : Nat) : Prop :=
  ∀ msg : TopologyMessage, codec.written msg = blocks block (codec.serialize msg)

/-- What the reader of a packet decodes, and whether all of it could be read. -/
def readPacket (codec : TopologyCodec) (data : List UInt8) : Bool × TopologyMessage :=
  codec.parse (data.take uint16Max)

end TopologyCodec

end IpcPubsub
