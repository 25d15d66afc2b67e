import IpcPubsub.Datagrams

/-!
# Topology messages on the wire

`UDSClient::Send` puts the encoding of a message into one packet.  The hub writes with
`SerializeToFileDescriptor`, through a stream that passes its bytes on in blocks, and on a
`SOCK_SEQPACKET` socket each block is a packet of its own.  Both ends read a packet
into a buffer of 65535 bytes, and what does not fit is gone.

From a node a message arrives exactly when its encoding fits the buffer, and from the hub
when it also fits a block (`message_arrives_iff`), for every codec that keeps what protobuf
promises.

That these promises can be kept is shown by a codec written out here, the proto3 encoding as
tagged records with its parser (`wireCodec_lawful`).  It also is what the runs on concrete
packets are evaluated with.
-/

namespace IpcPubsub

open WireFormat

/-! ## The encoding -/

/-- The number of an operation. -/
def NodeOperation.value : NodeOperation → Int32
  | .unset => 0
  | .join => 1
  | .leave => 2
  | .unrecognized value => value

/-- The number of an operation. -/
def TopicOperation.value : TopicOperation → Int32
  | .unset => 0
  | .announce => 1
  | .retract => 2
  | .subscribe => 3
  | .unsubscribe => 4
  | .unrecognized value => value

/-- A field that holds its default is not written. -/
def numberField (field : Nat) (n : UInt64) : List Record :=
  if n = 0 then [] else [{ field := field, value := .number n.toNat }]

/-- An enumeration is written as its number with the sign extended. -/
def enumField (field : Nat) (value : Int32) : List Record :=
  numberField field value.toInt64.toUInt64

def textField (field : Nat) (text : String) : List Record :=
  if text = "" then [] else [{ field := field, value := .bytes text.toByteArray.data.toList }]

def NodeChange.records (change : NodeChange) : List Record :=
  numberField 1 change.id ++ (enumField 2 change.op.value ++
    (textField 3 change.name ++ textField 4 change.address))

def TopicChange.records (change : TopicChange) : List Record :=
  textField 1 change.name ++ (textField 2 change.mime ++ (numberField 3 change.nodeId ++
    (enumField 4 change.op.value ++ textField 5 change.socket)))

/-- The field of the `oneof` that is set is written even if it is empty. -/
def MessageOp.records : MessageOp → List Record
  | .notSet => []
  | .nodeChange change => [{ field := 3, value := .bytes (written change.records) }]
  | .topicChange change => [{ field := 4, value := .bytes (written change.records) }]

namespace TopologyMessage

def records (msg : TopologyMessage) : List Record :=
  numberField 1 msg.seq ++ (numberField 2 msg.uid ++ msg.op.records)

/-- `SerializeToString`. -/
def serialize (msg : TopologyMessage) : List UInt8 :=
  written msg.records

end TopologyMessage

/-! ## The parser -/

/-- What is set of a field of the `oneof` before its content is read: a field that is set
again is merged, and one that was not set takes the place of the other. -/
def MessageOp.mutableNodeChange : MessageOp → NodeChange
  | .nodeChange change => change
  | _ => {}

def MessageOp.mutableTopicChange : MessageOp → TopicChange
  | .topicChange change => change
  | _ => {}

namespace TopologyMessage

/-- Set the fields of a message from records, up to the first that fails. -/
def fill {α : Type} (set : α → Record → α × Bool) : α → List Record → α × Bool
  | a, [] => (a, true)
  | a, r :: rs =>
      let next := set a r
      if next.2 then fill set next.1 rs else next

/-- Set fields from bytes, and whether all of them were read. -/
def fillFrom {α : Type} (set : α → Record → α × Bool) (a : α) (data : List UInt8) : α × Bool :=
  let filled := fill set a (readAll data).1
  (filled.1, filled.2 && (readAll data).2)

/-- Set a string, which has to be UTF-8. -/
def fillString {α : Type} (a : α) (content : List UInt8) (set : String → α) : α × Bool :=
  match String.fromUTF8? content.toByteArray with
  | some text => (set text, true)
  | none => (a, false)

def nodeOperation (n : Nat) : NodeOperation :=
  if n = 0 then .unset else if n = 1 then .join else if n = 2 then .leave
  else .unrecognized (Int32.ofNat n)

def topicOperation (n : Nat) : TopicOperation :=
  if n = 0 then .unset else if n = 1 then .announce else if n = 2 then .retract
  else if n = 3 then .subscribe else if n = 4 then .unsubscribe
  else .unrecognized (Int32.ofNat n)

def setNodeChange (change : NodeChange) (r : Record) : NodeChange × Bool :=
  match r.field, r.value with
  | 1, .number n => ({ change with id := UInt64.ofNat n }, true)
  | 2, .number n => ({ change with op := nodeOperation n }, true)
  | 3, .bytes content => fillString change content fun text => { change with name := text }
  | 4, .bytes content => fillString change content fun text => { change with address := text }
  | _, _ => (change, true)

def setTopicChange (change : TopicChange) (r : Record) : TopicChange × Bool :=
  match r.field, r.value with
  | 1, .bytes content => fillString change content fun text => { change with name := text }
  | 2, .bytes content => fillString change content fun text => { change with mime := text }
  | 3, .number n => ({ change with nodeId := UInt64.ofNat n }, true)
  | 4, .number n => ({ change with op := topicOperation n }, true)
  | 5, .bytes content => fillString change content fun text => { change with socket := text }
  | _, _ => (change, true)

def setField (msg : TopologyMessage) (r : Record) : TopologyMessage × Bool :=
  match r.field, r.value with
  | 1, .number n => ({ msg with seq := UInt64.ofNat n }, true)
  | 2, .number n => ({ msg with uid := UInt64.ofNat n }, true)
  | 3, .bytes content =>
      let change := fillFrom setNodeChange msg.op.mutableNodeChange content
      ({ msg with op := .nodeChange change.1 }, change.2)
  | 4, .bytes content =>
      let change := fillFrom setTopicChange msg.op.mutableTopicChange content
      ({ msg with op := .topicChange change.1 }, change.2)
  | _, _ => (msg, true)

/-- What is there of a content that was cut. -/
def cutContent (bytes : List UInt8) : List UInt8 :=
  ((readVarint bytes).map Prod.snd).getD []

/-- What a record does that could not be read to its end: the `oneof` is switched at the tag,
and what there is of the content goes into the field. -/
def setCut (msg : TopologyMessage) (bytes : List UInt8) : TopologyMessage :=
  match readVarint bytes with
  | some (26, more) =>
      let change := fillFrom setNodeChange msg.op.mutableNodeChange (cutContent more)
      { msg with op := .nodeChange change.1 }
  | some (34, more) =>
      let change := fillFrom setTopicChange msg.op.mutableTopicChange (cutContent more)
      { msg with op := .topicChange change.1 }
  | _ => msg

/-- `ParseFromArray`: whether it returns true, and the message it leaves. -/
def parse (data : List UInt8) : Bool × TopologyMessage :=
  match fill setField {} (readAll data).1 with
  | (msg, false) => (false, msg)
  | (msg, true) => if (readAll data).2 then (true, msg) else (false, msg.setCut (unread data))

end TopologyMessage

/-! ## Reading it back -/

/-- An enumeration goes on the wire as the 64 bits its value extends to, and comes back from the
lower 32 of them. -/
theorem int32_ofNat_toNat (value : Int32) : Int32.ofNat value.toInt64.toUInt64.toNat = value := by
  apply Int32.toBitVec.inj
  have hextended : value.toInt64.toUInt64.toBitVec = value.toBitVec.signExtend 64 := rfl
  show BitVec.ofNat 32 value.toInt64.toUInt64.toBitVec.toNat = _
  rw [hextended]
  apply BitVec.eq_of_getLsbD_eq
  intro i hi
  rw [BitVec.ofNat_toNat, BitVec.getLsbD_setWidth, BitVec.getLsbD_signExtend]
  simp [hi]
  omega

/-- A number that is none of the named ones is not read as one. -/
theorem extended_ne {value : Int32} {n : Nat} (h : value ≠ Int32.ofNat n) :
    value.toInt64.toUInt64.toNat ≠ n := by
  rintro rfl
  exact h (int32_ofNat_toNat value).symm

/-- The operation that is read is the one that was written, one without a name included. -/
theorem nodeOperation_value {op : NodeOperation} (h : op.Proper) :
    TopologyMessage.nodeOperation op.value.toInt64.toUInt64.toNat = op := by
  cases op with
  | unrecognized value =>
      simp only [NodeOperation.Proper, List.mem_cons, List.not_mem_nil, or_false, not_or] at h
      obtain ⟨hunset, hjoin, hleave⟩ := h
      rw [TopologyMessage.nodeOperation, NodeOperation.value, if_neg (extended_ne hunset),
        if_neg (extended_ne hjoin), if_neg (extended_ne hleave), int32_ofNat_toNat]
  | _ => rfl

/-- The operation that is read is the one that was written, one without a name included. -/
theorem topicOperation_value {op : TopicOperation} (h : op.Proper) :
    TopologyMessage.topicOperation op.value.toInt64.toUInt64.toNat = op := by
  cases op with
  | unrecognized value =>
      simp only [TopicOperation.Proper, List.mem_cons, List.not_mem_nil, or_false, not_or] at h
      obtain ⟨hunset, hannounce, hretract, hsubscribe, hunsubscribe⟩ := h
      rw [TopologyMessage.topicOperation, TopicOperation.value, if_neg (extended_ne hunset),
        if_neg (extended_ne hannounce), if_neg (extended_ne hretract),
        if_neg (extended_ne hsubscribe), if_neg (extended_ne hunsubscribe), int32_ofNat_toNat]
  | _ => rfl

namespace TopologyMessage

section Fill

variable {α : Type} {set : α → Record → α × Bool} {a b : α} {field : Nat}

/-- A message is filled record by record, from the left, as long as no record fails. -/
theorem fill_append {records more : List Record} (h : fill set a records = (b, true)) :
    fill set a (records ++ more) = fill set b more := by
  induction records generalizing a with
  | nil =>
      obtain rfl : a = b := congrArg Prod.fst h
      rfl
  | cons r records ih =>
      rw [List.cons_append, fill]
      rw [fill] at h
      by_cases hset : (set a r).2 = true
      · simp only [hset, if_true] at h ⊢
        exact ih h
      · simp only [hset, Bool.false_eq_true, if_false] at h
        exact absurd (congrArg Prod.snd h) hset

/-- A number is left out where it is zero, and then the field has to be zero already. -/
theorem fill_numberField {n : UInt64}
    (hset : set a { field := field, value := .number n.toNat } = (b, true))
    (hdefault : n = 0 → b = a) : fill set a (numberField field n) = (b, true) := by
  by_cases hn : n = 0
  · rw [numberField, if_pos hn, hdefault hn, fill]
  · rw [numberField, if_neg hn, fill, hset]
    rfl

/-- A text is left out where it is empty, and then the field has to be empty already. -/
theorem fill_textField {text : String}
    (hset : set a { field := field, value := .bytes text.toByteArray.data.toList } = (b, true))
    (hdefault : text = "" → b = a) : fill set a (textField field text) = (b, true) := by
  by_cases htext : text = ""
  · rw [textField, if_pos htext, hdefault htext, fill]
  · rw [textField, if_neg htext, fill, hset]
    rfl

/-- The bytes of a string are valid, and decode to it. -/
theorem fillString_text (text : String) (put : String → α) :
    fillString a text.toByteArray.data.toList put = (put text, true) := by
  rw [fillString, MetadataMessage.fromUTF8_toByteArray]

/-- To fill a message from bytes that were written is to fill it from the records. -/
theorem fillFrom_written {records : List Record} (h : fill set a records = (b, true)) :
    fillFrom set a (written records) = (b, true) := by
  rw [fillFrom, readAll_written, h]
  rfl

end Fill

/-- A node change is read back from its own records, whatever its fields are. -/
theorem fill_nodeChange {change : NodeChange} (h : change.op.Proper) :
    fill setNodeChange {} change.records = (change, true) := by
  obtain ⟨id, op, name, address⟩ := change
  have hread := nodeOperation_value h
  dsimp only at hread
  have hid : fill setNodeChange {} (numberField 1 id) = ({ id := id }, true) := by
    refine fill_numberField ?_ ?_
    · simp [setNodeChange]
    · rintro rfl
      rfl
  have hop : fill setNodeChange { id := id } (enumField 2 op.value) =
      ({ id := id, op := op }, true) := by
    refine fill_numberField ?_ fun hzero => ?_
    · simp [setNodeChange, hread]
    · rw [← hread, hzero]
      rfl
  have hname : fill setNodeChange { id := id, op := op } (textField 3 name) =
      ({ id := id, op := op, name := name }, true) := by
    refine fill_textField ?_ ?_
    · simp only [setNodeChange, fillString_text]
    · rintro rfl
      rfl
  have haddress : fill setNodeChange { id := id, op := op, name := name } (textField 4 address) =
      ({ id := id, op := op, name := name, address := address }, true) := by
    refine fill_textField ?_ ?_
    · simp only [setNodeChange, fillString_text]
    · rintro rfl
      rfl
  rw [NodeChange.records, fill_append hid, fill_append hop, fill_append hname, haddress]

/-- A topic change is read back from its own records, whatever its fields are. -/
theorem fill_topicChange {change : TopicChange} (h : change.op.Proper) :
    fill setTopicChange {} change.records = (change, true) := by
  obtain ⟨name, mime, nodeId, op, socket⟩ := change
  have hread := topicOperation_value h
  dsimp only at hread
  have hname : fill setTopicChange {} (textField 1 name) = ({ name := name }, true) := by
    refine fill_textField ?_ ?_
    · simp only [setTopicChange, fillString_text]
    · rintro rfl
      rfl
  have hmime : fill setTopicChange { name := name } (textField 2 mime) =
      ({ name := name, mime := mime }, true) := by
    refine fill_textField ?_ ?_
    · simp only [setTopicChange, fillString_text]
    · rintro rfl
      rfl
  have hnode : fill setTopicChange { name := name, mime := mime } (numberField 3 nodeId) =
      ({ name := name, mime := mime, nodeId := nodeId }, true) := by
    refine fill_numberField ?_ ?_
    · simp [setTopicChange]
    · rintro rfl
      rfl
  have hop : fill setTopicChange { name := name, mime := mime, nodeId := nodeId }
      (enumField 4 op.value) =
      ({ name := name, mime := mime, nodeId := nodeId, op := op }, true) := by
    refine fill_numberField ?_ fun hzero => ?_
    · simp [setTopicChange, hread]
    · rw [← hread, hzero]
      rfl
  have hsocket : fill setTopicChange { name := name, mime := mime, nodeId := nodeId, op := op }
      (textField 5 socket) =
      ({ name := name, mime := mime, nodeId := nodeId, op := op, socket := socket }, true) := by
    refine fill_textField ?_ ?_
    · simp only [setTopicChange, fillString_text]
    · rintro rfl
      rfl
  rw [TopicChange.records, fill_append hname, fill_append hmime, fill_append hnode,
    fill_append hop, hsocket]

/-- The operation switches the oneof to itself and fills it. -/
theorem fill_op {seq uid : UInt64} {op : MessageOp} (h : op.Proper) :
    fill setField { seq := seq, uid := uid } op.records =
      ({ seq := seq, uid := uid, op := op }, true) := by
  cases op with
  | notSet => rfl
  | nodeChange change =>
      simp [MessageOp.records, fill, setField, MessageOp.mutableNodeChange,
        fillFrom_written (fill_nodeChange h)]
  | topicChange change =>
      simp [MessageOp.records, fill, setField, MessageOp.mutableTopicChange,
        fillFrom_written (fill_topicChange h)]

/-- What comes before the operation: the number and the uid, each left out where it is 0. -/
theorem fill_head (seq uid : UInt64) (more : List Record) :
    fill setField {} (numberField 1 seq ++ (numberField 2 uid ++ more)) =
      fill setField { seq := seq, uid := uid } more := by
  have hseq : fill setField {} (numberField 1 seq) = ({ seq := seq }, true) := by
    refine fill_numberField ?_ ?_
    · simp [setField]
    · rintro rfl
      rfl
  have huid : fill setField { seq := seq } (numberField 2 uid) =
      ({ seq := seq, uid := uid }, true) := by
    refine fill_numberField ?_ ?_
    · simp [setField]
    · rintro rfl
      rfl
  rw [fill_append hseq, fill_append huid]

/-- **Parsing undoes serialising.** -/
theorem parse_serialize {msg : TopologyMessage} (h : msg.op.Proper) :
    parse (serialize msg) = (true, msg) := by
  obtain ⟨seq, uid, op⟩ := msg
  have hfill : fill setField {} (records ⟨seq, uid, op⟩) = (⟨seq, uid, op⟩, true) := by
    rw [records, fill_head, fill_op h]
  rw [parse, serialize, readAll_written, hfill]
  rfl

end TopologyMessage

/-! ## How long it gets -/

/-- A number takes a byte for its tag and ten for 64 bits. -/
theorem length_numberField_le {field : Nat} (hfield : field < 16) (n : UInt64) :
    (written (numberField field n)).length ≤ 11 := by
  rw [numberField]
  split
  · simp [written]
  · have hn := n.toNat_lt
    rw [written_singleton]
    exact length_number_le hfield (by omega) (lt_trans hn (by norm_num))

/-- A text takes a byte for its tag and three for its length. -/
theorem length_textField_le {field : Nat} {text : String} (hfield : field < 16)
    (htext : text.utf8ByteSize < 128 ^ 3) :
    (written (textField field text)).length ≤ text.utf8ByteSize + 4 := by
  rw [textField]
  split
  · simp [written]
  · have hlength : text.toByteArray.data.toList.length = text.utf8ByteSize := by simp
    rw [written_singleton, ← hlength]
    exact length_bytes_le hfield (by omega) (hlength ▸ htext)

/-- What the records of a node change take beyond its strings: two numbers and two texts. -/
theorem NodeChange.length_records_le {change : NodeChange} (h : change.textLength < 2 ^ 20) :
    (written change.records).length ≤ change.textLength + 30 := by
  rw [textLength] at h ⊢
  have hid := @length_numberField_le 1 (by omega) change.id
  have hop := @length_numberField_le 2 (by omega) change.op.value.toInt64.toUInt64
  have hname := @length_textField_le 3 change.name (by omega) (by omega)
  have haddress := @length_textField_le 4 change.address (by omega) (by omega)
  simp only [records, enumField, written_append, List.length_append]
  omega

/-- What the records of a topic change take beyond its strings: two numbers and three texts. -/
theorem TopicChange.length_records_le {change : TopicChange} (h : change.textLength < 2 ^ 20) :
    (written change.records).length ≤ change.textLength + 34 := by
  rw [textLength] at h ⊢
  have hname := @length_textField_le 1 change.name (by omega) (by omega)
  have hmime := @length_textField_le 2 change.mime (by omega) (by omega)
  have hnode := @length_numberField_le 3 (by omega) change.nodeId
  have hop := @length_numberField_le 4 (by omega) change.op.value.toInt64.toUInt64
  have hsocket := @length_textField_le 5 change.socket (by omega) (by omega)
  simp only [records, enumField, written_append, List.length_append]
  omega

/-- And what the record around them takes: a tag and a length. -/
theorem MessageOp.length_records_le {op : MessageOp} (h : op.textLength < 2 ^ 20) :
    (written op.records).length ≤ op.textLength + 38 := by
  cases op with
  | notSet => simp [records, written]
  | nodeChange change =>
      have hchange := NodeChange.length_records_le h
      have hlength := @length_bytes_le 3 3 (written change.records)
        (by omega) (by omega) (by rw [textLength] at h; omega)
      rw [records, written_singleton, textLength]
      omega
  | topicChange change =>
      have hchange := TopicChange.length_records_le h
      have hlength := @length_bytes_le 4 3 (written change.records)
        (by omega) (by omega) (by rw [textLength] at h; omega)
      rw [records, written_singleton, textLength]
      omega

namespace TopologyMessage

/-- Together with the two numbers that come first, an encoding is longer than its strings by 60
bytes at most. -/
theorem length_serialize_le {msg : TopologyMessage} (h : msg.op.textLength < 2 ^ 20) :
    (serialize msg).length ≤ msg.op.textLength + 60 := by
  have hseq := @length_numberField_le 1 (by omega) msg.seq
  have huid := @length_numberField_le 2 (by omega) msg.uid
  have hop := MessageOp.length_records_le h
  simp only [serialize, records, written_append, List.length_append]
  omega

/-! ## What arrives -/

/-- The record of a number has the field it was made for. -/
theorem field_of_mem_numberField {field : Nat} {n : UInt64} {r : Record}
    (h : r ∈ numberField field n) : r.field = field := by
  rw [numberField] at h
  split at h
  · cases h
  · rw [List.mem_singleton.mp h]

/-- The operation comes last: the records before it leave the message without one. -/
theorem fill_without_op {records : List Record} (h : ∀ r ∈ records, r.field = 1 ∨ r.field = 2)
    (msg : TopologyMessage) : (fill setField msg records).1.op = msg.op := by
  induction records generalizing msg with
  | nil => rfl
  | cons r records ih =>
      have hrest := ih (fun r' hmem => h r' (List.mem_cons_of_mem _ hmem))
      have hsame : (setField msg r).1.op = msg.op := by
        obtain ⟨field, value⟩ := r
        rcases h _ List.mem_cons_self with rfl | rfl <;> cases value <;> rfl
      rw [fill]
      split
      · rw [hrest, hsame]
      · exact hsame

/-- A message that was cut is not read as it was sent. -/
theorem parse_cut {msg : TopologyMessage} {cut : List UInt8} (hop : msg.op ≠ .notSet)
    (hbegins : cut <+: serialize msg) (hcut : cut.length < (serialize msg).length) :
    parse cut ≠ (true, msg) := by
  obtain ⟨more, hmore⟩ := hbegins
  have hne : more ≠ [] := by
    rintro rfl
    rw [List.append_nil] at hmore
    rw [hmore] at hcut
    omega
  obtain ⟨n, hn, htake⟩ := readAll_truncated hmore.symm hne
  let head := numberField 1 msg.seq ++ numberField 2 msg.uid
  have hrecords : msg.records = head ++ msg.op.records := (List.append_assoc ..).symm
  have hlast : msg.op.records.length = 1 := by
    cases hcase : msg.op with
    | notSet => exact absurd hcase hop
    | nodeChange change => rfl
    | topicChange change => rfl
  have hhead : msg.records.take n = head.take n := by
    rw [hrecords, List.length_append, hlast] at hn
    rw [hrecords, List.take_append_of_le_length (by omega)]
  have hfields : ∀ r ∈ head.take n, r.field = 1 ∨ r.field = 2 := by
    intro r hmem
    rcases List.mem_append.mp (List.mem_of_mem_take hmem) with hseq | huid
    · exact .inl (field_of_mem_numberField hseq)
    · exact .inr (field_of_mem_numberField huid)
  have hfilled := fill_without_op hfields {}
  rw [← hhead, ← htake] at hfilled
  intro hparse
  rw [parse] at hparse
  split at hparse
  · cases hparse
  · rename_i msg' heq
    rw [heq] at hfilled
    split at hparse
    · obtain rfl : msg' = msg := congrArg Prod.snd hparse
      exact hop hfilled
    · cases hparse

end TopologyMessage

/-- The encoding of proto3, written through a stream with blocks of this size. -/
def wireCodec (block : Nat) : TopologyCodec where
  serialize := TopologyMessage.serialize
  parse := TopologyMessage.parse
  written := fun msg => blocks block msg.serialize

/-- **The promises can be kept.** -/
theorem wireCodec_lawful (block : Nat) : (wireCodec block).Lawful where
  parse_nil := rfl
  parse_serialize _ h := TopologyMessage.parse_serialize h
  parse_cut _ _ _ hop hbegins hcut := TopologyMessage.parse_cut hop hbegins hcut
  length_serialize_le _ h := TopologyMessage.length_serialize_le h

/-- The packets of the codec are its blocks by definition. -/
theorem wireCodec_blockwise (block : Nat) : (wireCodec block).Blockwise block := fun _ => rfl

/-! ## What arrives -/

/-- What fits a block is passed on at once. -/
theorem blocks_of_le {size : Nat} {bytes : List UInt8} (hbytes : bytes ≠ [])
    (h : bytes.length ≤ size) : blocks size bytes = [bytes] := by
  have hpos := List.length_pos_iff.mpr hbytes
  have hsize : size ≠ 0 := by omega
  have hnone : blocks size [] = [] := by
    rw [blocks, if_pos (.inl rfl)]
  rw [blocks, if_neg (by simp [hbytes, hsize]), List.take_of_length_le h, List.drop_of_length_le h,
    hnone]

/-- What does not fit takes more than one block. -/
theorem length_blocks_of_gt {size : Nat} {bytes : List UInt8} (hsize : 0 < size)
    (h : size < bytes.length) : 1 < (blocks size bytes).length := by
  have hbytes : bytes ≠ [] := by
    rintro rfl
    cases h
  have hrest : bytes.drop size ≠ [] := by
    rw [Ne, List.drop_eq_nil_iff]
    omega
  have hzero : size ≠ 0 := by omega
  rw [blocks, if_neg (by simp [hbytes, hzero]), blocks, if_neg (by simp [hrest, hzero])]
  simp

namespace TopologyCodec

variable {codec : TopologyCodec} {msg : TopologyMessage}

/-- What `UDSClient::Send` sends of a message: one packet. -/
def sentPackets (codec : TopologyCodec) (msg : TopologyMessage) : List (List UInt8) :=
  [codec.serialize msg]

/-- Only the empty message is written without a byte. -/
theorem Lawful.serialize_ne_nil (h : codec.Lawful) (hproper : msg.op.Proper) (hmsg : msg ≠ {}) :
    codec.serialize msg ≠ [] := by
  intro hnil
  have hparse := h.parse_serialize msg hproper
  rw [hnil, h.parse_nil] at hparse
  exact hmsg (congrArg Prod.snd hparse).symm

/-- A reader gets a packet as it was sent exactly when it fits the buffer. -/
theorem Lawful.readPacket_iff (h : codec.Lawful) (hproper : msg.op.Proper) :
    codec.readPacket (codec.serialize msg) = (true, msg) ↔
      (codec.serialize msg).length ≤ uint16Max := by
  constructor
  · intro hread
    by_contra hlong
    have hop : msg.op ≠ .notSet := by
      intro hnot
      have hshort := h.length_serialize_le msg (by rw [hnot]; decide)
      rw [hnot, MessageOp.textLength] at hshort
      rw [uint16Max] at hlong
      omega
    refine h.parse_cut msg _ hproper hop (List.take_prefix _ _) ?_ hread
    rw [List.length_take]
    omega
  · intro hfits
    rw [readPacket, List.take_of_length_le hfits, h.parse_serialize msg hproper]

/-- **What arrives.**  A message that is not empty is read at the other end as it was sent,
and nothing else is, exactly when its encoding fits: into the buffer of the reader when
a node has sent it, and into a block too when the hub has written it.  That is so
whenever its strings take at most 60 bytes less. -/
theorem message_arrives_iff (codec : TopologyCodec) (block : Nat) (hblock : 0 < block)
    (h : codec.Lawful) (hwritten : codec.Blockwise block) (msg : TopologyMessage)
    (hproper : msg.op.Proper) (hmsg : msg ≠ {}) :
    ((codec.sentPackets msg).map codec.readPacket = [(true, msg)] ↔
      (codec.serialize msg).length ≤ uint16Max) ∧
    ((codec.written msg).map codec.readPacket = [(true, msg)] ↔
      (codec.serialize msg).length ≤ block ∧ (codec.serialize msg).length ≤ uint16Max) ∧
    (msg.op.textLength + 60 ≤ min block uint16Max →
      (codec.serialize msg).length ≤ min block uint16Max) := by
  have hne := h.serialize_ne_nil hproper hmsg
  refine ⟨?_, ?_, fun hshort => ?_⟩
  · rw [sentPackets, List.map_singleton, List.singleton_inj, h.readPacket_iff hproper]
  · rw [hwritten msg]
    constructor
    · intro hread
      have hfits : (codec.serialize msg).length ≤ block := by
        by_contra hlong
        have hmany := length_blocks_of_gt hblock (not_le.mp hlong)
        have hone := congrArg List.length hread
        rw [List.length_map, List.length_singleton] at hone
        omega
      rw [blocks_of_le hne hfits, List.map_singleton, List.singleton_inj,
        h.readPacket_iff hproper] at hread
      exact ⟨hfits, hread⟩
    · rintro ⟨hfits, hbuffer⟩
      rw [blocks_of_le hne hfits, List.map_singleton, (h.readPacket_iff hproper).mpr hbuffer]
  · have hmin : min block uint16Max ≤ 65535 := min_le_right _ _
    have hlength := h.length_serialize_le msg (by omega)
    omega

end TopologyCodec

/-- The JOIN of a node without an address. -/
def shortJoin : TopologyMessage where
  op := .nodeChange { id := 5, op := .join, name := "five" }

namespace TopologyCodec

/-- A JOIN is read by a manager as the hub has written it. -/
theorem message_arrives_iff_shortJoin :
    ((wireCodec 8192).written shortJoin).map (wireCodec 8192).readPacket = [(true, shortJoin)] := by
  obtain ⟨_, hwritten, hshort⟩ := message_arrives_iff (wireCodec 8192) 8192 (by decide)
    (wireCodec_lawful 8192) (wireCodec_blockwise 8192) shortJoin trivial (by decide)
  have hfits := hshort (by decide +kernel)
  exact hwritten.mpr ⟨hfits.trans (min_le_left _ _), hfits.trans (min_le_right _ _)⟩

end TopologyCodec

end IpcPubsub
