import IpcPubsub.Protobuf
import IpcPubsub.RoutingTable
import IpcPubsub.WireFormat

/-!
# Receiving datagrams

The other end of `Publish`: the callbacks a node keeps under its topics, and what
`OnData` does with a datagram.  What protobuf does is a parameter, and `MetadataCodec.Lawful`
says what of it later results rely on; the encoding of a `MetadataMessage` as tagged records
is given as an instance.

Two questions.  Do the callbacks follow the calls of `Subscribe` and
`Unsubscribe`?  The latter only tells the topology, so a topic once subscribed to
stays.  And does a payload come out as it went in?  It does when it is not empty,
since `OnData` takes an empty one for none, and when its encoding fits the
buffer it is read into.
-/

namespace IpcPubsub

open FiniteMap LastWrite WireFormat

/-- The handlers of a topic; `γ` stands for the type of callbacks. -/
structure IPCHandlers (γ : Type) where
  rawCb : γ

/-- A call of a callback. -/
structure RawCall (γ : Type) where
  callback : γ
  len : Nat
  data : List UInt8
  deriving DecidableEq

/-- The part of a node that receives. -/
structure Receiver (γ : Type) where
  mTopologyManager : TopologyManager
  mSubscriptions : UnorderedMap String (IPCHandlers γ) := ∅

namespace Receiver

variable {γ : Type}

/-- `Subscribe`, with the message it sends to the topology. -/
def subscribe (r : Receiver γ) (topic : String) (cb : γ) : Receiver γ × TopologyMessage :=
  ({ r with mSubscriptions := r.mSubscriptions.insert topic { rawCb := cb } },
    r.mTopologyManager.subscribe topic)

/-- `Unsubscribe`, with the message it sends; the handlers stay. -/
def unsubscribe (r : Receiver γ) (topic : String) : Receiver γ × TopologyMessage :=
  (r, r.mTopologyManager.unsubscribe topic)

/-- `OnData`: the callbacks called.  `parse` is `ParseFromArray`. -/
def onData (parse : List UInt8 → Option MetadataMessage) (r : Receiver γ) (data : List UInt8) :
    List (RawCall γ) :=
  match parse data with
  | none => []
  | some msg =>
      match r.mSubscriptions.lookup msg.topic with
      | none => []
      | some handlers =>
          if msg.inlined ≠ [] then
            [{ callback := handlers.rawCb, len := msg.inlined.length, data := msg.inlined }]
          else []

/-- A round of `MainLoop` with a datagram to read: what does not fit the buffer
is discarded. -/
def mainLoopRead (parse : List UInt8 → Option MetadataMessage) (r : Receiver γ)
    (datagram : List UInt8) : List (RawCall γ) :=
  r.onData parse (datagram.take uint16Max)

end Receiver

/-! ## The encoding -/

namespace MetadataMessage

/-- The fields of a message; an empty field is not written. -/
def records (msg : MetadataMessage) : List Record :=
  (if msg.topic = "" then []
    else [{ field := 1, value := .bytes msg.topic.toByteArray.data.toList }]) ++
    if msg.inlined = [] then [] else [{ field := 2, value := .bytes msg.inlined }]

/-- `SerializeToString`. -/
def serialize (msg : MetadataMessage) : List UInt8 :=
  written msg.records

/-- Put a record into its field; fields that are not known are skipped. -/
def setField (msg : MetadataMessage) (r : Record) : Option MetadataMessage :=
  match r.field, r.value with
  | 1, .bytes content =>
      (String.fromUTF8? content.toByteArray).map fun topic => { msg with topic := topic }
  | 2, .bytes content => some { msg with inlined := content }
  | _, _ => some msg

/-- `ParseFromArray`, `none` when it returns false. -/
def parse (data : List UInt8) : Option MetadataMessage :=
  if (readAll data).2 then (readAll data).1.foldlM setField {} else none

/-- The bytes of a string are valid, and decode to it. -/
theorem fromUTF8_toByteArray (topic : String) :
    String.fromUTF8? topic.toByteArray.data.toList.toByteArray = some topic := by
  have hbytes : topic.toByteArray.data.toList.toByteArray = topic.toByteArray := by
    apply ByteArray.ext
    rw [List.data_toByteArray, Array.toArray_toList]
  rw [hbytes, String.fromUTF8?, dif_pos topic.isValidUTF8]
  rfl

/-- Parsing undoes serialising. -/
theorem parse_serialize (msg : MetadataMessage) : parse (serialize msg) = some msg := by
  obtain ⟨topic, inlined⟩ := msg
  rw [parse, serialize, readAll_written]
  by_cases htopic : topic = "" <;> by_cases hinlined : inlined = [] <;>
    simp [records, htopic, hinlined, setField, fromUTF8_toByteArray]

/-- Without a record of the payload, parsing gives an empty one. -/
theorem foldlM_setField_inlined {rs : List Record} {msg msg' : MetadataMessage}
    (hrs : ∀ r ∈ rs, r.field ≠ 2) (h : rs.foldlM setField msg = some msg') :
    msg'.inlined = msg.inlined := by
  induction rs generalizing msg with
  | nil =>
      obtain rfl : msg = msg' := by simpa using h
      rfl
  | cons r rs ih =>
      rw [List.foldlM_cons] at h
      obtain ⟨next, hnext, htail⟩ := Option.bind_eq_some_iff.mp h
      have hrest := ih (fun r' hmem => hrs r' (List.mem_cons_of_mem _ hmem)) htail
      have hfield := hrs r List.mem_cons_self
      have hsame : next.inlined = msg.inlined := by
        unfold setField at hnext
        split at hnext
        · obtain ⟨topic, _, rfl⟩ := Option.map_eq_some_iff.mp hnext
          rfl
        · rename_i heq _
          exact absurd heq hfield
        · obtain rfl := Option.some.inj hnext
          rfl
      rw [hrest, hsame]

/-- A message that was cut has lost its payload, if it can be read. -/
theorem inlined_of_truncated {msg msg' : MetadataMessage} {cut : List UInt8}
    (hbegins : cut <+: serialize msg)
    (hcut : cut.length < (serialize msg).length) (hparse : parse cut = some msg') :
    msg'.inlined = [] := by
  obtain ⟨more, hmore⟩ := hbegins
  have hne : more ≠ [] := by
    rintro rfl
    rw [List.append_nil] at hmore
    rw [hmore] at hcut
    omega
  obtain ⟨n, hn, htake⟩ := readAll_truncated hmore.symm hne
  have hfields : ∀ r ∈ msg.records.take n, r.field ≠ 2 := by
    intro r hr
    have hmem : r ∈ if msg.topic = "" then []
        else [({ field := 1, value := .bytes msg.topic.toByteArray.data.toList } : Record)] := by
      unfold records at hn hr
      by_cases hpayload : msg.inlined = []
      · rw [if_pos hpayload, List.append_nil] at hr
        exact List.mem_of_mem_take hr
      · rw [if_neg hpayload] at hn hr
        rw [List.length_append, List.length_singleton] at hn
        rw [List.take_append_of_le_length (by omega)] at hr
        exact List.mem_of_mem_take hr
    split at hmem
    · cases hmem
    · rw [List.mem_singleton.mp hmem]
      exact (by decide : (1 : Nat) ≠ 2)
  rw [parse] at hparse
  split at hparse
  · rw [htake] at hparse
    exact foldlM_setField_inlined hfields hparse
  · cases hparse

/-- A message that was cut is not read with its payload. -/
theorem parse_truncated {msg msg' : MetadataMessage} {cut : List UInt8}
    (hpayload : msg.inlined ≠ []) (hbegins : cut <+: serialize msg)
    (hcut : cut.length < (serialize msg).length) (hparse : parse cut = some msg') :
    msg'.inlined ≠ msg.inlined := by
  rw [inlined_of_truncated hbegins hcut hparse]
  exact hpayload.symm

/-- The encoding of a message is not much longer than what is in it. -/
theorem length_serialize_le {msg : MetadataMessage} (htopic : msg.topic.utf8ByteSize < 2 ^ 20)
    (hinlined : msg.inlined.length < 2 ^ 20) :
    (serialize msg).length ≤ msg.topic.utf8ByteSize + msg.inlined.length + 20 := by
  have hsize : msg.topic.toByteArray.data.toList.length = msg.topic.utf8ByteSize := by simp
  have hfirst : (Record.written
      { field := 1, value := .bytes msg.topic.toByteArray.data.toList }).length ≤
        msg.topic.utf8ByteSize + 4 :=
    hsize ▸ length_bytes_le (by decide) (by decide) (hsize ▸ htopic.trans (by norm_num))
  have hsecond : (Record.written { field := 2, value := .bytes msg.inlined }).length ≤
      msg.inlined.length + 4 :=
    length_bytes_le (by decide) (by decide) (hinlined.trans (by norm_num))
  have hnil : (written []).length = 0 := rfl
  rw [serialize, records, written_append, List.length_append]
  split <;> split <;> simp only [written_singleton, hnil] <;> omega

end MetadataMessage

/-- The code that protobuf generates for the content of datagrams. -/
structure MetadataCodec where
  /-- `SerializeToString`. -/
  serialize : MetadataMessage → List UInt8
  /-- `ParseFromArray`, `none` when it returns false. -/
  parse : List UInt8 → Option MetadataMessage

/-- What protobuf promises of it. -/
structure MetadataCodec.Lawful (codec : MetadataCodec) : Prop where
  /-- Parsing undoes serialising. -/
  parse_serialize : ∀ msg, codec.parse (codec.serialize msg) = some msg
  /-- The payload comes last, so an encoding that was cut has lost it or does not parse. -/
  inlined_of_cut : ∀ (msg msg' : MetadataMessage) (cut : List UInt8),
    cut <+: codec.serialize msg → cut.length < (codec.serialize msg).length →
      codec.parse cut = some msg' → msg'.inlined = []
  /-- Tags and lengths take at most 20 bytes. -/
  length_serialize_le : ∀ msg : MetadataMessage, msg.topic.utf8ByteSize < 2 ^ 20 →
    msg.inlined.length < 2 ^ 20 →
      (codec.serialize msg).length ≤ msg.topic.utf8ByteSize + msg.inlined.length + 20

/-- The codec that writes and reads tagged records. -/
def wireMetadata : MetadataCodec where
  serialize := MetadataMessage.serialize
  parse := MetadataMessage.parse

/-- Tagged records are such an encoding: the two fields are written in the order of their
numbers, and a reader that meets the end of the bytes inside of a record fails. -/
theorem wireMetadata_lawful : wireMetadata.Lawful where
  parse_serialize := MetadataMessage.parse_serialize
  inlined_of_cut := fun _ _ _ => MetadataMessage.inlined_of_truncated
  length_serialize_le := fun _ => MetadataMessage.length_serialize_le

/-! ## Callbacks and calls -/

/-- A call of a node's user. -/
inductive TopicCall (γ : Type)
  | subscribe (topic : String) (cb : γ)
  | unsubscribe (topic : String)
  deriving DecidableEq

namespace Receiver

variable {γ : Type}

/-- The node after a call has returned. -/
def perform (r : Receiver γ) : TopicCall γ → Receiver γ
  | .subscribe topic cb => (r.subscribe topic cb).1
  | .unsubscribe topic => (r.unsubscribe topic).1

/-- What a call says about the callback of `topic`. -/
def registers (topic : String) : TopicCall γ → Option (Option γ)
  | .subscribe topic' cb => if topic' = topic then some (some cb) else none
  | .unsubscribe topic' => if topic' = topic then some none else none

/-- The callback that should be called for `topic`: that of the last call about
it, if this was a `Subscribe`. -/
def registered (topic : String) (calls : List (TopicCall γ)) : Option γ :=
  (lastWrite (registers topic) calls).join

/-- The callback a `Subscribe` of `topic` stores. -/
def stores (topic : String) : TopicCall γ → Option γ
  | .subscribe topic' cb => if topic' = topic then some cb else none
  | .unsubscribe _ => none

/-- The callback stored under a topic. -/
def stored (r : Receiver γ) (topic : String) : Option γ :=
  (r.mSubscriptions.lookup topic).map IPCHandlers.rawCb

/-- What a call leaves in `mSubscriptions`: `Subscribe` stores a callback, and `Unsubscribe`
takes none out. -/
theorem stored_perform (r : Receiver γ) (topic : String) (call : TopicCall γ) :
    (r.perform call).stored topic = (stores topic call).or (r.stored topic) := by
  cases call with
  | unsubscribe topic' => rfl
  | subscribe topic' cb =>
      by_cases htopic : topic' = topic
      · subst htopic
        simp [perform, subscribe, stored, stores]
      · have hne : topic ≠ topic' := fun h => htopic h.symm
        simp [perform, subscribe, stored, stores, htopic, Finmap.lookup_insert_of_ne _ hne]

/-- The stored callback is that of the last `Subscribe`. -/
theorem stored_foldl (r : Receiver γ) (topic : String) (calls : List (TopicCall γ)) :
    (calls.foldl perform r).stored topic =
      (lastWrite (stores topic) calls).or (r.stored topic) := by
  induction calls generalizing r with
  | nil => rfl
  | cons call calls ih =>
      rw [List.foldl_cons, ih, stored_perform, lastWrite_cons, Option.or_assoc]

/-- What a datagram of `msg` does when `callback` is the one to call. -/
def callsOf (callback : Option γ) (msg : MetadataMessage) : List (RawCall γ) :=
  callback.toList.map fun cb =>
    { callback := cb, len := msg.inlined.length, data := msg.inlined }

/-- Two callbacks are told apart by the calls that are made. -/
theorem callsOf_inj {callback callback' : Option γ} {msg : MetadataMessage} :
    callsOf callback msg = callsOf callback' msg ↔ callback = callback' := by
  cases callback <;> cases callback' <;> simp [callsOf]

/-- A datagram with a payload reaches the stored callback. -/
theorem onData_eq {parse : List UInt8 → Option MetadataMessage} {r : Receiver γ}
    {data : List UInt8} {msg : MetadataMessage} (hparse : parse data = some msg)
    (hpayload : msg.inlined ≠ []) :
    r.onData parse data = callsOf (r.stored msg.topic) msg := by
  cases hlookup : r.mSubscriptions.lookup msg.topic <;>
    simp [onData, stored, callsOf, hparse, hlookup, hpayload]

/-- Nothing is stored unless there was a `Subscribe`. -/
theorem lastWrite_stores_eq_none_iff {topic : String} {calls : List (TopicCall γ)} :
    lastWrite (stores topic) calls = none ↔ ∀ cb, .subscribe topic cb ∉ calls := by
  induction calls with
  | nil => simp
  | cons call calls ih =>
      rw [lastWrite_cons, Option.or_eq_none_iff, ih]
      cases call with
      | unsubscribe topic' => simp [stores]
      | subscribe topic' cb =>
          by_cases htopic : topic' = topic
          · subst htopic
            refine ⟨fun h => by simp [stores] at h, fun h => absurd List.mem_cons_self (h cb)⟩
          · have hne : topic ≠ topic' := fun h => htopic h.symm
            simp [stores, htopic, hne]

/-- The last `Subscribe` counts unless an `Unsubscribe` ended it. -/
theorem lastWrite_stores_eq_registered {topic : String} {calls : List (TopicCall γ)}
    (h : lastWrite (registers topic) calls ≠ some none) :
    lastWrite (stores topic) calls = registered topic calls := by
  induction calls with
  | nil => rfl
  | cons call calls ih =>
      rw [lastWrite_cons] at h
      rw [registered, lastWrite_cons, lastWrite_cons]
      cases hlast : lastWrite (registers topic) calls with
      | some cb =>
          rw [hlast, Option.some_or] at h
          have hsome : cb ≠ none := fun hnone => h (by rw [hnone])
          rw [ih (by rw [hlast]; exact h), registered, hlast, Option.some_or]
          cases cb with
          | none => exact absurd rfl hsome
          | some cb => rfl
      | none =>
          rw [ih (by rw [hlast]; nofun), registered, hlast, Option.none_or]
          rw [hlast, Option.none_or] at h
          cases call with
          | subscribe topic' cb =>
              by_cases htopic : topic' = topic <;> simp [stores, registers, htopic]
          | unsubscribe topic' =>
              by_cases htopic : topic' = topic
              · exact absurd (if_pos htopic) h
              · simp [stores, registers, htopic]

/-- **Callbacks, exactly.**  After any sequence of calls, a datagram on a topic
with a payload reaches the callback of the last call about the topic, if that was
a `Subscribe`, and no callback otherwise, exactly when that last call is not an
`Unsubscribe` after a `Subscribe`. -/
theorem onData_registered_iff (parse : List UInt8 → Option MetadataMessage)
    (manager : TopologyManager) (calls : List (TopicCall γ)) (data : List UInt8)
    (msg : MetadataMessage) (hparse : parse data = some msg) (hpayload : msg.inlined ≠ []) :
    (calls.foldl perform { mTopologyManager := manager }).onData parse data =
        callsOf (registered msg.topic calls) msg ↔
      (lastWrite (registers msg.topic) calls = some none →
        ∀ cb, .subscribe msg.topic cb ∉ calls) := by
  have hstart : ({ mTopologyManager := manager } : Receiver γ).stored msg.topic = none := by
    simp [stored]
  have hcalls := @onData_eq γ parse (calls.foldl perform { mTopologyManager := manager }) data msg
    hparse hpayload
  rw [stored_foldl, hstart, Option.or_none] at hcalls
  rw [hcalls, callsOf_inj, ← lastWrite_stores_eq_none_iff]
  by_cases hended : lastWrite (registers msg.topic) calls = some none
  · have hnone : registered msg.topic calls = none := by rw [registered, hended]; rfl
    rw [hnone]
    exact ⟨fun h _ => h, fun h => h hended⟩
  · exact ⟨fun _ h => absurd h hended, fun _ => lastWrite_stores_eq_registered hended⟩

/-- A topic is subscribed to twice. -/
def subscribedTwice : List (TopicCall Nat) :=
  [.subscribe "t" 1, .subscribe "t" 2]

/-- A topic that was subscribed to twice has the callback of the second time. -/
theorem onData_registered_iff_subscribedTwice :
    (subscribedTwice.foldl perform { mTopologyManager := { mNodeId := 2 } }).onData
        MetadataMessage.parse (MetadataMessage.serialize { topic := "t", inlined := [7] }) =
      callsOf (registered "t" subscribedTwice) { topic := "t", inlined := [7] } :=
  (onData_registered_iff MetadataMessage.parse { mNodeId := 2 } subscribedTwice _
    { topic := "t", inlined := [7] } (MetadataMessage.parse_serialize _) (by decide)).mpr
    fun h => absurd h (by decide)

/-- A subscription is made and ended. -/
def subscribedAndEnded : List (TopicCall Nat) :=
  [.subscribe "t" 1, .unsubscribe "t"]

/-- The callback is still called. -/
theorem subscribedAndEnded_called :
    registered "t" subscribedAndEnded = none ∧
      (subscribedAndEnded.foldl perform { mTopologyManager := { mNodeId := 2 } }).onData
          MetadataMessage.parse (MetadataMessage.serialize { topic := "t", inlined := [7] }) =
        [{ callback := 1, len := 1, data := [7] }] := by
  refine ⟨by decide, ?_⟩
  rw [onData_eq (MetadataMessage.parse_serialize _) (by decide), stored_foldl]
  rfl

end Receiver

/-! ## From `Publish` to the callback -/

/-- Every datagram carries the topic and the payload. -/
theorem IPCNode.blob_of_mem_publish {serialize : MetadataMessage → List UInt8} {node : IPCNode}
    {order : List UInt64} {topic : String} {payload : List UInt8} {datagram : Datagram}
    (h : datagram ∈ node.publish serialize order topic payload) :
    datagram.blob = serialize { topic := topic, inlined := payload } := by
  obtain ⟨id, _, hsent⟩ := List.mem_filterMap.mp h
  obtain ⟨_, _, _, _, rfl⟩ := publishTo_eq_some.mp hsent
  rfl

/-- **Round trip, exactly.**  `serialize` and `parse` are protobuf's: parsing
undoes serialising, and a message with a payload that was cut is not read with
that payload.  A datagram sent by `Publish` to a node that subscribed to the
topic makes that node call the topic's callback once, with the payload, exactly
when the payload is not empty and the datagram fits the buffer. -/
theorem publish_mainLoopRead_iff {γ : Type} (serialize : MetadataMessage → List UInt8)
    (parse : List UInt8 → Option MetadataMessage)
    (hround : ∀ msg, parse (serialize msg) = some msg)
    (htruncated : ∀ msg msg' cut, msg.inlined ≠ [] → cut <+: serialize msg →
      cut.length < (serialize msg).length → parse cut = some msg' → msg'.inlined ≠ msg.inlined)
    (node : IPCNode) (order : List UInt64) (topic : String) (payload : List UInt8)
    (datagram : Datagram) (hsent : datagram ∈ node.publish serialize order topic payload)
    (receiver : Receiver γ) (handlers : IPCHandlers γ)
    (hsubscribed : receiver.mSubscriptions.lookup topic = some handlers) :
    receiver.mainLoopRead parse datagram.blob =
        [{ callback := handlers.rawCb, len := payload.length, data := payload }] ↔
      payload ≠ [] ∧
        (serialize { topic := topic, inlined := payload }).length ≤ uint16Max := by
  have hblob := IPCNode.blob_of_mem_publish hsent
  rw [Receiver.mainLoopRead, hblob]
  by_cases hfits : (serialize { topic := topic, inlined := payload }).length ≤ uint16Max
  · rw [List.take_of_length_le hfits]
    by_cases hpayload : payload = []
    · simp [Receiver.onData, hround, hsubscribed, hpayload]
    · simp [Receiver.onData, hround, hsubscribed, hpayload, hfits]
  · refine ⟨fun hcall => ?_, fun h => absurd h.2 hfits⟩
    exfalso
    unfold Receiver.onData at hcall
    split at hcall
    · cases hcall
    · rename_i msg' hparse
      split at hcall
      · cases hcall
      · split at hcall
        · rename_i hne
          have hdata : msg'.inlined = payload := by
            simpa using congrArg (List.map RawCall.data) hcall
          refine htruncated { topic := topic, inlined := payload } msg' _ ?_
            (List.take_prefix _ _) ?_ hparse hdata
          · exact hdata ▸ hne
          · rw [List.length_take]
            omega
        · cases hcall

/-- A node that knows one subscriber of a topic. -/
def publisher : IPCNode where
  mTopologyManager := { mNodeId := 1 }
  mNodeById := (∅ : UnorderedMap UInt64 IPCNeighbor).insert 2
    { id := 2, path := "p", subscriptions := {"t"} }

/-- The subscriber, with one callback. -/
def subscriber : Receiver Unit where
  mTopologyManager := { mNodeId := 2 }
  mSubscriptions := (∅ : UnorderedMap String (IPCHandlers Unit)).insert "t" { rawCb := () }

/-- A datagram that the publisher sends to a subscriber. -/
theorem mem_publish_publisher (serialize : MetadataMessage → List UInt8) (payload : List UInt8) :
    { node := 2, address := {}, blob := serialize { topic := "t", inlined := payload } } ∈
      publisher.publish serialize [2] "t" payload := by
  simp [IPCNode.publish, IPCNode.publishTo, publisher]

/-- It comes out as it went in. -/
theorem publish_mainLoopRead_iff_subscriber :
    subscriber.mainLoopRead MetadataMessage.parse
        (MetadataMessage.serialize { topic := "t", inlined := [7] }) =
      [{ callback := (), len := 1, data := [7] }] := by
  refine (publish_mainLoopRead_iff MetadataMessage.serialize MetadataMessage.parse
    MetadataMessage.parse_serialize (fun _ _ _ => MetadataMessage.parse_truncated) publisher [2]
    "t" [7] _ (mem_publish_publisher _ _) subscriber { rawCb := () }
    (Finmap.lookup_insert _)).mpr ⟨by decide, ?_⟩
  decide +kernel

/-- An empty payload is sent and read, and no callback is called. -/
theorem subscriber_empty_payload :
    (∃ datagram ∈ publisher.publish MetadataMessage.serialize [2] "t" [],
      subscriber.mainLoopRead MetadataMessage.parse datagram.blob = []) ∧
    subscriber.mSubscriptions.lookup "t" = some { rawCb := () } := by
  refine ⟨⟨_, mem_publish_publisher _ _, ?_⟩, Finmap.lookup_insert _⟩
  have hfits : (MetadataMessage.serialize { topic := "t" }).length ≤ uint16Max := by
    decide +kernel
  rw [Receiver.mainLoopRead, List.take_of_length_le hfits]
  simp [Receiver.onData, MetadataMessage.parse_serialize, subscriber]

end IpcPubsub
