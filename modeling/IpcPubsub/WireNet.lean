import IpcPubsub.MalformedPackets
import IpcPubsub.Membership

/-!
# The hub and its nodes on bytes

`Net` passes messages on.  What the sockets carry are packets: `UDSClient::Send` sends one for
a message, the hub writes through a stream, and both ends read into a buffer and parse
what is in it, without a look at whether that succeeded.

As long as no name, address, topic or mime is too long, that makes no difference: the
network on bytes takes the same steps as the network on messages, with each message in
a packet of its own (`exec_encode`).  This holds for every codec that keeps what protobuf
promises.
-/

namespace IpcPubsub

open FiniteMap GuardedRuns

/-- A node on its connection, with the packets on their way. -/
structure WireSpoke where
  manager : TopologyManager
  link : Link := .apart
  phase : Phase := .silent
  toHub : List (List UInt8) := []
  fromHub : List (List UInt8) := []
  calls : List Callback := []

namespace WireSpoke

/-- What the hub has just written is on its way to the node. -/
def transmit (codec : TopologyCodec) (spoke : WireSpoke) (sent : Fd → List TopologyMessage) :
    WireSpoke :=
  match spoke.link with
  | .up fd => { spoke with fromHub := spoke.fromHub ++ (sent fd).flatMap codec.written }
  | _ => spoke

/-- `UDSClient::Send` of one message after the other. -/
def send (codec : TopologyCodec) (spoke : WireSpoke) (messages : List TopologyMessage) :
    WireSpoke :=
  { spoke with toHub := spoke.toHub ++ messages.flatMap codec.sentPackets }

/-- `IntroduceOurselves`. -/
def introduce (codec : TopologyCodec) (spoke : WireSpoke) (pubs : List Publication)
    (subs : List String) : WireSpoke :=
  { spoke.send codec (spoke.manager.introduceOurselves pubs subs) with phase := .introduced }

/-- `Announce`, `Retract`, `Subscribe` and `Unsubscribe`. -/
def request (codec : TopologyCodec) (spoke : WireSpoke) (op : TopicOperation)
    (topic mime : String) : WireSpoke :=
  spoke.send codec [spoke.manager.topicMessage op topic mime]

/-- A round of `UDSClient::MainLoop`; an empty packet is not passed on to `ApplyUpdate`. -/
def deliver (codec : TopologyCodec) (spoke : WireSpoke) (data : List UInt8)
    (rest : List (List UInt8)) : WireSpoke :=
  if data = [] then { spoke with fromHub := rest }
  else
    let r := spoke.manager.applyData codec.parse (data.take uint16Max)
    { spoke with manager := r.1, fromHub := rest, calls := spoke.calls ++ r.2 }

/-- The hub takes the next packet of the node. -/
def handle (codec : TopologyCodec) (spoke : WireSpoke) (data : List UInt8)
    (rest : List (List UInt8)) : WireSpoke :=
  let msg := (codec.readPacket data).2
  { spoke with
    toHub := rest
    phase :=
      if spoke.phase = .joined ∨ msg.seq = 0 ∧ msg.JoinOf spoke.manager.mNodeId then .joined
      else .heard }

end WireSpoke

/-- The hub and its nodes. -/
structure WireNet where
  server : TopologyServer
  spokes : UInt64 → WireSpoke

namespace WireNet

/-- An empty hub and fresh managers. -/
def start (name address : UInt64 → String) (handlers : UInt64 → Handlers) : WireNet where
  server := .create []
  spokes := fun id => { manager := .create id (name id) (address id) (handlers id) }

def update (net : WireNet) (id : UInt64) (spoke : WireSpoke) : WireNet :=
  { net with spokes := Function.update net.spokes id spoke }

/-- The hub after a call, with all it wrote on its way. -/
def observe (codec : TopologyCodec) (net : WireNet) (o : Outcome) : WireNet where
  server := o.server
  spokes := fun id => (net.spokes id).transmit codec o.sent

/-- The events of `Net`, on packets. -/
def step (codec : TopologyCodec) (net : WireNet) : NetEvent → Option WireNet
  | .connect id fd =>
      if id ≠ 0 ∧ (net.spokes id).link = .apart then
        (net.server.perform (.connect fd)).map
          ((net.update id { net.spokes id with link := .up fd }).observe codec)
      else none
  | .introduce id pubs subs =>
      if (net.spokes id).phase = .silent ∧ (net.spokes id).link ≠ .down then
        some (net.update id ((net.spokes id).introduce codec pubs subs))
      else none
  | .request id op topic mime =>
      if (net.spokes id).phase ≠ .silent ∧ (net.spokes id).link ≠ .down then
        some (net.update id ((net.spokes id).request codec op topic mime))
      else none
  | .handle id random =>
      match (net.spokes id).link, (net.spokes id).toHub with
      | .up fd, data :: rest =>
          (net.server.onData (fun data => (codec.parse data).2) fd (data.take uint16Max) random).map
            ((net.update id ((net.spokes id).handle codec data rest)).observe codec)
      | _, _ => none
  | .deliver id =>
      match (net.spokes id).link, (net.spokes id).fromHub with
      | .up _, data :: rest => some (net.update id ((net.spokes id).deliver codec data rest))
      | _, _ => none
  | .hangUp id =>
      match (net.spokes id).link with
      | .up fd =>
          if (net.spokes id).phase ≠ .heard then
            (net.server.perform (.disconnect fd)).map
              ((net.update id { net.spokes id with link := .down, toHub := [] }).observe codec)
          else none
      | _ => none
  | .purge order => (net.server.perform (.purge order)).map (net.observe codec)

end WireNet

/-! ## Each message in a packet of its own -/

/-- A node with all messages on their way encoded. -/
def Spoke.encode (codec : TopologyCodec) (spoke : Spoke) : WireSpoke where
  manager := spoke.manager
  link := spoke.link
  phase := spoke.phase
  toHub := spoke.toHub.map codec.serialize
  fromHub := spoke.fromHub.map codec.serialize
  calls := spoke.calls

/-- A network with all messages on their way encoded. -/
def Net.encode (codec : TopologyCodec) (net : Net) : WireNet where
  server := net.hub.server
  spokes := fun id => (net.spokes id).encode codec

/-- An operation that is there and whose strings have at most so many bytes. -/
def MessageOp.Short (room : Nat) : MessageOp → Prop
  | .notSet => False
  | .nodeChange change =>
      change.op.Proper ∧ change.name.utf8ByteSize ≤ room ∧ change.address.utf8ByteSize ≤ room
  | .topicChange change =>
      change.op.Proper ∧ change.name.utf8ByteSize ≤ room ∧ change.mime.utf8ByteSize ≤ room ∧
        change.socket = ""

/-- Messages that are all short. -/
def AllShort (room : Nat) (log : List TopologyMessage) : Prop :=
  ∀ msg ∈ log, msg.op.Short room

/-- The strings that an event hands to a node have at most so many bytes. -/
def NetEvent.Short (room : Nat) : NetEvent → Prop
  | .introduce _ pubs subs =>
      (∀ pub ∈ pubs, pub.name.utf8ByteSize ≤ room ∧ pub.mime.utf8ByteSize ≤ room) ∧
        ∀ sub ∈ subs, sub.utf8ByteSize ≤ room
  | .request _ op topic mime => op.Proper ∧ topic.utf8ByteSize ≤ room ∧ mime.utf8ByteSize ≤ room
  | _ => True

instance (room : Nat) : DecidablePred (NetEvent.Short room)
  | .introduce _ pubs subs => inferInstanceAs (Decidable (
      (∀ pub ∈ pubs, pub.name.utf8ByteSize ≤ room ∧ pub.mime.utf8ByteSize ≤ room) ∧
        ∀ sub ∈ subs, sub.utf8ByteSize ≤ room))
  | .request _ op topic mime => inferInstanceAs (Decidable (
      op.Proper ∧ topic.utf8ByteSize ≤ room ∧ mime.utf8ByteSize ≤ room))
  | .connect _ _ => isTrue trivial
  | .handle _ _ => isTrue trivial
  | .deliver _ => isTrue trivial
  | .hangUp _ => isTrue trivial
  | .purge _ => isTrue trivial

section Short

variable {codec : TopologyCodec} {room block : Nat} {msg : TopologyMessage}
  {log more : List TopologyMessage}

/-- A short message is one that C++ can hold. -/
theorem MessageOp.Short.proper {op : MessageOp} (h : op.Short room) : op.Proper := by
  cases op with
  | notSet => exact trivial
  | nodeChange change => exact h.1
  | topicChange change => exact h.1

/-- It has two strings at most that are not empty, each of which is short. -/
theorem MessageOp.Short.textLength_le {op : MessageOp} (h : op.Short room) :
    op.textLength ≤ 2 * room := by
  cases op with
  | notSet => exact h.elim
  | nodeChange change =>
      obtain ⟨_, hname, haddress⟩ := h
      rw [textLength, NodeChange.textLength]
      omega
  | topicChange change =>
      obtain ⟨_, hname, hmime, hsocket⟩ := h
      have hnone : ("" : String).utf8ByteSize = 0 := rfl
      rw [textLength, TopicChange.textLength, hsocket, hnone]
      omega

/-- It says something, so it is not the empty message, which takes no bytes. -/
theorem TopologyMessage.ne_default (h : msg.op.Short room) : msg ≠ {} := by
  rintro rfl
  exact h

/-- A codec carries messages with strings of that length over packets of that size. -/
structure TopologyCodec.Carries (codec : TopologyCodec) (room block : Nat) : Prop where
  lawful : codec.Lawful
  blockwise : codec.Blockwise block
  roomy : 2 * room + 60 ≤ min block uint16Max

/-- A short message comes through in one packet, and the reader gets what was written. -/
theorem TopologyCodec.Carries.fits (hcodec : codec.Carries room block) (h : msg.op.Short room) :
    codec.written msg = [codec.serialize msg] ∧
      (codec.serialize msg).take uint16Max = codec.serialize msg ∧
      codec.serialize msg ≠ [] ∧ codec.parse (codec.serialize msg) = (true, msg) := by
  have hroom := hcodec.roomy
  have hmin : min block uint16Max ≤ 65535 := min_le_right _ _
  have htext := h.textLength_le
  have hlength := hcodec.lawful.length_serialize_le msg (by omega)
  have hne := hcodec.lawful.serialize_ne_nil h.proper (TopologyMessage.ne_default h)
  refine ⟨?_, List.take_of_length_le ?_, hne, hcodec.lawful.parse_serialize msg h.proper⟩
  · rw [hcodec.blockwise msg]
    exact blocks_of_le hne ((hlength.trans (by omega)).trans (hroom.trans (min_le_left _ _)))
  · exact (hlength.trans (by omega)).trans (hroom.trans (min_le_right _ _))

/-- What the hub writes of short messages: one packet for each, since each fits a block. -/
theorem flatMap_written (hcodec : codec.Carries room block) (h : AllShort room log) :
    log.flatMap codec.written = log.map codec.serialize := by
  rw [← List.flatMap_singleton' (log.map codec.serialize), List.flatMap_map]
  exact List.flatMap_congr fun msg hmem => (hcodec.fits (h msg hmem)).1

/-- What a node sends goes out in one packet each, however long it is. -/
theorem flatMap_sentPackets : log.flatMap codec.sentPackets = log.map codec.serialize := by
  induction log with
  | nil => rfl
  | cons msg log ih =>
      rw [List.flatMap_cons, ih, TopologyCodec.sentPackets, List.map_cons, List.singleton_append]

/-- Two logs, one after the other. -/
theorem AllShort.append (h : AllShort room log) (h' : AllShort room more) :
    AllShort room (log ++ more) := by
  intro msg hmem
  exact (List.mem_append.mp hmem).elim (h msg) (h' msg)

end Short

/-! ## The messages stay short -/

/-- All that a node has and that is on its way is short. -/
structure Spoke.Brief (room : Nat) (spoke : Spoke) : Prop where
  named : spoke.manager.mName.utf8ByteSize ≤ room ∧ spoke.manager.mAddress.utf8ByteSize ≤ room
  history : AllShort room spoke.manager.mHistory
  toHub : AllShort room spoke.toHub
  fromHub : AllShort room spoke.fromHub

/-- All that the hub and its nodes have is short. -/
structure Net.Brief (room : Nat) (net : Net) : Prop where
  history : AllShort room net.hub.server.mHistory
  spokes : ∀ id, (net.spokes id).Brief room

section Brief

variable {room : Nat} {m : TopologyManager} {spoke : Spoke}

/-- The loop over the publications makes short messages of them, and leaves the one it writes
them into as short for the loop that comes next. -/
theorem introducePublications_short {pubs : List Publication} {topicMsg : TopicChange}
    (hpubs : ∀ pub ∈ pubs, pub.name.utf8ByteSize ≤ room ∧ pub.mime.utf8ByteSize ≤ room)
    (hmime : topicMsg.mime.utf8ByteSize ≤ room) (hsocket : topicMsg.socket = "") :
    AllShort room (m.introducePublications topicMsg pubs).1 ∧
      (m.introducePublications topicMsg pubs).2.mime.utf8ByteSize ≤ room ∧
      (m.introducePublications topicMsg pubs).2.socket = "" := by
  induction pubs generalizing topicMsg with
  | nil => exact ⟨fun msg hmem => (by cases hmem), hmime, hsocket⟩
  | cons pub pubs ih =>
      obtain ⟨hname, hmime'⟩ := hpubs pub List.mem_cons_self
      have hrest := @ih { topicMsg with
        name := pub.name, mime := pub.mime, nodeId := m.mNodeId, op := .announce }
        (fun pub hmem => hpubs pub (List.mem_cons_of_mem _ hmem)) hmime' hsocket
      refine ⟨fun msg hmem => ?_, hrest.2⟩
      rcases List.mem_cons.mp hmem with rfl | hmem
      · exact ⟨trivial, hname, hmime', hsocket⟩
      · exact hrest.1 msg hmem

/-- The loop over the subscriptions makes short messages too, although they still have the mime
of the last publication. -/
theorem introduceSubscriptions_short {subs : List String} {topicMsg : TopicChange}
    (hsubs : ∀ sub ∈ subs, sub.utf8ByteSize ≤ room) (hmime : topicMsg.mime.utf8ByteSize ≤ room)
    (hsocket : topicMsg.socket = "") : AllShort room (m.introduceSubscriptions topicMsg subs) := by
  induction subs generalizing topicMsg with
  | nil => exact fun msg hmem => by cases hmem
  | cons sub subs ih =>
      intro msg hmem
      rcases List.mem_cons.mp hmem with rfl | hmem
      · exact ⟨trivial, hsubs sub List.mem_cons_self, hmime, hsocket⟩
      · exact ih (fun sub hmem => hsubs sub (List.mem_cons_of_mem _ hmem)) (by exact hmime)
          (by exact hsocket) msg hmem

/-- What `IntroduceOurselves` sends is short: what it remembers, its own JOIN and its topics. -/
theorem Spoke.Brief.introduceOurselves (h : spoke.Brief room) {pubs : List Publication}
    {subs : List String}
    (hpubs : ∀ pub ∈ pubs, pub.name.utf8ByteSize ≤ room ∧ pub.mime.utf8ByteSize ≤ room)
    (hsubs : ∀ sub ∈ subs, sub.utf8ByteSize ≤ room) :
    AllShort room (spoke.manager.introduceOurselves pubs subs) := by
  refine h.history.append fun msg hmem => ?_
  rcases List.mem_cons.mp hmem with rfl | htopics
  · exact ⟨trivial, h.named⟩
  · rw [TopologyManager.introduceTopics] at htopics
    split at htopics
    · cases htopics
    · obtain ⟨hshort, hmime, hsocket⟩ :=
        @introducePublications_short room spoke.manager pubs {} hpubs (Nat.zero_le _) rfl
      exact hshort.append (introduceSubscriptions_short hsubs hmime hsocket) msg htopics

/-- A node that introduces itself re-sends what it was sent and says who it is. -/
theorem Spoke.Brief.introduce (h : spoke.Brief room) {pubs : List Publication} {subs : List String}
    (hpubs : ∀ pub ∈ pubs, pub.name.utf8ByteSize ≤ room ∧ pub.mime.utf8ByteSize ≤ room)
    (hsubs : ∀ sub ∈ subs, sub.utf8ByteSize ≤ room) : (spoke.introduce pubs subs).Brief room :=
  { h with toHub := h.toHub.append (h.introduceOurselves hpubs hsubs) }

/-- A topic change of a node carries what its caller has given. -/
theorem Spoke.Brief.request (h : spoke.Brief room) {op : TopicOperation} {topic mime : String}
    (hshort : op.Proper ∧ topic.utf8ByteSize ≤ room ∧ mime.utf8ByteSize ≤ room) :
    (spoke.request op topic mime).Brief room := by
  refine { h with toHub := h.toHub.append fun msg hmem => ?_ }
  rw [List.mem_singleton.mp hmem]
  exact ⟨hshort.1, hshort.2.1, hshort.2.2, rfl⟩

/-- The hub takes the first packet, and the others wait on. -/
theorem Spoke.Brief.handle (h : spoke.Brief room) {msg : TopologyMessage}
    {rest : List TopologyMessage} (hnext : spoke.toHub = msg :: rest) :
    (spoke.handle msg rest).Brief room :=
  { h with toHub := fun m hmem => h.toHub m (hnext ▸ List.mem_cons_of_mem _ hmem) }

/-- What was on its way is lost. -/
theorem Spoke.Brief.hangUp (h : spoke.Brief room) :
    ({ spoke with link := .down, toHub := [] } : Spoke).Brief room :=
  { h with toHub := fun _ hmem => by cases hmem }

/-- A node takes a message into its history, and it was short on its way. -/
theorem Spoke.Brief.deliver (h : spoke.Brief room) {msg : TopologyMessage}
    {rest : List TopologyMessage} (hnext : spoke.fromHub = msg :: rest) :
    (spoke.deliver msg rest).Brief room where
  named := h.named
  history := by
    intro m hmem
    rcases List.eq_or_mem_of_mem_insertIdx hmem with rfl | hold
    · exact h.fromHub _ (hnext ▸ List.mem_cons_self)
    · exact h.history m hold
  toHub := h.toHub
  fromHub := fun m hmem => h.fromHub m (hnext ▸ List.mem_cons_of_mem _ hmem)

/-- What the hub writes to a node is on its way to it. -/
theorem Spoke.Brief.transmit (h : spoke.Brief room) {sent : Fd → List TopologyMessage}
    (hsent : ∀ fd, AllShort room (sent fd)) : (spoke.transmit sent).Brief room := by
  unfold Spoke.transmit
  split
  · exact { h with fromHub := h.fromHub.append (hsent _) }
  · exact h

/-- What a call adds is short if the packet was, since the hub itself writes only LEAVEs. -/
theorem TopologyServer.incoming_short {s : TopologyServer} {op : HubOp}
    (h : ∀ fd msg random, op = .data fd msg random → msg.op.Short room) :
    AllShort room (s.incoming op) := by
  have hleave : ∀ id, (leaveMessage id).op.Short room := fun _ =>
    ⟨trivial, Nat.zero_le _, Nat.zero_le _⟩
  intro new hmem
  cases op with
  | connect fd => cases hmem
  | data fd msg random =>
      have hmsg := h fd msg random rfl
      simp only [incoming] at hmem
      split at hmem
      · cases hmem
      · split at hmem
        · cases hmem
        · split at hmem
          · split at hmem
            · cases hmem
            · rw [List.mem_singleton.mp hmem]
              exact hmsg
          · split at hmem
            · rw [List.mem_singleton.mp hmem]
              exact hmsg
            · cases hmem
  | disconnect fd =>
      simp only [incoming] at hmem
      split at hmem
      · cases hmem
      · rw [List.mem_singleton.mp hmem]
        exact hleave _
  | purge order =>
      have hop := List.mem_map_of_mem (f := TopologyMessage.op) hmem
      rw [incoming, mintLeaves_map_op] at hop
      obtain ⟨id, _, heq⟩ := List.mem_map.mp hop
      exact heq ▸ hleave id

/-- A call of the hub only ever sends what it has in its history and what it records, which is
the message it was given or a LEAVE of its own. -/
theorem TopologyServer.perform_short {s : TopologyServer} {op : HubOp} {o : Outcome}
    (h : AllShort room s.mHistory)
    (hdata : ∀ fd msg random, op = .data fd msg random → msg.op.Short room)
    (hop : s.perform op = some o) :
    AllShort room o.server.mHistory ∧ ∀ fd, AllShort room (o.sent fd) := by
  have hadded : AllShort room o.added := perform_incoming hop ▸ incoming_short hdata
  constructor
  · intro msg hmem
    exact (perform_mem hop hmem).elim (h msg) (hadded msg)
  · intro fd msg hmem
    exact (perform_sent hop hmem).elim (h msg) (hadded msg)

end Brief

section Encode

variable {codec : TopologyCodec} {room block : Nat} {spoke : Spoke} {msg : TopologyMessage}
  {rest : List TopologyMessage}

/-- To write messages and encode the packets is the same as to write packets. -/
theorem Spoke.encode_transmit {sent : Fd → List TopologyMessage}
    (hsent : ∀ fd, AllShort room (sent fd)) (hcodec : codec.Carries room block) :
    (spoke.transmit sent).encode codec = (spoke.encode codec).transmit codec sent := by
  cases hlink : spoke.link with
  | up fd =>
      simp [Spoke.transmit, WireSpoke.transmit, Spoke.encode, hlink,
        flatMap_written hcodec (hsent fd)]
  | apart => simp [Spoke.transmit, WireSpoke.transmit, Spoke.encode, hlink]
  | down => simp [Spoke.transmit, WireSpoke.transmit, Spoke.encode, hlink]

/-- A node that introduces itself sends the encodings of the messages that it would send. -/
theorem Spoke.encode_introduce (pubs : List Publication) (subs : List String) :
    (spoke.introduce pubs subs).encode codec = (spoke.encode codec).introduce codec pubs subs := by
  simp [Spoke.introduce, WireSpoke.introduce, WireSpoke.send, Spoke.encode, flatMap_sentPackets]

/-- The same of a topic change. -/
theorem Spoke.encode_request (op : TopicOperation) (topic mime : String) :
    (spoke.request op topic mime).encode codec =
      (spoke.encode codec).request codec op topic mime := by
  simp [Spoke.request, WireSpoke.request, WireSpoke.send, Spoke.encode, TopologyCodec.sentPackets]

/-- The hub that reads the packet gets the message that was sent, because it is short. -/
theorem Spoke.encode_handle (hmsg : msg.op.Short room)
    (hcodec : codec.Carries room block) :
    (spoke.encode codec).handle codec (codec.serialize msg) (rest.map codec.serialize) =
      (spoke.handle msg rest).encode codec := by
  obtain ⟨_, htake, _, hparse⟩ := hcodec.fits hmsg
  simp [WireSpoke.handle, Spoke.handle, Spoke.encode, TopologyCodec.readPacket, htake, hparse]

/-- And so does the node that reads a packet of the hub. -/
theorem Spoke.encode_deliver (hmsg : msg.op.Short room)
    (hcodec : codec.Carries room block) :
    (spoke.encode codec).deliver codec (codec.serialize msg) (rest.map codec.serialize) =
      (spoke.deliver msg rest).encode codec := by
  obtain ⟨_, htake, hne, hparse⟩ := hcodec.fits hmsg
  simp [WireSpoke.deliver, Spoke.deliver, Spoke.encode, TopologyManager.applyData, htake, hne,
    hparse]

end Encode

namespace Net

variable {codec : TopologyCodec} {room block : Nat} {net net' : Net} {id : UInt64}
  {spoke : Spoke} {op : HubOp} {event : NetEvent}

/-- One node is replaced by another that has short messages only. -/
theorem Brief.update (h : net.Brief room) (hspoke : spoke.Brief room) :
    (net.update id spoke).Brief room where
  history := h.history
  spokes := by
    intro id'
    by_cases heq : id' = id
    · subst heq
      rw [update_same]
      exact hspoke
    · rw [update_of_ne heq]
      exact h.spokes id'

/-- A call of the hub writes short messages to the nodes. -/
theorem Brief.observe (h : net.Brief room) {o : Outcome}
    (hdata : ∀ fd msg random, op = .data fd msg random → msg.op.Short room)
    (hop : net.hub.server.perform op = some o) : (net.observe op o).Brief room := by
  obtain ⟨hhistory, hsent⟩ := TopologyServer.perform_short h.history hdata hop
  exact ⟨hhistory, fun id => (h.spokes id).transmit hsent⟩

/-- To replace a node and to encode all of them, in either order. -/
theorem encode_update : (net.update id spoke).encode codec =
    (net.encode codec).update id (spoke.encode codec) := by
  rw [encode, WireNet.update, WireNet.mk.injEq]
  refine ⟨rfl, funext fun id' => ?_⟩
  by_cases heq : id' = id
  · subst heq
    rw [update_same]
    simp
  · rw [update_of_ne heq, Function.update_of_ne heq]
    rfl

/-- A call of the hub. -/
theorem Brief.perform_encode (h : net.Brief room) (hcodec : codec.Carries room block)
    (hdata : ∀ fd msg random, op = .data fd msg random → msg.op.Short room) :
    (net.perform op).map (encode codec) =
      (net.hub.server.perform op).map ((net.encode codec).observe codec) := by
  rw [perform, Option.map_map]
  refine Option.map_congr fun o ho => ?_
  obtain ⟨_, hsent⟩ := TopologyServer.perform_short h.history hdata ho
  rw [Function.comp_apply, encode, WireNet.observe, WireNet.mk.injEq]
  exact ⟨rfl, funext fun id => Spoke.encode_transmit hsent hcodec⟩

/-- The hub reads a packet of a node, and parses out of it the message that was sent. -/
theorem Brief.handle_encode (h : net.Brief room) (hcodec : codec.Carries room block)
    {fd : Fd} (hlink : (net.spokes id).link = .up fd) {msg : TopologyMessage}
    {rest : List TopologyMessage} (hnext : (net.spokes id).toHub = msg :: rest) {random : UInt64} :
    WireNet.step codec (net.encode codec) (.handle id random) =
      (net.step (.handle id random)).map (encode codec) := by
  have hspoke := h.spokes
  have hmsg := (hspoke id).toHub msg (hnext ▸ List.mem_cons_self)
  obtain ⟨_, htake, hne, hparse⟩ := hcodec.fits hmsg
  have hdata : net.hub.server.onData (fun data => (codec.parse data).2) fd
      ((codec.serialize msg).take uint16Max) random =
        net.hub.server.perform (.data fd msg random) := by
    rw [TopologyServer.onData, htake, if_neg (by simpa using hne), hparse, TopologyServer.perform]
  have hwire : WireNet.step codec (net.encode codec) (.handle id random) =
      (net.hub.server.onData (fun data => (codec.parse data).2) fd
        ((codec.serialize msg).take uint16Max) random).map
        (((net.encode codec).update id (((net.spokes id).encode codec).handle codec
          (codec.serialize msg) (rest.map codec.serialize))).observe codec) := by
    simp [WireNet.step, encode, Spoke.encode, hlink, hnext]
  have hnet : net.step (.handle id random) =
      (net.update id ((net.spokes id).handle msg rest)).perform (.data fd msg random) := by
    simp [step, hlink, hnext]
  rw [hwire, hnet, hdata, Spoke.encode_handle hmsg hcodec, ← encode_update,
    (h.update ((hspoke id).handle hnext)).perform_encode hcodec
      fun _ _ _ heq => by cases heq; exact hmsg]
  rfl

/-- **One event on bytes** can be taken exactly when it can be taken on messages, and comes to the
encoding of the same state. -/
theorem Brief.step_encode (h : net.Brief room) (hcodec : codec.Carries room block)
    (hevent : event.Short room) :
    WireNet.step codec (net.encode codec) event = (net.step event).map (encode codec) := by
  have hspoke := h.spokes
  cases event with
  | connect id fd =>
      simp only [step]
      by_cases hfree : id ≠ 0 ∧ (net.spokes id).link = .apart
      · have hbrief : ({ net.spokes id with link := .up fd } : Spoke).Brief room :=
          { hspoke id with }
        rw [if_pos hfree, (h.update hbrief).perform_encode hcodec (by simp), encode_update]
        exact if_pos hfree
      · rw [if_neg hfree]
        exact if_neg hfree
  | introduce id pubs subs =>
      simp only [step]
      by_cases hsilent : (net.spokes id).phase = .silent ∧ (net.spokes id).link ≠ .down
      · rw [if_pos hsilent, Option.map_some, encode_update, Spoke.encode_introduce]
        exact if_pos hsilent
      · rw [if_neg hsilent]
        exact if_neg hsilent
  | request id op topic mime =>
      simp only [step]
      by_cases hspoken : (net.spokes id).phase ≠ .silent ∧ (net.spokes id).link ≠ .down
      · rw [if_pos hspoken, Option.map_some, encode_update, Spoke.encode_request]
        exact if_pos hspoken
      · rw [if_neg hspoken]
        exact if_neg hspoken
  | handle id random =>
      cases hlink : (net.spokes id).link with
      | up fd =>
          cases hnext : (net.spokes id).toHub with
          | nil => simp [WireNet.step, step, encode, Spoke.encode, hlink, hnext]
          | cons msg rest =>
              exact h.handle_encode hcodec hlink hnext
      | apart => simp [WireNet.step, step, encode, Spoke.encode, hlink]
      | down => simp [WireNet.step, step, encode, Spoke.encode, hlink]
  | deliver id =>
      cases hlink : (net.spokes id).link with
      | up fd =>
          cases hnext : (net.spokes id).fromHub with
          | nil => simp [WireNet.step, step, encode, Spoke.encode, hlink, hnext]
          | cons msg rest =>
              have hmsg := (hspoke id).fromHub msg (hnext ▸ List.mem_cons_self)
              have hwire : WireNet.step codec (net.encode codec) (.deliver id) =
                  some ((net.encode codec).update id (((net.spokes id).encode codec).deliver codec
                    (codec.serialize msg) (rest.map codec.serialize))) := by
                simp [WireNet.step, encode, Spoke.encode, hlink, hnext]
              have hnet : net.step (.deliver id) =
                  some (net.update id ((net.spokes id).deliver msg rest)) := by
                simp [step, hlink, hnext]
              rw [hwire, hnet, Spoke.encode_deliver hmsg hcodec, Option.map_some, encode_update]
      | apart => simp [WireNet.step, step, encode, Spoke.encode, hlink]
      | down => simp [WireNet.step, step, encode, Spoke.encode, hlink]
  | hangUp id =>
      cases hlink : (net.spokes id).link with
      | up fd =>
          by_cases hphase : (net.spokes id).phase ≠ .heard
          · have hwire : WireNet.step codec (net.encode codec) (.hangUp id) =
                (net.hub.server.perform (.disconnect fd)).map
                  (((net.encode codec).update id
                    (({ net.spokes id with link := .down, toHub := [] } : Spoke).encode
                      codec)).observe codec) := by
              simp [WireNet.step, encode, Spoke.encode, hlink, hphase]
            have hnet : net.step (.hangUp id) =
                (net.update id { net.spokes id with link := .down, toHub := [] }).perform
                  (.disconnect fd) := by
              simp [step, hlink, hphase]
            rw [hwire, hnet, ← encode_update,
              (h.update (hspoke id).hangUp).perform_encode hcodec (by simp)]
            rfl
          · simp [WireNet.step, step, encode, Spoke.encode, hlink, hphase]
      | apart => simp [WireNet.step, step, encode, Spoke.encode, hlink]
      | down => simp [WireNet.step, step, encode, Spoke.encode, hlink]
  | purge order =>
      rw [step, h.perform_encode hcodec (by simp)]
      rfl

/-- The messages stay short, because an event that is short makes no others. -/
theorem Brief.step (h : net.Brief room) (hevent : event.Short room)
    (hstep : net.step event = some net') : net'.Brief room := by
  have hspoke := h.spokes
  cases step_happens hstep with
  | introduces _ _ => exact h.update ((hspoke _).introduce hevent.1 hevent.2)
  | requests _ _ => exact h.update ((hspoke _).request hevent)
  | delivers _ hnext => exact h.update ((hspoke _).deliver hnext)
  | @connects id fd o _ _ hop =>
      have hbrief : ({ net.spokes id with link := .up fd } : Spoke).Brief room := { hspoke id with }
      exact (h.update hbrief).observe (by simp) hop
  | @handles id random fd msg rest o _ hnext hop =>
      have hmsg := (hspoke id).toHub msg (hnext ▸ List.mem_cons_self)
      exact (h.update ((hspoke id).handle hnext)).observe
        (fun _ _ _ heq => by cases heq; exact hmsg) hop
  | @hangsUp id fd o _ _ hop => exact (h.update (hspoke id).hangUp).observe (by simp) hop
  | purges hop => exact h.observe (by simp) hop

/-- In the beginning there are no messages, and the names and addresses are short. -/
theorem start_brief {name address : UInt64 → String} (handlers : UInt64 → Handlers)
    (hnames : ∀ id, (name id).utf8ByteSize ≤ room ∧ (address id).utf8ByteSize ≤ room) :
    (start name address handlers).Brief room where
  history := fun _ hmem => by cases hmem
  spokes := fun id =>
    { named := hnames id
      history := fun _ hmem => by cases hmem
      toHub := fun _ hmem => by cases hmem
      fromHub := fun _ hmem => by cases hmem }

/-- **Bytes for messages.**  `codec` is protobuf's.  If a message whose strings are as long
as names, addresses, topics and mimes get fits a block and the buffer, then, whatever the
nodes do and in whatever order, the network on bytes and the network on messages take the
same events and come to the same state, with every message on its way in a packet of its
own. -/
theorem exec_encode (codec : TopologyCodec) {name address : UInt64 → String}
    (handlers : UInt64 → Handlers)
    (hcodec : codec.Carries room block)
    (hnames : ∀ id, (name id).utf8ByteSize ≤ room ∧ (address id).utf8ByteSize ≤ room)
    {events : List NetEvent} (hevents : ∀ event ∈ events, event.Short room) :
    exec (WireNet.step codec) (.start name address handlers) events =
      (exec step (start name address handlers) events).map (encode codec) :=
  exec_map (fun _ _ h hevent => h.step_encode hcodec hevent)
    (fun _ _ _ h hevent hstep => h.step hevent hstep) (start_brief handlers hnames) hevents

/-- Node 2 joins and subscribes, and node 3 hears of it. -/
def joinsAndSubscribes : List NetEvent :=
  [.connect 2 5, .introduce 2 [] [], .handle 2 41, .request 2 .subscribe "t" "", .handle 2 42,
    .connect 3 6, .deliver 3, .deliver 3]

/-- The same on packets. -/
theorem exec_encode_joinsAndSubscribes :
    (exec (WireNet.step (wireCodec 8192)) (.start (fun _ => "node") (fun _ => "path") fun _ => {})
      joinsAndSubscribes).isSome := by
  have hshort : ∀ event ∈ joinsAndSubscribes, event.Short 8 := by decide +kernel
  have hcodec : (wireCodec 8192).Carries 8 8192 :=
    ⟨wireCodec_lawful 8192, wireCodec_blockwise 8192, by decide⟩
  rw [exec_encode (wireCodec 8192) (fun _ => {}) hcodec (fun _ => by decide +kernel) hshort,
    Option.isSome_map]
  decide +kernel

end Net

end IpcPubsub
