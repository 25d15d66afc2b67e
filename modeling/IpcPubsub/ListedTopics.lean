import IpcPubsub.Addressing
import IpcPubsub.Recounting

/-!
# What an observer lists and whom it sends to

What the nodes have asked for reaches the observers through the hub's record, and the
datagrams of `Publish` go where the observer's table says.  Both ends meet here.

`PruneRemoved` drops the topic changes of every node once node 1 has left.  As long as it
has not, all observers that have heard everything list the same, and it is what the
nodes have asked for with repetitions left out (`lists_what_was_asked`).  So a node is
subscribed when it subscribed first after it unsubscribed first
(`listed_subscription_iff`), and those are the nodes a datagram is sent to, one each,
at the address they were created with (`publish_reaches`).
-/

namespace IpcPubsub

open FiniteMap GuardedRuns CursorLog TopologyServer FirstOccurrences LastWrite

/-- The entry of a node after the requests that the hub has handled. -/
def described (id : UInt64) (name address : String) (handled : List TopicChange) : Node :=
  (firsts handled).foldl (fun node change => (node.applyTopicChange {} change).1)
    { id := id, name := name, address := address }

section Described

variable {id : UInt64} {name address : String} {handled : List TopicChange}

/-- An entry depends on the operations only, not on the numbers and uids of the messages. -/
theorem entryAfter_congr_op {entry : Option Node} {log log' : List TopologyMessage}
    (h : log.map TopologyMessage.op = log'.map TopologyMessage.op) :
    entryAfter id entry log = entryAfter id entry log' := by
  induction log generalizing entry log' with
  | nil =>
      obtain rfl : log' = [] := by simpa using h.symm
      rfl
  | cons msg log ih =>
      cases log' with
      | nil => cases h
      | cons msg' log' =>
          rw [List.map_cons, List.map_cons] at h
          obtain ⟨hop, hrest⟩ := List.cons.inj h
          rw [entryAfter_cons, entryAfter_cons, stepNode_congr hop]
          exact ih hrest

/-- The entry that the requests of a node make once it is there: they are applied to it one after
the other. -/
theorem entryAfter_messages (node : Node) {changes : List TopicChange}
    (hown : ∀ change ∈ changes, change.nodeId = id) :
    entryAfter id (some node) (changes.map TopicChange.message) =
      some (changes.foldl (fun node change => (node.applyTopicChange {} change).1) node) := by
  induction changes generalizing node with
  | nil => rfl
  | cons change changes ih =>
      have hnode := hown change List.mem_cons_self
      have hstep : stepNode id (some node) change.message =
          some (node.applyTopicChange {} change).1 := by
        simp [stepNode, TopicChange.message, hnode]
      rw [List.map_cons, entryAfter_cons, hstep, List.foldl_cons]
      exact ih _ fun c hc => hown c (List.mem_cons_of_mem _ hc)

/-- The entry that the hub's record of a node makes: the JOIN it began with, and then the topic
changes that were not repeated. -/
theorem entryAfter_recounted {log : List TopologyMessage}
    (hlog : (about id log).map TopologyMessage.op = recounted id name address handled)
    (hown : ∀ change ∈ handled, change.nodeId = id) :
    entryAfter id none log = some (described id name address handled) := by
  have habout : entryAfter id none (about id log) = entryAfter id none log :=
    entryAfter_filter fun msg _ hnot => by simpa using hnot
  let join : TopologyMessage := { op := joinOf id name address }
  have hops : (about id log).map TopologyMessage.op =
      (join :: (firsts handled).map TopicChange.message).map TopologyMessage.op := by
    rw [hlog, recounted, List.map_cons, List.map_map]
    rfl
  have hjoin : stepNode id none join = some { id := id, name := name, address := address } := by
    simp [stepNode, join, joinOf]
  rw [← habout, entryAfter_congr_op hops, entryAfter_cons, hjoin,
    entryAfter_messages _ fun change hmem => hown change (mem_firsts.mp hmem)]
  rfl

/-- Its subscriptions: the first of each pair of requests decides, since a second one of either
kind was dropped. -/
theorem described_subscriptions (topic : String) :
    topic ∈ (described id name address handled).subscriptions ↔
      lastWrite (TopicChange.subscribes topic) (firsts handled) = some true := by
  have hregister := register_foldl
    (fun node : Node => decide (topic ∈ node.subscriptions)) (I := fun _ => True)
    (fun _ _ _ => trivial)
    (fun _ change _ => Node.mem_subscriptions_applyTopicChange change topic) (firsts handled)
    (s := { id := id, name := name, address := address }) trivial
  rw [← decide_eq_true_iff (p := topic ∈ _)]
  refine (iff_of_eq (congrArg (· = true) hregister)).trans ?_
  cases lastWrite (TopicChange.subscribes topic) (firsts handled) with
  | none => simp
  | some b => cases b <;> simp

end Described

namespace Net

variable {net : Net} {name address : UInt64 → String} {events : List NetEvent} {id : UInt64}
  {handlers : UInt64 → Handlers}

/-- A node asks for changes of its own topics. -/
theorem asked_own : ∀ change ∈ asked id events, change.nodeId = id ∧ change.socket = "" := by
  intro change hmem
  obtain ⟨event, _, hasks⟩ := List.mem_filterMap.mp hmem
  cases event with
  | request id' op topic mime =>
      simp only [NetEvent.asks] at hasks
      split at hasks
      · cases hasks
        exact ⟨rfl, rfl⟩
      · cases hasks
  | _ => cases hasks

/-- Node 1 has joined, and its connection has closed since. -/
def OneLeft (net : Net) : Prop :=
  (net.spokes 1).phase = .joined ∧ (net.spokes 1).link = .down

instance (net : Net) : Decidable net.OneLeft :=
  inferInstanceAs (Decidable (_ ∧ _))

/-- The requests of a node that the hub has handled. -/
def handledOf (net : Net) (id : UInt64) (events : List NetEvent) : List TopicChange :=
  (asked id events).take ((asked id events).length - (net.spokes id).toHub.length)

/-- What was sent about a node that is present is all that was minted about it, for nothing of it
has been pruned. -/
theorem Telling.about_sent (h : net.Telling name address events) (hone : ¬ net.OneLeft)
    (hpresent : net.Present id) {fd : Fd} {client : Client}
    (hclient : net.hub.server.mClients.lookup fd = some client) :
    about id (net.hub.sent fd) = about id net.minted := by
  obtain ⟨hphase, own, hown⟩ := hpresent
  have hid := h.sound.ne_zero hown
  have hupToDate := h.sound.minting.current.upToDate hclient
  have hstays : id ∉ leftNodes net.hub.server.mHistory := by
    rw [h.sound.minting.mem_leftNodes, ((h.sound.standing id).logged.leave_iff hid), hown]
    simp
  have hone' : (1 : UInt64) ∉ leftNodes net.hub.server.mHistory := by
    rw [h.sound.minting.mem_leftNodes, ((h.sound.standing 1).logged.leave_iff (by decide))]
    exact hone
  have hordered : Increasing TopologyMessage.seq (about id (net.hub.sent fd)) :=
    hupToDate.increasing.filter _
  refine hordered.ext ?_ fun msg => ?_
  · exact h.sound.minting.increasing.filter _
  · simp only [about, List.mem_filter, decide_eq_true_eq]
    refine and_congr_left fun hnode => ⟨h.sound.minting.sent hclient msg, fun hminted => ?_⟩
    refine hupToDate.all_sent msg ?_
    rw [h.history] at hstays hone' ⊢
    rw [leftNodes_pruneRemoved] at hstays hone'
    refine mem_pruneRemoved.mpr ⟨hminted, ?_⟩
    cases hop : msg.op with
    | notSet => simp [keeps, hop]
    | nodeChange change =>
        have hsame : change.id = id := by rwa [TopologyMessage.nodeId, hop] at hnode
        simp [keeps, hop, hsame, hstays]
    | topicChange change =>
        have hsame : change.nodeId = id := by rwa [TopologyMessage.nodeId, hop] at hnode
        have hpos : 0 < id := WordOrder.word_pos_iff.mpr hid
        simp [keeps, hop, hsame, hpos, hone']

/-- What an observer lists of a node that is present, once nothing is on its way to it. -/
theorem Telling.lists (h : net.Telling name address events) (hone : ¬ net.OneLeft)
    {observer : UInt64} {fd : Fd} (hup : (net.spokes observer).link = .up fd)
    (hquiet : (net.spokes observer).fromHub = []) (hpresent : net.Present id) :
    (net.spokes observer).manager.mNodes.lookup id =
      some (described id (name id) (address id) (net.handledOf id events)) := by
  obtain ⟨hphase, own, hown⟩ := hpresent
  have hid := h.sound.ne_zero hown
  obtain ⟨hopen, hsent⟩ := (h.sound.standing observer).channel fd hup
  obtain ⟨client, hclient⟩ := Finmap.mem_iff.mp hopen
  rw [hquiet, List.append_nil] at hsent
  have habout := h.about_sent hone ⟨hphase, own, hown⟩ hclient
  obtain ⟨handled, pending, hasked, htoHub, hrecord⟩ :=
    (h.recounts id hid).joined (by simp [hown]) hphase
  have hhandled : net.handledOf id events = handled := by
    rw [handledOf, htoHub, hasked, List.length_map, List.length_append, Nat.add_sub_cancel,
      List.take_left]
  rw [(h.sound.standing observer).observes.nodes, lookup_replay, hsent, hhandled]
  refine entryAfter_recounted (habout ▸ hrecord) fun change hmem => ?_
  exact (asked_own change (hasked ▸ List.mem_append_left _ hmem)).1

/-- **All that was asked for, once.**  The hub starts empty; each node connects once, and does not
hang up in the middle of its introduction.  In every state they reach before the hub has minted
`2 ^ 64 - 1` messages, while node 1 has not left, every connected observer with nothing on its
way lists the nodes that are present and no others, each with the name and the address it
was created with and the topics that those of its requests make which the hub has handled, if a
request that was made before is left out. -/
theorem lists_what_was_asked
    (hrun : exec step (start name address handlers) events = some net)
    (hbound : net.minted.length < 2 ^ 64 - 1) (hone : ¬ net.OneLeft) {observer : UInt64} {fd : Fd}
    (hup : (net.spokes observer).link = .up fd) (hquiet : (net.spokes observer).fromHub = [])
    (id : UInt64) :
    (net.Present id → (net.spokes observer).manager.mNodes.lookup id =
      some (described id (name id) (address id) (net.handledOf id events))) ∧
    (¬ net.Present id → (net.spokes observer).manager.mNodes.lookup id = none) := by
  have h := telling_of_exec hrun hbound
  refine ⟨h.lists hone hup hquiet, fun habsent => ?_⟩
  rw [Finmap.lookup_eq_none, h.sound.present_iff hup hquiet]
  exact habsent

/-- Node 2 subscribes to a topic, takes it back and subscribes again; node 3 hears of it. -/
def resubscribes : List NetEvent :=
  [.connect 2 5, .introduce 2 [] [], .handle 2 41, .request 2 .subscribe "t" "",
    .request 2 .unsubscribe "t" "", .request 2 .subscribe "t" "", .request 2 .subscribe "u" "",
    .handle 2 42, .handle 2 43, .handle 2 44, .handle 2 45, .connect 3 6, .deliver 3, .deliver 3,
    .deliver 3, .deliver 3]

/-- The state after these events. -/
def resubscribed : Option Net :=
  exec step (start (fun _ => "node") (fun _ => "path") fun _ => {}) resubscribes

/-- What is to be seen of that state. -/
structure Heard (net : Net) : Prop where
  bound : net.minted.length < 2 ^ 64 - 1
  one : ¬ net.OneLeft
  up : (net.spokes 3).link = .up 6
  quiet : (net.spokes 3).fromHub = []
  present : net.Present 2
  handled : (net.spokes 2).toHub = []

/-- All of this can be seen of that state. -/
theorem heard_resubscribed : ∃ net, resubscribed = some net ∧ net.Heard := by
  have hrun : resubscribed.isSome := by decide +kernel
  have hreached : ∀ net ∈ resubscribed, net.minted.length < 2 ^ 64 - 1 ∧ ¬ net.OneLeft ∧
      (net.spokes 3).link = .up 6 ∧ (net.spokes 3).fromHub = [] ∧ (net.spokes 2).toHub = [] ∧
      (net.spokes 2).phase = .joined ∧ (net.spokes 2).link = .up 5 := by
    decide +kernel
  obtain ⟨net, hnet⟩ := Option.isSome_iff_exists.mp hrun
  obtain ⟨hbound, hone, hup, hquiet, hhandled, hphase, hlink⟩ := hreached net hnet
  exact ⟨net, hnet, ⟨hbound, hone, hup, hquiet, ⟨hphase, 5, hlink⟩, hhandled⟩⟩

/-- Node 3 lists node 2 with what node 2 has asked for. -/
theorem lists_what_was_asked_resubscribed :
    ∃ net, resubscribed = some net ∧ (net.spokes 3).manager.mNodes.lookup 2 =
      some (described 2 "node" "path" (net.handledOf 2 resubscribes)) := by
  obtain ⟨net, hnet, h⟩ := heard_resubscribed
  exact ⟨net, hnet, (lists_what_was_asked hnet h.bound h.one h.up h.quiet 2).1 h.present⟩

/-! ## Subscriptions -/

/-- What `Subscribe` asks for. -/
def subscribeTo (id : UInt64) (topic : String) : TopicChange where
  name := topic
  nodeId := id
  op := .subscribe

/-- What `Unsubscribe` asks for; as written, it waits for its own lock and does not send it. -/
def unsubscribeFrom (id : UInt64) (topic : String) : TopicChange where
  name := topic
  nodeId := id
  op := .unsubscribe

/-- Requests as the public calls make them: only `Announce` gives a mime. -/
def PlainSubscriptions (requests : List TopicChange) : Prop :=
  ∀ change ∈ requests, change.op = .subscribe ∨ change.op = .unsubscribe → change.mime = ""

instance (requests : List TopicChange) : Decidable (PlainSubscriptions requests) :=
  inferInstanceAs (Decidable (∀ change ∈ requests, _ → _))

/-- The subscription that the requests of a node make: it has been asked for, and was not ended
before it was asked for first. -/
theorem described_subscribed_iff {requests : List TopicChange}
    (hown : ∀ change ∈ requests, change.nodeId = id ∧ change.socket = "")
    (hplain : PlainSubscriptions requests) (nodeName dataPath topic : String) :
    topic ∈ (described id nodeName dataPath requests).subscriptions ↔
      subscribeTo id topic ∈ requests ∧ (unsubscribeFrom id topic ∈ requests →
        requests.idxOf (unsubscribeFrom id topic) < requests.idxOf (subscribeTo id topic)) := by
  rw [described_subscriptions]
  apply lastWrite_firsts_iff
  · simp [subscribeTo, unsubscribeFrom]
  · rintro ⟨changeName, mime, nodeId, op, socket⟩ hmem
    obtain ⟨rfl, rfl⟩ := hown _ hmem
    have hmime := hplain _ hmem
    cases op <;> simp_all [TopicChange.subscribes, subscribeTo]
  · rintro ⟨changeName, mime, nodeId, op, socket⟩ hmem
    obtain ⟨rfl, rfl⟩ := hown _ hmem
    have hmime := hplain _ hmem
    cases op <;> simp_all [TopicChange.subscribes, unsubscribeFrom]

/-- **The first of each decides.**  Under the same conditions, for a connected observer with
nothing on its way: of a node that is present, all of whose requests the hub has handled, and
whose requests for subscriptions name no mime, a topic is listed as subscribed exactly when
the node has asked to subscribe to it and, if it has asked to unsubscribe too, had asked for
that first before it asked to subscribe first, whatever it has asked for since. -/
theorem listed_subscription_iff
    (hrun : exec step (start name address handlers) events = some net)
    (hbound : net.minted.length < 2 ^ 64 - 1) (hone : ¬ net.OneLeft) {observer : UInt64} {fd : Fd}
    (hup : (net.spokes observer).link = .up fd) (hquiet : (net.spokes observer).fromHub = [])
    (hpresent : net.Present id) (hhandled : (net.spokes id).toHub = [])
    (hplain : PlainSubscriptions (asked id events)) (topic : String) :
    (∃ entry, (net.spokes observer).manager.mNodes.lookup id = some entry ∧
        topic ∈ entry.subscriptions) ↔
      subscribeTo id topic ∈ asked id events ∧ (unsubscribeFrom id topic ∈ asked id events →
        (asked id events).idxOf (unsubscribeFrom id topic) <
          (asked id events).idxOf (subscribeTo id topic)) := by
  have hlists := (telling_of_exec hrun hbound).lists hone hup hquiet hpresent
  have hall : net.handledOf id events = asked id events := by
    rw [handledOf, hhandled, List.length_nil, Nat.sub_zero, List.take_length]
  rw [hall] at hlists
  rw [← described_subscribed_iff asked_own hplain (name id) (address id) topic, hlists]
  simp

/-- Node 2 is not listed as subscribed, although it has subscribed last. -/
theorem listed_subscription_iff_resubscribed :
    ∃ net, resubscribed = some net ∧
      ¬ ∃ entry, (net.spokes 3).manager.mNodes.lookup 2 = some entry ∧
        "t" ∈ entry.subscriptions := by
  obtain ⟨net, hnet, h⟩ := heard_resubscribed
  refine ⟨net, hnet, ?_⟩
  rw [listed_subscription_iff hnet h.bound h.one h.up h.quiet h.present h.handled (by decide) "t"]
  decide

/-! ## Datagrams -/

/-- The JOINs an observer has received are those of the nodes as they were created. -/
theorem Telling.received_join (h : net.Telling name address events) {observer : UInt64} {fd : Fd}
    (hup : (net.spokes observer).link = .up fd) {msg : TopologyMessage}
    (hmem : msg ∈ (net.spokes observer).received) (hjoin : msg.JoinOf id) :
    id ≠ 0 ∧ msg.op = joinOf id (name id) (address id) := by
  have hminted :=
    (h.sound.standing observer).received_minted h.sound.minting (by simp [hup]) msg hmem
  have hid : id ≠ 0 := by
    rintro rfl
    have hjoined := (h.sound.standing 0).logged.join_iff.mp ⟨msg, hminted, hjoin⟩
    rcases ((h.sound.standing 0).apart h.sound.zero).2.2 with hcase | hcase <;>
      rw [hcase] at hjoined <;> cases hjoined
  exact ⟨hid, (h.recounts id hid).joins msg hminted hjoin⟩

/-- The node of an observer takes in all its manager receives, because no address is too long for
`sun_path`. -/
theorem Telling.exists_node (h : net.Telling name address events) {observer : UInt64} {fd : Fd}
    (hup : (net.spokes observer).link = .up fd)
    (hfits : ∀ id, (address id).toUTF8.toList.length ≤ 108) :
    ∃ node, exec IPCNode.applyUpdate (IPCNode.create observer (name observer) (address observer))
        (net.spokes observer).received = some node ∧
      node.Synced ∧ node.Routed (net.spokes observer).received := by
  have hlogged : ∀ msg ∈ (net.spokes observer).received, msg.AddressFits := by
    intro msg hmem
    unfold TopologyMessage.AddressFits
    split
    · rename_i change hop
      intro hchange
      have hjoin : msg.JoinOf change.id := by
        rw [TopologyMessage.JoinOf, hop]
        exact ⟨hchange, rfl⟩
      have hsame := (h.received_join hup hmem hjoin).2
      rw [hop, joinOf] at hsame
      rw [MessageOp.nodeChange.inj hsame]
      exact hfits _
    · trivial
  obtain ⟨node, hnode, hrouted⟩ :=
    (IPCNode.create_routed observer (name observer) (address observer)).exec hlogged
  obtain ⟨node', hnode', hsynced⟩ :=
    (IPCNode.create_synced observer (name observer) (address observer)).exec hlogged
  obtain rfl : node = node' := Option.some.inj (hnode.symm.trans hnode')
  exact ⟨node, hnode, hsynced, hrouted⟩

/-- An entry of its table, and the address it was announced under. -/
theorem Telling.routes (h : net.Telling name address events) (hone : ¬ net.OneLeft)
    {observer : UInt64} {fd : Fd} (hup : (net.spokes observer).link = .up fd)
    (hquiet : (net.spokes observer).fromHub = []) {node : IPCNode} (hsynced : node.Synced)
    (hrouted : node.Routed (net.spokes observer).received)
    (hnodes : node.mTopologyManager.mNodes = (net.spokes observer).manager.mNodes) {id : UInt64}
    {neighbor : IPCNeighbor} (hneighbor : node.mNodeById.lookup id = some neighbor) :
    net.Present id ∧ neighbor.subscriptions =
        (described id (name id) (address id) (net.handledOf id events)).subscriptions ∧
      neighbor.path = address id ∧ neighbor.address = .ofPath (address id) := by
  obtain ⟨entry, hlookup, hsubscriptions⟩ := hsynced.inStep.exists_entry hneighbor
  rw [hnodes] at hlookup
  have hpresent : net.Present id :=
    (h.sound.present_iff hup hquiet id).mp (Finmap.mem_iff.mpr ⟨entry, hlookup⟩)
  have hlists := h.lists hone hup hquiet hpresent
  obtain rfl := Option.some.inj (hlookup.symm.trans hlists)
  have hfollows := hrouted.follows id
  rw [hnodes, hlookup, hneighbor] at hfollows
  obtain ⟨first, later, found, hjoins, heq, _, hannounced⟩ := hfollows.of_some
  obtain rfl := Option.some.inj heq
  have hmem : lastReported first later ∈ joinsSince id (net.spokes observer).received :=
    hjoins ▸ lastReported_mem first later
  obtain ⟨msg, hreceived, hop, hjoin⟩ := mem_joinsSince hmem
  have hsame := (h.received_join hup hreceived hjoin).2
  rw [hop, joinOf] at hsame
  have haddress : (lastReported first later).address = address id := by
    rw [MessageOp.nodeChange.inj hsame]
  exact ⟨hpresent, hsubscriptions, hannounced.path.trans haddress,
    hannounced.address.trans (by rw [haddress])⟩

/-- **Whom a datagram is sent to.**  Under the same conditions, if the addresses of all nodes fit
into `sun_path`: the table of an observer's node that is connected and has nothing on its way
lets `Publish` try exactly one datagram for each node that is present, has the topic among its
subscriptions and was created with an address, at that address, and none for any other. -/
theorem publish_reaches
    (hrun : exec step (start name address handlers) events = some net)
    (hbound : net.minted.length < 2 ^ 64 - 1) (hone : ¬ net.OneLeft) {observer : UInt64} {fd : Fd}
    (hup : (net.spokes observer).link = .up fd) (hquiet : (net.spokes observer).fromHub = [])
    (hfits : ∀ id, (address id).toUTF8.toList.length ≤ 108) :
    ∃ node, exec IPCNode.applyUpdate
        (IPCNode.create observer (name observer) (address observer))
        (net.spokes observer).received = some node ∧
      ∀ (serialize : MetadataMessage → List UInt8) (order : List UInt64), order.Nodup →
        order.toFinset = node.mNodeById.keys → ∀ (topic : String) (data : List UInt8),
          ((node.publish serialize order topic data).map Datagram.node).Nodup ∧
          ∀ datagram, datagram ∈ node.publish serialize order topic data ↔
            ∃ id, net.Present id ∧ topic ∈
                (described id (name id) (address id) (net.handledOf id events)).subscriptions ∧
              address id ≠ "" ∧
              datagram = { node := id, address := .ofPath (address id),
                           blob := serialize { topic := topic, inlined := data } } := by
  have h := telling_of_exec hrun hbound
  obtain ⟨node, hnode, hsynced, hrouted⟩ := h.exists_node hup hfits
  have hnodes : node.mTopologyManager.mNodes = (net.spokes observer).manager.mNodes :=
    hrouted.nodes.trans (h.sound.standing observer).observes.nodes.symm
  refine ⟨node, hnode, fun serialize order hnodup horder topic data =>
    ⟨IPCNode.publish_nodup serialize node hnodup topic data, fun datagram => ?_⟩⟩
  rw [IPCNode.publish, List.mem_filterMap]
  constructor
  · rintro ⟨id, _, hsent⟩
    obtain ⟨neighbor, hneighbor, hsubscribed, hpath, rfl⟩ := IPCNode.publishTo_eq_some.mp hsent
    obtain ⟨hpresent, hsubscriptions, hroute, haddress⟩ :=
      h.routes hone hup hquiet hsynced hrouted hnodes hneighbor
    exact ⟨id, hpresent, hsubscriptions ▸ hsubscribed, hroute ▸ hpath, by rw [haddress]⟩
  · rintro ⟨id, hpresent, hsubscribed, hpath, rfl⟩
    have hmem : id ∈ node.mNodeById.keys := by
      rw [hsynced.inStep.keys, Finmap.mem_keys, hnodes]
      exact (h.sound.present_iff hup hquiet id).mpr hpresent
    obtain ⟨neighbor, hneighbor⟩ := Finmap.mem_iff.mp (Finmap.mem_keys.mp hmem)
    obtain ⟨_, hsubscriptions, hroute, haddress⟩ :=
      h.routes hone hup hquiet hsynced hrouted hnodes hneighbor
    refine ⟨id, List.mem_toFinset.mp (horder ▸ hmem), IPCNode.publishTo_eq_some.mpr ?_⟩
    exact ⟨neighbor, hneighbor, hsubscriptions ▸ hsubscribed, hroute ▸ hpath, by rw [haddress]⟩

/-- Node 3 sends node 2 what is published on the topic it has subscribed to once. -/
theorem publish_reaches_resubscribed :
    ∃ net node, resubscribed = some net ∧
      exec IPCNode.applyUpdate (IPCNode.create 3 "node" "path") (net.spokes 3).received =
        some node ∧
      ∀ order : List UInt64, order.Nodup → order.toFinset = node.mNodeById.keys →
        { node := 2, address := .ofPath "path", blob := [1] } ∈
          node.publish MetadataMessage.inlined order "u" [1] := by
  obtain ⟨net, hnet, h⟩ := heard_resubscribed
  obtain ⟨node, hnode, hpublish⟩ := publish_reaches hnet h.bound h.one h.up h.quiet
    (fun _ => by decide +kernel)
  refine ⟨net, node, hnet, hnode, fun order hnodup horder => ?_⟩
  have hall : net.handledOf 2 resubscribes = asked 2 resubscribes := by
    rw [handledOf, h.handled, List.length_nil, Nat.sub_zero, List.take_length]
  have hsubscribed :
      "u" ∈ (described 2 "node" "path" (net.handledOf 2 resubscribes)).subscriptions := by
    rw [hall]
    decide
  exact ((hpublish MetadataMessage.inlined order hnodup horder "u" [1]).2 _).mpr
    ⟨2, h.present, hsubscribed, by decide, rfl⟩

end Net

end IpcPubsub
