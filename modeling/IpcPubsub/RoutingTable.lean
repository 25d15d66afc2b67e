import IpcPubsub.GuardedRuns
import IpcPubsub.ReferenceTopology

/-!
# The routing table of a node

`IPCNode` keeps a table of its own, `mNodeById`, from which `Publish` takes the
sockets to send to.  It never looks at `mNodes`: all it knows is what the six
handlers are told, and `ApplyUpdate` tells only of entries inserted, erased and
changed.

Node by node the table is in step with `mNodes` (`InStep`): the same ids, each
with the same subscriptions.  A callback is fired exactly where the entry of
`mNodes` changes, so every message keeps this.
-/

namespace IpcPubsub

open FiniteMap GuardedRuns

/-- A `sockaddr_un`, cleared. -/
structure SockaddrUn where
  sunFamily : UInt16 := 0
  sunPath : List UInt8 := List.replicate 108 0
  deriving DecidableEq

/-- The value of `AF_UNIX`. -/
def afUnix : UInt16 := 1

/-- `std::copy` into `sun_path`; `none` when it would write past the end. -/
def SockaddrUn.copyPath (address : SockaddrUn) (bytes : List UInt8) : Option SockaddrUn :=
  if bytes.length ≤ address.sunPath.length then
    some { address with sunPath := bytes ++ address.sunPath.drop bytes.length }
  else none

structure IPCNeighbor where
  name : String := ""
  id : UInt64 := 0
  path : String := ""
  subscriptions : Finset String := ∅
  address : SockaddrUn := {}
  deriving DecidableEq

/-- A node: its manager, its table, and the nodes that `OnSubscribe` has
reported as subscribed but not joined. -/
structure IPCNode where
  mTopologyManager : TopologyManager
  mNodeById : UnorderedMap UInt64 IPCNeighbor := ∅
  unjoined : List UInt64 := []

/-- The content of a datagram. -/
structure MetadataMessage where
  topic : String := ""
  inlined : List UInt8 := []
  deriving DecidableEq

/-- A call of `sendto`, with the node whose entry it is made for. -/
structure Datagram where
  node : UInt64
  address : SockaddrUn
  blob : List UInt8
  deriving DecidableEq

namespace IPCNode

/-- A new node; all six handlers of its manager are set. -/
def create (nodeId : UInt64) (nodeName dataPath : String) : IPCNode where
  mTopologyManager := { mNodeId := nodeId, mName := nodeName, mAddress := dataPath }

def onJoin (node : IPCNode) (msg : NodeChange) : Option IPCNode :=
  let neighbor := (node.mNodeById.lookup msg.id).getD {}
  let cleared : SockaddrUn := { sunFamily := afUnix }
  (cleared.copyPath msg.address.toUTF8.toList).map fun address =>
    let neighbor := { neighbor with
      name := msg.name, id := msg.id, path := msg.address, address := address }
    { node with mNodeById := node.mNodeById.insert msg.id neighbor }

def onLeave (node : IPCNode) (msg : NodeChange) : IPCNode :=
  { node with mNodeById := node.mNodeById.erase msg.id }

def onAnnounce (node : IPCNode) (_msg : TopicChange) : IPCNode := node

def onRetract (node : IPCNode) (_msg : TopicChange) : IPCNode := node

def onSubscribe (node : IPCNode) (msg : TopicChange) : IPCNode :=
  match node.mNodeById.lookup msg.nodeId with
  | none =>
      -- it is added, but nothing can be sent to it
      let neighbor := { id := msg.nodeId, subscriptions := {msg.name} }
      { node with
        mNodeById := node.mNodeById.insert msg.nodeId neighbor
        unjoined := node.unjoined ++ [msg.nodeId] }
  | some neighbor =>
      let neighbor := { neighbor with subscriptions := insert msg.name neighbor.subscriptions }
      { node with mNodeById := node.mNodeById.insert msg.nodeId neighbor }

def onUnsubscribe (node : IPCNode) (msg : TopicChange) : IPCNode :=
  match node.mNodeById.lookup msg.nodeId with
  | none => node
  | some neighbor =>
      let neighbor := { neighbor with subscriptions := neighbor.subscriptions.erase msg.name }
      { node with mNodeById := node.mNodeById.insert msg.nodeId neighbor }

/-- The handlers the manager is given. -/
def handle (node : IPCNode) : Callback → Option IPCNode
  | .onJoin change => node.onJoin change
  | .onLeave change => some (node.onLeave change)
  | .onAnnounce change => some (node.onAnnounce change)
  | .onRetract change => some (node.onRetract change)
  | .onSubscribe change => some (node.onSubscribe change)
  | .onUnsubscribe change => some (node.onUnsubscribe change)

/-- A message reaches the manager, which calls the handlers. -/
def applyUpdate (node : IPCNode) (msg : TopologyMessage) : Option IPCNode :=
  let r := node.mTopologyManager.applyUpdate msg
  r.2.foldlM handle { node with mTopologyManager := r.1 }

/-- The body of the loop of `Publish`: the call of `sendto` for one entry. -/
def publishTo (node : IPCNode) (topic : String) (blob : List UInt8) (id : UInt64) :
    Option Datagram :=
  match node.mNodeById.lookup id with
  | none => none
  | some neighbor =>
      if topic ∉ neighbor.subscriptions then none
      else if neighbor.path = "" then none
      else some { node := id, address := neighbor.address, blob := blob }

/-- The datagrams `Publish` tries to send.  `order` is the order in which the
table is iterated, `serialize` is `SerializeToString`. -/
def publish (serialize : MetadataMessage → List UInt8) (node : IPCNode) (order : List UInt64)
    (topic : String) (data : List UInt8) : List Datagram :=
  let blob := serialize { topic := topic, inlined := data }
  order.filterMap (node.publishTo topic blob)

end IPCNode

/-- The address of a JOIN fits into `sun_path`. -/
def TopologyMessage.AddressFits (msg : TopologyMessage) : Prop :=
  match msg.op with
  | .nodeChange change => change.op = .join → change.address.toUTF8.toList.length ≤ 108
  | _ => True

/-! ## In step -/

/-- The table has the nodes of the topology, each with its subscriptions. -/
def InStep (nodes : Nodes) (table : UnorderedMap UInt64 IPCNeighbor) : Prop :=
  ∀ id, Option.Rel (fun node neighbor => neighbor.subscriptions = node.subscriptions)
    (nodes.lookup id) (table.lookup id)

section InStep

variable {nodes : Nodes} {table : UnorderedMap UInt64 IPCNeighbor} {id : UInt64} {entry : Node}
  {neighbor : IPCNeighbor}

/-- A node is entered on both sides, with the same subscriptions. -/
theorem InStep.insert (h : InStep nodes table)
    (hsubscriptions : neighbor.subscriptions = entry.subscriptions) :
    InStep (nodes.insert id entry) (table.insert id neighbor) := by
  intro id'
  by_cases hid : id' = id
  · subst hid
    rw [Finmap.lookup_insert, Finmap.lookup_insert]
    exact .some hsubscriptions
  · rw [Finmap.lookup_insert_of_ne _ hid, Finmap.lookup_insert_of_ne _ hid]
    exact h id'

/-- A node is removed on both sides. -/
theorem InStep.erase (h : InStep nodes table) : InStep (nodes.erase id) (table.erase id) := by
  intro id'
  by_cases hid : id' = id
  · subst hid
    rw [Finmap.lookup_erase, Finmap.lookup_erase]
    exact .none
  · rw [Finmap.lookup_erase_ne hid, Finmap.lookup_erase_ne hid]
    exact h id'

/-- Only the subscriptions of an entry matter, and the routing table has no publications. -/
theorem InStep.insert_left (h : InStep nodes table) (hentry : nodes.lookup id = some entry)
    {entry' : Node} (hsubscriptions : entry'.subscriptions = entry.subscriptions) :
    InStep (nodes.insert id entry') table := by
  intro id'
  have hid' := h id'
  by_cases hid : id' = id
  · subst hid
    rw [Finmap.lookup_insert]
    rw [hentry] at hid'
    generalize table.lookup id' = found at hid'
    cases hid' with
    | some heq => exact .some (heq.trans hsubscriptions.symm)
  · rwa [Finmap.lookup_insert_of_ne _ hid]

/-- Who is listed by the manager is in the table. -/
theorem InStep.exists_neighbor (h : InStep nodes table) (hentry : nodes.lookup id = some entry) :
    ∃ neighbor, table.lookup id = some neighbor ∧
      neighbor.subscriptions = entry.subscriptions := by
  have hid := h id
  rw [hentry] at hid
  generalize table.lookup id = found at hid
  cases hid with
  | some heq => exact ⟨_, rfl, heq⟩

/-- Who is in the table is listed by the manager. -/
theorem InStep.exists_entry (h : InStep nodes table) (hneighbor : table.lookup id = some neighbor) :
    ∃ entry, nodes.lookup id = some entry ∧ neighbor.subscriptions = entry.subscriptions := by
  have hid := h id
  rw [hneighbor] at hid
  generalize nodes.lookup id = found at hid
  cases hid with
  | some heq => exact ⟨_, rfl, heq⟩

/-- Who is not listed is not in the table. -/
theorem InStep.lookup_none (h : InStep nodes table) (hentry : nodes.lookup id = none) :
    table.lookup id = none := by
  have hid := h id
  rw [hentry] at hid
  generalize table.lookup id = found at hid
  cases hid with
  | none => rfl

/-- Both sides have the same nodes. -/
theorem InStep.keys (h : InStep nodes table) : table.keys = nodes.keys := by
  ext id
  rw [Finmap.mem_keys, Finmap.mem_keys, Finmap.mem_iff, Finmap.mem_iff]
  constructor
  · intro ⟨neighbor, hneighbor⟩
    obtain ⟨entry, hentry, _⟩ := h.exists_entry hneighbor
    exact ⟨entry, hentry⟩
  · intro ⟨entry, hentry⟩
    obtain ⟨neighbor, hneighbor, _⟩ := h.exists_neighbor hentry
    exact ⟨neighbor, hneighbor⟩

/-- An entry of the table may change its name and address, which are not compared. -/
theorem InStep.insert_right (h : InStep nodes table) (hneighbor : table.lookup id = some neighbor)
    {neighbor' : IPCNeighbor} (hsubscriptions : neighbor'.subscriptions = neighbor.subscriptions) :
    InStep nodes (table.insert id neighbor') := by
  intro id'
  by_cases hid : id' = id
  · subst hid
    obtain ⟨entry, hentry, heq⟩ := h.exists_entry hneighbor
    rw [Finmap.lookup_insert, hentry]
    exact .some (hsubscriptions.trans heq)
  · rw [Finmap.lookup_insert_of_ne _ hid]
    exact h id'

end InStep

/-! ## One message -/

namespace IPCNode

variable {node : IPCNode} {nodes : Nodes}

/-- A JOIN whose address fits keeps the subscriptions that are on record. -/
theorem onJoin_eq (node : IPCNode) {change : NodeChange}
    (hfits : change.address.toUTF8.toList.length ≤ 108) :
    ∃ neighbor, node.handle (.onJoin change) =
        some { node with mNodeById := node.mNodeById.insert change.id neighbor } ∧
      neighbor.subscriptions = ((node.mNodeById.lookup change.id).getD {}).subscriptions := by
  have hcopied : ∃ address, ({ sunFamily := afUnix } : SockaddrUn).copyPath
      change.address.toUTF8.toList = some address := by
    unfold SockaddrUn.copyPath
    rw [List.length_replicate, if_pos hfits]
    exact ⟨_, rfl⟩
  obtain ⟨address, haddress⟩ := hcopied
  simp only [handle, onJoin, haddress, Option.map_some]
  exact ⟨_, rfl, rfl⟩

/-- **A node change.**  A JOIN brings the node into both tables or finds it in both, and a LEAVE
takes it out of both. -/
theorem inStep_applyNodeChange (h : InStep nodes node.mNodeById) {change : NodeChange}
    (hfits : change.op = .join → change.address.toUTF8.toList.length ≤ 108) :
    ∃ table, (applyNodeChange {} nodes change).2.foldlM handle node =
        some { node with mNodeById := table } ∧
      InStep (applyNodeChange {} nodes change).1 table := by
  cases hchange : change.op with
  | join =>
      obtain ⟨neighbor, hjoin, hsubscriptions⟩ := onJoin_eq node (hfits hchange)
      cases hentry : nodes.lookup change.id with
      | none =>
          refine ⟨node.mNodeById.insert change.id neighbor, ?_, ?_⟩
          · simp [applyNodeChange, hchange, hentry, hjoin]
          · rw [h.lookup_none hentry] at hsubscriptions
            simpa [applyNodeChange, hchange, hentry] using h.insert hsubscriptions
      | some entry =>
          obtain ⟨found, hfound, _⟩ := h.exists_neighbor hentry
          rw [hfound] at hsubscriptions
          by_cases hsame : entry.name ≠ change.name ∨ entry.address ≠ change.address
          · refine ⟨node.mNodeById.insert change.id neighbor, ?_, ?_⟩
            · simp [applyNodeChange, hchange, hentry, hsame, hjoin]
            · simpa [applyNodeChange, hchange, hentry] using h.insert_right hfound hsubscriptions
          · refine ⟨node.mNodeById, ?_, ?_⟩
            · simp [applyNodeChange, hchange, hentry, hsame]
            · simpa [applyNodeChange, hchange, hentry] using h
  | leave =>
      by_cases hmem : change.id ∈ nodes
      · refine ⟨node.mNodeById.erase change.id, ?_, ?_⟩
        · simp [applyNodeChange, hchange, hmem, handle, onLeave]
        · simpa [applyNodeChange, hchange, hmem] using h.erase
      · refine ⟨node.mNodeById, ?_, ?_⟩
        · simp [applyNodeChange, hchange, hmem]
        · simpa [applyNodeChange, hchange, hmem] using h
  | _ => exact ⟨node.mNodeById, by simp [applyNodeChange, hchange],
      by simpa [applyNodeChange, hchange] using h⟩

/-- **A topic change** of a present node.  The handlers are called exactly when its subscriptions
change. -/
theorem inStep_applyTopicChange (h : InStep nodes node.mNodeById) {change : TopicChange}
    {entry : Node} (hentry : nodes.lookup change.nodeId = some entry) :
    ∃ table, (entry.applyTopicChange {} change).2.foldlM handle node =
        some { node with mNodeById := table } ∧
      InStep (nodes.insert change.nodeId (entry.applyTopicChange {} change).1) table := by
  obtain ⟨neighbor, hneighbor, hsubscriptions⟩ := h.exists_neighbor hentry
  have hquiet : (entry.applyTopicChange {} change).2.foldlM handle node = some node →
      (entry.applyTopicChange {} change).1.subscriptions = entry.subscriptions →
      ∃ table, (entry.applyTopicChange {} change).2.foldlM handle node =
          some { node with mNodeById := table } ∧
        InStep (nodes.insert change.nodeId (entry.applyTopicChange {} change).1) table :=
    fun hcalls hsame => ⟨node.mNodeById, hcalls, h.insert_left hentry hsame⟩
  cases hchange : change.op with
  | announce =>
      cases hpublication : entry.publications.lookup change.name with
      | none =>
          apply hquiet <;> simp [Node.applyTopicChange, hchange, hpublication, handle, onAnnounce]
      | some publication =>
          by_cases hmime : change.mime = publication.mime <;>
            apply hquiet <;>
            simp [Node.applyTopicChange, hchange, hpublication, hmime, handle, onAnnounce]
  | retract =>
      by_cases hmem : change.name ∈ entry.publications <;>
        apply hquiet <;> simp [Node.applyTopicChange, hchange, hmem, handle, onRetract]
  | subscribe =>
      by_cases hmem : change.name ∈ entry.subscriptions
      · apply hquiet <;> simp [Node.applyTopicChange, hchange, hmem]
      · refine ⟨node.mNodeById.insert change.nodeId { neighbor with
          subscriptions := insert change.name neighbor.subscriptions }, ?_, ?_⟩
        · simp [Node.applyTopicChange, hchange, hmem, handle, onSubscribe, hneighbor]
        · apply h.insert
          simp [Node.applyTopicChange, hchange, hsubscriptions]
  | unsubscribe =>
      by_cases hmem : change.name ∈ entry.subscriptions
      · refine ⟨node.mNodeById.insert change.nodeId { neighbor with
          subscriptions := neighbor.subscriptions.erase change.name }, ?_, ?_⟩
        · simp [Node.applyTopicChange, hchange, hmem, handle, onUnsubscribe, hneighbor]
        · apply h.insert
          simp [Node.applyTopicChange, hchange, hsubscriptions]
      · apply hquiet <;> simp [Node.applyTopicChange, hchange, hmem]
  | _ => apply hquiet <;> simp [Node.applyTopicChange, hchange]

/-- **One message** keeps the table in step, and changes nothing else of the node. -/
theorem inStep_updateNodes (h : InStep nodes node.mNodeById) {msg : TopologyMessage}
    (hfits : msg.AddressFits) :
    ∃ table, (updateNodes {} nodes msg).2.foldlM handle node =
        some { node with mNodeById := table } ∧
      InStep (updateNodes {} nodes msg).1 table := by
  unfold updateNodes
  split
  · rename_i change hop
    unfold TopologyMessage.AddressFits at hfits
    rw [hop] at hfits
    exact inStep_applyNodeChange h hfits
  · rename_i change hop
    split
    · exact ⟨node.mNodeById, rfl, h⟩
    · rename_i entry hentry
      exact inStep_applyTopicChange h hentry
  · exact ⟨node.mNodeById, rfl, h⟩

/-- The table is in step, no node has subscribed without having joined, and the
manager calls every handler. -/
structure Synced (node : IPCNode) : Prop where
  inStep : InStep node.mTopologyManager.mNodes node.mNodeById
  joined : node.unjoined = []
  handlers : node.mTopologyManager.handlers = {}

/-- A node that has just been created knows nobody. -/
theorem create_synced (nodeId : UInt64) (nodeName dataPath : String) :
    (create nodeId nodeName dataPath).Synced where
  inStep := fun id => by
    simp only [create, Finmap.lookup_empty]
    exact .none
  joined := rfl
  handlers := rfl

/-- One message: the manager takes it in and calls back, and the node follows. -/
theorem Synced.applyUpdate (h : node.Synced) {msg : TopologyMessage} (hfits : msg.AddressFits) :
    ∃ node', node.applyUpdate msg = some node' ∧ node'.Synced := by
  obtain ⟨hinStep, hjoined, hhandlers⟩ := h
  obtain ⟨m, hm⟩ : ∃ m, m = (node.mTopologyManager.applyUpdate msg).1 := ⟨_, rfl⟩
  have hnodes : m.mNodes = (updateNodes {} node.mTopologyManager.mNodes msg).1 := by
    rw [hm, ← hhandlers]
    rfl
  have hcallbacks : (node.mTopologyManager.applyUpdate msg).2 =
      (updateNodes {} node.mTopologyManager.mNodes msg).2 := by
    rw [← hhandlers]
    rfl
  obtain ⟨table, hcalls, htable⟩ :=
    @inStep_updateNodes { node with mTopologyManager := m } _ hinStep _ hfits
  refine ⟨{ node with mTopologyManager := m, mNodeById := table }, ?_, ?_⟩
  · simp only [IPCNode.applyUpdate, hcallbacks, ← hm]
    exact hcalls
  · exact ⟨by rw [hnodes]; exact htable, hjoined, by rw [hm, ← hhandlers]; rfl⟩

/-- And so for all messages a node is sent, one after the other. -/
theorem Synced.exec (h : node.Synced) {msgs : List TopologyMessage}
    (hfits : ∀ msg ∈ msgs, msg.AddressFits) :
    ∃ node', GuardedRuns.exec IPCNode.applyUpdate node msgs = some node' ∧ node'.Synced := by
  induction msgs generalizing node with
  | nil => exact ⟨node, rfl, h⟩
  | cons msg msgs ih =>
      obtain ⟨node₁, hstep, hsynced⟩ := h.applyUpdate (hfits msg List.mem_cons_self)
      obtain ⟨node', hrun, hsynced'⟩ := ih hsynced fun msg' hmem =>
        hfits msg' (List.mem_cons_of_mem _ hmem)
      exact ⟨node', by rw [exec_cons, hstep]; exact hrun, hsynced'⟩

/-! ## Publishing -/

/-- A datagram is tried for a neighbour that is subscribed and has a path. -/
theorem publishTo_eq_some {topic : String} {blob : List UInt8} {id : UInt64}
    {datagram : Datagram} :
    node.publishTo topic blob id = some datagram ↔
      ∃ neighbor, node.mNodeById.lookup id = some neighbor ∧ topic ∈ neighbor.subscriptions ∧
        neighbor.path ≠ "" ∧
          datagram = { node := id, address := neighbor.address, blob := blob } := by
  unfold publishTo
  cases hneighbor : node.mNodeById.lookup id with
  | none => simp
  | some neighbor =>
      by_cases hsubscribed : topic ∈ neighbor.subscriptions
      · by_cases hpath : neighbor.path = ""
        · simp [hsubscribed, hpath]
        · simp only [hsubscribed, hpath, not_true, if_false, Option.some.injEq]
          constructor
          · exact fun heq => ⟨neighbor, rfl, hsubscribed, hpath, heq.symm⟩
          · intro ⟨_, hfound, _, _, heq⟩
            rw [heq, hfound]
      · simp [hsubscribed]

/-- One datagram at most is tried for each entry of the table. -/
theorem publish_nodup (serialize : MetadataMessage → List UInt8) (node : IPCNode)
    {order : List UInt64} (hnodup : order.Nodup) (topic : String) (data : List UInt8) :
    ((node.publish serialize order topic data).map Datagram.node).Nodup := by
  unfold publish
  rw [List.map_filterMap]
  apply hnodup.filterMap
  intro id id' id'' hmem hmem'
  obtain ⟨datagram, hdatagram, rfl⟩ := Option.map_eq_some_iff.mp hmem
  obtain ⟨datagram', hdatagram', heq⟩ := Option.map_eq_some_iff.mp hmem'
  obtain ⟨_, _, _, _, rfl⟩ := publishTo_eq_some.mp hdatagram
  obtain ⟨_, _, _, _, rfl⟩ := publishTo_eq_some.mp hdatagram'
  exact heq.symm

/-- **The routing table simulates the topology.**  Whatever messages the manager
of a node applies, if the addresses of the JOINs fit: the table has the nodes of
the topology with their subscriptions, no subscription has come before its JOIN,
and publishing tries one datagram for each node that is subscribed and whose
path on record is not empty, and none for any other. -/
theorem routing_table_simulates (nodeId : UInt64) (nodeName dataPath : String)
    (msgs : List TopologyMessage) (hfits : ∀ msg ∈ msgs, msg.AddressFits) :
    ∃ node, exec applyUpdate (create nodeId nodeName dataPath) msgs = some node ∧
      node.mNodeById.keys = node.mTopologyManager.mNodes.keys ∧
      (∀ id neighbor entry, node.mNodeById.lookup id = some neighbor →
        node.mTopologyManager.mNodes.lookup id = some entry →
          neighbor.subscriptions = entry.subscriptions) ∧
      node.unjoined = [] ∧
      ∀ (serialize : MetadataMessage → List UInt8) (order : List UInt64), order.Nodup →
        order.toFinset = node.mNodeById.keys → ∀ (topic : String) (data : List UInt8),
          ((node.publish serialize order topic data).map Datagram.node).Nodup ∧
          ∀ datagram, datagram ∈ node.publish serialize order topic data ↔
            ∃ id entry neighbor, node.mTopologyManager.mNodes.lookup id = some entry ∧
              node.mNodeById.lookup id = some neighbor ∧
              topic ∈ entry.subscriptions ∧ neighbor.path ≠ "" ∧
              datagram = { node := id, address := neighbor.address,
                           blob := serialize { topic := topic, inlined := data } } := by
  obtain ⟨node, hrun, hinStep, hjoined, _⟩ :=
    (create_synced nodeId nodeName dataPath).exec hfits
  refine ⟨node, hrun, hinStep.keys, ?_, hjoined, ?_⟩
  · intro id neighbor entry hneighbor hentry
    obtain ⟨found, hfound, hsubscriptions⟩ := hinStep.exists_neighbor hentry
    obtain rfl : found = neighbor := Option.some.inj (hfound.symm.trans hneighbor)
    exact hsubscriptions
  · intro serialize order hnodup horder topic data
    refine ⟨publish_nodup serialize node hnodup topic data, fun datagram => ?_⟩
    unfold publish
    rw [List.mem_filterMap]
    constructor
    · intro ⟨id, _, hdatagram⟩
      obtain ⟨neighbor, hneighbor, hsubscribed, hpath, heq⟩ := publishTo_eq_some.mp hdatagram
      obtain ⟨entry, hentry, hsubscriptions⟩ := hinStep.exists_entry hneighbor
      exact ⟨id, entry, neighbor, hentry, hneighbor, hsubscriptions ▸ hsubscribed, hpath, heq⟩
    · intro ⟨id, entry, neighbor, hentry, hneighbor, hsubscribed, hpath, heq⟩
      obtain ⟨found, hfound, hsubscriptions⟩ := hinStep.exists_neighbor hentry
      obtain rfl : found = neighbor := Option.some.inj (hfound.symm.trans hneighbor)
      have hlisted : id ∈ order := by
        rw [← List.mem_toFinset, horder, Finmap.mem_keys]
        exact Finmap.mem_iff.mpr ⟨found, hneighbor⟩
      refine ⟨id, hlisted, publishTo_eq_some.mpr ?_⟩
      exact ⟨found, hneighbor, hsubscriptions.symm ▸ hsubscribed, hpath, heq⟩

/-- Node 5 joins, subscribes, and joins again under another address. -/
def movesAndSubscribes : List TopologyMessage :=
  [{ seq := 1, op := .nodeChange { id := 5, op := .join, name := "five", address := "a" } },
    { seq := 2, op := .topicChange { name := "topic", nodeId := 5, op := .subscribe } },
    { seq := 3, op := .nodeChange { id := 5, op := .join, name := "five", address := "b" } }]

/-- The table has the node that the manager lists. -/
theorem routing_table_simulates_movesAndSubscribes :
    ∃ node, exec applyUpdate (create 9 "nine" "") movesAndSubscribes = some node ∧
      node.mNodeById.keys = node.mTopologyManager.mNodes.keys := by
  have hfits : ∀ msg ∈ movesAndSubscribes, msg.AddressFits := by
    intro msg hmem
    simp only [movesAndSubscribes, List.mem_cons, List.not_mem_nil, or_false] at hmem
    rcases hmem with rfl | rfl | rfl
    · exact fun _ => by decide +kernel
    · trivial
    · exact fun _ => by decide +kernel
  obtain ⟨node, hrun, hkeys, _⟩ := routing_table_simulates 9 "nine" "" movesAndSubscribes hfits
  exact ⟨node, hrun, hkeys⟩

end IPCNode

end IpcPubsub
