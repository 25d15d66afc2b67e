import IpcPubsub.LastWrite
import IpcPubsub.NodeAddress

/-!
# Where a node is sent to

`ApplyUpdate` compares a JOIN of a node that is present with the name and the address in
its entry and calls `onJoin` where they differ.  It never writes them to the entry.  So
the entry has what the node announced first, every JOIN that says otherwise is
reported, and one that says the same again is not, whatever was reported in between.

The table of `IPCNode` has what was reported last (`Follows`).  A node that goes back to
the address it announced first is sent to at the one it has given up
(`address_is_last_iff`).
-/

namespace IpcPubsub

open FiniteMap GuardedRuns LastWrite

/-- The structure `OnJoin` builds for a path that fits. -/
def SockaddrUn.ofPath (path : String) : SockaddrUn where
  sunFamily := afUnix
  sunPath := path.toUTF8.toList ++ List.replicate (108 - path.toUTF8.toList.length) 0

/-- What a message does to the JOINs of a node since it last became present. -/
def joinsStep (id : UInt64) (joins : List NodeChange) (msg : TopologyMessage) : List NodeChange :=
  match msg.op with
  | .nodeChange change =>
      if change.id = id then
        match change.op with
        | .join => joins ++ [change]
        | .leave => []
        | _ => joins
      else joins
  | _ => joins

/-- The JOINs of a node since it last became present; none when it is not. -/
def joinsSince (id : UInt64) (log : List TopologyMessage) : List NodeChange :=
  log.foldl (joinsStep id) []

/-- A JOIN that says otherwise than the first. -/
def NodeChange.otherThan (first join : NodeChange) : Option NodeChange :=
  if first.name ≠ join.name ∨ first.address ≠ join.address then some join else none

/-- The JOIN that was reported last. -/
def lastReported (first : NodeChange) (later : List NodeChange) : NodeChange :=
  (lastWrite first.otherThan later).getD first

/-- The JOIN that came last. -/
def lastAnnounced (first : NodeChange) (later : List NodeChange) : NodeChange :=
  later.getLast?.getD first

/-- The neighbour is on record as the JOIN announces it. -/
structure IPCNeighbor.Announced (neighbor : IPCNeighbor) (join : NodeChange) : Prop where
  name : neighbor.name = join.name
  path : neighbor.path = join.address
  address : neighbor.address = .ofPath join.address

/-- The entry of `mNodes` has the first JOIN, the entry of the table the one that was
reported last. -/
def Follows : List NodeChange → Option Node → Option IPCNeighbor → Prop
  | [], entry, neighbor => entry = none ∧ neighbor = none
  | first :: later, entry, neighbor =>
      ∃ node found, entry = some node ∧ neighbor = some found ∧
        (node.name = first.name ∧ node.address = first.address) ∧
        found.Announced (lastReported first later)

/-- The JOINs of a node in a log are those of its messages. -/
theorem mem_joinsSince {id : UInt64} {log : List TopologyMessage} {join : NodeChange}
    (h : join ∈ joinsSince id log) :
    ∃ msg ∈ log, msg.op = .nodeChange join ∧ msg.JoinOf id := by
  induction log using List.reverseRecOn with
  | nil => cases h
  | append_singleton log msg ih =>
      rw [joinsSince, List.foldl_concat] at h
      have hbefore : join ∈ joinsSince id log →
          ∃ msg' ∈ log ++ [msg], msg'.op = .nodeChange join ∧ msg'.JoinOf id := by
        intro hmem
        obtain ⟨msg', hmem', hmsg'⟩ := ih hmem
        exact ⟨msg', List.mem_append_left _ hmem', hmsg'⟩
      unfold joinsStep at h
      split at h
      · rename_i change hop
        split at h
        · rename_i hid
          split at h
          · rename_i hjoin
            rcases List.mem_append.mp h with hold | hnew
            · exact hbefore hold
            · obtain rfl := List.mem_singleton.mp hnew
              refine ⟨msg, by simp, hop, ?_⟩
              rw [TopologyMessage.JoinOf, hop]
              exact ⟨hjoin, hid⟩
          · cases h
          · exact hbefore h
        · exact hbefore h
      · exact hbefore h

/-- What is reported last is one of the JOINs. -/
theorem lastReported_mem (first : NodeChange) (later : List NodeChange) :
    lastReported first later ∈ first :: later := by
  induction later using List.reverseRecOn with
  | nil => simp [lastReported]
  | append_singleton later join ih =>
      rw [lastReported, lastWrite_concat]
      unfold NodeChange.otherThan
      split
      · simp
      · rw [Option.none_or, ← List.cons_append]
        exact List.mem_append_left _ ih

section Follows

variable {joins : List NodeChange} {entry : Option Node} {neighbor : Option IPCNeighbor}
  {join : NodeChange}

/-- A node that is not listed has no JOIN since its last LEAVE, and no entry in the table. -/
theorem Follows.of_none (h : Follows joins none neighbor) : joins = [] ∧ neighbor = none := by
  cases joins with
  | nil => exact ⟨rfl, h.2⟩
  | cons first later =>
      obtain ⟨_, _, hentry, _⟩ := h
      cases hentry

/-- A node that is listed was announced by a first JOIN, and its entry is that of the last one
that was reported. -/
theorem Follows.of_some {node : Node} (h : Follows joins (some node) neighbor) :
    ∃ first later found, joins = first :: later ∧ neighbor = some found ∧
      (node.name = first.name ∧ node.address = first.address) ∧
      found.Announced (lastReported first later) := by
  cases joins with
  | nil => cases h.1
  | cons first later =>
      obtain ⟨_, found, hentry, hneighbor, hrest⟩ := h
      cases hentry
      exact ⟨first, later, found, rfl, hneighbor, hrest⟩

/-- What is not announced does not matter: a change of the topics on both sides leaves name and
address to follow the JOINs as before. -/
theorem Follows.map (h : Follows joins entry neighbor) {f : Node → Node}
    {g : IPCNeighbor → IPCNeighbor}
    (hf : ∀ node, (f node).name = node.name ∧ (f node).address = node.address)
    (hg : ∀ found, (g found).name = found.name ∧ (g found).path = found.path ∧
      (g found).address = found.address) :
    Follows joins (entry.map f) (neighbor.map g) := by
  cases joins with
  | nil =>
      obtain ⟨rfl, rfl⟩ := h
      exact ⟨rfl, rfl⟩
  | cons first later =>
      obtain ⟨node, found, rfl, rfl, ⟨hname, haddress⟩, hannounced⟩ := h
      refine ⟨f node, g found, rfl, rfl, ⟨(hf node).1.trans hname, (hf node).2.trans haddress⟩, ?_⟩
      exact ⟨(hg found).1.trans hannounced.name, (hg found).2.1.trans hannounced.path,
        (hg found).2.2.trans hannounced.address⟩

/-- The first JOIN. -/
theorem Follows.first {found : IPCNeighbor} (hannounced : found.Announced join) (id : UInt64) :
    Follows [join] (some { id := id, name := join.name, address := join.address }) (some found) :=
  ⟨_, found, rfl, rfl, ⟨rfl, rfl⟩, hannounced⟩

/-- A JOIN that is reported. -/
theorem Follows.reported {node : Node} {found : IPCNeighbor}
    (h : Follows joins (some node) neighbor)
    (hother : node.name ≠ join.name ∨ node.address ≠ join.address)
    (hannounced : found.Announced join) : Follows (joins ++ [join]) (some node) (some found) := by
  obtain ⟨first, later, _, rfl, _, ⟨hname, haddress⟩, _⟩ := h.of_some
  rw [List.cons_append]
  refine ⟨node, found, rfl, rfl, ⟨hname, haddress⟩, ?_⟩
  rw [hname, haddress] at hother
  have hlast : lastReported first (later ++ [join]) = join := by
    simp [lastReported, NodeChange.otherThan, hother]
  rwa [hlast]

/-- A JOIN that is not. -/
theorem Follows.repeated {node : Node} (h : Follows joins (some node) neighbor)
    (hsame : ¬ (node.name ≠ join.name ∨ node.address ≠ join.address)) :
    Follows (joins ++ [join]) (some node) neighbor := by
  obtain ⟨first, later, found, rfl, rfl, ⟨hname, haddress⟩, hannounced⟩ := h.of_some
  rw [List.cons_append]
  refine ⟨node, found, rfl, rfl, ⟨hname, haddress⟩, ?_⟩
  rw [hname, haddress] at hsame
  have hlast : lastReported first (later ++ [join]) = lastReported first later := by
    simp [lastReported, NodeChange.otherThan, hsame]
  rwa [hlast]

end Follows

/-! ## One message -/

namespace IPCNode

variable {node : IPCNode} {nodes : Nodes} {joins : UInt64 → List NodeChange}

/-- A JOIN whose address fits is put on record as announced. -/
theorem handle_onJoin (node : IPCNode) {change : NodeChange}
    (hfits : change.address.toUTF8.toList.length ≤ 108) :
    ∃ neighbor, node.handle (.onJoin change) =
        some { node with mNodeById := node.mNodeById.insert change.id neighbor } ∧
      neighbor.Announced change := by
  have hcopy : ({ sunFamily := afUnix } : SockaddrUn).copyPath change.address.toUTF8.toList =
      some (.ofPath change.address) := by
    simp only [SockaddrUn.copyPath, List.length_replicate, if_pos hfits, List.drop_replicate,
      SockaddrUn.ofPath]
  simp only [handle, onJoin, hcopy, Option.map_some]
  exact ⟨_, rfl, ⟨rfl, rfl, rfl⟩⟩

/-- The handlers a topic change of a present node is told to. -/
theorem applyTopicChange_calls (entry : Node) (change : TopicChange) :
    (entry.applyTopicChange {} change).2 = [] ∨
      ∃ call ∈ [Callback.onAnnounce change, .onRetract change, .onSubscribe change,
          .onUnsubscribe change], (entry.applyTopicChange {} change).2 = [call] := by
  unfold Node.applyTopicChange
  repeat' split
  all_goals simp

/-- The handlers of topic changes touch at most the subscriptions of a neighbour and leave alone
what was announced. -/
theorem handle_topicChange {change : TopicChange} {neighbor : IPCNeighbor}
    (hneighbor : node.mNodeById.lookup change.nodeId = some neighbor) {call : Callback}
    (hcall : call ∈ [Callback.onAnnounce change, .onRetract change, .onSubscribe change,
      .onUnsubscribe change]) :
    ∃ subscriptions, node.handle call = some { node with
      mNodeById := node.mNodeById.insert change.nodeId
        { neighbor with subscriptions := subscriptions } } ∨
      node.handle call = some node := by
  simp only [List.mem_cons, List.not_mem_nil, or_false] at hcall
  rcases hcall with rfl | rfl | rfl | rfl
  · exact ⟨∅, .inr rfl⟩
  · exact ⟨∅, .inr rfl⟩
  · exact ⟨insert change.name neighbor.subscriptions,
      .inl (by simp only [handle, onSubscribe, hneighbor])⟩
  · exact ⟨neighbor.subscriptions.erase change.name,
      .inl (by simp only [handle, onUnsubscribe, hneighbor])⟩

/-- **A node change.**  A JOIN is reported if it is the first or differs from what the entry was
made from; a LEAVE takes the node out on both sides. -/
theorem follows_applyNodeChange
    (h : ∀ id, Follows (joins id) (nodes.lookup id) (node.mNodeById.lookup id))
    {msg : TopologyMessage} {change : NodeChange} (hop : msg.op = .nodeChange change)
    (hfits : change.op = .join → change.address.toUTF8.toList.length ≤ 108) :
    ∃ table, (updateNodes {} nodes msg).2.foldlM handle node =
        some { node with mNodeById := table } ∧
      ∀ id, Follows (joinsStep id (joins id) msg) ((updateNodes {} nodes msg).1.lookup id)
        (table.lookup id) := by
  have hothers : ∀ {id}, id ≠ change.id →
      Follows (joinsStep id (joins id) msg) (stepNode id (nodes.lookup id) msg)
        (node.mNodeById.lookup id) := by
    intro id hne
    have hsame : msg.nodeId ≠ id := by
      rw [TopologyMessage.nodeId, hop]
      exact Ne.symm hne
    rw [stepNode_of_ne hsame]
    simpa only [joinsStep, hop, if_neg (Ne.symm hne)] using h id
  have hown := h change.id
  simp only [lookup_updateNodes]
  cases hchange : change.op with
  | join =>
      obtain ⟨neighbor, hjoin, hannounced⟩ := handle_onJoin node (hfits hchange)
      cases hentry : nodes.lookup change.id with
      | none =>
          rw [hentry] at hown
          refine ⟨node.mNodeById.insert change.id neighbor, ?_, fun id => ?_⟩
          · simp [updateNodes, applyNodeChange, hop, hchange, hentry, hjoin]
          · by_cases hid : id = change.id
            · subst hid
              rw [Finmap.lookup_insert, hentry]
              simpa [joinsStep, stepNode, hop, hchange, hown.of_none.1] using
                Follows.first hannounced change.id
            · rw [Finmap.lookup_insert_of_ne _ hid]
              exact hothers hid
      | some entry =>
          rw [hentry] at hown
          by_cases hother : entry.name ≠ change.name ∨ entry.address ≠ change.address
          · refine ⟨node.mNodeById.insert change.id neighbor, ?_, fun id => ?_⟩
            · simp [updateNodes, applyNodeChange, hop, hchange, hentry, hother, hjoin]
            · by_cases hid : id = change.id
              · subst hid
                rw [Finmap.lookup_insert, hentry]
                simpa [joinsStep, stepNode, hop, hchange] using hown.reported hother hannounced
              · rw [Finmap.lookup_insert_of_ne _ hid]
                exact hothers hid
          · refine ⟨node.mNodeById, ?_, fun id => ?_⟩
            · simp [updateNodes, applyNodeChange, hop, hchange, hentry, hother]
            · by_cases hid : id = change.id
              · subst hid
                rw [hentry]
                simpa [joinsStep, stepNode, hop, hchange] using hown.repeated hother
              · exact hothers hid
  | leave =>
      by_cases hmem : change.id ∈ nodes
      · refine ⟨node.mNodeById.erase change.id, ?_, fun id => ?_⟩
        · simp [updateNodes, applyNodeChange, hop, hchange, hmem, handle, onLeave]
        · by_cases hid : id = change.id
          · subst hid
            rw [Finmap.lookup_erase]
            simp [joinsStep, stepNode, hop, hchange, Follows]
          · rw [Finmap.lookup_erase_ne hid]
            exact hothers hid
      · refine ⟨node.mNodeById, ?_, fun id => ?_⟩
        · simp [updateNodes, applyNodeChange, hop, hchange, hmem]
        · by_cases hid : id = change.id
          · subst hid
            rw [Finmap.lookup_eq_none.mpr hmem] at hown
            rw [hown.of_none.2]
            simp [joinsStep, stepNode, hop, hchange, Follows]
          · exact hothers hid
  | _ =>
      refine ⟨node.mNodeById, ?_, fun id => ?_⟩
      · simp [updateNodes, applyNodeChange, hop, hchange]
      · by_cases hid : id = change.id
        · subst hid
          simpa [joinsStep, stepNode, hop, hchange] using hown
        · exact hothers hid

/-- **A topic change.**  It reaches the handlers only for a node that is present, and neither side
learns an address from it. -/
theorem follows_applyTopicChange
    (h : ∀ id, Follows (joins id) (nodes.lookup id) (node.mNodeById.lookup id))
    {msg : TopologyMessage} {change : TopicChange} (hop : msg.op = .topicChange change) :
    ∃ table, (updateNodes {} nodes msg).2.foldlM handle node =
        some { node with mNodeById := table } ∧
      ∀ id, Follows (joinsStep id (joins id) msg) ((updateNodes {} nodes msg).1.lookup id)
        (table.lookup id) := by
  have hjoins : ∀ id, joinsStep id (joins id) msg = joins id := by simp [joinsStep, hop]
  have hentries : ∀ id, stepNode id (nodes.lookup id) msg = (nodes.lookup id).map fun entry =>
      if change.nodeId = id then (entry.applyTopicChange {} change).1 else entry := by
    intro id
    by_cases hid : change.nodeId = id <;> simp [stepNode, hop, hid]
  have hframe : ∀ (id : UInt64) (entry : Node),
      (if change.nodeId = id then (entry.applyTopicChange {} change).1 else entry).name =
        entry.name ∧
      (if change.nodeId = id then (entry.applyTopicChange {} change).1 else entry).address =
        entry.address := by
    intro id entry
    have hkept := @Node.applyTopicChange_frame entry change
    split
    · exact ⟨hkept.2.1, hkept.2.2⟩
    · exact ⟨rfl, rfl⟩
  simp only [lookup_updateNodes, hjoins, hentries]
  -- a table that differs in the subscriptions only
  have hsuffices : ∀ table : UnorderedMap UInt64 IPCNeighbor,
      (∀ id, ∃ subscriptions : IPCNeighbor → Finset String, table.lookup id =
        (node.mNodeById.lookup id).map fun found =>
          { found with subscriptions := subscriptions found }) →
      ∀ id, Follows (joins id) ((nodes.lookup id).map fun entry =>
          if change.nodeId = id then (entry.applyTopicChange {} change).1 else entry)
        (table.lookup id) := by
    intro table htable id
    obtain ⟨subscriptions, hlookup⟩ := htable id
    rw [hlookup]
    exact (h id).map (hframe id) fun found => ⟨rfl, rfl, rfl⟩
  have hsame : ∀ id, ∃ subscriptions : IPCNeighbor → Finset String, node.mNodeById.lookup id =
      (node.mNodeById.lookup id).map fun found =>
        { found with subscriptions := subscriptions found } := fun id =>
    ⟨IPCNeighbor.subscriptions, by simp⟩
  cases hentry : nodes.lookup change.nodeId with
  | none => exact ⟨node.mNodeById, by simp [updateNodes, hop, hentry], hsuffices _ hsame⟩
  | some entry =>
      have hown := h change.nodeId
      rw [hentry] at hown
      obtain ⟨_, _, neighbor, _, hneighbor, _⟩ := hown.of_some
      have hcalls : (updateNodes {} nodes msg).2 = (entry.applyTopicChange {} change).2 := by
        simp [updateNodes, hop, hentry]
      rw [hcalls]
      rcases applyTopicChange_calls entry change with hnone | ⟨call, hcall, hone⟩
      · rw [hnone]
        exact ⟨node.mNodeById, rfl, hsuffices _ hsame⟩
      · rw [hone]
        obtain ⟨subscriptions, hhandle | hhandle⟩ := handle_topicChange hneighbor hcall
        · refine ⟨_, by simpa using hhandle, hsuffices _ fun id => ?_⟩
          by_cases hid : id = change.nodeId
          · subst hid
            exact ⟨fun _ => subscriptions, by rw [Finmap.lookup_insert, hneighbor]; rfl⟩
          · rw [Finmap.lookup_insert_of_ne _ hid]
            exact hsame id
        · exact ⟨node.mNodeById, by simpa using hhandle, hsuffices _ hsame⟩

/-- **One message** keeps every node of the table at the JOIN reported last, whatever kind of
message it is. -/
theorem follows_updateNodes
    (h : ∀ id, Follows (joins id) (nodes.lookup id) (node.mNodeById.lookup id))
    {msg : TopologyMessage} (hfits : msg.AddressFits) :
    ∃ table, (updateNodes {} nodes msg).2.foldlM handle node =
        some { node with mNodeById := table } ∧
      ∀ id, Follows (joinsStep id (joins id) msg) ((updateNodes {} nodes msg).1.lookup id)
        (table.lookup id) := by
  cases hop : msg.op with
  | notSet =>
      refine ⟨node.mNodeById, by simp [updateNodes, hop], fun id => ?_⟩
      simpa [joinsStep, updateNodes, hop] using h id
  | topicChange change => exact follows_applyTopicChange h hop
  | nodeChange change =>
      rw [TopologyMessage.AddressFits, hop] at hfits
      exact follows_applyNodeChange h hop hfits

/-! ## Every log -/

/-- A node whose table follows what it was sent. -/
structure Routed (node : IPCNode) (log : List TopologyMessage) : Prop where
  follows : ∀ id, Follows (joinsSince id log) (node.mTopologyManager.mNodes.lookup id)
    (node.mNodeById.lookup id)
  handlers : node.mTopologyManager.handlers = {}
  nodes : node.mTopologyManager.mNodes = replay log

/-- A node that has just been created has heard nothing and knows nobody. -/
theorem create_routed (nodeId : UInt64) (nodeName dataPath : String) :
    (create nodeId nodeName dataPath).Routed [] where
  follows := fun _ => ⟨Finmap.lookup_empty _, Finmap.lookup_empty _⟩
  handlers := rfl
  nodes := rfl

/-- One more message, and the node has taken in one more.  `strcpy` stays within `sun_path`,
since the address fits. -/
theorem Routed.applyUpdate {log : List TopologyMessage} (h : node.Routed log)
    {msg : TopologyMessage} (hfits : msg.AddressFits) :
    ∃ node', node.applyUpdate msg = some node' ∧ node'.Routed (log ++ [msg]) := by
  obtain ⟨hfollows, hhandlers, hlisted⟩ := h
  obtain ⟨m, hm⟩ : ∃ m, m = (node.mTopologyManager.applyUpdate msg).1 := ⟨_, rfl⟩
  have hnodes : m.mNodes = (updateNodes {} node.mTopologyManager.mNodes msg).1 := by
    rw [hm, ← hhandlers]
    rfl
  have hcallbacks : (node.mTopologyManager.applyUpdate msg).2 =
      (updateNodes {} node.mTopologyManager.mNodes msg).2 := by
    rw [← hhandlers]
    rfl
  obtain ⟨table, hcalls, htable⟩ :=
    @follows_updateNodes { node with mTopologyManager := m } _ _ hfollows _ hfits
  refine ⟨{ node with mTopologyManager := m, mNodeById := table }, ?_, ?_, ?_, ?_⟩
  · simp only [IPCNode.applyUpdate, hcallbacks, ← hm]
    exact hcalls
  · intro id
    rw [hnodes, joinsSince, List.foldl_concat]
    exact htable id
  · rw [hm, ← hhandlers]
    rfl
  · rw [hnodes, hlisted, replay, replay, applyAll, applyAll, List.foldl_concat]

/-- And so for all messages a node is sent, one after the other. -/
theorem Routed.exec {log : List TopologyMessage} (h : node.Routed log)
    {msgs : List TopologyMessage} (hfits : ∀ msg ∈ msgs, msg.AddressFits) :
    ∃ node', GuardedRuns.exec IPCNode.applyUpdate node msgs = some node' ∧
      node'.Routed (log ++ msgs) := by
  induction msgs generalizing node log with
  | nil => exact ⟨node, rfl, by rwa [List.append_nil]⟩
  | cons msg msgs ih =>
      obtain ⟨node₁, hstep, hrouted⟩ := h.applyUpdate (hfits msg List.mem_cons_self)
      obtain ⟨node', hrun, hrouted'⟩ := ih hrouted fun msg' hmem =>
        hfits msg' (List.mem_cons_of_mem _ hmem)
      refine ⟨node', by rw [exec_cons, hstep]; exact hrun, ?_⟩
      rwa [List.append_assoc, List.singleton_append] at hrouted'

/-- The address on record is the one announced last, unless the node has gone back to what
it announced first. -/
theorem lastReported_address_iff (first : NodeChange) (later : List NodeChange) :
    (lastReported first later).address = (lastAnnounced first later).address ↔
      (first.otherThan (lastAnnounced first later)).isSome ∨
        ∀ join, lastWrite first.otherThan later = some join → join.address = first.address := by
  rcases List.eq_nil_or_concat later with rfl | ⟨before, join, rfl⟩
  · simp [lastReported, lastAnnounced]
  · have hlast : lastAnnounced first (before ++ [join]) = join := by simp [lastAnnounced]
    rw [List.concat_eq_append, lastReported, hlast, lastWrite_concat]
    by_cases hother : first.name ≠ join.name ∨ first.address ≠ join.address
    · simp [NodeChange.otherThan, hother]
    · have haddress : first.address = join.address := by
        by_contra hne
        exact hother (.inr hne)
      simp only [NodeChange.otherThan, if_neg hother, Option.none_or, Option.isSome_none,
        Bool.false_eq_true, false_or]
      rw [← haddress]
      cases lastWrite first.otherThan before <;> simp

/-- **Where a node is sent to.**  Whatever messages a node's manager applies, if the
addresses of the JOINs fit: its table has the nodes that are present, each under the name
and the address of the JOIN that was reported last, and the structure that `Publish`
passes to `sendto` holds that address and zeros.  That is the address announced last
exactly when the last JOIN says otherwise than the first, or the JOIN that was reported last
gave the address of the first. -/
theorem address_is_last_iff (nodeId : UInt64) (nodeName dataPath : String)
    (log : List TopologyMessage) (hfits : ∀ msg ∈ log, msg.AddressFits) :
    ∃ node, exec applyUpdate (create nodeId nodeName dataPath) log = some node ∧
      (∀ id, joinsSince id log = [] → node.mNodeById.lookup id = none) ∧
      ∀ id first later, joinsSince id log = first :: later →
        ∃ neighbor, node.mNodeById.lookup id = some neighbor ∧
          neighbor.Announced (lastReported first later) ∧
          (neighbor.path = (lastAnnounced first later).address ↔
            (first.otherThan (lastAnnounced first later)).isSome ∨
              ∀ join, lastWrite first.otherThan later = some join →
                join.address = first.address) := by
  obtain ⟨node, hrun, hrouted⟩ := (create_routed nodeId nodeName dataPath).exec hfits
  rw [List.nil_append] at hrouted
  refine ⟨node, hrun, fun id hnone => ?_, fun id first later hjoins => ?_⟩
  · have hfollows := hrouted.follows id
    rw [hnone] at hfollows
    exact hfollows.2
  · have hfollows := hrouted.follows id
    rw [hjoins] at hfollows
    obtain ⟨_, neighbor, _, hneighbor, _, hannounced⟩ := hfollows
    refine ⟨neighbor, hneighbor, hannounced, ?_⟩
    rw [hannounced.path]
    exact lastReported_address_iff first later

/-- Node 5 moves from one address to another and back. -/
def movesAndReturns : List TopologyMessage :=
  [{ seq := 1, op := .nodeChange { id := 5, op := .join, address := "a" } },
    { seq := 2, op := .nodeChange { id := 5, op := .join, address := "b" } },
    { seq := 3, op := .nodeChange { id := 5, op := .join, address := "a" } }]

/-- It is sent to at the address it has left. -/
theorem address_is_last_iff_movesAndReturns :
    ∃ node neighbor, exec applyUpdate (create 9 "nine" "") movesAndReturns = some node ∧
      node.mNodeById.lookup 5 = some neighbor ∧ neighbor.path = "b" := by
  have hfits : ∀ msg ∈ movesAndReturns, msg.AddressFits := by
    intro msg hmem
    simp only [movesAndReturns, List.mem_cons, List.not_mem_nil, or_false] at hmem
    rcases hmem with rfl | rfl | rfl <;> exact fun _ => by decide +kernel
  obtain ⟨node, hrun, _, hroutes⟩ := address_is_last_iff 9 "nine" "" movesAndReturns hfits
  obtain ⟨neighbor, hneighbor, hannounced, _⟩ := hroutes 5 { id := 5, op := .join, address := "a" }
    [{ id := 5, op := .join, address := "b" }, { id := 5, op := .join, address := "a" }] rfl
  exact ⟨node, neighbor, hrun, hneighbor, hannounced.path⟩

end IPCNode

end IpcPubsub
