import IpcPubsub.TopologyServer
import IpcPubsub.ReferenceTopology

/-!
# What pruning removes

`PruneRemoved` collects the nodes that have a LEAVE and filters the history
with that set.  LEAVEs themselves always stay, so pruning never changes the set
it filters with: it is idempotent, and appending a LEAVE is the only way to make
more messages go.

`entryAfter_filter_keeps` says what it does to the topology a history stands
for.  A node that has a LEAVE disappears.  Any other node keeps its entry, but
once node 1 has a LEAVE it loses all its topics: the second loop counts the
comparison `node_id() > 0`, not the id.
-/

namespace IpcPubsub

open FiniteMap

namespace TopologyServer

variable {id : UInt64} {history more : List TopologyMessage} {msg : TopologyMessage}

/-- What one message adds to the nodes that have left. -/
theorem mem_noteLeft {left : Finset UInt64} :
    id ∈ noteLeft left msg ↔ id ∈ left ∨ msg.LeaveOf id := by
  cases hop : msg.op with
  | nodeChange change =>
      by_cases hleave : change.op = .leave
      · simp [noteLeft, TopologyMessage.LeaveOf, hop, hleave, eq_comm, or_comm]
      · simp [noteLeft, TopologyMessage.LeaveOf, hop, hleave]
  | _ => simp [noteLeft, TopologyMessage.LeaveOf, hop]

/-- The collected nodes are those with a LEAVE. -/
theorem mem_leftNodes : id ∈ leftNodes history ↔ ∃ msg ∈ history, msg.LeaveOf id := by
  suffices h : ∀ left : Finset UInt64,
      id ∈ history.foldl noteLeft left ↔ id ∈ left ∨ ∃ msg ∈ history, msg.LeaveOf id by
    simpa [leftNodes] using h ∅
  induction history with
  | nil => simp
  | cons msg history ih =>
      intro left
      rw [List.foldl_cons, ih, mem_noteLeft]
      simp [or_assoc]

/-- The nodes that have left in a history, part by part. -/
theorem leftNodes_append :
    leftNodes (history ++ more) = leftNodes history ∪ leftNodes more := by
  ext id
  simp [mem_leftNodes, or_and_right, exists_or]

/-- Where there is no LEAVE, nobody has left. -/
theorem leftNodes_eq_empty (h : ∀ msg ∈ history, ∀ id, ¬ msg.LeaveOf id) :
    leftNodes history = ∅ := by
  ext id
  simp only [mem_leftNodes, Finset.notMem_empty, iff_false]
  rintro ⟨msg, hmem, hleave⟩
  exact h msg hmem id hleave

/-- A LEAVE is never removed. -/
theorem keeps_leave {left : Finset UInt64} (h : msg.LeaveOf id) : keeps left msg = true := by
  obtain ⟨change, hop, hchange, _⟩ := MessageOp.reports_iff.mp h
  simp [keeps, hop, hchange]

/-- A message is removed only on behalf of some collected node. -/
@[simp] theorem keeps_empty : keeps ∅ msg = true := by
  cases hop : msg.op <;> simp [keeps, hop]

/-- The more nodes have left, the less is kept. -/
theorem keeps_anti {left left' : Finset UInt64} (h : left ⊆ left')
    (hkeeps : keeps left' msg = true) : keeps left msg = true := by
  cases hop : msg.op with
  | notSet => simp [keeps, hop]
  | topicChange change =>
      simp only [keeps, hop, Bool.not_eq_true', decide_eq_false_iff_not] at hkeeps ⊢
      exact fun hmem => hkeeps (h hmem)
  | nodeChange change =>
      simp only [keeps, hop, Bool.not_eq_true', Bool.and_eq_false_iff,
        decide_eq_false_iff_not] at hkeeps ⊢
      exact hkeeps.imp_left fun hnot hmem => hnot (h hmem)

/-- A JOIN is kept unless its node has left. -/
theorem keeps_join {left : Finset UInt64} (h : msg.JoinOf id) :
    keeps left msg = true ↔ id ∉ left := by
  obtain ⟨change, hop, hchange, rfl⟩ := MessageOp.reports_iff.mp h
  simp [keeps, hop, hchange]

/-- What is in the history after the pruning. -/
theorem mem_pruneRemoved :
    msg ∈ pruneRemoved history ↔ msg ∈ history ∧ keeps (leftNodes history) msg = true := by
  simp [pruneRemoved]

/-- `PruneRemoved` leaves the order as it is. -/
theorem pruneRemoved_sublist : (pruneRemoved history).Sublist history :=
  List.filter_sublist

/-- The LEAVEs are kept, so the same nodes have left afterwards. -/
@[simp] theorem leftNodes_pruneRemoved :
    leftNodes (pruneRemoved history) = leftNodes history := by
  ext id
  rw [mem_leftNodes, mem_leftNodes]
  constructor
  · rintro ⟨msg, hmem, hleave⟩
    exact ⟨msg, (mem_pruneRemoved.mp hmem).1, hleave⟩
  · rintro ⟨msg, hmem, hleave⟩
    exact ⟨msg, mem_pruneRemoved.mpr ⟨hmem, keeps_leave hleave⟩, hleave⟩

/-- **Pruning is idempotent.** -/
@[simp] theorem pruneRemoved_pruneRemoved :
    pruneRemoved (pruneRemoved history) = pruneRemoved history := by
  rw [pruneRemoved, leftNodes_pruneRemoved, pruneRemoved, List.filter_filter]
  simp

/-- Nothing is pruned exactly when all of it is to be kept. -/
theorem pruneRemoved_eq_self_iff :
    pruneRemoved history = history ↔ ∀ msg ∈ history, keeps (leftNodes history) msg = true :=
  List.filter_eq_self

/-- A node that has a LEAVE has no JOIN left after pruning. -/
theorem not_joinOf_of_mem_pruneRemoved (hmem : msg ∈ pruneRemoved history)
    (hleft : id ∈ leftNodes history) : ¬ msg.JoinOf id := by
  intro hjoin
  exact (keeps_join hjoin).mp (mem_pruneRemoved.mp hmem).2 hleft

/-- A JOIN goes only when its node has a LEAVE. -/
theorem join_mem_pruneRemoved (hmem : msg ∈ history) (hjoin : msg.JoinOf id)
    (hleft : id ∉ leftNodes history) : msg ∈ pruneRemoved history :=
  mem_pruneRemoved.mpr ⟨hmem, (keeps_join hjoin).mpr hleft⟩

end TopologyServer

/-! ## What the purge looks at -/

namespace TopologyServer

variable {id : UInt64} {history : List TopologyMessage} {msg : TopologyMessage}

/-- What one message makes of the nodes that are active. -/
theorem mem_noteActive {active : Finset UInt64} :
    id ∈ noteActive active msg ↔ msg.JoinOf id ∨ id ∈ active ∧ ¬ msg.LeaveOf id := by
  cases hop : msg.op with
  | nodeChange change =>
      cases hchange : change.op <;>
        simp [noteActive, TopologyMessage.JoinOf, TopologyMessage.LeaveOf, hop, hchange, eq_comm,
          and_comm]
  | _ => simp [noteActive, TopologyMessage.JoinOf, TopologyMessage.LeaveOf, hop]

/-- **The active nodes are those of the topology the history stands for.** -/
theorem mem_historicallyActive :
    id ∈ historicallyActive history ↔ (entryAfter id none history).isSome := by
  suffices h : ∀ (active : Finset UInt64) (entry : Option Node), (id ∈ active ↔ entry.isSome) →
      (id ∈ history.foldl noteActive active ↔ (entryAfter id entry history).isSome) from
    h ∅ none (by simp)
  induction history with
  | nil => exact fun active entry h => h
  | cons msg history ih =>
      intro active entry h
      rw [List.foldl_cons, entryAfter_cons]
      refine ih _ _ ?_
      rw [mem_noteActive, h, stepNode_isSome_iff]

/-- A node is active only where it has joined. -/
theorem exists_join_of_active (h : id ∈ historicallyActive history) :
    ∃ msg ∈ history, msg.JoinOf id := by
  by_contra hnone
  push Not at hnone
  rw [mem_historicallyActive, entryAfter_none hnone] at h
  cases h

end TopologyServer

/-! ## The topology of a pruned history -/

open TopologyServer

/-- The entry of a node with its topics forgotten. -/
def Node.clearTopics (node : Node) : Node :=
  { node with publications := ∅, subscriptions := ∅ }

/-- A node has no topics exactly when clearing them does nothing. -/
theorem Node.clearTopics_eq_self_iff {node : Node} :
    node.clearTopics = node ↔ node.publications = ∅ ∧ node.subscriptions = ∅ := by
  cases node
  simp [Node.clearTopics, eq_comm]

/-- Messages other than topic changes do the same to a node without its topics. -/
theorem stepNode_clearTopics {id : UInt64} {entry : Option Node} {msg : TopologyMessage}
    (h : ∀ change, msg.op ≠ .topicChange change) :
    stepNode id (entry.map Node.clearTopics) msg =
      (stepNode id entry msg).map Node.clearTopics := by
  cases hop : msg.op with
  | notSet => simp [stepNode, hop]
  | topicChange change => exact absurd hop (h change)
  | nodeChange change =>
      by_cases hid : change.id = id
      · cases hchange : change.op <;> cases entry <;>
          simp [stepNode, hop, hid, hchange, Node.clearTopics]
      · simp [stepNode, hop, hid]

/-- Forgetting the topics afterwards undoes a topic change. -/
theorem stepNode_topicChange_clearTopics {id : UInt64} {entry : Option Node}
    {msg : TopologyMessage} {change : TopicChange} (hop : msg.op = .topicChange change) :
    (stepNode id entry msg).map Node.clearTopics = entry.map Node.clearTopics := by
  by_cases hid : change.nodeId = id
  · cases entry with
    | none => simp [stepNode, hop]
    | some node =>
        obtain ⟨hid', hname, haddress⟩ := node.applyTopicChange_frame change
        simp [stepNode, hop, hid, Node.clearTopics, hid', hname, haddress]
  · simp [stepNode, hop, hid]

/-- Leaving out all topic changes of a node leaves out its topics. -/
theorem entryAfter_filter_topics {id : UInt64} {p : TopologyMessage → Bool}
    {history : List TopologyMessage}
    (hnode : ∀ msg ∈ history, msg.nodeId = id → (∀ change, msg.op ≠ .topicChange change) →
      p msg = true)
    (htopic : ∀ msg ∈ history, ∀ change, msg.op = .topicChange change →
      change.nodeId = id → p msg = false) (entry : Option Node) :
    entryAfter id (entry.map Node.clearTopics) (history.filter p) =
      (entryAfter id entry history).map Node.clearTopics := by
  induction history generalizing entry with
  | nil => rfl
  | cons msg history ih =>
      have htail := ih (fun m hm => hnode m (List.mem_cons_of_mem _ hm))
        (fun m hm => htopic m (List.mem_cons_of_mem _ hm)) (stepNode id entry msg)
      rw [entryAfter_cons, ← htail]
      by_cases hid : msg.nodeId = id
      · cases hop : msg.op with
        | topicChange change =>
            have hchange : change.nodeId = id := by
              rw [← hid, TopologyMessage.nodeId, hop, MessageOp.nodeId]
            have hp := htopic msg List.mem_cons_self change hop hchange
            rw [List.filter_cons_of_neg (by simp [hp]),
              stepNode_topicChange_clearTopics hop]
        | _ =>
            have hno : ∀ change, msg.op ≠ .topicChange change := by simp [hop]
            have hp := hnode msg List.mem_cons_self hid hno
            rw [List.filter_cons_of_pos hp, entryAfter_cons, stepNode_clearTopics hno]
      · rw [stepNode_of_ne hid]
        cases hp : p msg with
        | true =>
            rw [List.filter_cons_of_pos hp, entryAfter_cons, stepNode_of_ne hid]
        | false => rw [List.filter_cons_of_neg (by simp [hp])]

/-- **What pruning does to the topology.**  A node that has left is gone; of the
others, those with a nonzero id lose their topics once node 1 has left. -/
theorem entryAfter_filter_keeps (id : UInt64) (left : Finset UInt64)
    (history : List TopologyMessage) :
    entryAfter id none (history.filter (keeps left)) =
      if id ∈ left then none
      else if 0 < id ∧ 1 ∈ left then (entryAfter id none history).map Node.clearTopics
      else entryAfter id none history := by
  split
  · rename_i hleft
    refine entryAfter_none fun msg hmem hjoin => ?_
    exact (keeps_join hjoin).mp (List.mem_filter.mp hmem).2 hleft
  · rename_i hleft
    split
    · rename_i hone
      refine entryAfter_filter_topics ?_ ?_ none
      · intro msg _ hid hno
        cases hop : msg.op with
        | notSet => simp [keeps, hop]
        | topicChange change => exact absurd hop (hno change)
        | nodeChange change =>
            have hchange : change.id = id := by
              rw [← hid, TopologyMessage.nodeId, hop, MessageOp.nodeId]
            simp [keeps, hop, hchange, hleft]
      · intro msg _ change hop hchange
        simp [keeps, hop, hchange, hone.1, hone.2]
    · rename_i hone
      refine entryAfter_filter ?_
      intro msg _ hp hid
      cases hop : msg.op with
      | notSet => simp [keeps, hop] at hp
      | nodeChange change =>
          have hchange : change.id = id := by
            rw [← hid, TopologyMessage.nodeId, hop, MessageOp.nodeId]
          simp [keeps, hop, hchange, hleft] at hp
      | topicChange change =>
          have hchange : change.nodeId = id := by
            rw [← hid, TopologyMessage.nodeId, hop, MessageOp.nodeId]
          by_cases hpos : 0 < id
          · have hone' : 1 ∉ left := fun h => hone ⟨hpos, h⟩
            simp [keeps, hop, hchange, hpos, hone'] at hp
          · have hzero : id = 0 := by
              by_contra hne
              exact hpos (WordOrder.word_pos_iff.mpr hne)
            subst hzero
            simp [keeps, hop, hchange, hleft] at hp

end IpcPubsub
