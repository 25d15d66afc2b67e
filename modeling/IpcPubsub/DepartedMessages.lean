import IpcPubsub.HubMemory

/-!
# Pruning and the nodes that have left

`PruneRemoved` is meant to remove what departed nodes said, apart from their
LEAVEs.  For node changes it does.  For topic changes its second loop counts the
comparison `node_id() > 0` instead of the id, so the topics of every node go
when node 1 has left, and otherwise none do.  The two agree on a history exactly
when every topic change of it is by a node that left if and only if node 1 did.
-/

namespace IpcPubsub

namespace TopologyServer

variable {left : Finset UInt64} {history : List TopologyMessage} {msg : TopologyMessage}

/-- What should stay once the nodes of `left` have left: the LEAVEs, and
everything that is not about one of them. -/
def staysWithout (left : Finset UInt64) (msg : TopologyMessage) : Bool :=
  match msg.op with
  | .nodeChange change => decide (change.op = .leave ∨ change.id ∉ left)
  | .topicChange change => decide (change.nodeId ∉ left)
  | .notSet => true

/-- What pruning a history should result in. -/
structure PrunesDeparted (left : Finset UInt64) (history result : List TopologyMessage) :
    Prop where
  kept : result = history.filter (staysWithout left)
  untouched : ∀ id, id ∉ left →
    result.filter (fun msg => msg.nodeId = id) = history.filter (fun msg => msg.nodeId = id)
  idempotent : pruneRemoved result = result

/-- Node changes are told apart as they should be. -/
theorem keeps_nodeChange {change : NodeChange} (hop : msg.op = .nodeChange change) :
    keeps left msg = staysWithout left msg := by
  by_cases hleft : change.id ∈ left <;> by_cases hleave : change.op = .leave <;>
    simp [keeps, staysWithout, hop, hleft, hleave]

/-- Without the nodes that have left, the topic changes of the others stay. -/
theorem staysWithout_topicChange {change : TopicChange} (hop : msg.op = .topicChange change) :
    staysWithout left msg = true ↔ change.nodeId ∉ left := by
  simp [staysWithout, hop]

/-- A topic change is treated as if it were one of node 1. -/
theorem keeps_topicChange_iff {change : TopicChange} (hop : msg.op = .topicChange change) :
    keeps left msg = staysWithout left msg ↔
      (change.nodeId ≠ 0 → (1 ∈ left ↔ change.nodeId ∈ left)) := by
  rw [Bool.eq_iff_iff, keeps_topicChange hop, staysWithout_topicChange hop, not_iff_not]
  by_cases hzero : change.nodeId = 0
  · have hcounted : counted change.nodeId = change.nodeId := by simp [counted, hzero]
    rw [hcounted]
    exact ⟨fun _ hne => absurd hzero hne, fun _ => Iff.rfl⟩
  · have hcounted : counted change.nodeId = 1 :=
      if_pos (WordOrder.word_pos_iff.mpr hzero)
    rw [hcounted]
    exact ⟨fun h _ => h, fun h => h hzero⟩

/-- A message of a node that has not left should stay. -/
theorem staysWithout_of_not_mem (h : msg.nodeId ∉ left) : staysWithout left msg = true := by
  cases hop : msg.op with
  | notSet => simp [staysWithout, hop]
  | nodeChange change =>
      have hid : change.id ∉ left := by
        simpa [TopologyMessage.nodeId, MessageOp.nodeId, hop] using h
      simp [staysWithout, hop, hid]
  | topicChange change =>
      have hid : change.nodeId ∉ left := by
        simpa [TopologyMessage.nodeId, MessageOp.nodeId, hop] using h
      simp [staysWithout, hop, hid]

/-- Two filters of a list agree exactly when they agree on its elements. -/
theorem filter_eq_filter_iff {α : Type*} {p q : α → Bool} {l : List α} :
    l.filter p = l.filter q ↔ ∀ a ∈ l, p a = q a := by
  constructor
  · intro h a hmem
    have hiff : a ∈ l.filter p ↔ a ∈ l.filter q := by rw [h]
    rw [List.mem_filter, List.mem_filter, and_iff_right hmem, and_iff_right hmem] at hiff
    exact Bool.eq_iff_iff.mpr hiff
  · exact List.filter_congr

/-- **Pruning, exactly.**  With `left` the nodes that have a LEAVE in the
history, `PruneRemoved` keeps what should stay, leaves the messages of all other
nodes alone and is idempotent, exactly when every topic change in the history of
a node other than 0 is by a node that left if and only if node 1 left. -/
theorem pruneRemoved_departed_iff (history : List TopologyMessage) (left : Finset UInt64)
    (hleft : ∀ id, id ∈ left ↔ ∃ msg ∈ history, msg.LeaveOf id) :
    PrunesDeparted left history (pruneRemoved history) ↔
      ∀ msg ∈ history, ∀ change, msg.op = .topicChange change → change.nodeId ≠ 0 →
        (1 ∈ left ↔ change.nodeId ∈ left) := by
  have hcollected : leftNodes history = left := by
    ext id
    rw [mem_leftNodes, hleft]
  have hpruned : pruneRemoved history = history.filter (keeps left) := by
    rw [pruneRemoved, hcollected]
  constructor
  · intro h msg hmem change hop
    have hkept := h.kept
    rw [hpruned, filter_eq_filter_iff] at hkept
    exact (keeps_topicChange_iff hop).mp (hkept msg hmem)
  · intro h
    have hkept : history.filter (keeps left) = history.filter (staysWithout left) := by
      refine filter_eq_filter_iff.mpr fun msg hmem => ?_
      cases hop : msg.op with
      | notSet => simp [keeps, staysWithout, hop]
      | nodeChange change => exact keeps_nodeChange hop
      | topicChange change => exact (keeps_topicChange_iff hop).mpr (h msg hmem change hop)
    refine ⟨by rw [hpruned, hkept], ?_, pruneRemoved_pruneRemoved⟩
    intro id hid
    rw [hpruned, hkept, List.filter_filter]
    refine filter_eq_filter_iff.mpr fun msg _ => ?_
    by_cases hmsg : msg.nodeId = id
    · simp [hmsg, staysWithout_of_not_mem (hmsg ▸ hid : msg.nodeId ∉ left)]
    · simp [hmsg]

/-- Node 5 joins and leaves, and node 6 subscribes. -/
def joinedAndLeft : List TopologyMessage :=
  [{ seq := 1, uid := 7, op := .nodeChange { id := 5, op := .join } },
    { seq := 2, uid := 8, op := .topicChange { name := "t", nodeId := 6, op := .subscribe } },
    { seq := 3, op := .nodeChange { id := 5, op := .leave } }]

/-- Node 5 has left and its JOIN goes; the subscription of node 6 stays. -/
theorem pruneRemoved_departed_iff_joinedAndLeft :
    PrunesDeparted {5} joinedAndLeft (pruneRemoved joinedAndLeft) := by
  refine (pruneRemoved_departed_iff joinedAndLeft {5} ?_).mpr ?_
  · intro id
    simp [joinedAndLeft, TopologyMessage.LeaveOf, eq_comm]
  · intro msg hmem change hop _
    obtain rfl : change = { name := "t", nodeId := 6, op := .subscribe } := by
      simp only [joinedAndLeft, List.mem_cons, List.not_mem_nil, or_false] at hmem
      rcases hmem with rfl | rfl | rfl <;> simp_all
    decide

/-- Node 5 subscribes and leaves. -/
def subscribedAndLeft : List TopologyMessage :=
  [{ seq := 1, uid := 7, op := .topicChange { name := "t", nodeId := 5, op := .subscribe } },
    { seq := 2, op := .nodeChange { id := 5, op := .leave } }]

/-- The SUBSCRIBE of the departed node stays. -/
theorem subscribedAndLeft_keeps_topic :
    (∀ id, id ∈ ({5} : Finset UInt64) ↔ ∃ msg ∈ subscribedAndLeft, msg.LeaveOf id) ∧
      ¬ PrunesDeparted {5} subscribedAndLeft (pruneRemoved subscribedAndLeft) := by
  constructor
  · intro id
    simp [subscribedAndLeft, TopologyMessage.LeaveOf, eq_comm]
  · intro h
    have hkept := h.kept
    revert hkept
    decide +kernel

end TopologyServer

end IpcPubsub
