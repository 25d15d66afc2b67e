import IpcPubsub.FaithfulLog
import IpcPubsub.Reconnect

/-!
# Arrival order and stored order

`ApplyUpdate` changes `mNodes` as messages arrive and stores them by sequence
number.  The history is what the manager seeds a hub with and what it re-sends,
so applying it in its stored order should give the topology the manager
reports.

Sequence numbers of different hubs have nothing to do with each other, and the
insertion looks at nothing else.  A message that arrives late is stored in front
of everything that has the same number or a larger one, as if it had come
before.  `stored_order_iff` says exactly when this does no harm: each message
must be `InOrder` with what is stored behind it.
-/

namespace IpcPubsub

open GuardedRuns CursorLog LastWrite LowerBound

namespace TopologyManager

/-- The history is sorted by sequence number. -/
def Sorted (m : TopologyManager) : Prop :=
  m.mHistory.Pairwise fun msg msg' => msg.seq ≤ msg'.seq

/-- What is held under a smaller number than the message. -/
def earlier (m : TopologyManager) (msg : TopologyMessage) : List TopologyMessage :=
  m.mHistory.filter fun held => decide (held.seq < msg.seq)

/-- What is held under the number of the message or a larger one. -/
def later (m : TopologyManager) (msg : TopologyMessage) : List TopologyMessage :=
  m.mHistory.filter fun held => !decide (held.seq < msg.seq)

variable {m : TopologyManager} {msg : TopologyMessage}

/-- A sorted history is partitioned by any number, as the binary search needs it. -/
theorem Sorted.partitioned (h : m.Sorted) (seq : UInt64) :
    Partitioned (fun held : TopologyMessage => decide (held.seq < seq)) m.mHistory :=
  List.Pairwise.imp (fun hle hlt => by
    simp only [decide_eq_true_eq] at hlt ⊢
    exact lt_of_le_of_lt hle hlt) h

/-- The messages before the place of a new one, and those behind. -/
theorem Sorted.earlier_append_later (h : m.Sorted) (msg : TopologyMessage) :
    m.earlier msg ++ m.later msg = m.mHistory :=
  (h.partitioned msg.seq).filter_append_filter

/-- **Where a message is stored.** -/
theorem Sorted.applyUpdate_mHistory (h : m.Sorted) (msg : TopologyMessage) :
    (m.applyUpdate msg).1.mHistory = m.earlier msg ++ msg :: m.later msg :=
  (h.partitioned msg.seq).insertIdx_lowerBound msg

/-- A message is inserted where it belongs, before those with the same or a larger number. -/
theorem Sorted.applyUpdate (h : m.Sorted) (msg : TopologyMessage) :
    (m.applyUpdate msg).1.Sorted := by
  unfold Sorted
  rw [h.applyUpdate_mHistory msg]
  have hearlier : ∀ held ∈ m.earlier msg, held.seq < msg.seq :=
    fun held hmem => of_decide_eq_true (List.mem_filter.mp hmem).2
  have hlater : ∀ held ∈ m.later msg, msg.seq ≤ held.seq := by
    intro held hmem
    have hnot := (List.mem_filter.mp hmem).2
    simpa using hnot
  refine List.pairwise_append.mpr ⟨h.filter _, ?_, ?_⟩
  · exact List.pairwise_cons.mpr ⟨hlater, h.filter _⟩
  · intro held hheld held' hheld'
    rcases List.mem_cons.mp hheld' with rfl | hheld'
    · exact le_of_lt (hearlier held hheld)
    · exact le_trans (le_of_lt (hearlier held hheld)) (hlater held' hheld')

/-- The map the manager keeps is the one its history builds. -/
def Consistent (m : TopologyManager) : Prop :=
  m.mNodes = replay m.mHistory

instance : DecidablePred Consistent := fun m =>
  inferInstanceAs (Decidable (m.mNodes = replay m.mHistory))

end TopologyManager

/-! ## Storing a message in front of others -/

/-- The message may as well come before `later` as after it, given that
`earlier` has come before both.

A LEAVE: the node is not back.  A JOIN: the node was there before and still is;
or it came later, and what came later overwrites the entry of this JOIN; or it
never came, and nothing later is about its topics.  A topic change: the node is
not there; or it has been all along, and no later change wrote the same topic
differently; or it left and came back, and the change is in effect anyway. -/
def InOrder (earlier later : List TopologyMessage) (msg : TopologyMessage) : Prop :=
  match msg.op with
  | .nodeChange change =>
      match change.op with
      | .leave => change.id ∉ replay later
      | .join =>
          change.id ∈ replay earlier ∧ change.id ∈ replay (earlier ++ later) ∨
          change.id ∉ replay earlier ∧ change.id ∈ replay (earlier ++ later) ∧
            Overwrites change.id
              { id := change.id, name := change.name, address := change.address } later ∨
          change.id ∉ replay earlier ∧ change.id ∉ replay (earlier ++ later) ∧
            (∀ held ∈ later, ¬ held.LeaveOf change.id) ∧
            ∀ topic, (lastWrite (publishes change.id topic) later).getD none = none ∧
              (lastWrite (subscribes change.id topic) later).getD false = false
      | _ => True
  | .topicChange change =>
      change.nodeId ∉ replay (earlier ++ later) ∨
        if change.nodeId ∈ replay earlier ∧ ∀ held ∈ later, ¬ held.LeaveOf change.nodeId then
          ∀ topic,
            (∀ value, publishes change.nodeId topic msg = some value →
              (lastWrite (publishes change.nodeId topic) later).getD value = value) ∧
            ∀ value, subscribes change.nodeId topic msg = some value →
              (lastWrite (subscribes change.nodeId topic) later).getD value = value
        else InEffect (earlier ++ later) msg
  | .notSet => True

section InOrder

variable {id : UInt64} {node : Node} {earlier later : List TopologyMessage} {msg : TopologyMessage}

/-- Messages leave an entry as it is exactly when the last ones about its topics
write what is there. -/
theorem Node.foldl_step_eq_self_iff (hkeyed : node.Keyed) (log : List TopologyMessage) :
    log.foldl (Node.step id) node = node ↔ ∀ topic,
      (lastWrite (publishes id topic) log).getD (node.publications.lookup topic) =
          node.publications.lookup topic ∧
        (lastWrite (subscribes id topic) log).getD (decide (topic ∈ node.subscriptions)) =
          decide (topic ∈ node.subscriptions) := by
  rw [Node.eq_iff, and_iff_right (Node.foldl_step_frame log)]
  simp only [Node.lookup_publications_foldl hkeyed, Node.mem_subscriptions_foldl]

/-- A topic change may be moved in front of others that do not write the same
topic differently. -/
theorem Node.foldl_step_comm_iff (hkeyed : node.Keyed) (log : List TopologyMessage) :
    (log.foldl (Node.step id) node).step id msg = log.foldl (Node.step id) (node.step id msg) ↔
      ∀ topic,
        (∀ value, publishes id topic msg = some value →
          (lastWrite (publishes id topic) log).getD value = value) ∧
        ∀ value, subscribes id topic msg = some value →
          (lastWrite (subscribes id topic) log).getD value = value := by
  have hpub : ∀ topic,
      ((log.foldl (Node.step id) node).step id msg).publications.lookup topic =
          (log.foldl (Node.step id) (node.step id msg)).publications.lookup topic ↔
        ∀ value, publishes id topic msg = some value →
          (lastWrite (publishes id topic) log).getD value = value := by
    intro topic
    rw [Node.lookup_publications_step (hkeyed.foldl_step log),
      Node.lookup_publications_foldl hkeyed, Node.lookup_publications_foldl (hkeyed.step msg),
      Node.lookup_publications_step hkeyed]
    cases publishes id topic msg <;> simp [eq_comm]
  have hsub : ∀ topic,
      decide (topic ∈ ((log.foldl (Node.step id) node).step id msg).subscriptions) =
          decide (topic ∈ (log.foldl (Node.step id) (node.step id msg)).subscriptions) ↔
        ∀ value, subscribes id topic msg = some value →
          (lastWrite (subscribes id topic) log).getD value = value := by
    intro topic
    rw [Node.mem_subscriptions_step, Node.mem_subscriptions_foldl, Node.mem_subscriptions_foldl,
      Node.mem_subscriptions_step]
    cases subscribes id topic msg <;> simp [eq_comm]
  have hafter := @Node.step_frame id (log.foldl (Node.step id) node) msg
  have hlog := @Node.foldl_step_frame id node log
  have hfirst := @Node.step_frame id node msg
  have hlater := @Node.foldl_step_frame id (node.step id msg) log
  rw [Node.eq_iff, and_iff_right]
  · exact forall_congr' fun topic => and_congr (hpub topic) (hsub topic)
  · refine ⟨?_, ?_, ?_⟩
    · rw [hafter.1, hlog.1, hlater.1, hfirst.1]
    · rw [hafter.2.1, hlog.2.1, hlater.2.1, hfirst.2.1]
    · rw [hafter.2.2, hlog.2.2, hlater.2.2, hfirst.2.2]

/-- The entry a log builds is well formed. -/
theorem keyed_of_entryAfter {log : List TopologyMessage}
    (h : entryAfter id none log = some node) : node.Keyed := by
  have hreflects := replay_reference id log
  rw [lookup_replay, h] at hreflects
  generalize sincePresent id log = since at hreflects
  cases hreflects with
  | some hreflects => exact hreflects.keyed

/-- A LEAVE. -/
theorem commutes_leave_iff {entry : Option Node} (hleave : msg.LeaveOf id) :
    stepNode id (entryAfter id entry later) msg = entryAfter id (stepNode id entry msg) later ↔
      id ∉ replay later := by
  rw [stepNode_leave hleave, stepNode_leave hleave, not_mem_replay, eq_comm]

/-- When a JOIN may come late: the node is present before and after, or what came earlier than it
overwrites or ends all it says. -/
theorem commutes_join_iff {change : NodeChange} (hop : msg.op = .nodeChange change)
    (hjoin : change.op = .join) (hid : change.id = id) :
    stepNode id (entryAfter id none (earlier ++ later)) msg =
        entryAfter id (stepNode id (entryAfter id none earlier) msg) later ↔
      (id ∈ replay earlier ∧ id ∈ replay (earlier ++ later) ∨
        id ∉ replay earlier ∧ id ∈ replay (earlier ++ later) ∧
          Overwrites id { id := id, name := change.name, address := change.address } later ∨
        id ∉ replay earlier ∧ id ∉ replay (earlier ++ later) ∧
          (∀ held ∈ later, ¬ held.LeaveOf id) ∧
          ∀ topic, (lastWrite (publishes id topic) later).getD none = none ∧
            (lastWrite (subscribes id topic) later).getD false = false) := by
  have hjoinOf : msg.JoinOf id := MessageOp.reports_iff.mpr ⟨change, hop, hjoin, hid⟩
  let fresh : Node := { id := id, name := change.name, address := change.address }
  have hfresh : stepNode id none msg = some fresh := by
    simp [stepNode, hop, hjoin, hid, fresh]
  have hkeyed : fresh.Keyed := (Node.Reflects.fresh change.name change.address).keyed
  rw [mem_replay, mem_replay, entryAfter_append]
  cases hearlier : entryAfter id none earlier with
  | some node =>
      -- stored in front it changes nothing
      rw [stepNode_join_some hjoinOf]
      cases hwhole : entryAfter id (some node) later with
      | some node' => simp [stepNode_join_some hjoinOf]
      | none => simp [hfresh]
  | none =>
      rw [hfresh]
      cases hwhole : entryAfter id none later with
      | some node' =>
          rw [stepNode_join_some hjoinOf, ← hwhole, eq_comm,
            entryAfter_eq_iff_overwrites hkeyed rfl]
          simp [hwhole, fresh]
      | none =>
          rw [hfresh]
          by_cases hleave : ∃ held ∈ later, held.LeaveOf id
          · obtain ⟨held, hmem, hheld⟩ := hleave
            rw [entryAfter_eq_of_leave hmem hheld _ none, hwhole]
            simp only [Option.isSome_none, Bool.false_eq_true, false_and, not_false_eq_true,
              true_and, false_or, reduceCtorEq, false_iff]
            exact fun hboth => hboth.1 held hmem hheld
          · have hstay : ∀ held ∈ later, ¬ held.LeaveOf id :=
              fun held hmem hheld => hleave ⟨held, hmem, hheld⟩
            rw [entryAfter_some hstay, Option.some.injEq, eq_comm,
              Node.foldl_step_eq_self_iff hkeyed]
            simp only [Option.isSome_none, Bool.false_eq_true, false_and, not_false_eq_true,
              true_and, false_or, fresh, Finmap.lookup_empty, Finset.notMem_empty, decide_false]
            exact ⟨fun h => ⟨hstay, h⟩, fun h => h.2⟩

/-- When a topic change may come late: the node is not there in the end, or what the messages
ahead of it say of the topic is the same. -/
theorem commutes_topic_iff {change : TopicChange} (hop : msg.op = .topicChange change)
    (hid : change.nodeId = id) :
    stepNode id (entryAfter id none (earlier ++ later)) msg =
        entryAfter id (stepNode id (entryAfter id none earlier) msg) later ↔
      (id ∉ replay (earlier ++ later) ∨
        if id ∈ replay earlier ∧ ∀ held ∈ later, ¬ held.LeaveOf id then
          ∀ topic,
            (∀ value, publishes id topic msg = some value →
              (lastWrite (publishes id topic) later).getD value = value) ∧
            ∀ value, subscribes id topic msg = some value →
              (lastWrite (subscribes id topic) later).getD value = value
        else InEffect (earlier ++ later) msg) := by
  have hnode : msg.nodeId = id := by
    rw [TopologyMessage.nodeId, hop]
    exact hid
  have hnotJoin : ¬ msg.JoinOf id := by simp [TopologyMessage.JoinOf, hop]
  have hnotLeave : ¬ msg.LeaveOf id := by simp [TopologyMessage.LeaveOf, hop]
  have heffect : stepNode id (entryAfter id none (earlier ++ later)) msg =
      entryAfter id none (earlier ++ later) ↔ InEffect (earlier ++ later) msg := by
    have hiff := @stepNode_eq_self_iff (earlier ++ later) msg
    rw [hnode] at hiff
    exact hiff hnotLeave fun hjoin => absurd hjoin hnotJoin
  by_cases hwhole : entryAfter id none (earlier ++ later) = none
  · -- an absent node stays absent either way
    refine iff_of_true ?_ (Or.inl (not_mem_replay.mpr hwhole))
    have hstart : (stepNode id (entryAfter id none earlier) msg).isSome ↔
        (entryAfter id none earlier).isSome := by
      simp [stepNode_isSome_iff, hnotJoin, hnotLeave]
    have hsame := @entryAfter_isSome_congr id _ _ hstart later
    rw [← entryAfter_append, hwhole] at hsame
    rw [hwhole, stepNode_none hnotJoin, eq_comm, ← Option.not_isSome_iff_eq_none, hsame]
    simp
  · rw [not_mem_replay, or_iff_right hwhole]
    split
    · rename_i hkept
      obtain ⟨node, hearlier⟩ := Option.isSome_iff_exists.mp (mem_replay.mp hkept.1)
      rw [entryAfter_append, hearlier, entryAfter_some hkept.2, stepNode_some hnotLeave,
        stepNode_some hnotLeave, entryAfter_some hkept.2, Option.some.injEq,
        Node.foldl_step_comm_iff (keyed_of_entryAfter hearlier)]
    · rename_i hgone
      rw [← heffect]
      -- stored in front it has no effect
      suffices hsame : entryAfter id (stepNode id (entryAfter id none earlier) msg) later =
          entryAfter id none (earlier ++ later) by rw [hsame]
      rw [entryAfter_append]
      by_cases hpresent : id ∈ replay earlier
      · have hleave : ∃ held ∈ later, held.LeaveOf id := by
          by_contra hnone
          exact hgone ⟨hpresent, fun held hmem hheld => hnone ⟨held, hmem, hheld⟩⟩
        obtain ⟨held, hmem, hheld⟩ := hleave
        exact entryAfter_eq_of_leave hmem hheld _ _
      · rw [not_mem_replay.mp hpresent, stepNode_none hnotJoin]

/-- **Moving a message to the front** does no harm exactly when it is in
order. -/
theorem commutes_iff_inOrder :
    stepNode msg.nodeId (entryAfter msg.nodeId none (earlier ++ later)) msg =
        entryAfter msg.nodeId (stepNode msg.nodeId (entryAfter msg.nodeId none earlier) msg)
          later ↔
      InOrder earlier later msg := by
  have hquiet : ¬ msg.JoinOf msg.nodeId → ¬ msg.LeaveOf msg.nodeId →
      (∀ change, msg.op ≠ .topicChange change) →
      (stepNode msg.nodeId (entryAfter msg.nodeId none (earlier ++ later)) msg =
        entryAfter msg.nodeId (stepNode msg.nodeId (entryAfter msg.nodeId none earlier) msg)
          later ↔ True) := by
    intro hjoin hleave htopic
    have hstep : ∀ entry, stepNode msg.nodeId entry msg = entry := by
      intro entry
      cases entry with
      | none => exact stepNode_none hjoin
      | some node =>
          rw [stepNode_some hleave, Node.step]
          split
          · rename_i change hop
            exact absurd hop (htopic change)
          · rfl
    rw [hstep, hstep, entryAfter_append]
    simp
  unfold InOrder
  cases hop : msg.op with
  | notSet =>
      exact hquiet (by simp [TopologyMessage.JoinOf, hop]) (by simp [TopologyMessage.LeaveOf, hop])
        (by simp [hop])
  | topicChange change =>
      have hnode : change.nodeId = msg.nodeId := by rw [TopologyMessage.nodeId, hop]; rfl
      simp only [hnode]
      exact commutes_topic_iff hop hnode
  | nodeChange change =>
      have hnode : change.id = msg.nodeId := by rw [TopologyMessage.nodeId, hop]; rfl
      simp only [hnode]
      cases hchange : change.op with
      | join => exact commutes_join_iff hop hchange hnode
      | leave =>
          have hleave : msg.LeaveOf msg.nodeId :=
            MessageOp.reports_iff.mpr ⟨change, hop, hchange, hnode⟩
          rw [entryAfter_append]
          exact commutes_leave_iff hleave
      | _ =>
          exact hquiet (by simp [TopologyMessage.JoinOf, hop, hchange])
            (by simp [TopologyMessage.LeaveOf, hop, hchange]) (by simp [hop])

end InOrder

/-! ## Runs of a manager -/

namespace TopologyManager

variable {m : TopologyManager} {msg : TopologyMessage}

/-- **One update** keeps the nodes those of the stored order exactly when the message commutes
with all that is stored behind it. -/
theorem Consistent.applyUpdate_iff (h : m.Consistent) (hsorted : m.Sorted)
    (msg : TopologyMessage) :
    (m.applyUpdate msg).1.Consistent ↔ InOrder (m.earlier msg) (m.later msg) msg := by
  have hlookup : ∀ id, m.mNodes.lookup id =
      entryAfter id none (m.earlier msg ++ m.later msg) := by
    intro id
    rw [hsorted.earlier_append_later, h, lookup_replay]
  have hwhole : (m.applyUpdate msg).1.Consistent ↔ ∀ id,
      stepNode id (entryAfter id none (m.earlier msg ++ m.later msg)) msg =
        entryAfter id (stepNode id (entryAfter id none (m.earlier msg)) msg) (m.later msg) := by
    unfold Consistent
    rw [hsorted.applyUpdate_mHistory msg]
    constructor
    · intro heq id
      have := congrArg (fun nodes => nodes.lookup id) heq
      simpa [lookup_applyUpdate, lookup_replay, hlookup] using this
    · intro heach
      apply Finmap.ext_lookup
      intro id
      rw [lookup_applyUpdate, lookup_replay, hlookup, heach id, entryAfter_append, entryAfter_cons]
  rw [hwhole, ← commutes_iff_inOrder]
  constructor
  · exact fun heach => heach msg.nodeId
  · intro hown id
    by_cases hid : id = msg.nodeId
    · subst hid
      exact hown
    · rw [stepNode_of_ne (Ne.symm hid), stepNode_of_ne (Ne.symm hid), entryAfter_append]

/-- The manager after a message. -/
def receive (m : TopologyManager) (msg : TopologyMessage) : Option TopologyManager :=
  some (m.applyUpdate msg).1

/-- **The log matches the view.**  Whatever any number of hubs send, the
topology the manager reports is the one its history stands for after every
update exactly when every message is in order with what is stored behind it. -/
theorem stored_order_iff (nodeId : UInt64) (name address : String) (handlers : Handlers)
    (connections : List (List TopologyMessage)) :
    Throughout receive Consistent (create nodeId name address handlers) connections.flatten ↔
      Along receive (fun m msg => InOrder (m.earlier msg) (m.later msg) msg)
        (create nodeId name address handlers) connections.flatten := by
  have hrun : ∀ (m : TopologyManager) (log : List TopologyMessage),
      ∃ m', exec receive m log = some m' := by
    intro m log
    induction log generalizing m with
    | nil => exact ⟨m, rfl⟩
    | cons msg log ih => exact ih _
  obtain ⟨m', hm'⟩ := hrun (create nodeId name address handlers) connections.flatten
  refine throughout_iff_along (D := fun _ _ => True)
    (I := fun m => m.Sorted ∧ m.Consistent) (fun m h => h.2) ?_ ?_ ?_ ?_ hm'
  · intro m msg m' h _ horder hstep
    obtain rfl := Option.some.inj hstep
    exact ⟨h.1.applyUpdate msg, (h.2.applyUpdate_iff h.1 msg).mpr horder⟩
  · intro m msg m' h _ horder hstep hconsistent
    obtain rfl := Option.some.inj hstep
    exact horder ((h.2.applyUpdate_iff h.1 msg).mp hconsistent)
  · exact ⟨List.Pairwise.nil, rfl⟩
  · exact along_true _ _

/-- Node 5 joins and leaves under one hub, and joins again under the next one,
which numbers its messages from 1. -/
def joinsAgain : List (List TopologyMessage) :=
  [[{ seq := 1, uid := 31, op := .nodeChange { id := 5, op := .join, name := "five" } },
      { seq := 2, op := .nodeChange { id := 5, op := .leave } }],
    [{ seq := 1, uid := 77, op := .nodeChange { id := 5, op := .join, name := "five" } }]]

/-- The manager lists node 5; its history says that node 5 has left. -/
theorem not_consistent_joinsAgain :
    (∀ connection ∈ joinsAgain, Increasing TopologyMessage.seq connection) ∧
      ¬ Throughout receive Consistent (create 9 "nine" "" {}) joinsAgain.flatten := by
  decide +kernel

end TopologyManager

/-! ## One message for each number -/

namespace TopologyManager

variable {m : TopologyManager} {msg : TopologyMessage} {received : List TopologyMessage}

/-- The history has one message for each number received, the last one that
came with it. -/
structure OnePerSeq (m : TopologyManager) (received : List TopologyMessage) : Prop where
  increasing : Increasing TopologyMessage.seq m.mHistory
  latest : ∀ msg, msg ∈ m.mHistory ↔ ∃ before after, received = before ++ msg :: after ∧
    ∀ other ∈ after, other.seq ≠ msg.seq

/-- And so for a whole log. -/
theorem Sorted.applyUpdates (h : m.Sorted) (log : List TopologyMessage) :
    (m.applyUpdates log).Sorted := by
  induction log generalizing m with
  | nil => exact h
  | cons msg log ih => exact ih (h.applyUpdate msg)

/-- Nothing that is received is dropped. -/
theorem applyUpdates_perm (m : TopologyManager) (log : List TopologyMessage) :
    (m.applyUpdates log).mHistory.Perm (m.mHistory ++ log) := by
  induction log generalizing m with
  | nil => simp [applyUpdates]
  | cons msg log ih =>
      have hle := lowerBound_le_length (fun held : TopologyMessage => decide (held.seq < msg.seq))
        m.mHistory
      have hinsert : (m.applyUpdate msg).1.mHistory.Perm (msg :: m.mHistory) :=
        List.perm_insertIdx msg m.mHistory hle
      have hrest := (ih (m.applyUpdate msg).1).trans (hinsert.append_right log)
      exact hrest.trans List.perm_middle.symm

/-- A sorted history is strictly increasing when its numbers are different. -/
theorem Sorted.increasing_iff (h : m.Sorted) :
    Increasing TopologyMessage.seq m.mHistory ↔ (m.mHistory.map TopologyMessage.seq).Nodup := by
  rw [List.Nodup, List.pairwise_map]
  constructor
  · exact fun hincreasing => hincreasing.imp ne_of_lt
  · intro hdistinct
    exact (List.pairwise_and_iff.mpr ⟨h, hdistinct⟩).imp fun hboth => lt_of_le_of_ne hboth.1 hboth.2

/-- Messages with different numbers are stored as they should be: in order, each once. -/
theorem onePerSeq_of_nodup (hsorted : m.Sorted) (hperm : m.mHistory.Perm received)
    (hnodup : (received.map TopologyMessage.seq).Nodup) : OnePerSeq m received := by
  constructor
  · exact hsorted.increasing_iff.mpr ((hperm.map _).nodup_iff.mpr hnodup)
  · intro msg
    rw [hperm.mem_iff]
    constructor
    · intro hmem
      obtain ⟨before, after, rfl⟩ := List.append_of_mem hmem
      refine ⟨before, after, rfl, fun other hother heq => ?_⟩
      rw [List.map_append, List.map_cons] at hnodup
      have hfresh := (List.nodup_cons.mp (List.nodup_append.mp hnodup).2.1).1
      exact hfresh (heq ▸ List.mem_map_of_mem hother)
    · intro ⟨before, after, heq, _⟩
      rw [heq]
      simp

/-- **One message for each number.**  With connections that each number their
messages in increasing order, the history has at every moment one message for
each number, the last one received with it, and ignores what it holds already,
exactly when no two connections use the same number. -/
theorem one_per_seq_iff (nodeId : UInt64) (name address : String) (handlers : Handlers)
    (connections : List (List TopologyMessage))
    (hconnections : ∀ connection ∈ connections, Increasing TopologyMessage.seq connection) :
    (∀ received, received <+: connections.flatten →
        OnePerSeq ((create nodeId name address handlers).applyUpdates received) received ∧
        ∀ msg ∈ ((create nodeId name address handlers).applyUpdates received).mHistory,
          received ++ [msg] <+: connections.flatten →
          ((create nodeId name address handlers).applyUpdates (received ++ [msg])).mHistory =
            ((create nodeId name address handlers).applyUpdates received).mHistory) ↔
      connections.Pairwise fun connection connection' =>
        ∀ msg ∈ connection, ∀ msg' ∈ connection', msg.seq ≠ msg'.seq := by
  have hsorted : ∀ received,
      ((create nodeId name address handlers).applyUpdates received).Sorted :=
    Sorted.applyUpdates List.Pairwise.nil
  have hperm : ∀ received,
      ((create nodeId name address handlers).applyUpdates received).mHistory.Perm received :=
    fun received => applyUpdates_perm _ received
  have hdisjoint : (connections.flatten.map TopologyMessage.seq).Nodup ↔
      connections.Pairwise fun connection connection' =>
        ∀ msg ∈ connection, ∀ msg' ∈ connection', msg.seq ≠ msg'.seq := by
    rw [List.map_flatten, List.nodup_flatten, List.pairwise_map]
    constructor
    · intro h
      refine h.2.imp fun hdisjoint msg hmsg msg' hmsg' heq => ?_
      exact hdisjoint (List.mem_map_of_mem hmsg) (heq ▸ List.mem_map_of_mem hmsg')
    · intro h
      constructor
      · intro numbers hmem
        obtain ⟨connection, hconnection, rfl⟩ := List.mem_map.mp hmem
        rw [List.Nodup, List.pairwise_map]
        exact (hconnections connection hconnection).imp ne_of_lt
      · refine h.imp fun hdiffer seq hseq hseq' => ?_
        obtain ⟨msg, hmsg, rfl⟩ := List.mem_map.mp hseq
        obtain ⟨msg', hmsg', heq⟩ := List.mem_map.mp hseq'
        exact hdiffer msg hmsg msg' hmsg' heq.symm
  rw [← hdisjoint]
  constructor
  · intro h
    have hincreasing := (h connections.flatten List.prefix_rfl).1.increasing
    exact ((hperm _).map _).nodup_iff.mp ((hsorted _).increasing_iff.mp hincreasing)
  · intro hnodup received hreceived
    refine ⟨onePerSeq_of_nodup (hsorted received) (hperm received) ?_, fun msg hmem hnext => ?_⟩
    · exact hnodup.sublist (hreceived.sublist.map _)
    · -- what is held is never sent again
      have hmore := hnodup.sublist (hnext.sublist.map _)
      rw [List.map_append, List.nodup_append] at hmore
      have hheld : msg ∈ received := (hperm received).mem_iff.mp hmem
      exact absurd rfl (hmore.2.2 _ (List.mem_map_of_mem hheld) _ (by simp))

/-- The same hub, met twice. -/
def metTwice : List (List TopologyMessage) :=
  [[{ seq := 1, uid := 31, op := .nodeChange { id := 5, op := .join, name := "five" } }],
    [{ seq := 1, uid := 31, op := .nodeChange { id := 5, op := .join, name := "five" } }]]

/-- The history holds the JOIN twice. -/
theorem not_onePerSeq_metTwice :
    (∀ connection ∈ metTwice, Increasing TopologyMessage.seq connection) ∧
      ¬ OnePerSeq ((create 9 "nine" "" {}).applyUpdates metTwice.flatten) metTwice.flatten := by
  constructor
  · decide +kernel
  · intro h
    have hincreasing : ¬ Increasing TopologyMessage.seq
        ((create 9 "nine" "" {}).applyUpdates metTwice.flatten).mHistory := by
      decide +kernel
    exact hincreasing h.increasing

/-- Two hubs, the second of which goes on where the first one stopped. -/
def goesOn : List (List TopologyMessage) :=
  [[{ seq := 1, uid := 31, op := .nodeChange { id := 5, op := .join, name := "five" } }],
    [{ seq := 2, op := .nodeChange { id := 5, op := .leave } }]]

/-- Connections that go on where the one before has ended. -/
theorem one_per_seq_iff_goesOn :
    OnePerSeq ((create 9 "nine" "" {}).applyUpdates goesOn.flatten) goesOn.flatten :=
  ((one_per_seq_iff 9 "nine" "" {} goesOn (by decide)).mpr (by decide) _ List.prefix_rfl).1

end TopologyManager

end IpcPubsub
