import IpcPubsub.Reconnect

/-!
# What an observer is told

`ApplyUpdate` calls `onJoin` and `onLeave` as it goes.  What it may call them for
is bounded by the JOINs in what it has received: every `onJoin` of a node is due
to one, and so is every `onLeave`, since a node that leaves must have joined
since it last left (`Observes`).
-/

namespace IpcPubsub

open FiniteMap

/-- The call is `onJoin` of the node. -/
def Callback.TellsJoin (id : UInt64) : Callback → Bool
  | .onJoin change => change.id == id
  | _ => false

/-- The call is `onLeave` of the node. -/
def Callback.TellsLeave (id : UInt64) : Callback → Bool
  | .onLeave change => change.id == id
  | _ => false

/-- Every `onLeave` of the node comes after an `onJoin` of it. -/
def LeavesAfterJoin (id : UInt64) (calls : List Callback) : Prop :=
  ∀ before call after, calls = before ++ call :: after → call.TellsLeave id = true →
    ∃ join ∈ before, join.TellsJoin id = true

/-- Calls that report a leave only if the join was reported before. -/
theorem LeavesAfterJoin.append {id : UInt64} {calls more : List Callback}
    (h : LeavesAfterJoin id calls)
    (hmore : (∃ call ∈ more, call.TellsLeave id = true) →
      ∃ join ∈ calls, join.TellsJoin id = true) :
    LeavesAfterJoin id (calls ++ more) := by
  intro before call after heq htells
  rcases List.append_eq_append_iff.mp heq with ⟨rest, rfl, hrest⟩ | ⟨rest, hcalls, hrest⟩
  · obtain ⟨join, hjoin, hid⟩ := hmore ⟨call, by simp [hrest], htells⟩
    exact ⟨join, List.mem_append_left _ hjoin, hid⟩
  · cases rest with
    | nil =>
        have hcall : call ∈ more := by simp [← (show call :: after = more from hrest)]
        obtain ⟨join, hjoin, hid⟩ := hmore ⟨call, hcall, htells⟩
        exact ⟨join, by simpa [hcalls] using hjoin, hid⟩
    | cons first rest =>
        obtain ⟨rfl, rfl⟩ := List.cons.inj hrest
        exact h before call rest hcalls htells

/-! ## One update -/

section UpdateNodes

variable {handlers : Handlers} {nodes : Nodes} {msg : TopologyMessage} {id : UInt64}

/-- Which nodes are listed after one update. -/
theorem mem_updateNodes :
    id ∈ (updateNodes handlers nodes msg).1 ↔ msg.JoinOf id ∨ id ∈ nodes ∧ ¬ msg.LeaveOf id := by
  rw [← Finmap.lookup_isSome, ← Finmap.lookup_isSome, lookup_updateNodes, stepNode_isSome_iff]

/-- A topic change calls nothing about nodes. -/
theorem Node.applyTopicChange_silent (node : Node) (change : TopicChange) :
    (node.applyTopicChange handlers change).2.countP (Callback.TellsJoin id) = 0 ∧
      (node.applyTopicChange handlers change).2.countP (Callback.TellsLeave id) = 0 := by
  unfold Node.applyTopicChange
  repeat' split
  all_goals simp [Callback.TellsJoin, Callback.TellsLeave]

/-- `onJoin` is called at most once for a message, and only for a JOIN. -/
theorem countP_tellsJoin_le :
    (updateNodes handlers nodes msg).2.countP (Callback.TellsJoin id) ≤
      if msg.JoinOf id then 1 else 0 := by
  unfold TopologyMessage.JoinOf
  cases hop : msg.op with
  | notSet => simp [updateNodes, hop]
  | topicChange change =>
      cases hnode : nodes.lookup change.nodeId with
      | none => simp [updateNodes, hop, hnode]
      | some node => simp [updateNodes, hop, hnode, (node.applyTopicChange_silent change).1]
  | nodeChange change =>
      simp only [MessageOp.reports_nodeChange]
      cases hchange : change.op with
      | join =>
          by_cases hid : change.id = id
          · rw [if_pos ⟨rfl, hid⟩]
            refine le_trans List.countP_le_length ?_
            cases hnode : nodes.lookup change.id <;>
              simp only [updateNodes, applyNodeChange, hop, hchange, hnode] <;> split <;> simp
          · cases hnode : nodes.lookup change.id <;>
              simp only [updateNodes, applyNodeChange, hop, hchange, hnode] <;> split <;>
              simp [Callback.TellsJoin, hid]
      | leave =>
          by_cases hmem : change.id ∈ nodes
          · simp only [updateNodes, applyNodeChange, hop, hchange, if_pos hmem]
            split <;> simp [Callback.TellsJoin]
          · simp [updateNodes, applyNodeChange, hop, hchange, hmem]
      | _ => simp [updateNodes, applyNodeChange, hop, hchange]

/-- `onLeave` is called at most once, and for the LEAVE of a listed node. -/
theorem countP_tellsLeave_le :
    (updateNodes handlers nodes msg).2.countP (Callback.TellsLeave id) ≤
      if msg.LeaveOf id ∧ id ∈ nodes then 1 else 0 := by
  unfold TopologyMessage.LeaveOf
  cases hop : msg.op with
  | notSet => simp [updateNodes, hop]
  | topicChange change =>
      cases hnode : nodes.lookup change.nodeId with
      | none => simp [updateNodes, hop, hnode]
      | some node => simp [updateNodes, hop, hnode, (node.applyTopicChange_silent change).2]
  | nodeChange change =>
      simp only [MessageOp.reports_nodeChange]
      cases hchange : change.op with
      | join =>
          cases hnode : nodes.lookup change.id <;>
            simp only [updateNodes, applyNodeChange, hop, hchange, hnode] <;> split <;>
            simp [Callback.TellsLeave]
      | leave =>
          by_cases hmem : change.id ∈ nodes
          · by_cases hid : change.id = id
            · rw [if_pos ⟨⟨rfl, hid⟩, hid ▸ hmem⟩]
              refine le_trans List.countP_le_length ?_
              simp only [updateNodes, applyNodeChange, hop, hchange, if_pos hmem]
              split <;> simp
            · simp only [updateNodes, applyNodeChange, hop, hchange, if_pos hmem]
              split <;> simp [hid, Callback.TellsLeave]
          · simp [updateNodes, applyNodeChange, hop, hchange, hmem]
      | _ => simp [updateNodes, applyNodeChange, hop, hchange]

/-- A node that was not listed is told about. -/
theorem told_of_added (hjoin : msg.JoinOf id) (hnew : id ∉ nodes)
    (honJoin : handlers.onJoin = true) :
    ∃ call ∈ (updateNodes handlers nodes msg).2, call.TellsJoin id = true := by
  obtain ⟨change, hop, hchange, rfl⟩ := MessageOp.reports_iff.mp hjoin
  simp [updateNodes, applyNodeChange, hop, hchange, Finmap.lookup_eq_none.mpr hnew, honJoin,
    Callback.TellsJoin]

end UpdateNodes

/-! ## All updates -/

/-- A manager that has received some messages and made some calls. -/
structure Observes (m : TopologyManager) (received : List TopologyMessage)
    (calls : List Callback) : Prop where
  /-- It keeps nothing it was not sent. -/
  history : ∀ msg ∈ m.mHistory, msg ∈ received
  nodes : m.mNodes = replay received
  joins : ∀ id, calls.countP (Callback.TellsJoin id) ≤ received.countP (TopologyMessage.JoinOf id)
  /-- A node that is listed may still leave. -/
  leaves : ∀ id, calls.countP (Callback.TellsLeave id) + (if id ∈ m.mNodes then 1 else 0) ≤
    received.countP (TopologyMessage.JoinOf id)
  told : m.handlers.onJoin = true → ∀ id ∈ m.mNodes, ∃ call ∈ calls, call.TellsJoin id = true
  after : m.handlers.onJoin = true → ∀ id, LeavesAfterJoin id calls

/-- A manager that has just been created has heard nothing and called nobody. -/
theorem TopologyManager.create_observes (nodeId : UInt64) (name address : String)
    (handlers : Handlers) : Observes (.create nodeId name address handlers) [] [] where
  history := fun msg hmem => by cases hmem
  nodes := rfl
  joins := fun id => le_refl _
  leaves := fun id => by simp [TopologyManager.create, Finmap.notMem_empty]
  told := fun _ id hmem => absurd hmem Finmap.notMem_empty
  after := fun _ id before call after heq => by simp at heq

section Observes

variable {m : TopologyManager} {received : List TopologyMessage} {calls : List Callback}

/-- The manager lists the nodes of the topology it was sent. -/
theorem Observes.mem_mNodes (h : Observes m received calls) (id : UInt64) :
    id ∈ m.mNodes ↔ (entryAfter id none received).isSome := by
  rw [h.nodes, ← Finmap.lookup_isSome, lookup_replay]

/-- **One update** keeps the list of nodes that of the messages received, and tells of no node
more often than there were messages about it. -/
theorem Observes.applyUpdate (h : Observes m received calls) (msg : TopologyMessage) :
    Observes (m.applyUpdate msg).1 (received ++ [msg]) (calls ++ (m.applyUpdate msg).2) := by
  have hmem : ∀ id, id ∈ (m.applyUpdate msg).1.mNodes ↔
      msg.JoinOf id ∨ id ∈ m.mNodes ∧ ¬ msg.LeaveOf id := fun id => mem_updateNodes
  have hleave : ∀ id, (∃ call ∈ (m.applyUpdate msg).2, call.TellsLeave id = true) →
      id ∈ m.mNodes := by
    intro id hcall
    by_contra hnot
    have hle : (m.applyUpdate msg).2.countP (Callback.TellsLeave id) ≤ _ := countP_tellsLeave_le
    rw [if_neg fun hboth => hnot hboth.2] at hle
    obtain ⟨call, hcall, htells⟩ := hcall
    exact List.countP_eq_zero.mp (Nat.le_zero.mp hle) call hcall htells
  constructor
  · intro msg' hmsg'
    rcases TopologyManager.mem_applyUpdate hmsg' with rfl | hold
    · exact List.mem_append_right _ List.mem_cons_self
    · exact List.mem_append_left _ (h.history msg' hold)
  · apply Finmap.ext_lookup
    intro id
    rw [TopologyManager.lookup_applyUpdate, h.nodes, lookup_replay, lookup_replay,
      entryAfter_append]
    rfl
  · intro id
    have hle : (m.applyUpdate msg).2.countP (Callback.TellsJoin id) ≤ _ := countP_tellsJoin_le
    rw [List.countP_append, List.countP_append, List.countP_singleton]
    have := h.joins id
    grind
  · intro id
    have hle : (m.applyUpdate msg).2.countP (Callback.TellsLeave id) ≤ _ := countP_tellsLeave_le
    have hexclusive : ¬ (msg.JoinOf id ∧ msg.LeaveOf id) := by
      intro hboth
      cases (MessageOp.Reports.unique hboth.1 hboth.2).1
    rw [List.countP_append, List.countP_append, List.countP_singleton]
    have hold := h.leaves id
    simp only [hmem id]
    grind
  · intro honJoin id hnew
    rcases (hmem id).mp hnew with hjoin | ⟨hold, _⟩
    · by_cases hold : id ∈ m.mNodes
      · obtain ⟨call, hcall, htells⟩ := h.told honJoin id hold
        exact ⟨call, List.mem_append_left _ hcall, htells⟩
      · obtain ⟨call, hcall, htells⟩ := told_of_added hjoin hold honJoin
        exact ⟨call, List.mem_append_right _ hcall, htells⟩
    · obtain ⟨call, hcall, htells⟩ := h.told honJoin id hold
      exact ⟨call, List.mem_append_left _ hcall, htells⟩
  · intro honJoin id
    exact (h.after honJoin id).append fun hcall => h.told honJoin id (hleave id hcall)

end Observes

end IpcPubsub
