import IpcPubsub.ReferenceTopology

/-!
# A manager that meets a new hub

After a hub dies a manager connects to another one and applies the whole history
it is sent.  Nothing resets `mNodes` in between, so the result mixes what the
earlier hubs said with what the new one says.

`hub_is_source_of_truth_iff` says exactly when the new history alone decides the
result.  Every node the manager still lists must be overwritten by it: the
history has a LEAVE of the node, or it introduces the node under the very name
and address already recorded and later mentions every topic the manager still
has for it.  A node the new hub knows nothing about is never overwritten.
-/

namespace IpcPubsub

open FiniteMap LastWrite

namespace TopologyManager

/-- A manager as it is constructed. -/
def create (nodeId : UInt64) (name address : String) (handlers : Handlers) :
    TopologyManager where
  mNodeId := nodeId
  mName := name
  mAddress := address
  handlers := handlers

/-- Apply the messages of a list one after the other. -/
def applyUpdates (m : TopologyManager) (log : List TopologyMessage) : TopologyManager :=
  log.foldl (fun m msg => (m.applyUpdate msg).1) m

/-- The messages are applied one after the other. -/
@[simp] theorem applyUpdates_cons (m : TopologyManager) (msg : TopologyMessage)
    (log : List TopologyMessage) :
    m.applyUpdates (msg :: log) = (m.applyUpdate msg).1.applyUpdates log := rfl

/-- A manager keeps what it has received. -/
theorem mem_applyUpdate {m : TopologyManager} {msg msg' : TopologyMessage}
    (h : msg' ∈ (m.applyUpdate msg).1.mHistory) : msg' = msg ∨ msg' ∈ m.mHistory :=
  List.eq_or_mem_of_mem_insertIdx h

/-- The entry of a node after one update does not depend on the handlers. -/
theorem lookup_applyUpdate (m : TopologyManager) (msg : TopologyMessage) (id : UInt64) :
    (m.applyUpdate msg).1.mNodes.lookup id = stepNode id (m.mNodes.lookup id) msg :=
  lookup_updateNodes m.handlers m.mNodes msg id

/-- What they make of the nodes does not depend on the history they are entered into. -/
theorem applyUpdates_mNodes (m : TopologyManager) (log : List TopologyMessage) :
    (m.applyUpdates log).mNodes = applyAll m.mNodes log := by
  apply Finmap.ext_lookup
  intro id
  rw [lookup_applyAll]
  induction log generalizing m with
  | nil => rfl
  | cons msg log ih => rw [applyUpdates_cons, ih, lookup_applyUpdate, entryAfter_cons]

/-- A manager that has just been created lists what the messages say. -/
theorem create_applyUpdates_mNodes (nodeId : UInt64) (name address : String)
    (handlers : Handlers) (log : List TopologyMessage) :
    ((create nodeId name address handlers).applyUpdates log).mNodes = replay log :=
  applyUpdates_mNodes _ log

end TopologyManager

/-- A history that overwrites what is recorded about a node.  `join` is the
first JOIN of the node in it. -/
def Overwrites (id : UInt64) (node : Node) (history : List TopologyMessage) : Prop :=
  (∃ msg ∈ history, msg.LeaveOf id) ∨
    ∃ before join after change, history = before ++ join :: after ∧
      (∀ msg ∈ before, ¬ msg.JoinOf id) ∧
      join.op = .nodeChange change ∧ change.op = .join ∧ change.id = id ∧
      change.name = node.name ∧ change.address = node.address ∧
      (∀ topic, lastWrite (publishes id topic) after = none →
        (lastWrite (publishes id topic) before).getD (node.publications.lookup topic) = none) ∧
      ∀ topic, lastWrite (subscribes id topic) after = none →
        (lastWrite (subscribes id topic) before).getD
          (decide (topic ∈ node.subscriptions)) = false

/-- A history that decides everything the manager lists. -/
def SourceOfTruth (nodes : Nodes) (history : List TopologyMessage) : Prop :=
  ∀ id node, nodes.lookup id = some node → Overwrites id node history

section Overwrites

variable {id : UInt64} {node : Node} {history before after : List TopologyMessage}

/-- The recorded entry and a fresh one come out the same exactly when the JOIN
repeats name and address and every remaining topic is written later. -/
theorem entryAfter_eq_iff_of_join {join : TopologyMessage} {change : NodeChange}
    (hkeyed : node.Keyed) (hid : node.id = id)
    (hleave : ∀ msg ∈ before ++ join :: after, ¬ msg.LeaveOf id)
    (hbefore : ∀ msg ∈ before, ¬ msg.JoinOf id)
    (hop : join.op = .nodeChange change) (hjoin : change.op = .join) (hchange : change.id = id) :
    entryAfter id (some node) (before ++ join :: after) =
        entryAfter id none (before ++ join :: after) ↔
      change.name = node.name ∧ change.address = node.address ∧
      (∀ topic, lastWrite (publishes id topic) after = none →
        (lastWrite (publishes id topic) before).getD (node.publications.lookup topic) = none) ∧
      ∀ topic, lastWrite (subscribes id topic) after = none →
        (lastWrite (subscribes id topic) before).getD
          (decide (topic ∈ node.subscriptions)) = false := by
  have hjoinOf : join.JoinOf id := MessageOp.reports_iff.mpr ⟨change, hop, hjoin, hchange⟩
  have hleaveBefore : ∀ msg ∈ before, ¬ msg.LeaveOf id :=
    fun msg hmem => hleave msg (List.mem_append_left _ hmem)
  have hleaveAfter : ∀ msg ∈ after, ¬ msg.LeaveOf id :=
    fun msg hmem => hleave msg (by simp [hmem])
  let old := before.foldl (Node.step id) node
  let fresh : Node := { id := id, name := change.name, address := change.address }
  have hold : entryAfter id (some node) (before ++ join :: after) =
      some (after.foldl (Node.step id) old) := by
    rw [entryAfter_append, entryAfter_some hleaveBefore, entryAfter_cons,
      stepNode_join_some hjoinOf, entryAfter_some hleaveAfter]
  have hfresh : entryAfter id none (before ++ join :: after) =
      some (after.foldl (Node.step id) fresh) := by
    have hstep : stepNode id none join = some fresh := by
      simp [stepNode, hop, hjoin, hchange, fresh]
    rw [entryAfter_append, entryAfter_none hbefore, entryAfter_cons, hstep,
      entryAfter_some hleaveAfter]
  have hframeOld := @Node.foldl_step_frame id node before
  have hframe := @Node.foldl_step_frame id old after
  have hframeFresh := @Node.foldl_step_frame id fresh after
  have hkeyedOld : old.Keyed := hkeyed.foldl_step before
  have hkeyedFresh : fresh.Keyed := fun topic publication h => by simp [fresh] at h
  have hpub : ∀ topic,
      (after.foldl (Node.step id) old).publications.lookup topic =
          (after.foldl (Node.step id) fresh).publications.lookup topic ↔
        (lastWrite (publishes id topic) after = none →
          (lastWrite (publishes id topic) before).getD (node.publications.lookup topic) =
            none) := by
    intro topic
    rw [Node.lookup_publications_foldl hkeyedOld, Node.lookup_publications_foldl hkeyedFresh,
      Node.lookup_publications_foldl hkeyed before]
    cases lastWrite (publishes id topic) after <;> simp [fresh]
  have hsub : ∀ topic,
      decide (topic ∈ (after.foldl (Node.step id) old).subscriptions) =
          decide (topic ∈ (after.foldl (Node.step id) fresh).subscriptions) ↔
        (lastWrite (subscribes id topic) after = none →
          (lastWrite (subscribes id topic) before).getD
            (decide (topic ∈ node.subscriptions)) = false) := by
    intro topic
    rw [Node.mem_subscriptions_foldl, Node.mem_subscriptions_foldl,
      Node.mem_subscriptions_foldl]
    cases lastWrite (subscribes id topic) after <;> simp [fresh]
  have hfields : ((after.foldl (Node.step id) old).id = (after.foldl (Node.step id) fresh).id ∧
      (after.foldl (Node.step id) old).name = (after.foldl (Node.step id) fresh).name ∧
      (after.foldl (Node.step id) old).address = (after.foldl (Node.step id) fresh).address) ↔
        change.name = node.name ∧ change.address = node.address := by
    rw [hframe.1, hframe.2.1, hframe.2.2, hframeOld.1, hframeOld.2.1, hframeOld.2.2,
      hframeFresh.1, hframeFresh.2.1, hframeFresh.2.2, hid, and_iff_right rfl]
    exact and_congr eq_comm eq_comm
  rw [hold, hfresh, Option.some.injEq, Node.eq_iff, hfields, forall_and, and_assoc]
  exact and_congr_right fun _ => and_congr_right fun _ =>
    and_congr (forall_congr' hpub) (forall_congr' hsub)

/-- The first JOIN of a node in a log that has one. -/
theorem exists_first_join {msg : TopologyMessage} (hmem : msg ∈ history)
    (hjoin : msg.JoinOf id) :
    ∃ before join after, history = before ++ join :: after ∧
      (∀ msg ∈ before, ¬ msg.JoinOf id) ∧ join.JoinOf id := by
  induction history with
  | nil => cases hmem
  | cons head tail ih =>
      by_cases hhead : head.JoinOf id
      · exact ⟨[], head, tail, rfl, by simp, hhead⟩
      · have htail : msg ∈ tail := by
          rcases List.mem_cons.mp hmem with rfl | htail
          · exact absurd hjoin hhead
          · exact htail
        obtain ⟨before, join, after, rfl, hbefore, hjoin'⟩ := ih htail
        refine ⟨head :: before, join, after, rfl, ?_, hjoin'⟩
        intro msg' hmem'
        rcases List.mem_cons.mp hmem' with rfl | hmem'
        · exact hhead
        · exact hbefore msg' hmem'

/-- What was recorded about one node does not matter exactly when the history
overwrites it. -/
theorem entryAfter_eq_iff_overwrites (hkeyed : node.Keyed) (hid : node.id = id) :
    entryAfter id (some node) history = entryAfter id none history ↔
      Overwrites id node history := by
  by_cases hleave : ∃ msg ∈ history, msg.LeaveOf id
  · obtain ⟨msg, hmem, hmsg⟩ := hleave
    exact iff_of_true (entryAfter_eq_of_leave hmem hmsg _ _) (Or.inl ⟨msg, hmem, hmsg⟩)
  · have hstay : ∀ msg ∈ history, ¬ msg.LeaveOf id :=
      fun msg hmem hmsg => hleave ⟨msg, hmem, hmsg⟩
    constructor
    · intro heq
      by_cases hjoin : ∃ msg ∈ history, msg.JoinOf id
      · obtain ⟨msg, hmem, hmsg⟩ := hjoin
        obtain ⟨before, join, after, rfl, hbefore, hfirst⟩ := exists_first_join hmem hmsg
        obtain ⟨change, hop, hchange, hchangeId⟩ := MessageOp.reports_iff.mp hfirst
        have hcond := (entryAfter_eq_iff_of_join hkeyed hid hstay hbefore hop hchange
          hchangeId).mp heq
        exact Or.inr ⟨before, join, after, change, rfl, hbefore, hop, hchange, hchangeId, hcond⟩
      · have hnone : entryAfter id none history = none :=
          entryAfter_none fun msg hmem hmsg => hjoin ⟨msg, hmem, hmsg⟩
        rw [entryAfter_some hstay, hnone] at heq
        cases heq
    · rintro (hover | ⟨before, join, after, change, rfl, hbefore, hop, hchange, hchangeId, hcond⟩)
      · exact absurd hover hleave
      · exact (entryAfter_eq_iff_of_join hkeyed hid hstay hbefore hop hchange hchangeId).mpr hcond

end Overwrites

namespace TopologyManager

/-- **The hub as the only source of truth.**  A manager that has heard anything
at all before ends, after the whole history of a new hub, with the map that
history builds from nothing exactly when the history overwrites every node the
manager listed. -/
theorem hub_is_source_of_truth_iff (nodeId : UInt64) (name address : String)
    (handlers : Handlers) (past history : List TopologyMessage) :
    (((create nodeId name address handlers).applyUpdates past).applyUpdates history).mNodes =
        ((create nodeId name address handlers).applyUpdates history).mNodes ↔
      SourceOfTruth ((create nodeId name address handlers).applyUpdates past).mNodes history := by
  rw [applyUpdates_mNodes, create_applyUpdates_mNodes, create_applyUpdates_mNodes]
  have hwhole : applyAll (replay past) history = replay history ↔
      ∀ id, entryAfter id ((replay past).lookup id) history = entryAfter id none history :=
    applyAll_eq_iff
  rw [hwhole]
  refine forall_congr' fun id => ?_
  have hreflects := replay_reference id past
  generalize sincePresent id past = since at hreflects
  cases hnode : (replay past).lookup id with
  | none => simp
  | some node =>
      rw [hnode] at hreflects
      cases hreflects with
      | some hreflects =>
          rw [entryAfter_eq_iff_overwrites hreflects.keyed hreflects.id_eq]
          simp

/-- What an earlier hub sent: node 5 joined. -/
def earlierHub : List TopologyMessage :=
  [{ seq := 1, uid := 31, op := .nodeChange { id := 5, op := .join, name := "five" } }]

/-- The history of a new hub, which knows node 6 only. -/
def newHub : List TopologyMessage :=
  [{ seq := 1, uid := 77, op := .nodeChange { id := 6, op := .join, name := "six" } }]

/-- Node 5 survives the history of a hub that has never heard of it. -/
theorem hub_is_not_source_of_truth :
    (((create 9 "nine" "" {}).applyUpdates earlierHub).applyUpdates newHub).mNodes ≠
      ((create 9 "nine" "" {}).applyUpdates newHub).mNodes := by
  decide +kernel

end TopologyManager

end IpcPubsub
