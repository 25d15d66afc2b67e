import IpcPubsub.GuardedRuns
import IpcPubsub.Reconnect

/-!
# What a run of updates leaves in a manager

Two questions about a manager that applies a log from nothing.

*Which topology does it hold?*  `ReferenceTopology` says what the map should be
in terms of the log alone: who is present, under which name and address, with
which publications and subscriptions.  Presence and topics always agree with it.
Names and addresses are those of the JOIN with which a node became present, so
they agree when no later JOIN changed them.

*Does it get through the log?*  Calling a null handler throws on the client
thread and nothing catches it.  Six of the seven calls are made behind a test
of the handler; the seventh is the one of a repeated ANNOUNCE with another mime.
-/

namespace IpcPubsub

open FiniteMap LastWrite GuardedRuns

/-! ## The topology a log describes -/

/-- The log has a JOIN of the node with no later LEAVE of it. -/
def Present (id : UInt64) (log : List TopologyMessage) : Prop :=
  ∃ before join after, log = before ++ join :: after ∧ join.JoinOf id ∧
    ∀ msg ∈ after, ¬ msg.LeaveOf id

/-- The name and the address a JOIN of node `id` gives it. -/
def joinsAs (id : UInt64) (msg : TopologyMessage) : Option (String × String) :=
  match msg.op with
  | .nodeChange change =>
      if change.id = id ∧ change.op = .join then some (change.name, change.address) else none
  | _ => none

/-- The map that should come of a log. -/
structure ReferenceTopology (log : List TopologyMessage) (nodes : Nodes) : Prop where
  present : ∀ id, id ∈ nodes ↔ Present id log
  named : ∀ id node, nodes.lookup id = some node →
    lastWrite (joinsAs id) log = some (node.name, node.address)
  topics : ∀ id node, nodes.lookup id = some node →
    ∃ since, sincePresent id log = some since ∧
      (∀ topic, node.publications.lookup topic =
        (lastWrite (publishes id topic) since).getD none) ∧
      ∀ topic, topic ∈ node.subscriptions ↔ lastWrite (subscribes id topic) since = some true

/-- No node that is present at the end has been given another name or address
by a JOIN after the one with which it became present. -/
def RejoinsAlike (log : List TopologyMessage) : Prop :=
  ∀ before join after change, log = before ++ join :: after →
    join.op = .nodeChange change → change.op = .join → ¬ Present change.id before →
    (∀ msg ∈ after, ¬ msg.LeaveOf change.id) →
    ∀ renamed ∈ lastWrite (joinsAs change.id) after, renamed = (change.name, change.address)

variable {id : UInt64} {log : List TopologyMessage} {node : Node}

/-- Every entry goes back to the JOIN with which its node became present. -/
theorem exists_split_of_entry (h : entryAfter id none log = some node) :
    ∃ before join after change, log = before ++ join :: after ∧
      join.op = .nodeChange change ∧ change.op = .join ∧ change.id = id ∧
      entryAfter id none before = none ∧ ∀ msg ∈ after, ¬ msg.LeaveOf id := by
  induction log using List.reverseRecOn generalizing node with
  | nil => cases h
  | append_singleton log msg ih =>
      rw [entryAfter_append, entryAfter_cons, entryAfter_nil] at h
      cases hentry : entryAfter id none log with
      | none =>
          rw [hentry] at h
          have hjoin : msg.JoinOf id := by
            by_contra hno
            rw [stepNode_none hno] at h
            cases h
          obtain ⟨change, hop, hchange, hid⟩ := MessageOp.reports_iff.mp hjoin
          exact ⟨log, msg, [], change, rfl, hop, hchange, hid, hentry, by simp⟩
      | some old =>
          obtain ⟨before, join, after, change, rfl, hop, hchange, hid, hnone, hafter⟩ := ih hentry
          have hleave : ¬ msg.LeaveOf id := by
            intro hleave
            rw [stepNode_leave hleave] at h
            cases h
          exact ⟨before, join, after ++ [msg], change, by simp, hop, hchange, hid, hnone,
            List.forall_mem_append.mpr ⟨hafter, List.forall_mem_singleton.mpr hleave⟩⟩

/-- **Presence.**  A node is in the map exactly when the log leaves it present. -/
theorem mem_replay_iff_present : id ∈ replay log ↔ Present id log := by
  rw [mem_replay]
  constructor
  · intro h
    obtain ⟨node, hentry⟩ := Option.isSome_iff_exists.mp h
    obtain ⟨before, join, after, change, hlog, hop, hchange, hid, _, hafter⟩ :=
      exists_split_of_entry hentry
    exact ⟨before, join, after, hlog, MessageOp.reports_iff.mpr ⟨change, hop, hchange, hid⟩, hafter⟩
  · rintro ⟨before, join, after, rfl, hjoin, hafter⟩
    rw [entryAfter_append, entryAfter_cons]
    exact entryAfter_isSome (stepNode_join hjoin) hafter

/-- A node is not listed where its last JOIN is followed by a LEAVE, or there is none. -/
theorem entryAfter_eq_none_iff : entryAfter id none log = none ↔ ¬ Present id log := by
  rw [← mem_replay_iff_present, not_mem_replay]

/-- A JOIN says under which name and address. -/
theorem joinsAs_of_join {msg : TopologyMessage} {change : NodeChange}
    (hop : msg.op = .nodeChange change) (hjoin : change.op = .join) :
    joinsAs change.id msg = some (change.name, change.address) := by
  simp [joinsAs, hop, hjoin]

/-- A node keeps the name and the address of the JOIN with which it became
present. -/
theorem entryAfter_of_split {before after : List TopologyMessage} {join : TopologyMessage}
    {change : NodeChange} (hop : join.op = .nodeChange change) (hjoin : change.op = .join)
    (hnone : entryAfter change.id none before = none)
    (hafter : ∀ msg ∈ after, ¬ msg.LeaveOf change.id) :
    ∃ node, entryAfter change.id none (before ++ join :: after) = some node ∧
      node.name = change.name ∧ node.address = change.address := by
  have hfresh : stepNode change.id none join =
      some { id := change.id, name := change.name, address := change.address } := by
    simp [stepNode, hop, hjoin]
  obtain ⟨_, hname, haddress⟩ := @Node.foldl_step_frame change.id
    { id := change.id, name := change.name, address := change.address } after
  refine ⟨_, ?_, hname, haddress⟩
  rw [entryAfter_append, hnone, entryAfter_cons, hfresh, entryAfter_some hafter]

/-- The last JOIN of a log that goes on after a first one. -/
theorem lastWrite_joinsAs_split {before after : List TopologyMessage} {join : TopologyMessage}
    {change : NodeChange} (hop : join.op = .nodeChange change) (hjoin : change.op = .join) :
    lastWrite (joinsAs change.id) (before ++ join :: after) =
      some ((lastWrite (joinsAs change.id) after).getD (change.name, change.address)) := by
  rw [lastWrite_append, lastWrite_cons, joinsAs_of_join hop hjoin]
  cases lastWrite (joinsAs change.id) after <;> rfl

/-- **Names and addresses.**  They are those of the last JOINs exactly when no
present node was given others after it became present. -/
theorem replay_named_iff :
    (∀ id node, (replay log).lookup id = some node →
      lastWrite (joinsAs id) log = some (node.name, node.address)) ↔ RejoinsAlike log := by
  constructor
  · intro hnamed before join after change hlog hop hjoin habsent hafter renamed hrenamed
    obtain ⟨node, hentry, hname, haddress⟩ :=
      entryAfter_of_split hop hjoin (entryAfter_eq_none_iff.mpr habsent) hafter
    have hlast := hnamed change.id node (by rw [lookup_replay, hlog, hentry])
    rw [hlog, lastWrite_joinsAs_split hop hjoin, Option.mem_def.mp hrenamed, hname,
      haddress] at hlast
    exact Option.some.inj hlast
  · intro halike id node hnode
    rw [lookup_replay] at hnode
    obtain ⟨before, join, after, change, hlog, hop, hjoin, rfl, hnone, hafter⟩ :=
      exists_split_of_entry hnode
    have hrenamed :=
      halike before join after change hlog hop hjoin (entryAfter_eq_none_iff.mp hnone) hafter
    obtain ⟨node', hentry, hname, haddress⟩ := entryAfter_of_split hop hjoin hnone hafter
    obtain rfl : node' = node := by
      rw [← hlog, hnode] at hentry
      exact (Option.some.inj hentry).symm
    rw [hlog, lastWrite_joinsAs_split hop hjoin, hname, haddress]
    cases hlast : lastWrite (joinsAs change.id) after with
    | none => rfl
    | some renamed => rw [hrenamed renamed hlast, Option.getD_some]

/-- The topics of an entry are those last announced and subscribed since its
node became present. -/
theorem replay_topics (h : (replay log).lookup id = some node) :
    ∃ since, sincePresent id log = some since ∧
      (∀ topic, node.publications.lookup topic =
        (lastWrite (publishes id topic) since).getD none) ∧
      ∀ topic, topic ∈ node.subscriptions ↔
        lastWrite (subscribes id topic) since = some true := by
  have hrel := replay_reference id log
  rw [h] at hrel
  cases hsince : sincePresent id log with
  | none =>
      rw [hsince] at hrel
      cases hrel
  | some since =>
      rw [hsince] at hrel
      obtain ⟨_, _, hpublications, hsubscriptions⟩ : Node.Reflects id node since := by
        cases hrel with
        | some hreflects => exact hreflects
      refine ⟨since, rfl, hpublications, ?_⟩
      intro topic
      have hmem := hsubscriptions topic
      rw [← decide_eq_true_iff (p := topic ∈ node.subscriptions), hmem]
      cases lastWrite (subscribes id topic) since <;> simp

/-- A topic change of a node that is not listed changes nothing and calls nobody. -/
theorem updateNodes_absent (handlers : Handlers) {nodes : Nodes} {msg : TopologyMessage}
    {change : TopicChange} (hop : msg.op = .topicChange change) (h : change.nodeId ∉ nodes) :
    updateNodes handlers nodes msg = (nodes, []) := by
  simp [updateNodes, hop, Finmap.lookup_eq_none.mpr h]

/-- **The reference topology, exactly.**  A manager that applied a log from
nothing holds the topology the log describes, and topic changes of absent nodes
had no effect on it, exactly when no node present at the end was given another
name or address after it became present. -/
theorem applyUpdates_reference_iff (nodeId : UInt64) (name address : String)
    (log : List TopologyMessage) :
    (ReferenceTopology log
        ((TopologyManager.create nodeId name address {}).applyUpdates log).mNodes ∧
      ∀ before msg after change, log = before ++ msg :: after →
        msg.op = .topicChange change → ¬ Present change.nodeId before →
        updateNodes {}
            ((TopologyManager.create nodeId name address {}).applyUpdates before).mNodes msg =
          (((TopologyManager.create nodeId name address {}).applyUpdates before).mNodes, [])) ↔
      RejoinsAlike log := by
  simp only [TopologyManager.create_applyUpdates_mNodes]
  constructor
  · intro h
    exact replay_named_iff.mp h.1.named
  · intro halike
    refine ⟨⟨fun id => mem_replay_iff_present, replay_named_iff.mpr halike,
      fun id node hnode => replay_topics hnode⟩, ?_⟩
    intro before msg after change _ hop habsent
    exact updateNodes_absent {} hop fun hmem => habsent (mem_replay_iff_present.mp hmem)

/-- A node that joins twice, under two names. -/
def renamedNode : List TopologyMessage :=
  [{ seq := 1, op := .nodeChange { id := 5, op := .join, name := "a" } },
    { seq := 2, op := .nodeChange { id := 5, op := .join, name := "b" } }]

/-- The map keeps the first name of a node that joins again under another. -/
theorem renamedNode_not_reference :
    ¬ ReferenceTopology renamedNode
      ((TopologyManager.create 1 "n" "x" {}).applyUpdates renamedNode).mNodes := by
  intro h
  have hlookup : ((TopologyManager.create 1 "n" "x" {}).applyUpdates renamedNode).mNodes.lookup 5 =
      some { id := 5, name := "a", address := "" } := by decide +kernel
  have hlast := h.named 5 _ hlookup
  revert hlast
  decide +kernel

/-! ## Null handlers -/

/-- Whether the handler a call is made on is not null. -/
def Handlers.accepts (handlers : Handlers) : Callback → Bool
  | .onJoin _ => handlers.onJoin
  | .onLeave _ => handlers.onLeave
  | .onAnnounce _ => handlers.onAnnounce
  | .onRetract _ => handlers.onRetract
  | .onSubscribe _ => handlers.onSubscribe
  | .onUnsubscribe _ => handlers.onUnsubscribe

/-- The topic change is an ANNOUNCE of what the node publishes under another
mime. -/
def Node.Remimes (node : Node) (change : TopicChange) : Prop :=
  change.op = .announce ∧
    ∃ publication, node.publications.lookup change.name = some publication ∧
      change.mime ≠ publication.mime

/-- The message changes the mime of a publication. -/
def Remimes (nodes : Nodes) (msg : TopologyMessage) : Prop :=
  ∃ change node, msg.op = .topicChange change ∧ nodes.lookup change.nodeId = some node ∧
    node.Remimes change

section Accepts

variable {handlers : Handlers} {nodes : Nodes} {msg : TopologyMessage}

/-- The calls for a topic change are accepted unless it changes a mime and the
handler is null. -/
theorem applyTopicChange_accepts_iff {change : TopicChange} :
    (∀ call ∈ (node.applyTopicChange handlers change).2, handlers.accepts call = true) ↔
      handlers.onAnnounce = true ∨ ¬ node.Remimes change := by
  cases hop : change.op with
  | announce =>
      cases hpub : node.publications.lookup change.name with
      | none =>
          cases hnull : handlers.onAnnounce <;>
            simp [Node.applyTopicChange, Node.Remimes, Handlers.accepts, hop, hpub, hnull]
      | some publication =>
          by_cases hmime : change.mime = publication.mime <;>
            simp [Node.applyTopicChange, Node.Remimes, Handlers.accepts, hop, hpub, hmime]
  | subscribe =>
      by_cases hcall : change.name ∉ node.subscriptions ∧ handlers.onSubscribe <;>
        simp [Node.applyTopicChange, Node.Remimes, Handlers.accepts, hop, hcall]
  | unsubscribe =>
      by_cases hcall : change.name ∈ node.subscriptions ∧ handlers.onUnsubscribe <;>
        simp [Node.applyTopicChange, Node.Remimes, Handlers.accepts, hop, hcall]
  | retract =>
      by_cases hcall : change.name ∈ node.publications ∧ handlers.onRetract <;>
        simp [Node.applyTopicChange, Node.Remimes, Handlers.accepts, hop, hcall]
  | _ => simp [Node.applyTopicChange, Node.Remimes, hop]

/-- Joining and leaving never calls a null handler, for both calls are guarded by a test of it. -/
theorem applyNodeChange_accepts (change : NodeChange) :
    ∀ call ∈ (applyNodeChange handlers nodes change).2, handlers.accepts call = true := by
  cases hop : change.op with
  | join =>
      cases hnode : nodes.lookup change.id with
      | none =>
          cases hnull : handlers.onJoin <;>
            simp [applyNodeChange, Handlers.accepts, hop, hnode, hnull]
      | some node =>
          by_cases hcall :
            (node.name ≠ change.name ∨ node.address ≠ change.address) ∧ handlers.onJoin <;>
            simp [applyNodeChange, Handlers.accepts, hop, hnode, hcall]
  | leave =>
      by_cases hmem : change.id ∈ nodes <;> cases hnull : handlers.onLeave <;>
        simp [applyNodeChange, Handlers.accepts, hop, hmem, hnull]
  | _ => simp [applyNodeChange, hop]

/-- **One update.**  It calls no null handler unless it changes a mime and the
ANNOUNCE handler is null. -/
theorem updateNodes_accepts_iff :
    (∀ call ∈ (updateNodes handlers nodes msg).2, handlers.accepts call = true) ↔
      handlers.onAnnounce = true ∨ ¬ Remimes nodes msg := by
  cases hop : msg.op with
  | notSet => simp [updateNodes, Remimes, hop]
  | nodeChange change => simpa [updateNodes, Remimes, hop] using applyNodeChange_accepts change
  | topicChange change =>
      cases hnode : nodes.lookup change.nodeId with
      | none => simp [updateNodes, Remimes, hop, hnode]
      | some node =>
          have hiff := @applyTopicChange_accepts_iff node handlers change
          simpa [updateNodes, Remimes, hop, hnode] using hiff

end Accepts

namespace TopologyManager

/-- `ApplyUpdate` on the client thread.  A call of a null handler throws
`std::bad_function_call`, and the run ends. -/
def updateStep (m : TopologyManager) (msg : TopologyMessage) : Option TopologyManager :=
  if ∀ call ∈ (m.applyUpdate msg).2, m.handlers.accepts call = true then
    some (m.applyUpdate msg).1
  else none

/-- What holds at every place of a list holds at its head and then in its tail. -/
theorem forall_split_cons {α : Type} {P : List α → α → Prop} {a : α} {l : List α} :
    (∀ before x after, a :: l = before ++ x :: after → P before x) ↔
      P [] a ∧ ∀ before x after, l = before ++ x :: after → P (a :: before) x := by
  constructor
  · intro h
    exact ⟨h [] a l rfl, fun before x after hl => h (a :: before) x after (by rw [hl]; rfl)⟩
  · rintro ⟨hhead, htail⟩ before x after hl
    cases before with
    | nil =>
        obtain ⟨rfl, _⟩ := List.cons.inj hl
        exact hhead
    | cons first before =>
        obtain ⟨rfl, hrest⟩ := List.cons.inj hl
        exact htail before x after hrest

/-- A run that gets through is the run that ignores what is called. -/
theorem exec_updateStep_iff {m m' : TopologyManager} {log : List TopologyMessage} :
    exec updateStep m log = some m' ↔
      m' = m.applyUpdates log ∧
        (m.handlers.onAnnounce = true ∨
          ∀ before msg after, log = before ++ msg :: after →
            ¬ Remimes (m.applyUpdates before).mNodes msg) := by
  induction log generalizing m with
  | nil =>
      have hnone : ∀ before (msg : TopologyMessage) after, [] ≠ before ++ msg :: after := by
        simp
      constructor
      · intro h
        exact ⟨(Option.some.inj h).symm, Or.inr fun before msg after hlog =>
          absurd hlog (hnone before msg after)⟩
      · rintro ⟨rfl, _⟩
        rfl
  | cons msg log ih =>
      have hcalls : (∀ call ∈ (m.applyUpdate msg).2, m.handlers.accepts call = true) ↔
          m.handlers.onAnnounce = true ∨ ¬ Remimes m.mNodes msg := updateNodes_accepts_iff
      have hhandlers : (m.applyUpdate msg).1.handlers = m.handlers := rfl
      have hbefore : m.applyUpdates [] = m := rfl
      rw [exec_cons, updateStep,
        @forall_split_cons _ fun before msg' => ¬ Remimes (m.applyUpdates before).mNodes msg']
      simp only [applyUpdates_cons, hbefore]
      by_cases hnull : m.handlers.onAnnounce = true ∨ ¬ Remimes m.mNodes msg
      · rw [if_pos (hcalls.mpr hnull), Option.bind_some, ih, hhandlers]
        tauto
      · have hthrows : ¬ ∀ call ∈ (m.applyUpdate msg).2, m.handlers.accepts call = true :=
          fun hall => hnull (hcalls.mp hall)
        rw [if_neg hthrows]
        constructor
        · intro h
          cases h
        · rintro ⟨_, hall⟩
          exact absurd (hall.imp_right And.left) hnull

/-- The history after a run is that of the insertions alone. -/
theorem applyUpdates_mHistory {m m' : TopologyManager} (h : m.mHistory = m'.mHistory)
    (log : List TopologyMessage) :
    (m.applyUpdates log).mHistory = (m'.applyUpdates log).mHistory := by
  induction log generalizing m m' with
  | nil => exact h
  | cons msg log ih =>
      rw [applyUpdates_cons, applyUpdates_cons]
      refine ih ?_
      simp only [applyUpdate, h]

/-- **Optional handlers, exactly.**  Whatever handlers are null, a manager gets
through a log without calling one of them, to the nodes and the history it has
when all are set, exactly when the ANNOUNCE handler is set or no message changes
the mime of a publication. -/
theorem handlers_optional_iff (nodeId : UInt64) (name address : String) (handlers : Handlers)
    (log : List TopologyMessage) :
    (∃ m, exec updateStep (create nodeId name address handlers) log = some m ∧
      m.mNodes = ((create nodeId name address {}).applyUpdates log).mNodes ∧
      m.mHistory = ((create nodeId name address {}).applyUpdates log).mHistory) ↔
    (handlers.onAnnounce = true ∨
      ∀ before msg after, log = before ++ msg :: after →
        ¬ Remimes ((create nodeId name address handlers).applyUpdates before).mNodes msg) := by
  constructor
  · rintro ⟨m, hrun, _⟩
    exact (exec_updateStep_iff.mp hrun).2
  · intro h
    have hhistory : (create nodeId name address handlers).mHistory =
        (create nodeId name address {}).mHistory := rfl
    refine ⟨_, exec_updateStep_iff.mpr ⟨rfl, h⟩, ?_, applyUpdates_mHistory hhistory log⟩
    rw [create_applyUpdates_mNodes, create_applyUpdates_mNodes]

/-- A node that announces a topic under one mime and then under another. -/
def remimedTopic : List TopologyMessage :=
  [{ seq := 1, op := .nodeChange { id := 5, op := .join, name := "a" } },
    { seq := 2, op := .topicChange { name := "t", mime := "x", nodeId := 5, op := .announce } },
    { seq := 3, op := .topicChange { name := "t", mime := "y", nodeId := 5, op := .announce } }]

/-- The second ANNOUNCE calls a null handler. -/
theorem remimedTopic_throws :
    exec updateStep (create 1 "n" "x" { onAnnounce := false }) remimedTopic = none := by
  decide +kernel

end TopologyManager

end IpcPubsub
