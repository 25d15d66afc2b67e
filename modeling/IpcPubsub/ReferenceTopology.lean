import IpcPubsub.LastWrite
import IpcPubsub.TopologyManager

/-!
# The topology a log stands for

`ApplyUpdate` is incremental.  This file says what it adds up to.  The map it
keeps is looked at one node at a time: `stepNode id` is what a message does to
the entry of node `id`, and `lookup_applyAll` turns a lookup after a whole log
into a fold of it.

An entry is a bundle of registers.  Which topics a node publishes and subscribes
to is decided by the last message that wrote the topic's register since the node
last became present (`sincePresent`); `replay_reference` states that for every
log.
-/

namespace IpcPubsub

open FiniteMap LastWrite

/-! ## One topic change -/

/-- What a topic change writes about the publication of `topic`. -/
def TopicChange.publishes (topic : String) (change : TopicChange) : Option (Option Publication) :=
  if change.name = topic then
    match change.op with
    | .announce => some (some { name := topic, mime := change.mime })
    | .retract => some none
    | _ => none
  else none

/-- What a topic change writes about the subscription to `topic`. -/
def TopicChange.subscribes (topic : String) (change : TopicChange) : Option Bool :=
  if change.name = topic then
    match change.op with
    | .subscribe => some true
    | .unsubscribe => some false
    | _ => none
  else none

/-- Every publication is stored under its own name. -/
def Node.Keyed (node : Node) : Prop :=
  ∀ topic publication, node.publications.lookup topic = some publication →
    publication.name = topic

/-- Two entries with the same fields are the same. -/
theorem Node.eq_of {node node' : Node} (hid : node.id = node'.id)
    (hname : node.name = node'.name) (haddress : node.address = node'.address)
    (hpub : ∀ topic, node.publications.lookup topic = node'.publications.lookup topic)
    (hsub : ∀ topic, topic ∈ node.subscriptions ↔ topic ∈ node'.subscriptions) :
    node = node' := by
  have hpub' : node.publications = node'.publications := Finmap.ext_lookup hpub
  have hsub' : node.subscriptions = node'.subscriptions := Finset.ext hsub
  cases node
  cases node'
  simp_all

/-- Two entries are compared topic by topic. -/
theorem Node.eq_iff {node node' : Node} :
    node = node' ↔
      (node.id = node'.id ∧ node.name = node'.name ∧ node.address = node'.address) ∧
        ∀ topic, node.publications.lookup topic = node'.publications.lookup topic ∧
          decide (topic ∈ node.subscriptions) = decide (topic ∈ node'.subscriptions) := by
  constructor
  · rintro rfl
    exact ⟨⟨rfl, rfl, rfl⟩, fun _ => ⟨rfl, rfl⟩⟩
  · intro ⟨⟨hid, hname, haddress⟩, htopics⟩
    exact Node.eq_of hid hname haddress (fun topic => (htopics topic).1)
      fun topic => decide_eq_decide.mp (htopics topic).2

namespace Node

variable (handlers : Handlers) (node : Node) (change : TopicChange)

/-- An ANNOUNCE touches the publications alone, whatever the handlers: `onAnnounce` decides only
what is called. -/
theorem applyTopicChange_announce (hop : change.op = .announce) :
    ∃ publications, ∀ handlers : Handlers,
      (node.applyTopicChange handlers change).1 = { node with publications := publications } := by
  cases hpub : node.publications.lookup change.name with
  | none =>
      refine ⟨node.publications.insert change.name { name := change.name, mime := change.mime },
        fun handlers => ?_⟩
      simp [applyTopicChange, hop, hpub]
  | some publication =>
      by_cases hmime : change.mime = publication.mime
      · refine ⟨node.publications, fun handlers => ?_⟩
        simp [applyTopicChange, hop, hpub, hmime]
      · refine ⟨node.publications.insert change.name { publication with mime := change.mime },
          fun handlers => ?_⟩
        simp [applyTopicChange, hop, hpub, hmime]

/-- Handlers do not change what becomes of the entry. -/
theorem applyTopicChange_fst :
    (node.applyTopicChange handlers change).1 = (node.applyTopicChange {} change).1 := by
  cases hop : change.op with
  | announce =>
      obtain ⟨publications, hannounce⟩ := applyTopicChange_announce node change hop
      rw [hannounce handlers, hannounce {}]
  | _ => simp [applyTopicChange, hop]

/-- A topic change touches the two topic containers and nothing else. -/
theorem applyTopicChange_frame :
    (node.applyTopicChange {} change).1.id = node.id ∧
      (node.applyTopicChange {} change).1.name = node.name ∧
      (node.applyTopicChange {} change).1.address = node.address := by
  cases hop : change.op with
  | announce =>
      obtain ⟨publications, hannounce⟩ := applyTopicChange_announce node change hop
      rw [hannounce {}]
      exact ⟨rfl, rfl, rfl⟩
  | _ => simp [applyTopicChange, hop]

variable {node}

/-- The publication registers after a topic change: the one it writes to, and the others as they
were. -/
theorem lookup_publications_applyTopicChange (hkeyed : node.Keyed) (topic : String) :
    (node.applyTopicChange {} change).1.publications.lookup topic =
      (change.publishes topic).getD (node.publications.lookup topic) := by
  by_cases htopic : change.name = topic
  · subst htopic
    cases hop : change.op with
    | announce =>
        cases hpub : node.publications.lookup change.name with
        | none => simp [applyTopicChange, TopicChange.publishes, hop, hpub]
        | some publication =>
            have hname := hkeyed _ _ hpub
            by_cases hmime : change.mime = publication.mime
            · simp [applyTopicChange, TopicChange.publishes, hop, hpub, hmime, ← hname]
            · simp [applyTopicChange, TopicChange.publishes, hop, hpub, hmime, hname]
    | retract => simp [applyTopicChange, TopicChange.publishes, hop]
    | _ => simp [applyTopicChange, TopicChange.publishes, hop]
  · have hne : topic ≠ change.name := fun h => htopic h.symm
    cases hop : change.op with
    | announce =>
        cases hpub : node.publications.lookup change.name with
        | none =>
            simp [applyTopicChange, TopicChange.publishes, hop, hpub, htopic,
              Finmap.lookup_insert_of_ne _ hne]
        | some publication =>
            by_cases hmime : change.mime = publication.mime <;>
              simp [applyTopicChange, TopicChange.publishes, hop, hpub, htopic, hmime,
                Finmap.lookup_insert_of_ne _ hne]
    | retract =>
        simp [applyTopicChange, TopicChange.publishes, hop, htopic,
          Finmap.lookup_erase_ne hne]
    | _ => simp [applyTopicChange, TopicChange.publishes, hop, htopic]

/-- The subscription registers after a topic change: the one it writes to, and the others as they
were. -/
theorem mem_subscriptions_applyTopicChange (topic : String) :
    decide (topic ∈ (node.applyTopicChange {} change).1.subscriptions) =
      (change.subscribes topic).getD (decide (topic ∈ node.subscriptions)) := by
  have hframe : change.op = .announce →
      (node.applyTopicChange {} change).1.subscriptions = node.subscriptions := by
    intro hop
    obtain ⟨publications, hannounce⟩ := applyTopicChange_announce node change hop
    rw [hannounce {}]
  have hne : change.name ≠ topic → topic ≠ change.name := Ne.symm
  cases hop : change.op with
  | announce => simp [hframe hop, TopicChange.subscribes, hop]
  | _ =>
      by_cases htopic : change.name = topic <;>
        simp [TopicChange.subscribes, hop, htopic, applyTopicChange, hne]

/-- A publication is stored under its own topic. -/
theorem Keyed.applyTopicChange (hkeyed : node.Keyed) :
    (node.applyTopicChange {} change).1.Keyed := by
  intro topic publication hpub
  rw [lookup_publications_applyTopicChange change hkeyed] at hpub
  by_cases htopic : change.name = topic
  · cases hop : change.op <;> simp [TopicChange.publishes, hop, htopic] at hpub
    case announce => exact hpub ▸ rfl
    all_goals exact hkeyed _ _ hpub
  · exact hkeyed _ _ (by simpa [TopicChange.publishes, htopic] using hpub)

end Node

/-! ## One message, one node -/

/-- What a message does to the entry of node `id`. -/
def stepNode (id : UInt64) (entry : Option Node) (msg : TopologyMessage) : Option Node :=
  match msg.op with
  | .nodeChange change =>
      if change.id = id then
        match change.op with
        | .join =>
            some (entry.getD { id := id, name := change.name, address := change.address })
        | .leave => none
        | _ => entry
      else entry
  | .topicChange change =>
      if change.nodeId = id then
        entry.map fun node => (node.applyTopicChange {} change).1
      else entry
  | .notSet => entry

/-- **A lookup after one update.**  Whatever handlers are set, the entry of a node depends on its
own entry and the message alone. -/
theorem lookup_updateNodes (handlers : Handlers) (nodes : Nodes) (msg : TopologyMessage)
    (id : UInt64) :
    (updateNodes handlers nodes msg).1.lookup id = stepNode id (nodes.lookup id) msg := by
  cases hmsg : msg.op with
  | notSet => simp [updateNodes, stepNode, hmsg]
  | nodeChange change =>
      by_cases hid : change.id = id
      · subst hid
        cases hop : change.op with
        | join =>
            cases hnode : nodes.lookup change.id <;>
              simp [updateNodes, applyNodeChange, stepNode, hmsg, hop, hnode]
        | leave =>
            by_cases hmem : change.id ∈ nodes
            · simp [updateNodes, applyNodeChange, stepNode, hmsg, hop, hmem]
            · simp [updateNodes, applyNodeChange, stepNode, hmsg, hop, hmem,
                Finmap.lookup_eq_none.mpr hmem]
        | _ => simp [updateNodes, applyNodeChange, stepNode, hmsg, hop]
      · have hne : id ≠ change.id := fun h => hid h.symm
        cases hop : change.op with
        | join =>
            cases hnode : nodes.lookup change.id <;>
              simp [updateNodes, applyNodeChange, stepNode, hmsg, hop, hnode, hid,
                Finmap.lookup_insert_of_ne _ hne]
        | leave =>
            by_cases hmem : change.id ∈ nodes <;>
              simp [updateNodes, applyNodeChange, stepNode, hmsg, hop, hmem, hid,
                Finmap.lookup_erase_ne hne]
        | _ => simp [updateNodes, applyNodeChange, stepNode, hmsg, hop, hid]
  | topicChange change =>
      by_cases hid : change.nodeId = id
      · subst hid
        cases hnode : nodes.lookup change.nodeId with
        | none => simp [updateNodes, stepNode, hmsg, hnode]
        | some node =>
            simp [updateNodes, stepNode, hmsg, hnode, node.applyTopicChange_fst handlers]
      · have hne : id ≠ change.nodeId := fun h => hid h.symm
        cases hnode : nodes.lookup change.nodeId <;>
          simp [updateNodes, stepNode, hmsg, hnode, hid, Finmap.lookup_insert_of_ne _ hne]

/-- The entry of one node after a log. -/
def entryAfter (id : UInt64) (entry : Option Node) (log : List TopologyMessage) : Option Node :=
  log.foldl (stepNode id) entry

/-- Nothing was said. -/
@[simp] theorem entryAfter_nil (id : UInt64) (entry : Option Node) :
    entryAfter id entry [] = entry := rfl

/-- What a log makes of an entry, message by message. -/
@[simp] theorem entryAfter_cons (id : UInt64) (entry : Option Node) (msg : TopologyMessage)
    (log : List TopologyMessage) :
    entryAfter id entry (msg :: log) = entryAfter id (stepNode id entry msg) log := rfl

/-- And part by part. -/
@[simp] theorem entryAfter_append (id : UInt64) (entry : Option Node)
    (log log' : List TopologyMessage) :
    entryAfter id entry (log ++ log') = entryAfter id (entryAfter id entry log) log' :=
  List.foldl_append

/-- To apply a log to all nodes is to apply it to each of them. -/
theorem lookup_applyAll (nodes : Nodes) (log : List TopologyMessage) (id : UInt64) :
    (applyAll nodes log).lookup id = entryAfter id (nodes.lookup id) log := by
  induction log generalizing nodes with
  | nil => rfl
  | cons msg log ih =>
      rw [entryAfter_cons, ← lookup_updateNodes {}]
      exact ih _

/-- The entry of a node after a replay from nothing. -/
theorem lookup_replay (log : List TopologyMessage) (id : UInt64) :
    (replay log).lookup id = entryAfter id none log :=
  lookup_applyAll ∅ log id

/-- A node is listed when its entry is there. -/
theorem mem_replay {id : UInt64} {log : List TopologyMessage} :
    id ∈ replay log ↔ (entryAfter id none log).isSome := by
  rw [← Finmap.lookup_isSome, lookup_replay]

/-- A node is not listed where its entry is gone. -/
theorem not_mem_replay {id : UInt64} {log : List TopologyMessage} :
    id ∉ replay log ↔ entryAfter id none log = none := by
  rw [mem_replay, Option.not_isSome_iff_eq_none]

/-- Two logs build the same map exactly when they agree at every node. -/
theorem applyAll_eq_iff {nodes nodes' : Nodes} {log log' : List TopologyMessage} :
    applyAll nodes log = applyAll nodes' log' ↔
      ∀ id, entryAfter id (nodes.lookup id) log = entryAfter id (nodes'.lookup id) log' := by
  constructor
  · intro h id
    rw [← lookup_applyAll, ← lookup_applyAll, h]
  · intro h
    apply Finmap.ext_lookup
    intro id
    rw [lookup_applyAll, lookup_applyAll, h id]

/-- Two logs come to the same when they do for every node. -/
theorem replay_eq_iff {log log' : List TopologyMessage} :
    replay log = replay log' ↔ ∀ id, entryAfter id none log = entryAfter id none log' :=
  applyAll_eq_iff

section StepNode

variable {id : UInt64} {entry : Option Node} {msg : TopologyMessage}

/-- A message about another node leaves the entry alone. -/
theorem stepNode_of_ne (h : msg.nodeId ≠ id) : stepNode id entry msg = entry := by
  unfold TopologyMessage.nodeId at h
  cases hop : msg.op <;> simp_all [stepNode, MessageOp.nodeId]

/-- What a message does to an entry is decided by its operation. -/
theorem stepNode_congr {msg' : TopologyMessage} (h : msg.op = msg'.op) :
    stepNode id entry msg = stepNode id entry msg' := by
  simp [stepNode, h]

/-- A LEAVE removes the node it is about, whatever it has. -/
theorem stepNode_leave (h : msg.LeaveOf id) : stepNode id entry msg = none := by
  obtain ⟨change, hop, hchange, hid⟩ := MessageOp.reports_iff.mp h
  simp [stepNode, hop, hchange, hid]

/-- A JOIN lists the node it is about. -/
theorem stepNode_join (h : msg.JoinOf id) : (stepNode id entry msg).isSome := by
  obtain ⟨change, hop, hchange, hid⟩ := MessageOp.reports_iff.mp h
  simp [stepNode, hop, hchange, hid]

/-- A JOIN of a present node changes nothing, not even its name. -/
theorem stepNode_join_some {node : Node} (h : msg.JoinOf id) :
    stepNode id (some node) msg = some node := by
  obtain ⟨change, hop, hchange, hid⟩ := MessageOp.reports_iff.mp h
  simp [stepNode, hop, hchange, hid]

/-- Nothing but a JOIN lists a node that is not listed. -/
theorem stepNode_none (h : ¬ msg.JoinOf id) : stepNode id none msg = none := by
  rw [TopologyMessage.JoinOf, MessageOp.reports_iff] at h
  cases hop : msg.op with
  | nodeChange change =>
      by_cases hid : change.id = id
      · cases hchange : change.op <;> simp_all [stepNode]
      · simp [stepNode, hop, hid]
  | topicChange change => simp [stepNode, hop]
  | notSet => simp [stepNode, hop]

/-- Only its own LEAVE removes an entry. -/
theorem stepNode_isSome (h : entry.isSome) (hleave : ¬ msg.LeaveOf id) :
    (stepNode id entry msg).isSome := by
  rw [TopologyMessage.LeaveOf, MessageOp.reports_iff] at hleave
  cases hop : msg.op with
  | nodeChange change =>
      by_cases hid : change.id = id
      · cases hchange : change.op <;> simp_all [stepNode]
      · simpa [stepNode, hop, hid] using h
  | topicChange change =>
      by_cases hid : change.nodeId = id <;> simpa [stepNode, hop, hid] using h
  | notSet => simpa [stepNode, hop] using h

end StepNode

section EntryAfter

variable {id : UInt64} {entry : Option Node} {log : List TopologyMessage}

/-- Without a JOIN an absent node stays absent. -/
theorem entryAfter_none (h : ∀ msg ∈ log, ¬ msg.JoinOf id) :
    entryAfter id none log = none := by
  induction log with
  | nil => rfl
  | cons msg log ih =>
      rw [entryAfter_cons, stepNode_none (h msg List.mem_cons_self)]
      exact ih fun msg' hmem => h msg' (List.mem_cons_of_mem _ hmem)

/-- Without a LEAVE a present node stays present. -/
theorem entryAfter_isSome (hentry : entry.isSome) (h : ∀ msg ∈ log, ¬ msg.LeaveOf id) :
    (entryAfter id entry log).isSome := by
  induction log generalizing entry with
  | nil => exact hentry
  | cons msg log ih =>
      exact ih (stepNode_isSome hentry (h msg List.mem_cons_self))
        fun msg' hmem => h msg' (List.mem_cons_of_mem _ hmem)

/-- A node with a JOIN and no LEAVE is present. -/
theorem entryAfter_isSome_of_join {msg : TopologyMessage} (hmem : msg ∈ log)
    (hjoin : msg.JoinOf id) (h : ∀ msg ∈ log, ¬ msg.LeaveOf id) :
    (entryAfter id entry log).isSome := by
  obtain ⟨before, after, rfl⟩ := List.append_of_mem hmem
  rw [entryAfter_append, entryAfter_cons]
  exact entryAfter_isSome (stepNode_join hjoin)
    fun msg' hmem' => h msg' (by simp [hmem'])

/-- After a LEAVE it no longer matters what was recorded. -/
theorem entryAfter_eq_of_leave {msg : TopologyMessage} (hmem : msg ∈ log) (hleave : msg.LeaveOf id)
    (entry entry' : Option Node) :
    entryAfter id entry log = entryAfter id entry' log := by
  obtain ⟨before, after, rfl⟩ := List.append_of_mem hmem
  simp [stepNode_leave hleave]

/-- Messages about other nodes do not matter. -/
theorem entryAfter_of_ne (h : ∀ msg ∈ log, msg.nodeId ≠ id) : entryAfter id entry log = entry := by
  induction log with
  | nil => rfl
  | cons msg log ih =>
      rw [entryAfter_cons, stepNode_of_ne (h msg List.mem_cons_self)]
      exact ih fun msg' hmem => h msg' (List.mem_cons_of_mem _ hmem)

/-- Messages about other nodes may be left out, since none of them touches the entry. -/
theorem entryAfter_filter {p : TopologyMessage → Bool}
    (h : ∀ msg ∈ log, p msg = false → msg.nodeId ≠ id) :
    entryAfter id entry (log.filter p) = entryAfter id entry log := by
  induction log generalizing entry with
  | nil => rfl
  | cons msg log ih =>
      have htail := @ih (stepNode id entry msg)
        fun msg' hmem => h msg' (List.mem_cons_of_mem _ hmem)
      cases hp : p msg with
      | true => simpa [hp] using htail
      | false =>
          have hstep := @stepNode_of_ne id entry msg (h msg List.mem_cons_self hp)
          rw [List.filter_cons_of_neg (by simp [hp]), entryAfter_cons, ← htail, hstep]

end EntryAfter

/-! ## The registers of an entry -/

/-- What becomes of the entry of a present node when the message is not its
LEAVE. -/
def Node.step (id : UInt64) (node : Node) (msg : TopologyMessage) : Node :=
  match msg.op with
  | .topicChange change =>
      if change.nodeId = id then (node.applyTopicChange {} change).1 else node
  | _ => node

/-- What a message writes about the publication of `topic` by node `id`. -/
def publishes (id : UInt64) (topic : String) (msg : TopologyMessage) :
    Option (Option Publication) :=
  match msg.op with
  | .topicChange change => if change.nodeId = id then change.publishes topic else none
  | _ => none

/-- What a message writes about the subscription of node `id` to `topic`. -/
def subscribes (id : UInt64) (topic : String) (msg : TopologyMessage) : Option Bool :=
  match msg.op with
  | .topicChange change => if change.nodeId = id then change.subscribes topic else none
  | _ => none

/-- Nothing but a LEAVE removes a node; what else is said of it changes its entry. -/
theorem stepNode_some {id : UInt64} {node : Node} {msg : TopologyMessage}
    (h : ¬ msg.LeaveOf id) : stepNode id (some node) msg = some (node.step id msg) := by
  rw [TopologyMessage.LeaveOf, MessageOp.reports_iff] at h
  cases hop : msg.op with
  | nodeChange change =>
      by_cases hid : change.id = id
      · cases hchange : change.op <;> simp_all [stepNode, Node.step]
      · simp [stepNode, Node.step, hop, hid]
  | topicChange change =>
      by_cases hid : change.nodeId = id <;> simp [stepNode, Node.step, hop, hid]
  | notSet => simp [stepNode, Node.step, hop]

/-- Whether a node is present after a message. -/
theorem stepNode_isSome_iff {id : UInt64} {entry : Option Node} {msg : TopologyMessage} :
    (stepNode id entry msg).isSome ↔ msg.JoinOf id ∨ entry.isSome ∧ ¬ msg.LeaveOf id := by
  by_cases hjoin : msg.JoinOf id
  · simp [hjoin, stepNode_join hjoin]
  · by_cases hleave : msg.LeaveOf id
    · simp [hjoin, hleave, stepNode_leave hleave]
    · cases entry with
      | none => simp [hjoin, stepNode_none hjoin]
      | some node => simp [hleave, stepNode_some hleave]

/-- Whether a node is present after a log does not depend on its entry before. -/
theorem entryAfter_isSome_congr {id : UInt64} {entry entry' : Option Node}
    (h : entry.isSome ↔ entry'.isSome) (log : List TopologyMessage) :
    (entryAfter id entry log).isSome ↔ (entryAfter id entry' log).isSome := by
  induction log generalizing entry entry' with
  | nil => exact h
  | cons msg log ih =>
      refine ih ?_
      rw [stepNode_isSome_iff, stepNode_isSome_iff, h]

/-- And so for a log in which the node does not leave. -/
theorem entryAfter_some {id : UInt64} {node : Node} {log : List TopologyMessage}
    (h : ∀ msg ∈ log, ¬ msg.LeaveOf id) :
    entryAfter id (some node) log = some (log.foldl (Node.step id) node) := by
  induction log generalizing node with
  | nil => rfl
  | cons msg log ih =>
      rw [entryAfter_cons, stepNode_some (h msg List.mem_cons_self), List.foldl_cons]
      exact ih fun msg' hmem => h msg' (List.mem_cons_of_mem _ hmem)

namespace Node

variable {id : UInt64} {node : Node}

/-- No message stores a publication under another topic. -/
theorem Keyed.step (hkeyed : node.Keyed) (msg : TopologyMessage) : (node.step id msg).Keyed := by
  unfold Node.step
  split
  · split
    · exact hkeyed.applyTopicChange _
    · exact hkeyed
  · exact hkeyed

/-- A topic is published as the message says, or as before. -/
theorem lookup_publications_step (hkeyed : node.Keyed) (msg : TopologyMessage) (topic : String) :
    (node.step id msg).publications.lookup topic =
      (publishes id topic msg).getD (node.publications.lookup topic) := by
  cases hop : msg.op with
  | topicChange change =>
      by_cases hid : change.nodeId = id
      · simp [Node.step, publishes, hop, hid,
          lookup_publications_applyTopicChange change hkeyed]
      · simp [Node.step, publishes, hop, hid]
  | _ => simp [Node.step, publishes, hop]

/-- A topic is subscribed to as the message says, or as before. -/
theorem mem_subscriptions_step (msg : TopologyMessage) (topic : String) :
    decide (topic ∈ (node.step id msg).subscriptions) =
      (subscribes id topic msg).getD (decide (topic ∈ node.subscriptions)) := by
  cases hop : msg.op with
  | topicChange change =>
      by_cases hid : change.nodeId = id
      · simp [Node.step, subscribes, hop, hid, mem_subscriptions_applyTopicChange]
      · simp [Node.step, subscribes, hop, hid]
  | _ => simp [Node.step, subscribes, hop]

/-- No topic change gives the node another id, name or address. -/
theorem step_frame (msg : TopologyMessage) :
    (node.step id msg).id = node.id ∧ (node.step id msg).name = node.name ∧
      (node.step id msg).address = node.address := by
  unfold Node.step
  split
  · split
    · exact applyTopicChange_frame node _
    · exact ⟨rfl, rfl, rfl⟩
  · exact ⟨rfl, rfl, rfl⟩

/-- Whatever happens to the topics of a present node, its id, name and address
stay. -/
theorem foldl_step_frame (log : List TopologyMessage) :
    (log.foldl (Node.step id) node).id = node.id ∧
      (log.foldl (Node.step id) node).name = node.name ∧
      (log.foldl (Node.step id) node).address = node.address := by
  induction log generalizing node with
  | nil => exact ⟨rfl, rfl, rfl⟩
  | cons msg log ih =>
      obtain ⟨hid, hname, haddress⟩ := @step_frame id node msg
      obtain ⟨hid', hname', haddress'⟩ := @ih (node.step id msg)
      exact ⟨hid'.trans hid, hname'.trans hname, haddress'.trans haddress⟩

/-- And no log stores a publication under another topic. -/
theorem Keyed.foldl_step (hkeyed : node.Keyed) (log : List TopologyMessage) :
    (log.foldl (Node.step id) node).Keyed := by
  induction log generalizing node with
  | nil => exact hkeyed
  | cons msg log ih => exact ih (hkeyed.step msg)

/-- A publication of a present node is what the last message about it wrote. -/
theorem lookup_publications_foldl (hkeyed : node.Keyed) (log : List TopologyMessage)
    (topic : String) :
    (log.foldl (Node.step id) node).publications.lookup topic =
      (lastWrite (publishes id topic) log).getD (node.publications.lookup topic) :=
  register_foldl (fun node : Node => node.publications.lookup topic)
    (I := Keyed) (fun _ msg h => h.step msg)
    (fun _ msg h => lookup_publications_step h msg topic) log hkeyed

/-- A subscription of a present node is what the last message about it wrote. -/
theorem mem_subscriptions_foldl (log : List TopologyMessage) (topic : String) :
    decide (topic ∈ (log.foldl (Node.step id) node).subscriptions) =
      (lastWrite (subscribes id topic) log).getD (decide (topic ∈ node.subscriptions)) :=
  register_foldl (fun node : Node => decide (topic ∈ node.subscriptions))
    (I := fun _ => True) (fun _ _ _ => trivial)
    (fun _ msg _ => mem_subscriptions_step msg topic) log trivial

/-- The entry of a node whose messages since it became present are `since`. -/
structure Reflects (id : UInt64) (node : Node) (since : List TopologyMessage) : Prop where
  id_eq : node.id = id
  keyed : node.Keyed
  publications : ∀ topic, node.publications.lookup topic =
    (lastWrite (publishes id topic) since).getD none
  subscriptions : ∀ topic, decide (topic ∈ node.subscriptions) =
    (lastWrite (subscribes id topic) since).getD false

/-- An entry without topics reflects an empty history. -/
theorem Reflects.fresh (name address : String) :
    Reflects id { id := id, name := name, address := address } [] where
  id_eq := rfl
  keyed := fun topic publication h => by simp at h
  publications := fun topic => by simp
  subscriptions := fun topic => by simp

/-- One message more, and the entry reflects that as well. -/
theorem Reflects.step {since : List TopologyMessage} (h : Reflects id node since)
    (msg : TopologyMessage) : Reflects id (node.step id msg) (since ++ [msg]) where
  id_eq := (step_frame msg).1.trans h.id_eq
  keyed := h.keyed.step msg
  publications := fun topic => by
    rw [lookup_publications_step h.keyed, h.publications topic, lastWrite_concat]
    cases publishes id topic msg <;> rfl
  subscriptions := fun topic => by
    rw [mem_subscriptions_step, h.subscriptions topic, lastWrite_concat]
    cases subscribes id topic msg <;> rfl

end Node

/-! ## The reference topology -/

/-- The messages since node `id` last became present, `none` when it is absent. -/
def sinceStep (id : UInt64) (since : Option (List TopologyMessage)) (msg : TopologyMessage) :
    Option (List TopologyMessage) :=
  if msg.LeaveOf id then none
  else
    match since with
    | some messages => some (messages ++ [msg])
    | none => if msg.JoinOf id then some [] else none

def sincePresent (id : UInt64) (log : List TopologyMessage) : Option (List TopologyMessage) :=
  log.foldl (sinceStep id) none

/-- One message keeps entry and reference in step: both are absent, or the entry says what was
said since the node joined. -/
theorem reflects_step {id : UInt64} {entry : Option Node}
    {since : Option (List TopologyMessage)} (h : Option.Rel (Node.Reflects id) entry since)
    (msg : TopologyMessage) :
    Option.Rel (Node.Reflects id) (stepNode id entry msg) (sinceStep id since msg) := by
  by_cases hleave : msg.LeaveOf id
  · rw [stepNode_leave hleave]
    simp only [sinceStep, if_pos hleave]
    exact .none
  · simp only [sinceStep, if_neg hleave]
    cases h with
    | some hreflects =>
        rw [stepNode_some hleave]
        exact .some (hreflects.step msg)
    | none =>
        by_cases hjoin : msg.JoinOf id
        · obtain ⟨change, hop, hchange, hid⟩ := MessageOp.reports_iff.mp hjoin
          simp only [hjoin, if_true]
          simpa [stepNode, hop, hchange, hid] using
            Option.Rel.some (Node.Reflects.fresh change.name change.address)
        · simp only [hjoin, if_false]
          rw [stepNode_none hjoin]
          exact .none

/-- **The reference topology.**  A node is in the map a log builds exactly when
the log leaves it present, and then its topics are those last announced and
subscribed since it became present. -/
theorem replay_reference (id : UInt64) (log : List TopologyMessage) :
    Option.Rel (Node.Reflects id) ((replay log).lookup id) (sincePresent id log) := by
  rw [lookup_replay]
  unfold sincePresent
  suffices h : ∀ entry since, Option.Rel (Node.Reflects id) entry since →
      Option.Rel (Node.Reflects id) (entryAfter id entry log) (log.foldl (sinceStep id) since) from
    h none none .none
  induction log with
  | nil => exact fun _ _ h => h
  | cons msg log ih => exact fun entry since h => ih _ _ (reflects_step h msg)

end IpcPubsub
