import IpcPubsub.TopologyManager
import IpcPubsub.TopologyServer

/-!
# What a manager says when it introduces itself again

After the history and a JOIN, `IntroduceOurselves` repeats the own publications
and subscriptions.  It should say what `Announce` and `Subscribe` said: then the
hub, which compares field by field, drops what it has already heard.

Both loops write to one message.  The first sets every field `Announce` sets, so
its messages are those of `Announce`.  The second does not touch the mime, which
still is that of the last publication.
-/

namespace IpcPubsub

open FiniteMap TopologyServer

/-- An order in which the table of publications can be iterated. -/
def Node.IteratesPublications (node : Node) (pubs : List Publication) : Prop :=
  (pubs : Multiset Publication) = node.publications.entries.map Sigma.snd

/-- An order in which the table of subscriptions can be iterated. -/
def Node.IteratesSubscriptions (node : Node) (subs : List String) : Prop :=
  (subs : Multiset String) = node.subscriptions.val

namespace TopologyManager

variable {m : TopologyManager} {pubs : List Publication} {subs : List String}

/-- The messages with which the publications of an entry were announced. -/
def announced (m : TopologyManager) (node : Node) : Multiset TopologyMessage :=
  node.publications.entries.map fun entry => m.announce entry.2.name entry.2.mime

/-- The messages with which the subscriptions of an entry were made. -/
def subscribed (m : TopologyManager) (node : Node) : Multiset TopologyMessage :=
  node.subscriptions.val.map m.subscribe

/-- The messages are one for each publication and then one for each
subscription, as `Announce` and `Subscribe` send them. -/
def SaysWhatWasSaid (m : TopologyManager) (node : Node) (msgs : List TopologyMessage) : Prop :=
  ∃ announces subscribes, msgs = announces ++ subscribes ∧
    (announces : Multiset TopologyMessage) = m.announced node ∧
    (subscribes : Multiset TopologyMessage) = m.subscribed node

/-- The hub drops the messages when they come from a client that sent what
`Announce` and `Subscribe` send. -/
def Recognised (m : TopologyManager) (node : Node) (msgs : List TopologyMessage) : Prop :=
  ∀ client : Client,
    (∀ msg ∈ m.announced node + m.subscribed node, ∃ held ∈ client.history, held.op = msg.op) →
    ∀ msg ∈ msgs, isRedundant msg client = true

/-- The mime the loop over the publications leaves behind. -/
def lastMime (pubs : List Publication) (mime : String) : String :=
  (pubs.getLast?.map Publication.mime).getD mime

/-- The first loop says what `Announce` says, and leaves the mime of the last
publication. -/
theorem introducePublications_spec (topicMsg : TopicChange) (h : topicMsg.socket = "") :
    (m.introducePublications topicMsg pubs).1 = (pubs.map fun pub => m.announce pub.name pub.mime) ∧
      (m.introducePublications topicMsg pubs).2.socket = "" ∧
      (m.introducePublications topicMsg pubs).2.mime = lastMime pubs topicMsg.mime := by
  induction pubs generalizing topicMsg with
  | nil => exact ⟨rfl, h, rfl⟩
  | cons pub rest ih =>
      obtain ⟨hsaid, hsocket, hmime⟩ := ih
        { topicMsg with name := pub.name, mime := pub.mime, nodeId := m.mNodeId, op := .announce } h
      refine ⟨?_, hsocket, ?_⟩
      · rw [introducePublications, hsaid, List.map_cons]
        simp [announce, topicMessage, h]
      · rw [introducePublications, hmime]
        cases hlast : rest.getLast? <;> simp [lastMime, List.getLast?_cons, hlast]

/-- The second loop keeps the mime it finds. -/
theorem introduceSubscriptions_eq (topicMsg : TopicChange) (h : topicMsg.socket = "") :
    m.introduceSubscriptions topicMsg subs =
      subs.map fun name => m.topicMessage .subscribe name topicMsg.mime := by
  induction subs generalizing topicMsg with
  | nil => rfl
  | cons name rest ih =>
      have htail := ih { topicMsg with name := name, nodeId := m.mNodeId, op := .subscribe } h
      rw [introduceSubscriptions, htail, List.map_cons]
      simp [topicMessage, h]

/-- **What is said after the JOIN.** -/
theorem introduceTopics_eq {node : Node} (hnode : m.mNodes.lookup m.mNodeId = some node) :
    m.introduceTopics pubs subs =
      (pubs.map fun pub => m.announce pub.name pub.mime) ++
        subs.map fun name => m.topicMessage .subscribe name (lastMime pubs "") := by
  obtain ⟨hsaid, hsocket, hmime⟩ := @introducePublications_spec m pubs {} rfl
  simp only [introduceTopics, hnode]
  rw [hsaid, introduceSubscriptions_eq _ hsocket, hmime]

/-- What the public calls build carries an operation. -/
theorem op_ne_notSet_of_said {node : Node} {msg : TopologyMessage}
    (h : msg ∈ m.announced node + m.subscribed node) : msg.op ≠ .notSet := by
  rcases Multiset.mem_add.mp h with h | h <;> obtain ⟨_, _, rfl⟩ := Multiset.mem_map.mp h
  · simp [announce, topicMessage]
  · simp [subscribe, topicMessage]

/-- **What was said before is dropped.** -/
theorem SaysWhatWasSaid.recognised {node : Node} {msgs : List TopologyMessage}
    (h : m.SaysWhatWasSaid node msgs) : m.Recognised node msgs := by
  obtain ⟨announces, subscribes, rfl, hannounces, hsubscribes⟩ := h
  intro client hsaid msg hmem
  have hmem' : msg ∈ m.announced node + m.subscribed node := by
    rw [← hannounces, ← hsubscribes, Multiset.coe_add]
    exact hmem
  obtain ⟨held, hheld, hop⟩ := hsaid msg hmem'
  refine List.any_eq_true.mpr ⟨held, hheld, MessageOp.equal_iff.mpr ⟨hop, ?_⟩⟩
  rw [hop]
  exact op_ne_notSet_of_said hmem'

/-- The mime that is left over for the subscriptions is that of the last publication. -/
theorem lastMime_eq_empty_iff :
    lastMime pubs "" = "" ↔ ∀ pub ∈ pubs.getLast?, pub.mime = "" := by
  cases hlast : pubs.getLast? <;> simp [lastMime, hlast]

/-- The loop over the publications visits each of them once. -/
theorem coe_announced {node : Node} (hpubs : node.IteratesPublications pubs) :
    ((pubs.map fun pub => m.announce pub.name pub.mime : List TopologyMessage) :
      Multiset TopologyMessage) = m.announced node := by
  rw [← Multiset.map_coe, hpubs, Multiset.map_map]
  rfl

/-- The SUBSCRIBEs are those of `Subscribe` exactly when they carry no mime. -/
theorem coe_subscribed_iff {node : Node} (hsubs : node.IteratesSubscriptions subs)
    (mime : String) :
    ((subs.map fun name => m.topicMessage .subscribe name mime : List TopologyMessage) :
      Multiset TopologyMessage) = m.subscribed node ↔ node.subscriptions = ∅ ∨ mime = "" := by
  rw [← Multiset.map_coe, hsubs, subscribed]
  constructor
  · intro h
    refine or_iff_not_imp_left.mpr fun hne => ?_
    obtain ⟨name, hname⟩ := Finset.nonempty_of_ne_empty hne
    have hmem : m.topicMessage .subscribe name mime ∈ node.subscriptions.val.map m.subscribe := by
      rw [← h]
      exact Multiset.mem_map_of_mem _ hname
    obtain ⟨name', _, heq⟩ := Multiset.mem_map.mp hmem
    have hfields : name' = name ∧ "" = mime := by
      simpa [subscribe, topicMessage] using heq
    exact hfields.2.symm
  · rintro (hempty | rfl)
    · simp [hempty]
    · rfl

/-- **Introducing oneself again, exactly.**  In every order the tables of the own
entry can be iterated in, what `IntroduceOurselves` sends after the history and
the JOIN is what `Announce` and `Subscribe` said, and is dropped by a hub that
heard it, exactly when there are no subscriptions or the last publication
visited, if any, has no mime. -/
theorem introduceOurselves_said_iff (m : TopologyManager) (node : Node)
    (pubs : List Publication) (subs : List String)
    (hnode : m.mNodes.lookup m.mNodeId = some node)
    (hpubs : node.IteratesPublications pubs) (hsubs : node.IteratesSubscriptions subs) :
    (∃ topics, m.introduceOurselves pubs subs = m.mHistory ++ m.joinMessage :: topics ∧
      m.SaysWhatWasSaid node topics ∧ m.Recognised node topics) ↔
      node.subscriptions = ∅ ∨ ∀ pub ∈ pubs.getLast?, pub.mime = "" := by
  rw [← lastMime_eq_empty_iff, ← @coe_subscribed_iff m subs node hsubs]
  constructor
  · rintro ⟨topics, hsent, ⟨announces, subscribes, rfl, hannounces, hsubscribes⟩, _⟩
    rw [introduceOurselves, List.append_cancel_left_eq, List.cons.injEq,
      introduceTopics_eq hnode] at hsent
    have hlength := congrArg Multiset.card ((coe_announced hpubs).trans hannounces.symm)
    obtain ⟨_, rfl⟩ := List.append_inj hsent.2 hlength
    exact hsubscribes
  · intro h
    have hsaid : m.SaysWhatWasSaid node (m.introduceTopics pubs subs) :=
      ⟨_, _, introduceTopics_eq hnode, coe_announced hpubs, h⟩
    exact ⟨m.introduceTopics pubs subs, rfl, hsaid, hsaid.recognised⟩

/-- The entry of a node that publishes one topic and subscribes to another. -/
def publishingNode (mime : String) : Node where
  id := 5
  name := "n"
  address := "x"
  publications := (∅ : UnorderedMap String Publication).insert "t" { name := "t", mime := mime }
  subscriptions := {"u"}

/-- The manager of that node. -/
def publishing (mime : String) : TopologyManager where
  mNodeId := 5
  mName := "n"
  mAddress := "x"
  mNodes := (∅ : Nodes).insert 5 (publishingNode mime)

/-- A node with a publication of no mime. -/
theorem introduceOurselves_said_iff_publishing :
    ∃ topics, (publishing "").introduceOurselves [{ name := "t", mime := "" }] ["u"] =
        (publishing "").mHistory ++ (publishing "").joinMessage :: topics ∧
      (publishing "").SaysWhatWasSaid (publishingNode "") topics ∧
      (publishing "").Recognised (publishingNode "") topics :=
  (introduceOurselves_said_iff (publishing "") (publishingNode "") [{ name := "t", mime := "" }]
    ["u"] (Finmap.lookup_insert _) rfl rfl).mpr (Or.inr (by decide))

/-- The SUBSCRIBE carries the mime of the publication, and the hub takes it for
a new one. -/
theorem publishing_says_otherwise :
    (publishing "m").introduceTopics [{ name := "t", mime := "m" }] ["u"] =
        [(publishing "m").announce "t" "m", (publishing "m").topicMessage .subscribe "u" "m"] ∧
      ¬ (publishing "m").Recognised (publishingNode "m")
        ((publishing "m").introduceTopics [{ name := "t", mime := "m" }] ["u"]) := by
  refine ⟨by decide +kernel, fun h => ?_⟩
  have hdropped := h
    { history := [(publishing "m").announce "t" "m", (publishing "m").subscribe "u"] }
    (by decide +kernel) ((publishing "m").topicMessage .subscribe "u" "m") (by decide +kernel)
  revert hdropped
  decide +kernel

end TopologyManager

end IpcPubsub
