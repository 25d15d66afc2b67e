import IpcPubsub.Spokes

/-!
# One node and the hub

How a node stands with the hub in the course of a run: what is on its way in
either direction, what the hub remembers of the connection, and what it has
minted about the node.

Before the JOIN the queue to the hub holds re-sent history, which was sent on
this very connection.  So the hub has nothing new to learn from it, and the
client has earned nothing when its JOIN arrives: the JOIN is minted.
`Standing.handle` is the node whose packet is taken and `Standing.spectate` all
the others.
-/

namespace IpcPubsub

open FiniteMap CursorLog TopologyServer

/-- A fresh topic change of the node. -/
def OwnTopic (id : UInt64) (msg : TopologyMessage) : Prop :=
  msg.seq = 0 ∧ ∃ change, msg.op = .topicChange change ∧ change.nodeId = id

/-- What the hub remembers of the node's connection. -/
def Remembered (id : UInt64) (client : Client) : Phase → Prop
  | .joined => client.nodeId = id
  | .heard => client.history = []
  | _ => client.nodeId = 0 ∧ client.history = []

/-- What is left of an introduction on its way to the hub, and topic changes.
The history re-sent was sent on this very connection. -/
def Introducing (hub : Hub) (id : UInt64) (link : Link) (toHub : List TopologyMessage) : Prop :=
  link ≠ .down → ∃ echo join topics, toHub = echo ++ join :: topics ∧
    (∀ msg ∈ echo, ∃ fd, link = .up fd ∧ msg ∈ hub.sent fd) ∧
    (join.seq = 0 ∧ join.JoinOf id) ∧ ∀ msg ∈ topics, OwnTopic id msg

/-- What is on its way to the hub. -/
def Queued (hub : Hub) (id : UInt64) (link : Link) : Phase → List TopologyMessage → Prop
  | .silent, toHub => toHub = []
  | .joined, toHub => ∀ msg ∈ toHub, OwnTopic id msg
  | _, toHub => Introducing hub id link toHub

/-- A node, the hub and what the hub minted fit together. -/
structure Standing (hub : Hub) (minted : List TopologyMessage) (id : UInt64) (spoke : Spoke) :
    Prop where
  own : spoke.manager.mNodeId = id
  observes : Observes spoke.manager spoke.received spoke.calls
  apart : spoke.link = .apart → spoke.received = [] ∧ spoke.fromHub = [] ∧
    (spoke.phase = .silent ∨ spoke.phase = .introduced)
  /-- The node receives what the hub sends on its connection. -/
  channel : ∀ fd, spoke.link = .up fd →
    fd ∈ hub.server.mClients ∧ spoke.received ++ spoke.fromHub = hub.sent fd
  remembered : ∀ fd client, spoke.link = .up fd → hub.server.mClients.lookup fd = some client →
    Remembered id client spoke.phase
  queued : Queued hub id spoke.link spoke.phase spoke.toHub
  logged : Logged minted id spoke

section Standing

variable {hub : Hub} {minted : List TopologyMessage} {id : UInt64} {spoke : Spoke} {op : HubOp}
  {o : Outcome}

/-- What a call sends on an open connection is added to what was sent. -/
theorem Hub.observe_sent (hop : hub.server.perform op = some o) {fd : Fd}
    (hopen : fd ∈ hub.server.mClients) : (hub.observe op o).sent fd = hub.sent fd ++ o.sent fd := by
  have hne : op ≠ .connect fd := by
    rintro rfl
    simp [TopologyServer.perform, hopen] at hop
  simp [Hub.observe, hne]

/-- The queue to the hub does not depend on what else the hub sends. -/
theorem Queued.observe {link : Link} {phase : Phase} {toHub : List TopologyMessage}
    (h : Queued hub id link phase toHub) (hop : hub.server.perform op = some o)
    (hopen : ∀ fd, link = .up fd → fd ∈ hub.server.mClients) :
    Queued (hub.observe op o) id link phase toHub := by
  have hsent : Introducing hub id link toHub → Introducing (hub.observe op o) id link toHub := by
    intro h hlink
    obtain ⟨echo, join, topics, heq, hecho, hrest⟩ := h hlink
    refine ⟨echo, join, topics, heq, fun msg hmem => ?_, hrest⟩
    obtain ⟨fd, hfd, hmsg⟩ := hecho msg hmem
    refine ⟨fd, hfd, ?_⟩
    rw [Hub.observe_sent hop (hopen fd hfd)]
    exact List.mem_append_left _ hmsg
  cases phase with
  | silent => exact h
  | joined => exact h
  | introduced => exact hsent h
  | heard => exact hsent h

/-- What is on its way from the hub after a call. -/
theorem Standing.channel_transmit (h : Standing hub minted id spoke)
    (hop : hub.server.perform op = some o)
    (hstays : ∀ fd, spoke.link = .up fd → op ≠ .disconnect fd) :
    ∀ fd, (spoke.transmit o.sent).link = .up fd → fd ∈ (hub.observe op o).server.mClients ∧
      (spoke.transmit o.sent).received ++ (spoke.transmit o.sent).fromHub =
        (hub.observe op o).sent fd := by
  intro fd hlink
  rw [Spoke.transmit_link] at hlink
  obtain ⟨hopen, hsent⟩ := h.channel fd hlink
  refine ⟨perform_open hop hopen (hstays fd hlink), ?_⟩
  rw [Spoke.transmit_received, Spoke.transmit_fromHub_up _ _ hlink, ← List.append_assoc, hsent,
    Hub.observe_sent hop hopen]

/-- **A call about another connection.**  The node only receives what is broadcast, and nothing of
it is about the node. -/
theorem Standing.spectate (h : Standing hub minted id spoke)
    (hop : hub.server.perform op = some o)
    (hother : ∀ fd, spoke.link = .up fd → ¬ op.Concerns fd)
    (hincreasing : Increasing TopologyMessage.seq (minted ++ o.minted))
    (hjoin : ∀ msg ∈ o.minted, ¬ msg.JoinOf id)
    (hleave : id ≠ 0 → ∀ msg ∈ o.minted, ¬ msg.LeaveOf id) :
    Standing (hub.observe op o) (minted ++ o.minted) id (spoke.transmit o.sent) where
  own := by rw [Spoke.transmit_manager, h.own]
  observes := by simpa using h.observes
  apart := by
    intro hlink
    rw [Spoke.transmit_link] at hlink
    rw [Spoke.transmit_eq_self _ _ (by simp [hlink])]
    exact h.apart hlink
  channel := by
    refine h.channel_transmit hop fun fd hlink heq => ?_
    exact hother fd hlink (heq ▸ rfl)
  remembered := by
    intro fd client' hlink hlookup
    rw [Spoke.transmit_link] at hlink
    obtain ⟨client, hclient, hnode, hhistory⟩ := perform_frame hop (hother fd hlink) hlookup
    have hold := h.remembered fd client hlink hclient
    rw [Spoke.transmit_phase]
    cases hphase : spoke.phase <;> simp_all [Remembered]
  queued := by
    rw [Spoke.transmit_link, Spoke.transmit_phase, Spoke.transmit_toHub]
    exact h.queued.observe hop fun fd hlink => (h.channel fd hlink).1
  logged := (h.logged.append_other hincreasing hjoin hleave).congr (by simp) (by simp)

/-- All that was received was minted, since it came from a hub that accepts nothing. -/
theorem Standing.received_minted (h : Standing hub minted id spoke) (hhub : hub.Minting minted)
    (hlink : spoke.link ≠ .down) : ∀ msg ∈ spoke.received, msg ∈ minted := by
  intro msg hmem
  cases hup : spoke.link with
  | apart =>
      rw [(h.apart hup).1] at hmem
      cases hmem
  | down => exact absurd hup hlink
  | up fd =>
      obtain ⟨hopen, hsent⟩ := h.channel fd hup
      obtain ⟨client, hclient⟩ := Finmap.mem_iff.mp hopen
      refine hhub.sent hclient msg ?_
      rw [← hsent]
      exact List.mem_append_left _ hmem

/-- A node that has not joined has no topics to introduce: its entry in `mNodes` would come from
its own JOIN. -/
theorem Standing.introduceOurselves_eq (h : Standing hub minted id spoke)
    (hhub : hub.Minting minted) (hlink : spoke.link ≠ .down) (hphase : spoke.phase = .silent)
    (pubs : List Publication) (subs : List String) :
    spoke.manager.introduceOurselves pubs subs =
      spoke.manager.mHistory ++ [spoke.manager.joinMessage] := by
  have hnone : id ∉ spoke.manager.mNodes := by
    rw [h.observes.mem_mNodes, entryAfter_none]
    · simp
    · intro msg hmem hjoin
      have hjoined := h.logged.join_iff.mp ⟨msg, h.received_minted hhub hlink msg hmem, hjoin⟩
      rw [hphase] at hjoined
      cases hjoined
  rw [TopologyManager.introduceOurselves, TopologyManager.introduceTopics, h.own,
    Finmap.lookup_eq_none.mpr hnone]

/-- The node sends what it was told, its JOIN, and no topics, since it does not list itself yet. -/
theorem Standing.introduce (h : Standing hub minted id spoke) (hhub : hub.Minting minted)
    (hlink : spoke.link ≠ .down) (hphase : spoke.phase = .silent) (pubs : List Publication)
    (subs : List String) : Standing hub minted id (spoke.introduce pubs subs) where
  own := h.own
  observes := h.observes
  apart := fun happart => ⟨(h.apart happart).1, (h.apart happart).2.1, Or.inr rfl⟩
  channel := h.channel
  remembered := by
    intro fd client hup hclient
    have hold := h.remembered fd client hup hclient
    rw [hphase] at hold
    exact hold
  queued := by
    have hsilent := h.queued
    rw [hphase] at hsilent
    intro _
    refine ⟨spoke.manager.mHistory, spoke.manager.joinMessage, [], ?_, ?_, ?_, by simp⟩
    · rw [Spoke.introduce, h.introduceOurselves_eq hhub hlink hphase, hsilent, List.nil_append]
    · intro msg hmem
      have hreceived := h.observes.history msg hmem
      cases hup : spoke.link with
      | apart =>
          rw [(h.apart hup).1] at hreceived
          cases hreceived
      | down => exact absurd hup hlink
      | up fd =>
          refine ⟨fd, hup, ?_⟩
          rw [← (h.channel fd hup).2]
          exact List.mem_append_left _ hreceived
    · exact ⟨rfl, rfl, h.own⟩
  logged := h.logged.congr (by simp [Spoke.introduce, hphase]) (by rfl)

/-- A topic change comes behind the introduction in the queue to the hub. -/
theorem Standing.request (h : Standing hub minted id spoke) (hphase : spoke.phase ≠ .silent)
    (op : TopicOperation) (topic mime : String) :
    Standing hub minted id (spoke.request op topic mime) where
  own := h.own
  observes := h.observes
  apart := h.apart
  channel := h.channel
  remembered := h.remembered
  queued := by
    have hown : OwnTopic id (spoke.manager.topicMessage op topic mime) := ⟨rfl, _, rfl, h.own⟩
    have hintroducing : Introducing hub id spoke.link spoke.toHub →
        Introducing hub id spoke.link
          (spoke.toHub ++ [spoke.manager.topicMessage op topic mime]) := by
      intro hold hlink
      obtain ⟨echo, join, topics, heq, hecho, hjoin, htopics⟩ := hold hlink
      refine ⟨echo, join, topics ++ [spoke.manager.topicMessage op topic mime], ?_, hecho, hjoin,
        ?_⟩
      · rw [heq, List.append_assoc, List.cons_append]
      · intro msg hmem
        rcases List.mem_append.mp hmem with hmem | hmem
        · exact htopics msg hmem
        · exact List.mem_singleton.mp hmem ▸ hown
    have hqueued := h.queued
    change Queued hub id spoke.link spoke.phase _
    cases hp : spoke.phase with
    | silent => exact absurd hp hphase
    | joined =>
        rw [hp] at hqueued
        intro msg hmem
        rcases List.mem_append.mp hmem with hmem | hmem
        · exact hqueued msg hmem
        · exact List.mem_singleton.mp hmem ▸ hown
    | introduced =>
        rw [hp] at hqueued
        exact hintroducing hqueued
    | heard =>
        rw [hp] at hqueued
        exact hintroducing hqueued
  logged := h.logged.congr (by rfl) (by rfl)

/-- A message of the hub goes into the history of the node, and the node says nothing of it. -/
theorem Standing.deliver (h : Standing hub minted id spoke) {fd : Fd} (hup : spoke.link = .up fd)
    {msg : TopologyMessage} {rest : List TopologyMessage} (hnext : spoke.fromHub = msg :: rest) :
    Standing hub minted id (spoke.deliver msg rest) where
  own := h.own
  observes := h.observes.applyUpdate msg
  apart := by
    intro happart
    have hlink : spoke.link = .apart := happart
    rw [hup] at hlink
    cases hlink
  channel := by
    intro fd' hlink
    obtain ⟨hopen, hsent⟩ := h.channel fd' hlink
    refine ⟨hopen, ?_⟩
    rw [← hsent, hnext, Spoke.deliver, List.append_assoc, List.singleton_append]
  remembered := h.remembered
  queued := h.queued
  logged := h.logged.congr (by rfl) (by rfl)

/-- A new connection: the hub sends its history, and has heard nothing from it. -/
theorem Standing.connect (h : Standing hub minted id spoke) (happart : spoke.link = .apart)
    {fd : Fd} (hop : hub.server.perform (.connect fd) = some o)
    (hminted : o.minted = []) :
    Standing (hub.observe (.connect fd) o) (minted ++ o.minted) id
      (({ spoke with link := .up fd } : Spoke).transmit o.sent) := by
  obtain ⟨hreceived, hfromHub, hphase⟩ := h.apart happart
  have hqueued := h.queued
  constructor
  · rw [Spoke.transmit_manager]
    exact h.own
  · rw [Spoke.transmit_manager, Spoke.transmit_received, Spoke.transmit_calls]
    exact h.observes
  · intro hlink
    rw [Spoke.transmit_link] at hlink
    cases hlink
  · intro fd' hlink
    rw [Spoke.transmit_link] at hlink
    obtain rfl : fd = fd' := by injection hlink
    constructor
    · rcases perform_cases hop with ⟨fd', heq, _, rfl⟩ | ⟨_, _, _, heq, _⟩ | ⟨u, failed, hupdate, _⟩
      · cases heq
        simp [Hub.observe, onConnect]
      · cases heq
      · exact absurd rfl (hupdate.ne_connect fd)
    · rw [Spoke.transmit_received, Spoke.transmit_fromHub_up _ _ (by rfl)]
      simp [Hub.observe, hreceived, hfromHub]
  · intro fd' client' hlink hlookup
    rw [Spoke.transmit_link] at hlink
    obtain rfl : fd = fd' := by injection hlink
    rw [Spoke.transmit_phase]
    rcases perform_client hop hlookup with ⟨_, hnew⟩ | ⟨_, _, hne, _⟩
    · rcases hphase with hphase | hphase <;> simp only [hphase] <;> exact hnew
    · exact absurd rfl hne
  · rw [Spoke.transmit_link, Spoke.transmit_phase, Spoke.transmit_toHub]
    rcases hphase with hphase | hphase
    · simp only [hphase] at hqueued ⊢
      exact hqueued
    · simp only [hphase] at hqueued ⊢
      intro _
      obtain ⟨echo, join, topics, heq, hecho, hrest⟩ := hqueued (by simp [happart])
      refine ⟨echo, join, topics, heq, fun msg hmem => ?_, hrest⟩
      obtain ⟨fd', hup, _⟩ := hecho msg hmem
      rw [happart] at hup
      cases hup
  · rw [hminted, List.append_nil]
    exact h.logged.congr (by simp) (by simp [happart])

/-- How the hub takes the next packet of a node. -/
inductive Takes (hub : Hub) (id : UInt64) (spoke : Spoke) (fd : Fd) (msg : TopologyMessage)
    (rest : List TopologyMessage) (o : Outcome) : Prop
  /-- Re-sent history leaves no trace. -/
  | echo (hphase : spoke.phase ≠ .joined) (hseq : msg.seq ≠ 0) (hminted : o.minted = [])
      (hremembered : ∀ client', o.server.mClients.lookup fd = some client' → client'.history = [])
      (hrest : Introducing hub id spoke.link rest)
  | join (hphase : spoke.phase ≠ .joined) (hseq : msg.seq = 0) (hjoin : msg.JoinOf id)
      {new : TopologyMessage} (hminted : o.minted = [new]) (hnew : new.op = msg.op)
      (hremembered : ∀ client', o.server.mClients.lookup fd = some client' → client'.nodeId = id)
      (hrest : ∀ msg ∈ rest, OwnTopic id msg)
  | topic (hphase : spoke.phase = .joined) (htopic : OwnTopic id msg)
      (hminted : ∀ new ∈ o.minted, new.op = msg.op)
      (hremembered : ∀ client', o.server.mClients.lookup fd = some client' → client'.nodeId = id)
      (hrest : ∀ msg ∈ rest, OwnTopic id msg)

/-- The packets of a node that has not joined: what it re-sends is held by the hub or ignored, and
then comes its JOIN. -/
theorem Introducing.takes {msg : TopologyMessage} {rest : List TopologyMessage}
    (h : Introducing hub id spoke.link (msg :: rest)) (hhub : hub.Minting minted) (hid : id ≠ 0)
    {fd : Fd} (hup : spoke.link = .up fd) {client : Client}
    (hclient : hub.server.mClients.lookup fd = some client) (hphase : spoke.phase ≠ .joined)
    (hhistory : client.history = []) {random : UInt64}
    (hop : hub.server.perform (.data fd msg random) = some o) :
    o.accepted = [] ∧ msg.seq ≠ WordOrder.maxWord ∧ Takes hub id spoke fd msg rest o := by
  obtain ⟨client', hclient'⟩ :=
    Finmap.mem_iff.mp (perform_open hop (Finmap.mem_iff.mpr ⟨client, hclient⟩) (by simp))
  obtain ⟨echo, join, topics, heq, hecho, ⟨hseq, hjoin⟩, htopics⟩ := h (by simp [hup])
  cases echo with
  | nil =>
      obtain ⟨rfl, rfl⟩ := List.cons.inj heq
      have hnode : msg.nodeId = id := hjoin.nodeId
      obtain ⟨haccepted, _, hminted⟩ :=
        perform_new hop hclient hseq (hnode ▸ hid) hclient'
      have hnovel : isRedundant msg client = false := by simp [isRedundant, hhistory]
      rw [hnovel] at hminted
      simp only [Bool.false_eq_true, false_and, true_and, false_or] at hminted
      refine ⟨haccepted, by rw [hseq]; decide, .join hphase hseq hjoin hminted rfl ?_ htopics⟩
      intro client'' hlookup
      rw [(perform_new hop hclient hseq (hnode ▸ hid) hlookup).2.1, hnode]
  | cons first echo =>
      obtain ⟨rfl, rfl⟩ := List.cons.inj heq
      obtain ⟨fd', hup', hsent⟩ := hecho msg List.mem_cons_self
      obtain rfl : fd = fd' := by
        rw [hup] at hup'
        injection hup'
      have hmem := hhub.sent hclient msg hsent
      have hseq := hhub.seq_ne_zero msg hmem
      have hhit := hhub.hit_ne_none hclient hsent
      obtain ⟨hminted, haccepted, _⟩ := perform_old hop hclient hseq hhit hclient'
      refine ⟨haccepted, ?_, .echo hphase hseq hminted ?_ fun _ => ?_⟩
      · exact ne_of_lt (lt_of_lt_of_le (hhub.below msg hmem) (WordOrder.le_maxWord _))
      · intro client'' hlookup
        rw [(perform_old hop hclient hseq hhit hlookup).2.2, hhistory]
      · exact ⟨echo, join, topics, rfl, fun m hm => hecho m (List.mem_cons_of_mem _ hm),
          ⟨‹join.seq = 0›, hjoin⟩, htopics⟩

/-- **The hub takes a packet.**  It accepts nothing: what is re-sent is there, and what is new has
no number. -/
theorem Standing.takes (h : Standing hub minted id spoke) (hhub : hub.Minting minted)
    (hid : id ≠ 0) {fd : Fd} (hup : spoke.link = .up fd) {msg : TopologyMessage}
    {rest : List TopologyMessage} (hnext : spoke.toHub = msg :: rest) {random : UInt64}
    (hop : hub.server.perform (.data fd msg random) = some o) :
    o.accepted = [] ∧ msg.seq ≠ WordOrder.maxWord ∧ Takes hub id spoke fd msg rest o := by
  obtain ⟨client, hclient⟩ := Finmap.mem_iff.mp (h.channel fd hup).1
  have hremembered := h.remembered fd client hup hclient
  have hqueued := h.queued
  rw [hnext] at hqueued
  cases hphase : spoke.phase with
  | silent =>
      rw [hphase] at hqueued
      cases hqueued
  | introduced =>
      rw [hphase] at hremembered hqueued
      exact hqueued.takes hhub hid hup hclient (by simp [hphase]) hremembered.2 hop
  | heard =>
      rw [hphase] at hremembered hqueued
      exact hqueued.takes hhub hid hup hclient (by simp [hphase]) hremembered hop
  | joined =>
      rw [hphase] at hqueued
      have hown := hqueued msg List.mem_cons_self
      obtain ⟨hseq, change, hchange, hnode⟩ := hown
      have hnodeId : msg.nodeId = id := by
        rw [TopologyMessage.nodeId, hchange]
        exact hnode
      obtain ⟨client', hclient'⟩ :=
        Finmap.mem_iff.mp (perform_open hop (h.channel fd hup).1 (by simp))
      obtain ⟨haccepted, _, hminted⟩ := perform_new hop hclient hseq (hnodeId ▸ hid) hclient'
      refine ⟨haccepted, by rw [hseq]; decide,
        .topic hphase ⟨hseq, change, hchange, hnode⟩ ?_ ?_ ?_⟩
      · intro new hnew
        rcases hminted with ⟨_, hnone⟩ | ⟨_, hone⟩
        · rw [hnone] at hnew
          cases hnew
        · rw [hone] at hnew
          rw [List.mem_singleton.mp hnew]
      · intro client'' hlookup
        rw [(perform_new hop hclient hseq (hnodeId ▸ hid) hlookup).2.1, hnodeId]
      · exact fun m hm => hqueued m (List.mem_cons_of_mem _ hm)

/-- All that a packet of a node makes the hub mint is about that node. -/
theorem Takes.minted_nodeId {fd : Fd} {msg : TopologyMessage} {rest : List TopologyMessage}
    (h : Takes hub id spoke fd msg rest o) : ∀ new ∈ o.minted, new.nodeId = id := by
  intro new hmem
  cases h with
  | echo _ _ hminted _ _ =>
      rw [hminted] at hmem
      cases hmem
  | join _ _ hjoin hminted hnew _ _ =>
      rw [hminted] at hmem
      obtain rfl := List.mem_singleton.mp hmem
      rw [TopologyMessage.nodeId, hnew]
      exact hjoin.nodeId
  | topic _ htopic hminted _ _ =>
      obtain ⟨_, change, hchange, hnode⟩ := htopic
      rw [TopologyMessage.nodeId, hminted new hmem, hchange]
      exact hnode

/-- How far the introduction has been handled. -/
theorem handle_phase {msg : TopologyMessage} {rest : List TopologyMessage}
    (hown : spoke.manager.mNodeId = id) : (spoke.handle msg rest).phase =
      if spoke.phase = .joined ∨ msg.seq = 0 ∧ msg.JoinOf id then .joined else .heard := by
  rw [Spoke.handle, hown]

section Takes

variable {fd : Fd} {msg : TopologyMessage} {rest : List TopologyMessage}

/-- What the hub then knows about the connection: the node named last, and what was minted for it. -/
theorem Takes.remembered (h : Takes hub id spoke fd msg rest o)
    (hown : spoke.manager.mNodeId = id) {client : Client}
    (hlookup : o.server.mClients.lookup fd = some client) :
    Remembered id client (spoke.handle msg rest).phase := by
  rw [handle_phase hown]
  cases h with
  | echo hphase hseq _ hremembered _ =>
      rw [if_neg (by simp [hphase, hseq])]
      exact hremembered client hlookup
  | join _ hseq hjoin _ _ hremembered _ =>
      rw [if_pos (Or.inr ⟨hseq, hjoin⟩)]
      exact hremembered client hlookup
  | topic hphase _ _ hremembered _ =>
      rw [if_pos (Or.inl hphase)]
      exact hremembered client hlookup

/-- What is still on its way to the hub: the rest of the introduction, or topic changes. -/
theorem Takes.queued (h : Takes hub id spoke fd msg rest o)
    (hown : spoke.manager.mNodeId = id) :
    Queued hub id spoke.link (spoke.handle msg rest).phase rest := by
  rw [handle_phase hown]
  cases h with
  | echo hphase hseq _ _ hrest =>
      rw [if_neg (by simp [hphase, hseq])]
      exact hrest
  | join _ hseq hjoin _ _ _ hrest =>
      rw [if_pos (Or.inr ⟨hseq, hjoin⟩)]
      exact hrest
  | topic hphase _ _ _ hrest =>
      rw [if_pos (Or.inl hphase)]
      exact hrest

/-- What the hub's messages then say about the node: that it has joined if this was its JOIN, and
the same as before if not. -/
theorem Takes.logged (h : Takes hub id spoke fd msg rest o)
    (hstanding : Standing hub minted id spoke)
    (hid : id ≠ 0) (hup : spoke.link = .up fd)
    (hincreasing : Increasing TopologyMessage.seq (minted ++ o.minted)) :
    Logged (minted ++ o.minted) id (spoke.handle msg rest) := by
  have hphase' := @handle_phase id spoke msg rest hstanding.own
  have hlink' : (spoke.handle msg rest).link = .up fd := hup
  cases h with
  | echo hphase hseq hminted _ _ =>
      rw [if_neg (by simp [hphase, hseq])] at hphase'
      rw [hminted, List.append_nil]
      exact hstanding.logged.congr (by simp [hphase', hphase]) (by simp [hlink', hup])
  | join hphase hseq hjoin hminted hnew _ _ =>
      rw [if_pos (Or.inr ⟨hseq, hjoin⟩)] at hphase'
      rw [hminted]
      refine hstanding.logged.append_join hid hphase ?_ (by simp [hphase']) (by simp [hlink'])
      rw [TopologyMessage.JoinOf, hnew]
      exact hjoin
  | topic hphase htopic hminted _ _ =>
      rw [if_pos (Or.inl hphase)] at hphase'
      obtain ⟨_, change, hchange, _⟩ := htopic
      have hquiet : ∀ new ∈ o.minted, ∀ which node, ¬ new.op.Reports which node := by
        intro new hmem which node
        rw [hminted new hmem, hchange]
        exact MessageOp.not_reports_topicChange
      refine (hstanding.logged.append_other hincreasing (fun new hmem => hquiet new hmem .join id)
        fun _ new hmem => hquiet new hmem .leave id).congr ?_ ?_
      · simp [hphase', hphase]
      · simp [hlink', hup]

/-- **The node whose packet the hub takes** fits the hub afterwards as it did before. -/
theorem Standing.handle (h : Standing hub minted id spoke) (hid : id ≠ 0)
    (hup : spoke.link = .up fd) {random : UInt64}
    (hop : hub.server.perform (.data fd msg random) = some o)
    (htakes : Takes hub id spoke fd msg rest o)
    (hincreasing : Increasing TopologyMessage.seq (minted ++ o.minted)) :
    Standing (hub.observe (.data fd msg random) o) (minted ++ o.minted) id
      ((spoke.handle msg rest).transmit o.sent) where
  own := by
    rw [Spoke.transmit_manager]
    exact h.own
  observes := by
    rw [Spoke.transmit_manager, Spoke.transmit_received, Spoke.transmit_calls]
    exact h.observes
  apart := by
    intro hlink
    rw [Spoke.transmit_link] at hlink
    change spoke.link = .apart at hlink
    rw [hup] at hlink
    cases hlink
  channel := by
    intro fd' hlink
    rw [Spoke.transmit_link] at hlink
    obtain ⟨hin, hsent⟩ := h.channel fd' hlink
    refine ⟨perform_open hop hin (by simp), ?_⟩
    rw [Spoke.transmit_received, Spoke.transmit_fromHub_up _ _ hlink, ← List.append_assoc,
      Hub.observe_sent hop hin, ← hsent]
    rfl
  remembered := by
    intro fd' client' hlink hlookup
    rw [Spoke.transmit_link] at hlink
    change spoke.link = .up fd' at hlink
    rw [hup] at hlink
    cases hlink
    rw [Spoke.transmit_phase]
    exact htakes.remembered h.own hlookup
  queued := by
    rw [Spoke.transmit_link, Spoke.transmit_phase, Spoke.transmit_toHub]
    exact (htakes.queued h.own).observe hop fun fd' hlink => (h.channel fd' hlink).1
  logged := (htakes.logged h hid hup hincreasing).congr (by simp) (by simp)

end Takes

/-- The node that a closing connection is taken for: its own once it has joined, and nobody
before. -/
theorem Standing.taken_for (h : Standing hub minted id spoke) {fd : Fd}
    (hup : spoke.link = .up fd) (hphase : spoke.phase ≠ .heard) {client : Client}
    (hclient : hub.server.mClients.lookup fd = some client) :
    spoke.phase = .joined ∧ client.nodeId = id ∨ spoke.phase ≠ .joined ∧ client.nodeId = 0 := by
  have hremembered := h.remembered fd client hup hclient
  cases hcase : spoke.phase with
  | silent =>
      rw [hcase] at hremembered
      exact Or.inr ⟨by simp, hremembered.1⟩
  | introduced =>
      rw [hcase] at hremembered
      exact Or.inr ⟨by simp, hremembered.1⟩
  | heard => exact absurd hcase hphase
  | joined =>
      rw [hcase] at hremembered
      exact Or.inl ⟨rfl, hremembered⟩

/-- **The node whose connection closes**, before the hub has handled any of its
packets or after the JOIN. -/
theorem Standing.hangUp (h : Standing hub minted id spoke) (hid : id ≠ 0) {fd : Fd}
    (hup : spoke.link = .up fd) (hphase : spoke.phase ≠ .heard) {client : Client}
    (hclient : hub.server.mClients.lookup fd = some client) {leave : TopologyMessage}
    (hleave : leave.LeaveOf client.nodeId)
    (hincreasing : Increasing TopologyMessage.seq (minted ++ [leave])) (hub' : Hub)
    (sent : Fd → List TopologyMessage) :
    Standing hub' (minted ++ [leave]) id
      (({ spoke with link := .down, toHub := [] } : Spoke).transmit sent) := by
  rw [Spoke.transmit_eq_self _ _ (by simp)]
  refine ⟨h.own, h.observes, by simp, by simp, by simp, ?_, ?_⟩
  · have hqueued : Queued hub' id .down spoke.phase [] := by
      cases spoke.phase with
      | silent => rfl
      | joined => exact fun msg hmem => by cases hmem
      | introduced => exact fun hlink => absurd rfl hlink
      | heard => exact fun hlink => absurd rfl hlink
    exact hqueued
  · rcases h.taken_for hup hphase hclient with ⟨hjoined, hnode⟩ | ⟨hjoined, hzero⟩
    · rw [hnode] at hleave
      exact h.logged.append_leave hjoined hleave hincreasing hjoined rfl
    · -- the hub has never heard of the node and writes the LEAVE of node 0
      rw [hzero] at hleave
      have hquiet : Logged (minted ++ [leave]) id spoke := by
        refine h.logged.append_other hincreasing ?_ ?_
        · intro msg hmem hjoin
          obtain rfl := List.mem_singleton.mp hmem
          cases (MessageOp.Reports.unique hjoin hleave).1
        · intro _ msg hmem hmsg
          obtain rfl := List.mem_singleton.mp hmem
          exact hid (MessageOp.Reports.unique hmsg hleave).2
      obtain ⟨hjoin, honce, hleft, horder⟩ := hquiet
      refine ⟨hjoin, honce, fun hid => ?_, horder⟩
      refine (hleft hid).trans (iff_of_false ?_ ?_)
      · exact fun hboth => hjoined hboth.1
      · exact fun hboth => hjoined hboth.1

end Standing

end IpcPubsub
