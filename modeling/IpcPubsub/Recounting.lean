import IpcPubsub.FirstOccurrences
import IpcPubsub.Membership
import IpcPubsub.WholeLog

/-!
# What the hub has on record of a node

`membership_agreement` says which nodes have joined.  Here is what the hub has minted
about each of them: its JOIN and every topic change that is the first of its kind on the
connection, in the order in which the node has asked for them (`Recounts`).  What is
still in the queue of the node comes on top.

What of it is in the history is what is left when all that was ever minted is pruned at
once.
-/

namespace IpcPubsub

open FiniteMap GuardedRuns CursorLog TopologyServer FirstOccurrences LastWrite

/-! ## What a node has asked for -/

/-- The topic change that a node asks for in an event. -/
def NetEvent.asks (id : UInt64) : NetEvent → Option TopicChange
  | .request id' op topic mime =>
      if id' = id then some { name := topic, mime := mime, nodeId := id, op := op } else none
  | _ => none

/-- All that a node has asked for, in order. -/
def asked (id : UInt64) (events : List NetEvent) : List TopicChange :=
  events.filterMap (NetEvent.asks id)

/-- A topic change as it is sent. -/
def TopicChange.message (change : TopicChange) : TopologyMessage where
  op := .topicChange change

/-- The messages about a node. -/
def about (id : UInt64) (log : List TopologyMessage) : List TopologyMessage :=
  log.filter fun msg => msg.nodeId = id

/-- The JOIN of a node of that name and address. -/
def joinOf (id : UInt64) (name address : String) : MessageOp :=
  .nodeChange { id := id, op := .join, name := name, address := address }

/-- What the hub has on record of a node after the requests it has handled. -/
def recounted (id : UInt64) (name address : String) (handled : List TopicChange) :
    List MessageOp :=
  joinOf id name address :: (firsts handled).map .topicChange

/-- What is on its way to the hub from a node and what was minted about it, against what it has
asked for. -/
structure Recounts (hub : Hub) (minted : List TopologyMessage) (id : UInt64)
    (name address : String) (spoke : Spoke) (requests : List TopicChange) : Prop where
  named : spoke.manager.mName = name ∧ spoke.manager.mAddress = address
  joins : ∀ msg ∈ minted, msg.JoinOf id → msg.op = joinOf id name address
  silent : spoke.phase = .silent → requests = []
  unheard : spoke.link ≠ .down → spoke.phase ≠ .joined → about id minted = []
  queued : spoke.link ≠ .down → spoke.phase ≠ .joined → spoke.phase ≠ .silent →
    ∃ echo, spoke.toHub = echo ++ spoke.manager.joinMessage :: requests.map TopicChange.message ∧
      ∀ msg ∈ echo, msg.seq ≠ 0
  joined : spoke.link ≠ .down → spoke.phase = .joined →
    ∃ handled pending, requests = handled ++ pending ∧
      spoke.toHub = pending.map TopicChange.message ∧
      (about id minted).map TopologyMessage.op = recounted id name address handled
  remembered : spoke.phase = .joined → ∀ fd client, spoke.link = .up fd →
    hub.server.mClients.lookup fd = some client →
      client.history.map TopologyMessage.op = (about id minted).map TopologyMessage.op

section Recounts

variable {hub : Hub} {minted more : List TopologyMessage} {id : UInt64} {name address : String}
  {spoke : Spoke} {requests : List TopicChange} {op : HubOp} {o : Outcome}

/-- The messages about a node, part by part. -/
theorem about_append (log log' : List TopologyMessage) :
    about id (log ++ log') = about id log ++ about id log' :=
  List.filter_append ..

/-- Where no message is about the node. -/
theorem about_eq_nil {log : List TopologyMessage} (h : ∀ msg ∈ log, msg.nodeId ≠ id) :
    about id log = [] := by
  simpa [about, List.filter_eq_nil_iff] using h

/-- Where every message is. -/
theorem about_eq_self {log : List TopologyMessage} (h : ∀ msg ∈ log, msg.nodeId = id) :
    about id log = log := by
  simpa [about, List.filter_eq_self] using h

/-- A node introduces itself with the name and the address it was created with. -/
theorem joinMessage_op (hstanding : Standing hub minted id spoke)
    (h : Recounts hub minted id name address spoke requests) :
    spoke.manager.joinMessage.op = joinOf id name address := by
  rw [TopologyManager.joinMessage, joinOf, hstanding.own, h.named.1, h.named.2]

/-- **A call about another connection** that mints nothing about the node leaves the record of it
as it is. -/
theorem Recounts.spectate (h : Recounts hub minted id name address spoke requests)
    (hop : hub.server.perform op = some o)
    (hother : ∀ fd, spoke.link = .up fd → ¬ op.Concerns fd)
    (hjoin : ∀ msg ∈ o.minted, ¬ msg.JoinOf id)
    (hquiet : spoke.link ≠ .down → ∀ msg ∈ o.minted, msg.nodeId ≠ id) :
    Recounts (hub.observe op o) (minted ++ o.minted) id name address (spoke.transmit o.sent)
      requests := by
  have habout : spoke.link ≠ .down → about id (minted ++ o.minted) = about id minted := by
    intro hlink
    rw [about_append, about_eq_nil (hquiet hlink), List.append_nil]
  constructor
  case named =>
    rw [Spoke.transmit_manager]
    exact h.named
  case joins =>
    intro msg hmem hmsg
    rcases List.mem_append.mp hmem with hold | hnew
    · exact h.joins msg hold hmsg
    · exact absurd hmsg (hjoin msg hnew)
  case silent =>
    rw [Spoke.transmit_phase]
    exact h.silent
  case unheard =>
    rw [Spoke.transmit_link, Spoke.transmit_phase]
    intro hlink hphase
    rw [habout hlink]
    exact h.unheard hlink hphase
  case queued =>
    rw [Spoke.transmit_link, Spoke.transmit_phase, Spoke.transmit_toHub, Spoke.transmit_manager]
    exact h.queued
  case joined =>
    rw [Spoke.transmit_link, Spoke.transmit_phase, Spoke.transmit_toHub]
    intro hlink hphase
    rw [habout hlink]
    exact h.joined hlink hphase
  case remembered =>
    rw [Spoke.transmit_link, Spoke.transmit_phase]
    intro hphase fd client' hup hclient'
    obtain ⟨client, hclient, _, hhistory⟩ := perform_frame hop (hother fd hup) hclient'
    rw [hhistory, habout (by simp [hup])]
    exact h.remembered hphase fd client hup hclient

/-- A node that introduces itself does not list itself yet, and so it has no topics to tell but
its JOIN after what it was told. -/
theorem Recounts.introduce (h : Recounts hub minted id name address spoke requests)
    (hstanding : Standing hub minted id spoke) (hhub : hub.Minting minted)
    (hlink : spoke.link ≠ .down) (hphase : spoke.phase = .silent) (pubs : List Publication)
    (subs : List String) :
    Recounts hub minted id name address (spoke.introduce pubs subs) requests where
  named := h.named
  joins := h.joins
  silent := by simp [Spoke.introduce]
  unheard := fun hlink _ => h.unheard hlink (by simp [hphase])
  queued := by
    intro _ _ _
    have hnothing := hstanding.queued
    rw [hphase] at hnothing
    refine ⟨spoke.manager.mHistory, ?_, fun msg hmem => ?_⟩
    · rw [Spoke.introduce, hstanding.introduceOurselves_eq hhub hlink hphase, hnothing,
        h.silent hphase, List.nil_append, List.map_nil]
    · have hreceived := hstanding.observes.history msg hmem
      exact hhub.seq_ne_zero msg (hstanding.received_minted hhub hlink msg hreceived)
  joined := fun _ hjoined => by cases hjoined
  remembered := fun hjoined => by cases hjoined

/-- A request more, and its packet is the last of those on their way. -/
theorem Recounts.request (h : Recounts hub minted id name address spoke requests)
    (hstanding : Standing hub minted id spoke) (hphase : spoke.phase ≠ .silent)
    (op : TopicOperation) (topic mime : String) :
    Recounts hub minted id name address (spoke.request op topic mime)
      (requests ++ [{ name := topic, mime := mime, nodeId := id, op := op }]) := by
  have hmessage : spoke.manager.topicMessage op topic mime =
      TopicChange.message { name := topic, mime := mime, nodeId := id, op := op } := by
    rw [TopologyManager.topicMessage, hstanding.own, TopicChange.message]
  constructor
  case named => exact h.named
  case joins => exact h.joins
  case silent => exact fun hsilent => absurd hsilent hphase
  case unheard => exact h.unheard
  case queued =>
    intro hlink hjoined hsilent
    obtain ⟨echo, htoHub, hecho⟩ := h.queued hlink hjoined hsilent
    refine ⟨echo, ?_, hecho⟩
    show spoke.toHub ++ [spoke.manager.topicMessage op topic mime] = _
    rw [htoHub, hmessage, List.map_append, List.append_assoc, List.cons_append, List.map_singleton]
    rfl
  case joined =>
    intro hlink hjoined
    obtain ⟨handled, pending, rfl, htoHub, habout⟩ := h.joined hlink hjoined
    refine ⟨handled, pending ++ [{ name := topic, mime := mime, nodeId := id, op := op }],
      List.append_assoc .., ?_, habout⟩
    show spoke.toHub ++ [spoke.manager.topicMessage op topic mime] = _
    rw [htoHub, hmessage, List.map_append, List.map_singleton]
  case remembered => exact h.remembered

/-- What a node is told changes nothing of what it has asked for. -/
theorem Recounts.deliver (h : Recounts hub minted id name address spoke requests)
    (msg : TopologyMessage) (rest : List TopologyMessage) :
    Recounts hub minted id name address (spoke.deliver msg rest) requests where
  named := h.named
  joins := h.joins
  silent := h.silent
  unheard := h.unheard
  queued := h.queued
  joined := h.joined
  remembered := h.remembered

/-- The node's own connection opens; nothing has come over it, and nothing about the node was
minted before. -/
theorem Recounts.connect (h : Recounts hub minted id name address spoke requests)
    (hstanding : Standing hub minted id spoke) (happart : spoke.link = .apart) {fd : Fd}
    (hminted : o.minted = []) :
    Recounts (hub.observe (.connect fd) o) (minted ++ o.minted) id name address
      (({ spoke with link := .up fd } : Spoke).transmit o.sent) requests := by
  have hphase : spoke.phase ≠ .joined := by
    rcases (hstanding.apart happart).2.2 with hcase | hcase <;> simp [hcase]
  rw [hminted, List.append_nil]
  constructor
  case named =>
    rw [Spoke.transmit_manager]
    exact h.named
  case joins => exact h.joins
  case silent =>
    rw [Spoke.transmit_phase]
    exact h.silent
  case unheard =>
    intro _ _
    exact h.unheard (by simp [happart]) hphase
  case queued =>
    rw [Spoke.transmit_phase, Spoke.transmit_toHub, Spoke.transmit_manager]
    intro _ hjoined hsilent
    exact h.queued (by simp [happart]) hjoined hsilent
  case joined =>
    rw [Spoke.transmit_phase]
    exact fun _ hjoined => absurd hjoined hphase
  case remembered =>
    rw [Spoke.transmit_phase]
    exact fun hjoined => absurd hjoined hphase

/-- The node's own connection closes, and there is nothing left to keep a record of. -/
theorem Recounts.hangUp (h : Recounts hub minted id name address spoke requests) (hub' : Hub)
    (hjoin : ∀ msg ∈ more, ¬ msg.JoinOf id) (sent : Fd → List TopologyMessage) :
    Recounts hub' (minted ++ more) id name address
      (({ spoke with link := .down, toHub := [] } : Spoke).transmit sent) requests := by
  rw [Spoke.transmit_eq_self _ _ (by simp)]
  constructor
  case named => exact h.named
  case joins =>
    intro msg hmem hmsg
    rcases List.mem_append.mp hmem with hold | hnew
    · exact h.joins msg hold hmsg
    · exact absurd hmsg (hjoin msg hnew)
  case silent => exact h.silent
  case unheard => exact fun hlink => absurd rfl hlink
  case queued => exact fun hlink => absurd rfl hlink
  case joined => exact fun hlink => absurd rfl hlink
  case remembered => exact fun _ fd client hup => by cases hup

end Recounts

/-! ## The hub takes a packet -/

/-- A minted message is remembered for its connection, and nothing else is. -/
theorem TopologyServer.perform_history {s : TopologyServer} {o : Outcome} {fd : Fd}
    {msg : TopologyMessage} {random : UInt64} {client client' : Client}
    (hop : s.perform (.data fd msg random) = some o) (hclient : s.mClients.lookup fd = some client)
    (hseq : msg.seq = 0) (hid : msg.nodeId ≠ 0)
    (hclient' : o.server.mClients.lookup fd = some client') :
    client'.history = client.history ++ o.minted := by
  rcases perform_cases hop with ⟨fd', heq, _⟩ | ⟨fd', msg', random', heq, hzero, rfl⟩ |
    ⟨u, failed, hupdate, hserver, _, _⟩
  · cases heq
  · cases heq
    exact absurd hzero hid
  · rw [hserver] at hclient'
    obtain ⟨updated, hupdated, _, hhistory⟩ := of_lookup_settle u hclient'
    rw [hhistory]
    generalize o.minted = minted at hupdate ⊢
    generalize o.accepted = accepted at hupdate
    cases hupdate with
    | newest _ _ hne _ => exact absurd hseq hne
    | held _ _ hne _ => exact absurd hseq hne
    | redundant hfound _ _ _ =>
        obtain rfl := Option.some.inj (hclient.symm.trans hfound)
        rw [Finmap.lookup_insert] at hupdated
        rw [← Option.some.inj hupdated, List.append_nil]
    | novel hfound _ _ _ =>
        obtain rfl := Option.some.inj (hclient.symm.trans hfound)
        rw [Finmap.lookup_insert] at hupdated
        rw [← Option.some.inj hupdated]

/-- What is redundant has been remembered. -/
theorem TopologyServer.isRedundant_iff {msg : TopologyMessage} {client : Client}
    (hop : msg.op ≠ .notSet) :
    isRedundant msg client = true ↔ msg.op ∈ client.history.map TopologyMessage.op := by
  simp only [isRedundant, List.any_eq_true, MessageOp.equal_iff, List.mem_map]
  constructor
  · rintro ⟨earlier, hmem, heq, _⟩
    exact ⟨earlier, hmem, heq⟩
  · rintro ⟨earlier, hmem, heq⟩
    exact ⟨earlier, hmem, heq, heq ▸ hop⟩

/-- The topic changes among the messages that are recounted are those that were handled. -/
theorem mem_recounted {id : UInt64} {name address : String} {handled : List TopicChange}
    {change : TopicChange} :
    MessageOp.topicChange change ∈ recounted id name address handled ↔ change ∈ handled := by
  simp [recounted, joinOf]

section Handle

variable {hub : Hub} {minted : List TopologyMessage} {id : UInt64} {name address : String}
  {spoke : Spoke} {requests : List TopicChange} {o : Outcome} {fd : Fd} {msg : TopologyMessage}
  {rest : List TopologyMessage} {random : UInt64}

/-- A packet of a node that has not joined.  What it re-sends is redundant or about others; its
own JOIN begins the record. -/
theorem Recounts.handle_first (h : Recounts hub minted id name address spoke requests)
    (hstanding : Standing hub minted id spoke) (hid : id ≠ 0) (hup : spoke.link = .up fd)
    (hnext : spoke.toHub = msg :: rest) (hphase : spoke.phase ≠ .joined)
    (hop : hub.server.perform (.data fd msg random) = some o)
    (htakes : Takes hub id spoke fd msg rest o) :
    Recounts (hub.observe (.data fd msg random) o) (minted ++ o.minted) id name address
      ((spoke.handle msg rest).transmit o.sent) requests := by
  have hlink : spoke.link ≠ .down := by simp [hup]
  have hsilent : spoke.phase ≠ .silent := by
    intro hsilent
    have hqueued := hstanding.queued
    rw [hsilent, hnext] at hqueued
    cases hqueued
  have hnothing := h.unheard hlink hphase
  have hphase' := @handle_phase id spoke msg rest hstanding.own
  obtain ⟨echo, htoHub, hecho⟩ := h.queued hlink hphase hsilent
  rw [hnext] at htoHub
  cases htakes with
  | topic hjoined => exact absurd hjoined hphase
  | echo _ hseq hminted _ _ =>
      rw [if_neg (by simp [hphase, hseq])] at hphase'
      rw [hminted, List.append_nil]
      obtain ⟨first, echo', rfl⟩ : ∃ first echo', echo = first :: echo' := by
        cases echo with
        | nil =>
            rw [List.nil_append] at htoHub
            obtain ⟨rfl, _⟩ := List.cons.inj htoHub
            exact absurd rfl hseq
        | cons first echo' => exact ⟨first, echo', rfl⟩
      rw [List.cons_append] at htoHub
      obtain ⟨rfl, hrest⟩ := List.cons.inj htoHub
      constructor
      case named =>
        rw [Spoke.transmit_manager]
        exact h.named
      case joins => exact h.joins
      case silent =>
        rw [Spoke.transmit_phase, hphase']
        exact fun hcase => by cases hcase
      case unheard => exact fun _ _ => hnothing
      case queued =>
        rw [Spoke.transmit_toHub, Spoke.transmit_manager]
        exact fun _ _ _ => ⟨echo', hrest, fun m hm => hecho m (List.mem_cons_of_mem _ hm)⟩
      case joined =>
        rw [Spoke.transmit_phase, hphase']
        exact fun _ hcase => by cases hcase
      case remembered =>
        rw [Spoke.transmit_phase, hphase']
        exact fun hcase => by cases hcase
  | @join _ hseq hjoin new hminted hnew _ _ =>
      rw [if_pos (Or.inr ⟨hseq, hjoin⟩)] at hphase'
      -- the echo has come to its end
      have hnone : echo = [] := by
        cases echo with
        | nil => rfl
        | cons first echo' =>
            rw [List.cons_append] at htoHub
            obtain ⟨rfl, _⟩ := List.cons.inj htoHub
            exact absurd hseq (hecho msg List.mem_cons_self)
      rw [hnone, List.nil_append] at htoHub
      obtain ⟨rfl, hrest⟩ := List.cons.inj htoHub
      have hjoinOp : new.op = joinOf id name address := hnew.trans (joinMessage_op hstanding h)
      have hnodeId : new.nodeId = id := by
        rw [TopologyMessage.nodeId, hjoinOp]
        rfl
      have habout : about id (minted ++ o.minted) = [new] := by
        rw [about_append, hnothing, hminted, List.nil_append]
        exact about_eq_self (by simp [hnodeId])
      constructor
      case named =>
        rw [Spoke.transmit_manager]
        exact h.named
      case joins =>
        intro m hmem hm
        rw [hminted] at hmem
        rcases List.mem_append.mp hmem with hold | hlast
        · exact h.joins m hold hm
        · rw [List.mem_singleton.mp hlast]
          exact hjoinOp
      case silent =>
        rw [Spoke.transmit_phase, hphase']
        exact fun hcase => by cases hcase
      case unheard =>
        rw [Spoke.transmit_phase, hphase']
        exact fun _ hcase => absurd rfl hcase
      case queued =>
        rw [Spoke.transmit_phase, hphase']
        exact fun _ hcase => absurd rfl hcase
      case joined =>
        rw [Spoke.transmit_toHub, habout]
        intro _ _
        exact ⟨[], requests, rfl, hrest, by simp [recounted, hjoinOp]⟩
      case remembered =>
        rw [Spoke.transmit_link]
        intro _ fd' client' hup' hclient'
        have hsame : spoke.link = .up fd' := hup'
        obtain rfl : fd = fd' := by
          rw [hup] at hsame
          injection hsame
        obtain ⟨client, hclient⟩ := Finmap.mem_iff.mp (hstanding.channel fd hup).1
        have hempty : client.history = [] := by
          have hremembered := hstanding.remembered fd client hup hclient
          cases hcase : spoke.phase with
          | silent => exact absurd hcase hsilent
          | joined => exact absurd hcase hphase
          | introduced =>
              rw [hcase] at hremembered
              exact hremembered.2
          | heard =>
              rw [hcase] at hremembered
              exact hremembered
        have hhistory := perform_history hop hclient hseq (hjoin.nodeId.trans_ne hid) hclient'
        rw [hhistory, hempty, habout, hminted, List.nil_append]

/-- A packet of a node that has joined is a topic change, which is minted unless the connection
has brought an equal one before. -/
theorem Recounts.handle_topic (h : Recounts hub minted id name address spoke requests)
    (hstanding : Standing hub minted id spoke) (hid : id ≠ 0) (hup : spoke.link = .up fd)
    (hnext : spoke.toHub = msg :: rest) (hphase : spoke.phase = .joined)
    (hop : hub.server.perform (.data fd msg random) = some o)
    (htakes : Takes hub id spoke fd msg rest o) :
    Recounts (hub.observe (.data fd msg random) o) (minted ++ o.minted) id name address
      ((spoke.handle msg rest).transmit o.sent) requests := by
  have hlink : spoke.link ≠ .down := by simp [hup]
  have hphase' := @handle_phase id spoke msg rest hstanding.own
  rw [if_pos (Or.inl hphase)] at hphase'
  obtain ⟨handled, pending, rfl, htoHub, habout⟩ := h.joined hlink hphase
  rw [hnext] at htoHub
  obtain ⟨change, pending', rfl⟩ : ∃ change pending', pending = change :: pending' := by
    cases pending with
    | nil => cases htoHub
    | cons change pending' => exact ⟨change, pending', rfl⟩
  rw [List.map_cons] at htoHub
  obtain ⟨rfl, hrest⟩ := List.cons.inj htoHub
  have hnode : change.nodeId = id := by
    cases htakes with
    | topic _ htopic =>
        obtain ⟨_, change', hchange, hown⟩ := htopic
        cases hchange
        exact hown
    | echo hnot => exact absurd hphase hnot
    | join hnot => exact absurd hphase hnot
  obtain ⟨client, hclient⟩ := Finmap.mem_iff.mp (hstanding.channel fd hup).1
  have hremembered := h.remembered hphase fd client hup hclient
  have hnonzero : change.message.nodeId ≠ 0 := hnode.trans_ne hid
  have hredundant : isRedundant change.message client = true ↔ change ∈ handled := by
    rw [TopologyServer.isRedundant_iff (by simp [TopicChange.message]), hremembered, habout]
    exact mem_recounted
  obtain ⟨client₁, hclient₁⟩ :=
    Finmap.mem_iff.mp (perform_open hop (Finmap.mem_iff.mpr ⟨client, hclient⟩) (by simp))
  obtain ⟨_, _, hminted⟩ := perform_new hop hclient rfl hnonzero hclient₁
  have hops : o.minted.map TopologyMessage.op =
      if change ∈ handled then [] else [.topicChange change] := by
    rcases hminted with ⟨hold, hnone⟩ | ⟨hnew, hone⟩
    · rw [hnone, if_pos (hredundant.mp hold), List.map_nil]
    · have hfirst : change ∉ handled := by
        intro hmem
        rw [hredundant.mpr hmem] at hnew
        cases hnew
      rw [hone, if_neg hfirst]
      rfl
  have hself : about id o.minted = o.minted := about_eq_self htakes.minted_nodeId
  have habout' : (about id (minted ++ o.minted)).map TopologyMessage.op =
      recounted id name address (handled ++ [change]) := by
    rw [about_append, List.map_append, habout, hself, hops, recounted, recounted, firsts_concat,
      record]
    simp only [mem_firsts]
    split
    · rw [List.append_nil]
    · rw [List.map_append, List.cons_append, List.map_singleton]
  constructor
  case named =>
    rw [Spoke.transmit_manager]
    exact h.named
  case joins =>
    intro m hmem hm
    rcases List.mem_append.mp hmem with hold | hnew
    · exact h.joins m hold hm
    · have hmapped : m.op ∈ o.minted.map TopologyMessage.op := List.mem_map_of_mem hnew
      rw [hops] at hmapped
      split at hmapped
      · cases hmapped
      · rw [TopologyMessage.JoinOf, List.mem_singleton.mp hmapped] at hm
        exact hm.elim
  case silent =>
    rw [Spoke.transmit_phase, hphase']
    exact fun hcase => by cases hcase
  case unheard =>
    rw [Spoke.transmit_phase, hphase']
    exact fun _ hcase => absurd rfl hcase
  case queued =>
    rw [Spoke.transmit_phase, hphase']
    exact fun _ hcase => absurd rfl hcase
  case joined =>
    rw [Spoke.transmit_toHub]
    exact fun _ _ => ⟨handled ++ [change], pending', by simp, hrest, habout'⟩
  case remembered =>
    rw [Spoke.transmit_link]
    intro _ fd' client' hup' hclient'
    have hsame : spoke.link = .up fd' := hup'
    obtain rfl : fd = fd' := by
      rw [hup] at hsame
      injection hsame
    have hhistory := perform_history hop hclient rfl hnonzero hclient'
    rw [hhistory, List.map_append, hremembered, about_append, List.map_append, hself]

end Handle

/-! ## The network -/

/-- A client that connects adds nothing to the history. -/
theorem TopologyServer.perform_connect {s : TopologyServer} {fd : Fd} {o : Outcome}
    (hop : s.perform (.connect fd) = some o) :
    fd ∉ s.mClients ∧ o.minted = [] ∧ o.accepted = [] := by
  simp only [perform] at hop
  split at hop
  · cases hop
  · rename_i hnew
    obtain rfl := Option.some.inj hop
    exact ⟨hnew, rfl, rfl⟩

/-- The purge adds LEAVEs only. -/
theorem TopologyServer.perform_purge {s : TopologyServer} {order : List UInt64} {o : Outcome}
    (hop : s.perform (.purge order) = some o) :
    o.accepted = [] ∧ ∀ msg ∈ o.minted, ∃ id, msg.LeaveOf id := by
  simp only [perform] at hop
  split at hop
  · obtain rfl := Option.some.inj hop
    refine ⟨rfl, fun msg hmem => ?_⟩
    obtain ⟨id, _, hleave⟩ := mem_mintLeaves _ _ hmem
    exact ⟨id, hleave⟩
  · cases hop

namespace Net

variable {net net' : Net} {name address : UInt64 → String} {events : List NetEvent}
  {event : NetEvent} {id : UInt64} {spoke : Spoke}

/-- The hub's record of all nodes, against what they have asked for. -/
structure Telling (net : Net) (name address : UInt64 → String) (events : List NetEvent) :
    Prop where
  sound : net.Sound
  history : net.hub.server.mHistory = pruneRemoved net.minted
  recounts : ∀ id, id ≠ 0 →
    Recounts net.hub net.minted id (name id) (address id) (net.spokes id) (asked id events)

/-- In the beginning nobody has asked for anything. -/
theorem start_telling (name address : UInt64 → String) (handlers : UInt64 → Handlers) :
    (start name address handlers).Telling name address [] where
  sound := start_sound name address handlers
  history := rfl
  recounts := fun id _ =>
    { named := ⟨rfl, rfl⟩
      joins := fun msg hmem => by cases hmem
      silent := fun _ => rfl
      unheard := fun _ _ => rfl
      queued := fun _ _ hsilent => absurd rfl hsilent
      joined := fun _ hjoined => by cases hjoined
      remembered := fun hjoined => by cases hjoined }

/-- What a node has asked for, and what it asks for by one more event. -/
theorem asked_concat (id : UInt64) (events : List NetEvent) (event : NetEvent) :
    asked id (events ++ [event]) = asked id events ++ (event.asks id).toList := by
  rw [asked, List.filterMap_append]
  cases hasks : event.asks id <;> simp [asked, hasks]

/-- Nothing is minted about a node of another connection but its LEAVE, and that only when
its connection has closed. -/
theorem Sound.quiet_of_leaves (h : net'.Sound) {minted more : List TopologyMessage}
    (hminted : net'.minted = minted ++ more) (hleaves : ∀ msg ∈ more, ∃ id, msg.LeaveOf id)
    (hid : id ≠ 0) (hlink : (net'.spokes id).link ≠ .down) : ∀ msg ∈ more, msg.nodeId ≠ id := by
  intro msg hmem hnode
  obtain ⟨id', hleave⟩ := hleaves msg hmem
  obtain rfl : id' = id := hleave.nodeId.symm.trans hnode
  have hminted' : msg ∈ net'.minted := hminted ▸ List.mem_append_right _ hmem
  exact hlink (((h.standing id').logged.leave_iff hid).mp ⟨msg, hminted', hleave⟩).2

/-- A node changes on its own, and only what it asks for itself may become more. -/
theorem Telling.update (h : net.Telling name address events)
    (hsound : (net.update id spoke).Sound)
    (hspoke : id ≠ 0 → Recounts net.hub net.minted id (name id) (address id) spoke
      (asked id (events ++ [event])))
    (hothers : ∀ id', id' ≠ id → event.asks id' = none) :
    (net.update id spoke).Telling name address (events ++ [event]) where
  sound := hsound
  history := h.history
  recounts := by
    intro id' hid'
    by_cases heq : id' = id
    · subst heq
      rw [update_same]
      exact hspoke hid'
    · rw [update_of_ne heq, asked_concat, hothers id' heq, Option.toList_none, List.append_nil]
      exact h.recounts id' hid'

/-- A node calls the hub, which mints about that node only; the others look on. -/
theorem Telling.call (h : net.Telling name address events) {op : HubOp} {o : Outcome}
    (hop : net.hub.server.perform op = some o) (haccepted : o.accepted = [])
    (hsound : ((net.update id spoke).observe op o).Sound) (hasks : ∀ id', event.asks id' = none)
    (hspoke : id ≠ 0 → Recounts (net.hub.observe op o) (net.minted ++ o.minted) id (name id)
      (address id) (spoke.transmit o.sent) (asked id events))
    (hother : ∀ id' fd, id' ≠ id → (net.spokes id').link = .up fd → ¬ op.Concerns fd)
    (hjoin : ∀ id', id' ≠ id → ∀ msg ∈ o.minted, ¬ msg.JoinOf id')
    (hquiet : ∀ id', id' ≠ id → id' ≠ 0 → (net.spokes id').link ≠ .down →
      ∀ msg ∈ o.minted, msg.nodeId ≠ id') :
    ((net.update id spoke).observe op o).Telling name address (events ++ [event]) where
  sound := hsound
  history := by
    have hpruned := perform_history_pruned h.history hop
    rwa [Outcome.added, haccepted, List.append_nil] at hpruned
  recounts := by
    intro id' hid'
    rw [asked_concat, hasks, Option.toList_none, List.append_nil]
    by_cases heq : id' = id
    · subst heq
      simp only [observe, update_same]
      exact hspoke hid'
    · simp only [observe, update_of_ne heq]
      exact (h.recounts id' hid').spectate hop (fun fd => hother id' fd heq) (hjoin id' heq)
        (hquiet id' heq hid')

/-- **One event** leaves the hub's record of every node what the node has sent, repetitions left
out. -/
theorem Telling.step (h : net.Telling name address events) (hstep : net.step event = some net')
    (hbound : net'.minted.length < 2 ^ 64 - 1) : net'.Telling name address (events ++ [event]) := by
  have hsound := h.sound.step hstep hbound
  have hstanding := fun id => h.sound.standing id
  cases step_happens hstep with
  | @introduces id pubs subs hphase hlink =>
      refine h.update hsound (fun hid => ?_) fun _ _ => rfl
      rw [asked_concat]
      simpa [NetEvent.asks] using
        (h.recounts id hid).introduce (hstanding id) h.sound.minting hlink hphase pubs subs
  | @requests id op topic mime hphase hlink =>
      refine h.update hsound (fun hid => ?_) fun id' hne => if_neg (Ne.symm hne)
      rw [asked_concat]
      simpa [NetEvent.asks] using
        (h.recounts id hid).request (hstanding id) hphase op topic mime
  | @delivers id fd msg rest hup hnext =>
      refine h.update hsound (fun hid => ?_) fun _ _ => rfl
      rw [asked_concat]
      simpa [NetEvent.asks] using (h.recounts id hid).deliver msg rest
  | @connects id fd o hid happart hop =>
      obtain ⟨hnew, hminted, haccepted⟩ := perform_connect hop
      refine h.call hop haccepted hsound (fun _ => rfl)
        (fun hid => (h.recounts id hid).connect (hstanding id) happart hminted) ?_ ?_ ?_
      · rintro id' fd' _ hup rfl
        exact hnew ((hstanding id').channel _ hup).1
      · intro _ _ msg hmem
        rw [hminted] at hmem
        cases hmem
      · intro _ _ _ _ msg hmem
        rw [hminted] at hmem
        cases hmem
  | @handles id random fd msg rest o hup hnext hop =>
      have hid := h.sound.ne_zero hup
      obtain ⟨haccepted, _, htakes⟩ := (hstanding id).takes h.sound.minting hid hup hnext hop
      refine h.call hop haccepted hsound (fun _ => rfl) (fun hid => ?_) ?_ ?_ ?_
      · by_cases hphase : (net.spokes id).phase = .joined
        · exact (h.recounts id hid).handle_topic (hstanding id) hid hup hnext hphase hop htakes
        · exact (h.recounts id hid).handle_first (hstanding id) hid hup hnext hphase hop htakes
      · rintro id' fd' hne hup' rfl
        exact hne (h.sound.distinct id' id _ hup' hup)
      · intro id' hne new hmem hjoin
        exact hne (hjoin.nodeId.symm.trans (htakes.minted_nodeId new hmem))
      · intro id' hne _ _ new hmem hnode
        exact hne (hnode.symm.trans (htakes.minted_nodeId new hmem))
  | @hangsUp id fd o hup hphase hop =>
      obtain ⟨client, hclient⟩ := Finmap.mem_iff.mp ((hstanding id).channel fd hup).1
      obtain ⟨haccepted, hminted⟩ := perform_disconnect hop hclient
      have hleaves : ∀ msg ∈ o.minted, ∃ id, msg.LeaveOf id := by
        intro msg hmem
        rw [hminted] at hmem
        rw [List.mem_singleton.mp hmem]
        exact ⟨client.nodeId, leaveMessage_leaveOf client.nodeId⟩
      have hjoins : ∀ id', ∀ msg ∈ o.minted, ¬ msg.JoinOf id' := by
        intro id' msg hmem hjoin
        obtain ⟨_, hleave⟩ := hleaves msg hmem
        cases (MessageOp.Reports.unique hjoin hleave).1
      refine h.call hop haccepted hsound (fun _ => rfl)
        (fun hid => (h.recounts id hid).hangUp _ (hjoins id) _) ?_ (fun id' _ => hjoins id') ?_
      · rintro id' fd' hne hup' rfl
        exact hne (h.sound.distinct id' id _ hup' hup)
      · intro id' hne hid' hlink
        refine hsound.quiet_of_leaves rfl hleaves hid' ?_
        rwa [observe, Spoke.transmit_link, update_of_ne hne]
  | @purges order o hop =>
      obtain ⟨haccepted, hleaves⟩ := perform_purge hop
      refine ⟨hsound, ?_, fun id' hid' => ?_⟩
      · have hpruned := perform_history_pruned h.history hop
        rwa [Outcome.added, haccepted, List.append_nil] at hpruned
      rw [asked_concat]
      have hspectate := (h.recounts id' hid').spectate hop (fun _ _ hconcerns => hconcerns)
        (fun msg hmem hjoin => by
          obtain ⟨_, hleave⟩ := hleaves msg hmem
          cases (MessageOp.Reports.unique hjoin hleave).1)
        (fun hlink => hsound.quiet_of_leaves rfl hleaves hid' (by
          rwa [observe, Spoke.transmit_link]))
      simpa [NetEvent.asks, observe] using hspectate

/-- **Every run** from the start, as long as the numbers do not run out. -/
theorem telling_of_exec {handlers : UInt64 → Handlers}
    (hrun : exec Net.step (start name address handlers) events = some net)
    (hbound : net.minted.length < 2 ^ 64 - 1) : net.Telling name address events := by
  suffices h : ∀ (before : List NetEvent) (net₀ : Net),
      (net₀.minted.length < 2 ^ 64 - 1 → net₀.Telling name address before) →
      exec Net.step net₀ events = some net → net.Telling name address (before ++ events) from
    h [] _ (fun _ => start_telling name address handlers) hrun
  clear hrun
  induction events with
  | nil =>
      intro before net₀ htelling hrun
      obtain rfl := Option.some.inj hrun
      rw [List.append_nil]
      exact htelling hbound
  | cons event events ih =>
      intro before net₀ htelling hrun
      obtain ⟨net₁, hstep, hrest⟩ := Option.bind_eq_some_iff.mp hrun
      have hlater := ih (before ++ [event]) net₁ (fun hbound₁ =>
        (htelling (lt_of_le_of_lt (length_minted_le hstep) hbound₁)).step hstep hbound₁) hrest
      rwa [List.append_assoc, List.singleton_append] at hlater

end Net

end IpcPubsub
