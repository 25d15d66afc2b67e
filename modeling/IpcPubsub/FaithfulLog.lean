import IpcPubsub.HubRuns

/-!
# A faithful log

Clients send fresh messages about their own nodes and nobody disconnects.  The
history should then stand for the same topology as everything `OnData` received,
in order: what `IsRedundant` drops should not matter.

`IsRedundant` looks for the message among everything the client ever sent, not
among what is in effect.  So a message is dropped exactly when it was received
before, and `faithful_log_iff` says when this does no harm: every repeated
message still has to be `InEffect` when it comes again.  A subscription that was
withdrawn and is renewed is lost.
-/

namespace IpcPubsub

open FiniteMap GuardedRuns LastWrite

/-- A JOIN, or a message of an absent node, or one whose topic was last said to
be what it says since the node joined. -/
def InEffect (received : List TopologyMessage) (msg : TopologyMessage) : Prop :=
  msg.JoinOf msg.nodeId ∨ ∀ since, sincePresent msg.nodeId received = some since →
    ∀ topic,
      (∀ value, publishes msg.nodeId topic msg = some value →
        (lastWrite (publishes msg.nodeId topic) since).getD none = value) ∧
      (∀ value, subscribes msg.nodeId topic msg = some value →
        (lastWrite (subscribes msg.nodeId topic) since).getD false = value)

section InEffect

variable {id : UInt64} {node : Node} {received since : List TopologyMessage}
  {msg : TopologyMessage}

/-- A message leaves a present entry as it is exactly when what it writes is
already there. -/
theorem Node.step_eq_self_iff (hreflects : node.Reflects id since) :
    node.step id msg = node ↔ ∀ topic,
      (∀ value, publishes id topic msg = some value →
        (lastWrite (publishes id topic) since).getD none = value) ∧
      (∀ value, subscribes id topic msg = some value →
        (lastWrite (subscribes id topic) since).getD false = value) := by
  simp only [← hreflects.publications, ← hreflects.subscriptions]
  rw [Node.eq_iff, and_iff_right (Node.step_frame msg)]
  refine forall_congr' fun topic => and_congr ?_ ?_
  · rw [Node.lookup_publications_step hreflects.keyed]
    cases publishes id topic msg <;> simp [eq_comm]
  · rw [Node.mem_subscriptions_step]
    cases subscribes id topic msg <;> simp [eq_comm]

/-- **A message in effect is one that changes nothing**, if its node has joined
before it says so again. -/
theorem stepNode_eq_self_iff (hleave : ¬ msg.LeaveOf msg.nodeId)
    (hjoin : msg.JoinOf msg.nodeId → (entryAfter msg.nodeId none received).isSome) :
    stepNode msg.nodeId (entryAfter msg.nodeId none received) msg =
        entryAfter msg.nodeId none received ↔
      InEffect received msg := by
  by_cases hjoinOf : msg.JoinOf msg.nodeId
  · obtain ⟨node, hnode⟩ := Option.isSome_iff_exists.mp (hjoin hjoinOf)
    rw [hnode]
    exact iff_of_true (stepNode_join_some hjoinOf) (Or.inl hjoinOf)
  · have hreflects := replay_reference msg.nodeId received
    rw [lookup_replay] at hreflects
    unfold InEffect
    generalize sincePresent msg.nodeId received = since at hreflects ⊢
    generalize entryAfter msg.nodeId none received = entry at hreflects ⊢
    cases hreflects with
    | none => simp [stepNode_none hjoinOf]
    | some hreflects =>
        rw [stepNode_some hleave, Option.some.injEq, Node.step_eq_self_iff hreflects]
        simp [hjoinOf]

end InEffect

/-- A server and the messages `OnData` has received. -/
structure Inbox where
  server : TopologyServer
  received : List TopologyMessage := []

namespace Inbox

open TopologyServer

/-- A hub without a digest. -/
def start : Inbox where
  server := .create []

/-- What has been received after a call. -/
def record (box : Inbox) : HubOp → List TopologyMessage
  | .data _ msg _ => box.received ++ [msg]
  | _ => box.received

def step (box : Inbox) (op : HubOp) : Option Inbox :=
  (box.server.perform op).map fun o => { server := o.server, received := box.record op }

/-- Nobody disconnects, and each client sends fresh messages other than LEAVE
about the node of its own, `own fd`. -/
def OwnOnly (own : Fd → UInt64) (box : Inbox) : HubOp → Prop
  | .connect fd => own fd ≠ 0 ∧ ∀ fd' ∈ box.server.mClients.keys, own fd' ≠ own fd
  | .data fd msg _ => fd ∈ box.server.mClients.keys ∧ msg.seq = 0 ∧ msg.nodeId = own fd ∧
      ¬ msg.LeaveOf msg.nodeId
  | .disconnect _ => False
  | .purge _ => True

instance (own : Fd → UInt64) (box : Inbox) : DecidablePred (OwnOnly own box)
  | .connect _ => inferInstanceAs (Decidable (_ ∧ ∀ fd' ∈ box.server.mClients.keys, _))
  | .data _ _ _ => inferInstanceAs (Decidable (_ ∧ _ ∧ _ ∧ ¬ _))
  | .disconnect _ => isFalse fun h => h
  | .purge _ => isTrue trivial

/-- A message that repeats an earlier one is in effect. -/
def RepeatsInEffect (box : Inbox) : HubOp → Prop
  | .data _ msg _ => (∃ earlier ∈ box.received, earlier.op = msg.op) → InEffect box.received msg
  | _ => True

/-- The history stands for what was received. -/
def Faithful (box : Inbox) : Prop :=
  replay box.server.mHistory = replay box.received

instance : DecidablePred Faithful := fun box =>
  inferInstanceAs (Decidable (replay box.server.mHistory = replay box.received))

/-- Each client has been credited with what was received about its node, and
nothing else was received. -/
structure Credited (own : Fd → UInt64) (box : Inbox) : Prop where
  agrees : ∀ id, entryAfter id none box.server.mHistory = entryAfter id none box.received
  no_leave : ∀ msg ∈ box.received, ∀ id, ¬ msg.LeaveOf id
  history : ∀ msg ∈ box.server.mHistory, ∃ earlier ∈ box.received, earlier.op = msg.op
  sender : ∀ msg ∈ box.received, ∃ fd client,
    box.server.mClients.lookup fd = some client ∧ own fd = msg.nodeId ∧
      client.nodeId = msg.nodeId
  own_ne_zero : ∀ {fd : Fd} {client : Client}, box.server.mClients.lookup fd = some client →
    own fd ≠ 0
  own_inj : ∀ {fd fd' : Fd}, fd ∈ box.server.mClients → fd' ∈ box.server.mClients →
    own fd = own fd' → fd = fd'
  credit : ∀ {fd : Fd} {client : Client}, box.server.mClients.lookup fd = some client →
    ∀ op : MessageOp, op.nodeId = own fd →
      ((∃ msg ∈ client.history, msg.op = op) ↔ ∃ msg ∈ box.received, msg.op = op)

variable {own : Fd → UInt64} {box box' : Inbox} {op : HubOp} {u : TopologyServer}
  {minted accepted : List TopologyMessage} {failed : List Assertion}

/-- A hub without clients has nothing to credit to anybody. -/
theorem start_credited (own : Fd → UInt64) : Credited own start where
  agrees := fun _ => rfl
  no_leave := fun msg hmem => by cases hmem
  history := fun msg hmem => by cases hmem
  sender := fun msg hmem => by cases hmem
  own_ne_zero := fun h => by simp [start, create] at h
  own_inj := fun {fd _} h => absurd h (Finmap.notMem_empty (a := fd))
  credit := fun h => by simp [start, create] at h

/-- No LEAVE is in the history, so nothing is pruned. -/
theorem Credited.history_no_leave (h : Credited own box) :
    ∀ msg ∈ box.server.mHistory, ∀ id, ¬ msg.LeaveOf id := by
  intro msg hmem id hleave
  obtain ⟨earlier, hearlier, hop⟩ := h.history msg hmem
  exact h.no_leave earlier hearlier id (by rw [TopologyMessage.LeaveOf, hop]; exact hleave)

/-- Where no LEAVE is in the history, `PruneRemoved` keeps all of it. -/
theorem Credited.pruned (h : Credited own box) :
    pruneRemoved box.server.mHistory = box.server.mHistory := by
  rw [pruneRemoved_eq_self_iff, leftNodes_eq_empty h.history_no_leave]
  exact fun _ _ => keeps_empty

/-- Broadcasting changes nothing that matters here: there is nothing to prune, and a client keeps
its node and what it was credited with. -/
theorem Credited.settled {received : List TopologyMessage}
    (h : Credited own { server := u, received := received }) :
    Credited own { server := (settle u).server, received := received } where
  agrees := fun id => by rw [settle_mHistory, h.pruned, h.agrees id]
  no_leave := h.no_leave
  history := fun msg hmem => h.history msg (pruneRemoved_sublist.subset hmem)
  sender := fun msg hmem => by
    obtain ⟨fd, client, hclient, hown, hnode⟩ := h.sender msg hmem
    obtain ⟨client', hclient', hnode', _⟩ := exists_lookup_settle _ hclient
    exact ⟨fd, client', hclient', hown, hnode'.trans hnode⟩
  own_ne_zero := fun hlookup => by
    obtain ⟨client, hclient, _⟩ := of_lookup_settle _ hlookup
    exact h.own_ne_zero hclient
  own_inj := fun hfd hfd' => h.own_inj ((mem_settle _ _).mp hfd) ((mem_settle _ _).mp hfd')
  credit := fun hlookup op hop => by
    obtain ⟨client, hclient, _, hhistory⟩ := of_lookup_settle _ hlookup
    rw [hhistory, h.credit hclient op hop]

/-- Every active node is connected, so the purge mints nothing.  A node became active by a message
from its own connection. -/
theorem Credited.purge_nil (h : Credited own box) {order : List UInt64}
    (horder : order.toFinset = historicallyActive box.server.mHistory) :
    (order.filter fun id => id ∉ box.server.connected) = [] := by
  refine List.filter_eq_nil_iff.mpr fun id hmem => ?_
  have hactive : id ∈ historicallyActive box.server.mHistory := by
    rw [← horder]
    exact List.mem_toFinset.mpr hmem
  obtain ⟨join, hjoin, hid⟩ := exists_join_of_active hactive
  obtain ⟨earlier, hearlier, hop⟩ := h.history join hjoin
  obtain ⟨fd, client, hclient, _, hnode⟩ := h.sender earlier hearlier
  have hconnected : id ∈ box.server.connected := by
    refine (mem_image _ _ _).mpr ⟨fd, client, hclient, ?_⟩
    rw [hnode, TopologyMessage.nodeId, hop]
    exact hid.nodeId
  simpa using hconnected

/-- A message is redundant exactly when it was received before, since everything a node has sent
came over the connection that is credited with it. -/
theorem Credited.isRedundant_iff (h : Credited own box) {fd : Fd} {client : Client}
    {msg : TopologyMessage} (hclient : box.server.mClients.lookup fd = some client)
    (hown : msg.nodeId = own fd) :
    isRedundant msg client = true ↔ ∃ earlier ∈ box.received, earlier.op = msg.op := by
  have hset : msg.op ≠ .notSet :=
    TopologyMessage.op_ne_notSet (hown ▸ h.own_ne_zero hclient)
  rw [← h.credit hclient msg.op hown]
  simp only [isRedundant, List.any_eq_true, MessageOp.equal_iff]
  constructor
  · rintro ⟨earlier, hmem, hop, _⟩
    exact ⟨earlier, hmem, hop⟩
  · rintro ⟨earlier, hmem, hop⟩
    exact ⟨earlier, hmem, hop, hop ▸ hset⟩

/-- Receiving a message, whether it is minted or dropped.  The caller says what became of the
history and of the entries. -/
theorem Credited.receive (h : Credited own box) {fd : Fd} {client updated : Client}
    {msg : TopologyMessage} (hclient : box.server.mClients.lookup fd = some client)
    (hown : msg.nodeId = own fd) (hleave : ¬ msg.LeaveOf msg.nodeId)
    (hclients : u.mClients = box.server.mClients.insert fd updated)
    (hnode : updated.nodeId = msg.nodeId)
    (hcredit : ∀ op : MessageOp, (∃ m ∈ updated.history, m.op = op) ↔
      (∃ m ∈ client.history, m.op = op) ∨ op = msg.op)
    (hhistory : ∀ m ∈ u.mHistory, m ∈ box.server.mHistory ∨ m.op = msg.op)
    (hagrees : ∀ id, entryAfter id none u.mHistory = entryAfter id none (box.received ++ [msg])) :
    Credited own { server := u, received := box.received ++ [msg] } := by
  have hself : u.mClients.lookup fd = some updated := by rw [hclients, Finmap.lookup_insert]
  have hother : ∀ {fd'}, fd' ≠ fd → u.mClients.lookup fd' = box.server.mClients.lookup fd' :=
    fun hne => by rw [hclients, Finmap.lookup_insert_of_ne _ hne]
  have hmem : ∀ {fd'}, fd' ∈ u.mClients → fd' ∈ box.server.mClients := by
    intro fd' hfd'
    rw [hclients, Finmap.mem_insert] at hfd'
    rcases hfd' with rfl | hfd'
    · exact Finmap.mem_iff.mpr ⟨client, hclient⟩
    · exact hfd'
  constructor
  case agrees => exact hagrees
  case no_leave =>
    intro m hm id hid
    rcases List.mem_append.mp hm with hm | hm
    · exact h.no_leave m hm id hid
    · obtain rfl := List.mem_singleton.mp hm
      have heq : m.nodeId = id := hid.nodeId
      exact hleave (heq ▸ hid)
  case history =>
    intro m hm
    rcases hhistory m hm with hold | hop
    · obtain ⟨earlier, hearlier, hop⟩ := h.history m hold
      exact ⟨earlier, List.mem_append_left _ hearlier, hop⟩
    · exact ⟨msg, by simp, hop.symm⟩
  case sender =>
    -- the sender of an old message still names its node, also when it is `fd`
    intro m hm
    rcases List.mem_append.mp hm with hm | hm
    · obtain ⟨fd', sender, hsender, hown', hnamed⟩ := h.sender m hm
      by_cases hne : fd' = fd
      · subst hne
        exact ⟨fd', updated, hself, hown', by rw [hnode, hown, hown']⟩
      · exact ⟨fd', sender, (hother hne).trans hsender, hown', hnamed⟩
    · obtain rfl := List.mem_singleton.mp hm
      exact ⟨fd, updated, hself, hown.symm, hnode⟩
  case own_ne_zero =>
    intro fd' client' hclient'
    obtain ⟨old, hold⟩ := Finmap.mem_iff.mp (hmem (Finmap.mem_iff.mpr ⟨client', hclient'⟩))
    exact h.own_ne_zero hold
  case own_inj =>
    exact fun hfd' hfd'' => h.own_inj (hmem hfd') (hmem hfd'')
  case credit =>
    intro fd' client' hclient' op hop
    have hreceived : (∃ m ∈ box.received ++ [msg], m.op = op) ↔
        (∃ m ∈ box.received, m.op = op) ∨ op = msg.op := by
      simp [or_and_right, exists_or, eq_comm]
    rw [hreceived]
    by_cases hne : fd' = fd
    · subst hne
      obtain rfl := Option.some.inj (hself.symm.trans hclient')
      rw [hcredit, h.credit hclient op hop]
    · rw [hother hne] at hclient'
      have hdiffer : op ≠ msg.op := by
        rintro rfl
        refine hne (h.own_inj ?_ ?_ (hop.symm.trans hown))
        · exact Finmap.mem_iff.mpr ⟨client', hclient'⟩
        · exact Finmap.mem_iff.mpr ⟨client, hclient⟩
      rw [h.credit hclient' op hop]
      simp [hdiffer]

/-- Opening a connection for a node that has none, so that it is credited with nothing yet. -/
theorem Credited.connect (h : Credited own box) {fd : Fd} (hfd : fd ∉ box.server.mClients)
    (hzero : own fd ≠ 0) (hfresh : ∀ fd' ∈ box.server.mClients.keys, own fd' ≠ own fd) :
    Credited own { box with server := (box.server.onConnect fd).server } := by
  have hmem : ∀ fd', fd' ∈ (box.server.onConnect fd).server.mClients →
      fd' = fd ∨ fd' ∈ box.server.mClients := fun fd' hfd' => Finmap.mem_insert.mp hfd'
  constructor
  case agrees => exact h.agrees
  case no_leave => exact h.no_leave
  case history => exact h.history
  case sender =>
    intro msg hmsg
    obtain ⟨fd', client', hclient', hown, hnode⟩ := h.sender msg hmsg
    have hne : fd' ≠ fd := by
      rintro rfl
      exact hfd (Finmap.mem_iff.mpr ⟨client', hclient'⟩)
    exact ⟨fd', client', (Finmap.lookup_insert_of_ne _ hne).trans hclient', hown, hnode⟩
  case own_ne_zero =>
    intro fd' client' hclient'
    rcases of_lookup_onConnect hfd hclient' with ⟨rfl, _⟩ | ⟨_, hold⟩
    · exact hzero
    · exact h.own_ne_zero hold
  case own_inj =>
    intro fd' fd'' hfd' hfd'' heq
    rcases hmem fd' hfd' with rfl | hold' <;> rcases hmem fd'' hfd'' with rfl | hold''
    · rfl
    · exact absurd heq.symm (hfresh fd'' (Finmap.mem_keys.mpr hold''))
    · exact absurd heq (hfresh fd' (Finmap.mem_keys.mpr hold'))
    · exact h.own_inj hold' hold'' heq
  case credit =>
    intro fd' client' hclient' op hop
    rcases of_lookup_onConnect hfd hclient' with ⟨rfl, rfl⟩ | ⟨_, hold⟩
    · -- nothing was received about a node without a connection
      refine iff_of_false (by simp) ?_
      rintro ⟨msg, hmsg, rfl⟩
      obtain ⟨fd'', client'', hclient'', hown, _⟩ := h.sender msg hmsg
      exact hfresh fd'' (Finmap.mem_keys.mpr (Finmap.mem_iff.mpr ⟨client'', hclient''⟩))
        (hown.trans hop)
    · exact h.credit hold op hop

/-- A repeated JOIN finds its node present. -/
theorem Credited.isSome_of_repeated (h : Credited own box) {msg earlier : TopologyMessage}
    (hearlier : earlier ∈ box.received) (hop : earlier.op = msg.op)
    (hjoin : msg.JoinOf msg.nodeId) : (entryAfter msg.nodeId none box.received).isSome :=
  entryAfter_isSome_of_join hearlier (by rw [TopologyMessage.JoinOf, hop]; exact hjoin)
    fun m hm => h.no_leave m hm _

/-- Whether a dropped message changed the topology of what was received: the hub's history did
not, so the two agree exactly if the earlier message is still in effect. -/
theorem Credited.dropped_iff (h : Credited own box) {msg earlier : TopologyMessage}
    (hearlier : earlier ∈ box.received) (hop : earlier.op = msg.op) :
    (∀ id, entryAfter id none box.server.mHistory =
        entryAfter id none (box.received ++ [msg])) ↔ InEffect box.received msg := by
  have hleave : ¬ msg.LeaveOf msg.nodeId := by
    rw [TopologyMessage.LeaveOf, ← hop]
    exact h.no_leave earlier hearlier _
  rw [← stepNode_eq_self_iff hleave (h.isSome_of_repeated hearlier hop)]
  constructor
  · intro hall
    have := hall msg.nodeId
    rw [h.agrees, entryAfter_append] at this
    exact this.symm
  · intro heq id
    rw [h.agrees, entryAfter_append]
    by_cases hid : msg.nodeId = id
    · subst hid
      exact heq.symm
    · exact (stepNode_of_ne hid).symm

/-- **One update, exactly.**  Credit is kept, and with it agreement, if a
repeated message is in effect; otherwise agreement is lost. -/
theorem Credited.update (h : Credited own box) (hown : OwnOnly own box op)
    (hupdate : Updates box.server op u minted accepted failed) :
    (RepeatsInEffect box op →
      Credited own { server := (settle u).server, received := box.record op }) ∧
      (¬ RepeatsInEffect box op →
        ¬ Faithful { server := (settle u).server, received := box.record op }) := by
  cases hupdate with
  | newest _ _ hseq _ => exact absurd hown.2.1 hseq
  | held _ _ hseq _ => exact absurd hown.2.1 hseq
  | disconnect _ => exact hown.elim
  | purge _ horder =>
      refine ⟨fun _ => ?_, fun hnot => absurd trivial hnot⟩
      rw [h.purge_nil horder]
      exact Credited.settled h
  | @novel fd msg random client hclient hid hseq hredundant =>
      obtain ⟨_, _, hmsg, hleave⟩ := hown
      have hnew : ¬ ∃ earlier ∈ box.received, earlier.op = msg.op := by
        rw [← h.isRedundant_iff hclient hmsg, hredundant]
        simp
      refine ⟨fun _ => ?_, fun hnot => absurd (fun h => absurd h hnew) hnot⟩
      refine Credited.settled (h.receive hclient hmsg hleave rfl rfl ?_ ?_ ?_)
      · intro op
        simp [or_and_right, exists_or, eq_comm]
      · intro m hm
        rcases List.mem_append.mp hm with hm | hm
        · exact Or.inl hm
        · obtain rfl := List.mem_singleton.mp hm
          exact Or.inr rfl
      · intro id
        simp only [mint, entryAfter_append, h.agrees id, entryAfter_cons, entryAfter_nil]
        exact stepNode_congr rfl
  | @redundant fd msg random client hclient hid hseq hredundant =>
      obtain ⟨_, _, hmsg, hleave⟩ := hown
      obtain ⟨earlier, hearlier, hop⟩ := (h.isRedundant_iff hclient hmsg).mp hredundant
      have hiff := h.dropped_iff hearlier hop
      constructor
      · intro hrepeat
        refine Credited.settled (h.receive hclient hmsg hleave rfl rfl ?_ (fun m hm => Or.inl hm)
          (hiff.mpr (hrepeat ⟨earlier, hearlier, hop⟩)))
        intro op
        refine ⟨Or.inl, fun hor => hor.elim id ?_⟩
        rintro rfl
        exact (h.credit hclient msg.op hmsg).mpr ⟨earlier, hearlier, hop⟩
      · intro hnot hfaithful
        apply hnot
        intro _
        refine hiff.mp fun id => ?_
        have := replay_eq_iff.mp hfaithful id
        rwa [settle_mHistory, h.pruned] at this

/-- **One packet or call.**  A message that repeats nothing, or repeats what is in effect, keeps
the credit.  The hub drops one that repeats what has been changed since, and from then on its
history does not stand for what it has received. -/
theorem Credited.step (h : Credited own box) (hown : OwnOnly own box op)
    (hstep : box.step op = some box') :
    (RepeatsInEffect box op → Credited own box') ∧
      (¬ RepeatsInEffect box op → ¬ box'.Faithful) := by
  obtain ⟨o, hop, rfl⟩ := Option.map_eq_some_iff.mp hstep
  rcases perform_cases hop with ⟨fd, rfl, hfd, rfl⟩ | ⟨fd, msg, random, rfl, hid, rfl⟩ |
    ⟨u, failed, hupdate, hserver, _, _⟩
  · exact ⟨fun _ => h.connect hfd hown.1 hown.2, fun hnot => absurd trivial hnot⟩
  · obtain ⟨client, hclient⟩ := Finmap.mem_iff.mp (Finmap.mem_keys.mp hown.1)
    exact absurd (hown.2.2.1.symm.trans hid) (h.own_ne_zero hclient)
  · rw [hserver]
    exact h.update hown hupdate

/-- **Faithful log.**  In a run without disconnects the history stands for
everything received, at every state, exactly when every message that repeats an
earlier one is in effect. -/
theorem faithful_log_iff (own : Fd → UInt64) {ops : List HubOp}
    (hown : Along Inbox.step (OwnOnly own) start ops)
    (hrun : exec Inbox.step start ops = some box) :
    Throughout Inbox.step Faithful start ops ↔ Along Inbox.step RepeatsInEffect start ops := by
  refine throughout_iff_along (I := Credited own) ?_ ?_ ?_ (start_credited own) hown hrun
  · exact fun box h => replay_eq_iff.mpr h.agrees
  · exact fun box op box' h hown hrepeat hstep => (h.step hown hstep).1 hrepeat
  · exact fun box op box' h hown hrepeat hstep => (h.step hown hstep).2 hrepeat

/-- A client joins, subscribes, withdraws the subscription and renews it. -/
def subscribeAgain : List HubOp :=
  [.connect 3, .data 3 { op := .nodeChange { id := 5, op := .join, name := "five" } } 51,
    .data 3 { op := .topicChange { name := "topic", nodeId := 5, op := .subscribe } } 52,
    .data 3 { op := .topicChange { name := "topic", nodeId := 5, op := .unsubscribe } } 53,
    .data 3 { op := .topicChange { name := "topic", nodeId := 5, op := .subscribe } } 54]

/-- The second subscription is dropped as redundant. -/
theorem not_faithful_subscribeAgain :
    Along Inbox.step (OwnOnly fun _ => 5) start subscribeAgain ∧
      (exec Inbox.step start subscribeAgain).isSome ∧
      ¬ Throughout Inbox.step Faithful start subscribeAgain := by
  decide +kernel

/-- A client that says twice that it subscribes. -/
def subscribeTwice : List HubOp :=
  [.connect 3, .data 3 { op := .nodeChange { id := 5, op := .join, name := "five" } } 51,
    .data 3 { op := .topicChange { name := "topic", nodeId := 5, op := .subscribe } } 52,
    .data 3 { op := .topicChange { name := "topic", nodeId := 5, op := .subscribe } } 53,
    .purge [5]]

/-- What is said the second time is still in effect, and the hub drops it. -/
theorem faithful_log_iff_subscribeTwice :
    Along Inbox.step RepeatsInEffect start subscribeTwice := by
  have hrun : (exec Inbox.step start subscribeTwice).isSome := by decide +kernel
  exact (faithful_log_iff (fun _ => 5) (by decide +kernel) (Option.some_get hrun).symm).mp
    (by decide +kernel)

end Inbox

end IpcPubsub
