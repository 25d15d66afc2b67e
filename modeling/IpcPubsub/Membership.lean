import IpcPubsub.Standing

/-!
# Membership agreement

One hub and any number of nodes, under every interleaving of their connections,
introductions, topic changes and hang-ups and of the purge.

Re-sent history comes back to the hub while the nodes it is about leave and are
pruned, but it is never recorded again, so every node has at most one JOIN and
one LEAVE, in this order.  `membership_agreement`: each observer is told no more
than that, and when it has heard all it was sent it lists exactly the nodes that
have joined and are connected.
-/

namespace IpcPubsub

open FiniteMap GuardedRuns TopologyServer

/-- A hub, the node of each id, and everything the hub has minted. -/
structure Net where
  hub : Hub
  spokes : UInt64 → Spoke
  minted : List TopologyMessage := []

/-- An event at the node of an id, or the purge. -/
inductive NetEvent
  | connect (id : UInt64) (fd : Fd)
  | introduce (id : UInt64) (pubs : List Publication) (subs : List String)
  | request (id : UInt64) (op : TopicOperation) (topic mime : String)
  | handle (id : UInt64) (random : UInt64)
  | deliver (id : UInt64)
  | hangUp (id : UInt64)
  | purge (order : List UInt64)

namespace Net

/-- An empty hub and fresh managers. -/
def start (name address : UInt64 → String) (handlers : UInt64 → Handlers) : Net where
  hub := .start []
  spokes := fun id => { manager := .create id (name id) (address id) (handlers id) }

def update (net : Net) (id : UInt64) (spoke : Spoke) : Net :=
  { net with spokes := Function.update net.spokes id spoke }

/-- The hub after a call, with all it sent on its way. -/
def observe (net : Net) (op : HubOp) (o : Outcome) : Net where
  hub := net.hub.observe op o
  spokes := fun id => (net.spokes id).transmit o.sent
  minted := net.minted ++ o.minted

def perform (net : Net) (op : HubOp) : Option Net :=
  (net.hub.server.perform op).map (net.observe op)

/-- A node introduces itself once and sends topic changes only afterwards; what is
called before waits in the backlog.  It closes its connection before the hub has
handled any of its packets or after it has handled the JOIN. -/
def step (net : Net) : NetEvent → Option Net
  | .connect id fd =>
      if id ≠ 0 ∧ (net.spokes id).link = .apart then
        (net.update id { net.spokes id with link := .up fd }).perform (.connect fd)
      else none
  | .introduce id pubs subs =>
      if (net.spokes id).phase = .silent ∧ (net.spokes id).link ≠ .down then
        some (net.update id ((net.spokes id).introduce pubs subs))
      else none
  | .request id op topic mime =>
      if (net.spokes id).phase ≠ .silent ∧ (net.spokes id).link ≠ .down then
        some (net.update id ((net.spokes id).request op topic mime))
      else none
  | .handle id random =>
      match (net.spokes id).link, (net.spokes id).toHub with
      | .up fd, msg :: rest =>
          (net.update id ((net.spokes id).handle msg rest)).perform (.data fd msg random)
      | _, _ => none
  | .deliver id =>
      match (net.spokes id).link, (net.spokes id).fromHub with
      | .up _, msg :: rest => some (net.update id ((net.spokes id).deliver msg rest))
      | _, _ => none
  | .hangUp id =>
      match (net.spokes id).link with
      | .up fd =>
          if (net.spokes id).phase ≠ .heard then
            (net.update id { net.spokes id with link := .down, toHub := [] }).perform
              (.disconnect fd)
          else none
      | _ => none
  | .purge order => net.perform (.purge order)

/-- The hub has handled the JOIN of the node, and the node has not
disconnected. -/
def Present (net : Net) (id : UInt64) : Prop :=
  (net.spokes id).phase = .joined ∧ ∃ fd, (net.spokes id).link = .up fd

/-- What an observer was told and what it lists. -/
structure Informed (net : Net) (observer : UInt64) : Prop where
  joins_once : ∀ id, (net.spokes observer).calls.countP (Callback.TellsJoin id) ≤ 1
  leaves_once : ∀ id, (net.spokes observer).calls.countP (Callback.TellsLeave id) ≤ 1
  leaves_after : (net.spokes observer).manager.handlers.onJoin = true →
    ∀ id, LeavesAfterJoin id (net.spokes observer).calls
  lists : (net.spokes observer).fromHub = [] →
    ∀ id, id ∈ (net.spokes observer).manager.mNodes ↔ net.Present id

/-- Every node fits the hub, on a connection of its own. -/
structure Sound (net : Net) : Prop where
  minting : net.hub.Minting net.minted
  standing : ∀ id, Standing net.hub net.minted id (net.spokes id)
  distinct : ∀ id id' fd, (net.spokes id).link = .up fd → (net.spokes id').link = .up fd → id = id'
  zero : (net.spokes 0).link = .apart

/-- In the beginning no node is connected and the hub has minted nothing. -/
theorem start_sound (name address : UInt64 → String) (handlers : UInt64 → Handlers) :
    (start name address handlers).Sound where
  minting := Hub.start_minting
  standing := fun id => {
    own := rfl
    observes := TopologyManager.create_observes id (name id) (address id) (handlers id)
    apart := fun _ => ⟨rfl, rfl, Or.inl rfl⟩
    channel := fun fd hlink => by simp [start] at hlink
    remembered := fun fd client hlink => by simp [start] at hlink
    queued := rfl
    logged := {
      join_iff := by simp [start]
      join_once := by simp [start]
      leave_iff := by simp [start]
      order := by simp [start] } }
  distinct := fun id id' fd hlink => by simp [start] at hlink
  zero := rfl

variable {net net' : Net} {id : UInt64} {spoke : Spoke}

/-- The node that was changed. -/
@[simp] theorem update_same : (net.update id spoke).spokes id = spoke := by
  simp [update]

/-- The other nodes. -/
theorem update_of_ne {id' : UInt64} (h : id' ≠ id) :
    (net.update id spoke).spokes id' = net.spokes id' := by
  simp [update, h]

/-- A node that is connected has an id other than 0. -/
theorem Sound.ne_zero (h : net.Sound) {fd : Fd} (hup : (net.spokes id).link = .up fd) : id ≠ 0 := by
  rintro rfl
  rw [h.zero] at hup
  cases hup

/-- A node changes on its own, by sending or by taking in what was delivered to it. -/
theorem Sound.update (h : net.Sound) (hlink : spoke.link = (net.spokes id).link)
    (hspoke : Standing net.hub net.minted id spoke) : (net.update id spoke).Sound := by
  have hlinks : ∀ id', ((net.update id spoke).spokes id').link = (net.spokes id').link := by
    intro id'
    by_cases hid : id' = id
    · subst hid
      rw [update_same, hlink]
    · rw [update_of_ne hid]
  refine ⟨h.minting, fun id' => ?_, fun id₁ id₂ fd => ?_, ?_⟩
  · by_cases hid : id' = id
    · subst hid
      rw [update_same]
      exact hspoke
    · rw [update_of_ne hid]
      exact h.standing id'
  · rw [hlinks, hlinks]
    exact h.distinct id₁ id₂ fd
  · rw [hlinks]
    exact h.zero

/-- A node calls the hub.  The others only receive what the hub sends. -/
theorem Sound.call (h : net.Sound) (hid : id ≠ 0) {op : HubOp} {o : Outcome}
    (hop : net.hub.server.perform op = some o) (hhub : (net.hub.observe op o).Minting
      (net.minted ++ o.minted))
    (hspoke : Standing (net.hub.observe op o) (net.minted ++ o.minted) id (spoke.transmit o.sent))
    (hfd : ∀ id' fd, id' ≠ id → (net.spokes id').link = .up fd →
      ¬ op.Concerns fd ∧ spoke.link ≠ .up fd)
    (hquiet : ∀ id', id' ≠ id → ∀ msg ∈ o.minted, ¬ msg.JoinOf id' ∧
      (id' ≠ 0 → ¬ msg.LeaveOf id')) : ((net.update id spoke).observe op o).Sound := by
  have hlinks : ∀ id', (((net.update id spoke).observe op o).spokes id').link =
      if id' = id then spoke.link else (net.spokes id').link := by
    intro id'
    simp only [observe, Spoke.transmit_link]
    by_cases hid' : id' = id
    · subst hid'
      rw [update_same, if_pos rfl]
    · rw [update_of_ne hid', if_neg hid']
  refine ⟨hhub, fun id' => ?_, fun id₁ id₂ fd => ?_, ?_⟩
  · by_cases hid' : id' = id
    · subst hid'
      simp only [observe, update_same]
      exact hspoke
    · simp only [observe, update_of_ne hid']
      refine (h.standing id').spectate hop (fun fd hup => (hfd id' fd hid' hup).1)
        hhub.increasing (fun msg hmem => (hquiet id' hid' msg hmem).1) ?_
      exact fun hzero msg hmem => (hquiet id' hid' msg hmem).2 hzero
  · rw [hlinks, hlinks]
    intro hup₁ hup₂
    split at hup₁ <;> split at hup₂
    · simp_all
    · rename_i _ hne
      exact absurd hup₁ (hfd id₂ fd hne hup₂).2
    · rename_i hne _
      exact absurd hup₂ (hfd id₁ fd hne hup₁).2
    · exact h.distinct id₁ id₂ fd hup₁ hup₂
  · rw [hlinks, if_neg (Ne.symm hid)]
    exact h.zero

/-- A call of the hub in the network is a call of the hub. -/
theorem perform_eq_some {op : HubOp} (h : net.perform op = some net') :
    ∃ o, net.hub.server.perform op = some o ∧ net' = net.observe op o := by
  obtain ⟨o, hop, heq⟩ := Option.map_eq_some_iff.mp h
  exact ⟨o, hop, heq.symm⟩

/-- What an event does. -/
inductive Happens (net : Net) : NetEvent → Net → Prop
  | connects {id : UInt64} {fd : Fd} {o : Outcome} (hid : id ≠ 0)
      (happart : (net.spokes id).link = .apart)
      (hop : net.hub.server.perform (.connect fd) = some o) :
      Happens net (.connect id fd)
        ((net.update id { net.spokes id with link := .up fd }).observe (.connect fd) o)
  | introduces {id : UInt64} {pubs : List Publication} {subs : List String}
      (hphase : (net.spokes id).phase = .silent) (hlink : (net.spokes id).link ≠ .down) :
      Happens net (.introduce id pubs subs)
        (net.update id ((net.spokes id).introduce pubs subs))
  | requests {id : UInt64} {op : TopicOperation} {topic mime : String}
      (hphase : (net.spokes id).phase ≠ .silent) (hlink : (net.spokes id).link ≠ .down) :
      Happens net (.request id op topic mime)
        (net.update id ((net.spokes id).request op topic mime))
  | handles {id random : UInt64} {fd : Fd} {msg : TopologyMessage}
      {rest : List TopologyMessage} {o : Outcome} (hup : (net.spokes id).link = .up fd)
      (hnext : (net.spokes id).toHub = msg :: rest)
      (hop : net.hub.server.perform (.data fd msg random) = some o) :
      Happens net (.handle id random)
        ((net.update id ((net.spokes id).handle msg rest)).observe (.data fd msg random) o)
  | delivers {id : UInt64} {fd : Fd} {msg : TopologyMessage} {rest : List TopologyMessage}
      (hup : (net.spokes id).link = .up fd) (hnext : (net.spokes id).fromHub = msg :: rest) :
      Happens net (.deliver id) (net.update id ((net.spokes id).deliver msg rest))
  | hangsUp {id : UInt64} {fd : Fd} {o : Outcome} (hup : (net.spokes id).link = .up fd)
      (hphase : (net.spokes id).phase ≠ .heard)
      (hop : net.hub.server.perform (.disconnect fd) = some o) :
      Happens net (.hangUp id)
        ((net.update id { net.spokes id with link := .down, toHub := [] }).observe
          (.disconnect fd) o)
  | purges {order : List UInt64} {o : Outcome}
      (hop : net.hub.server.perform (.purge order) = some o) :
      Happens net (.purge order) (net.observe (.purge order) o)

/-- **What an event can do,** with the guards under which it can happen. -/
theorem step_happens {event : NetEvent} (h : net.step event = some net') :
    Happens net event net' := by
  cases event with
  | connect id fd =>
      simp only [Net.step] at h
      split at h
      · rename_i hcond
        obtain ⟨o, hop, rfl⟩ := perform_eq_some h
        exact .connects hcond.1 hcond.2 hop
      · cases h
  | introduce id pubs subs =>
      simp only [Net.step] at h
      split at h
      · rename_i hcond
        obtain rfl := Option.some.inj h
        exact .introduces hcond.1 hcond.2
      · cases h
  | request id op topic mime =>
      simp only [Net.step] at h
      split at h
      · rename_i hcond
        obtain rfl := Option.some.inj h
        exact .requests hcond.1 hcond.2
      · cases h
  | handle id random =>
      simp only [Net.step] at h
      split at h
      · rename_i fd msg rest hup hnext
        obtain ⟨o, hop, rfl⟩ := perform_eq_some h
        exact .handles hup hnext hop
      · cases h
  | deliver id =>
      simp only [Net.step] at h
      split at h
      · rename_i fd msg rest hup hnext
        obtain rfl := Option.some.inj h
        exact .delivers hup hnext
      · cases h
  | hangUp id =>
      simp only [Net.step] at h
      split at h
      · rename_i fd hup
        split at h
        · rename_i hphase
          obtain ⟨o, hop, rfl⟩ := perform_eq_some h
          exact .hangsUp hup hphase hop
        · cases h
      · cases h
  | purge order =>
      obtain ⟨o, hop, rfl⟩ := perform_eq_some h
      exact .purges hop

/-- **The hub accepts a connection,** sends it the history and takes it for nobody yet. -/
theorem Sound.connect (h : net.Sound) (hid : id ≠ 0) (happart : (net.spokes id).link = .apart)
    {fd : Fd} {o : Outcome} (hop : net.hub.server.perform (.connect fd) = some o)
    (hbound : (net.minted ++ o.minted).length < 2 ^ 64 - 1) :
    ((net.update id { net.spokes id with link := .up fd }).observe (.connect fd) o).Sound := by
  obtain ⟨hnew, hminted, haccepted⟩ :
      fd ∉ net.hub.server.mClients ∧ o.minted = [] ∧ o.accepted = [] := by
    simp only [TopologyServer.perform] at hop
    split at hop
    · cases hop
    · rename_i hnew
      obtain rfl := Option.some.inj hop
      exact ⟨hnew, rfl, rfl⟩
  have hhub := h.minting.perform hop haccepted trivial hbound
  refine h.call hid hop hhub ((h.standing id).connect happart hop hminted) ?_ ?_
  · intro id' fd' _ hup
    have hne : fd ≠ fd' := by
      rintro rfl
      exact hnew ((h.standing id').channel fd hup).1
    exact ⟨hne, fun hlink => hne (by injection hlink)⟩
  · intro id' _ msg hmem
    rw [hminted] at hmem
    cases hmem

/-- **The hub takes a packet** of a node and tells all connections what it has recorded of it. -/
theorem Sound.handle (h : net.Sound) {fd : Fd} (hup : (net.spokes id).link = .up fd)
    {msg : TopologyMessage} {rest : List TopologyMessage}
    (hnext : (net.spokes id).toHub = msg :: rest) {random : UInt64} {o : Outcome}
    (hop : net.hub.server.perform (.data fd msg random) = some o)
    (hbound : (net.minted ++ o.minted).length < 2 ^ 64 - 1) :
    ((net.update id ((net.spokes id).handle msg rest)).observe (.data fd msg random) o).Sound := by
  have hid := h.ne_zero hup
  obtain ⟨haccepted, hbelow, htakes⟩ := (h.standing id).takes h.minting hid hup hnext hop
  have hhub := h.minting.perform hop haccepted hbelow hbound
  refine h.call hid hop hhub ?_ ?_ ?_
  · exact (h.standing id).handle hid hup hop htakes hhub.increasing
  · intro id' fd' hne hup'
    have hfd : fd ≠ fd' := by
      rintro rfl
      exact hne (h.distinct id' id fd hup' hup)
    refine ⟨hfd, fun hlink => hfd ?_⟩
    have hlink' : (net.spokes id).link = .up fd' := hlink
    rw [hup] at hlink'
    injection hlink'
  · intro id' hne new hmem
    have hnode := htakes.minted_nodeId new hmem
    constructor
    · intro hjoin
      exact hne (hjoin.nodeId.symm.trans hnode)
    · intro _ hleave
      exact hne (hleave.nodeId.symm.trans hnode)

/-- **A connection closes.**  The LEAVE is that of its node if the node has joined, and of node 0
otherwise. -/
theorem Sound.hangUp (h : net.Sound) {fd : Fd} (hup : (net.spokes id).link = .up fd)
    (hphase : (net.spokes id).phase ≠ .heard) {o : Outcome}
    (hop : net.hub.server.perform (.disconnect fd) = some o)
    (hbound : (net.minted ++ o.minted).length < 2 ^ 64 - 1) :
    ((net.update id { net.spokes id with link := .down, toHub := [] }).observe
      (.disconnect fd) o).Sound := by
  have hid := h.ne_zero hup
  have hstanding := h.standing id
  obtain ⟨client, hclient⟩ := Finmap.mem_iff.mp (hstanding.channel fd hup).1
  obtain ⟨haccepted, hminted⟩ := perform_disconnect hop hclient
  have hhub := h.minting.perform hop haccepted trivial hbound
  have hleave : TopologyMessage.LeaveOf client.nodeId
      { leaveMessage client.nodeId with seq := net.hub.server.mNextSeq } :=
    leaveMessage_leaveOf client.nodeId
  refine h.call hid hop hhub ?_ ?_ ?_
  · have hincreasing := hhub.increasing
    rw [hminted] at hincreasing ⊢
    exact hstanding.hangUp hid hup hphase hclient hleave hincreasing _ _
  · intro id' fd' hne hup'
    have hfd : fd ≠ fd' := by
      rintro rfl
      exact hne (h.distinct id' id fd hup' hup)
    exact ⟨hfd, by simp⟩
  · intro id' hne msg hmem
    rw [hminted] at hmem
    obtain rfl := List.mem_singleton.mp hmem
    constructor
    · intro hjoin
      cases (MessageOp.Reports.unique hjoin hleave).1
    · intro hzero hleave'
      have heq := (MessageOp.Reports.unique hleave hleave').2
      rcases hstanding.taken_for hup hphase hclient with ⟨_, hnode⟩ | ⟨_, hnode⟩
      · exact hne (heq.symm.trans hnode)
      · exact hzero (heq.symm.trans hnode)

/-- **The purge finds every active node connected,** so it mints nothing. -/
theorem Sound.purge (h : net.Sound) {order : List UInt64} {o : Outcome}
    (hop : net.hub.server.perform (.purge order) = some o)
    (hbound : (net.minted ++ o.minted).length < 2 ^ 64 - 1) :
    (net.observe (.purge order) o).Sound := by
  have hconnected : ∀ id ∈ historicallyActive net.hub.server.mHistory,
      id ∈ net.hub.server.connected := by
    intro id hactive
    obtain ⟨hjoined, hstays⟩ := h.minting.of_active hactive
    have hstanding := h.standing id
    have hphase := hstanding.logged.join_iff.mp hjoined
    cases hlink : (net.spokes id).link with
    | apart =>
        rcases (hstanding.apart hlink).2.2 with hcase | hcase <;> rw [hcase] at hphase <;>
          cases hphase
    | down =>
        have hid : id ≠ 0 := by
          rintro rfl
          rw [h.zero] at hlink
          cases hlink
        exact absurd ((hstanding.logged.leave_iff hid).mpr ⟨hphase, hlink⟩) hstays
    | up fd =>
        obtain ⟨client, hclient⟩ := Finmap.mem_iff.mp (hstanding.channel fd hlink).1
        have hremembered := hstanding.remembered fd client hlink hclient
        rw [hphase] at hremembered
        rw [TopologyServer.connected, mem_image]
        exact ⟨fd, client, hclient, hremembered⟩
  obtain ⟨hminted, haccepted⟩ : o.minted = [] ∧ o.accepted = [] := by
    simp only [TopologyServer.perform] at hop
    split at hop
    · rename_i horder
      obtain rfl := Option.some.inj hop
      have hnone : (order.filter fun id => id ∉ net.hub.server.connected) = [] := by
        refine List.filter_eq_nil_iff.mpr fun id hmem => ?_
        simpa using hconnected id (horder.2 ▸ List.mem_toFinset.mpr hmem)
      refine ⟨?_, rfl⟩
      simp only [purgeDisconnected, hnone]
      rfl
    · cases hop
  have hhub := h.minting.perform hop haccepted trivial hbound
  refine ⟨hhub, fun id => ?_, fun id₁ id₂ fd => ?_, ?_⟩
  · exact (h.standing id).spectate hop (fun _ _ hconcerns => hconcerns) hhub.increasing
      (by simp [hminted])
      (by simp [hminted])
  · simp only [observe, Spoke.transmit_link]
    exact h.distinct id₁ id₂ fd
  · simp only [observe, Spoke.transmit_link]
    exact h.zero

/-- **One event.** -/
theorem Sound.step (h : net.Sound) {event : NetEvent} (hstep : net.step event = some net')
    (hbound : net'.minted.length < 2 ^ 64 - 1) : net'.Sound := by
  cases step_happens hstep with
  | connects hid happart hop => exact h.connect hid happart hop hbound
  | @introduces id pubs subs hphase hlink =>
      exact h.update rfl ((h.standing id).introduce h.minting hlink hphase pubs subs)
  | @requests id op topic mime hphase hlink =>
      exact h.update rfl ((h.standing id).request hphase op topic mime)
  | handles hup hnext hop => exact h.handle hup hnext hop hbound
  | @delivers id fd msg rest hup hnext => exact h.update rfl ((h.standing id).deliver hup hnext)
  | hangsUp hup hphase hop => exact h.hangUp hup hphase hop hbound
  | purges hop => exact h.purge hop hbound

/-- The hub only ever mints more. -/
theorem length_minted_le {event : NetEvent} (hstep : net.step event = some net') :
    net.minted.length ≤ net'.minted.length := by
  cases step_happens hstep <;> simp [observe, update]

/-- Who is present, from the point of view of an observer that has taken in all that was sent to
it. -/
theorem Sound.present_iff (h : net.Sound) {fd : Fd} (hup : (net.spokes id).link = .up fd)
    (hquiet : (net.spokes id).fromHub = []) (id' : UInt64) :
    id' ∈ (net.spokes id).manager.mNodes ↔ net.Present id' := by
  obtain ⟨hopen, hsent⟩ := (h.standing id).channel fd hup
  obtain ⟨client, hclient⟩ := Finmap.mem_iff.mp hopen
  rw [hquiet, List.append_nil] at hsent
  have hlogged := (h.standing id').logged
  rw [(h.standing id).observes.mem_mNodes, hsent, h.minting.present_iff hclient hlogged.order,
    hlogged.join_iff, Present]
  refine and_congr_right fun hphase => ?_
  have hid : id' ≠ 0 := by
    rintro rfl
    rcases ((h.standing 0).apart h.zero).2.2 with hcase | hcase <;> rw [hcase] at hphase <;>
      cases hphase
  rw [hlogged.leave_iff hid]
  cases hlink : (net.spokes id').link with
  | apart =>
      rcases ((h.standing id').apart hlink).2.2 with hcase | hcase <;> rw [hcase] at hphase <;>
        cases hphase
  | up fd' => simp
  | down => simp [hphase]

/-- A connected observer is informed: it was told of nobody twice, and lists who is present once
nothing is on its way to it. -/
theorem Sound.informed (h : net.Sound) {fd : Fd} (hup : (net.spokes id).link = .up fd) :
    net.Informed id := by
  obtain ⟨hopen, hsent⟩ := (h.standing id).channel fd hup
  obtain ⟨client, hclient⟩ := Finmap.mem_iff.mp hopen
  have hobserves := (h.standing id).observes
  have honce : ∀ id',
      (net.spokes id).received.countP (TopologyMessage.JoinOf id') ≤ 1 := by
    intro id'
    calc (net.spokes id).received.countP (TopologyMessage.JoinOf id')
        ≤ (net.hub.sent fd).countP (TopologyMessage.JoinOf id') := by
          rw [← hsent, List.countP_append]
          exact Nat.le_add_right _ _
      _ ≤ net.minted.countP (TopologyMessage.JoinOf id') :=
          h.minting.countP_sent_le hclient _
      _ ≤ 1 := (h.standing id').logged.join_once
  exact ⟨fun id' => le_trans (hobserves.joins id') (honce id'),
    fun id' => le_trans (Nat.le_of_add_right_le (hobserves.leaves id')) (honce id'),
    hobserves.after, fun hquiet => h.present_iff hup hquiet⟩

/-- **Membership agreement.**  In every state that the hub and its nodes reach
before the hub has minted `2 ^ 64 - 1` messages, every connected observer has
been told of each node at most once that it joined and at most once, later, that
it left; and when nothing is on its way to it, it lists exactly the nodes whose
JOIN the hub has handled and which have not disconnected. -/
theorem membership_agreement {name address : UInt64 → String} {handlers : UInt64 → Handlers}
    {events : List NetEvent} (hrun : exec step (start name address handlers) events = some net)
    (hbound : net.minted.length < 2 ^ 64 - 1) {observer : UInt64} {fd : Fd}
    (hconnected : (net.spokes observer).link = .up fd) : net.Informed observer := by
  have hsound : net.minted.length < 2 ^ 64 - 1 → net.Sound := by
    refine exec_preserves (I := fun net => net.minted.length < 2 ^ 64 - 1 → net.Sound) ?_ ?_ hrun
    · intro net event net' h hstep hbound
      exact (h (lt_of_le_of_lt (length_minted_le hstep) hbound)).step hstep hbound
    · exact fun _ => start_sound name address handlers
  exact (hsound hbound).informed hconnected

/-- Three nodes join while the purge runs; node 3 leaves, and then node 2.  Node
2 has re-sent the JOIN of node 1, and node 1 has heard everything. -/
def clientEntersAndLeaves : List NetEvent :=
  [.connect 1 5, .introduce 1 [] [], .handle 1 41, .connect 2 6, .deliver 2, .introduce 2 [] [],
    .handle 2 42, .handle 2 43, .introduce 3 [] [], .connect 3 7, .handle 3 44, .purge [1, 2, 3],
    .hangUp 3, .hangUp 2, .deliver 1, .deliver 1, .deliver 1, .deliver 1, .deliver 1]

/-- The state after these events. -/
def clientsLeft : Option Net :=
  exec step (start (fun _ => "node") (fun _ => "") fun _ => {}) clientEntersAndLeaves

/-- Node 1 has heard of the others, each of which has joined once and left once. -/
theorem membership_agreement_clientEntersAndLeaves :
    ∃ net, clientsLeft = some net ∧ net.Informed 1 := by
  have hrun : clientsLeft.isSome := by decide +kernel
  have hreached : ∀ net ∈ clientsLeft,
      net.minted.length < 2 ^ 64 - 1 ∧ (net.spokes 1).link = .up 5 := by
    decide +kernel
  obtain ⟨net, hnet⟩ := Option.isSome_iff_exists.mp hrun
  obtain ⟨hbound, hconnected⟩ := hreached net hnet
  exact ⟨net, hnet, membership_agreement hnet hbound hconnected⟩

end Net

end IpcPubsub
