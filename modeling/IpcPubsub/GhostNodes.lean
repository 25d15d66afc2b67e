import IpcPubsub.HubRuns

/-!
# Ghost nodes

The purge writes a LEAVE for every node of the history that no connection is
taken for.  From then on every listed node should be the node of some
connection.  A hang-up keeps this, since it writes the LEAVE of the node the
connection was taken for, and a connection that opens adds to what is there.

A packet can break it.  The hub takes a connection for the node its last packet
named, and a client that connects late re-sends the history it holds before it
speaks about itself.  The nodes it names on the way are listed with it, and are
left behind as soon as it names the next one.  `no_ghosts_iff` shows that there
is no other way.
-/

namespace IpcPubsub

open FiniteMap GuardedRuns

namespace TopologyServer

/-- Every node that the history lists is the node of some connection. -/
def NoGhosts (s : TopologyServer) : Prop :=
  (replay s.mHistory).keys ⊆ s.connected

instance : DecidablePred NoGhosts := fun s =>
  inferInstanceAs (Decidable ((replay s.mHistory).keys ⊆ s.connected))

/-- A packet that names another node than the last one on its connection leaves
behind no listed node, unless some other connection is taken for it. -/
def NamesOn (s : TopologyServer) : HubOp → Prop
  | .data fd msg _ =>
      ∀ client ∈ s.mClients.lookup fd, msg.nodeId ≠ 0 → client.nodeId ≠ msg.nodeId →
        client.nodeId ∈ (replay s.mHistory).keys →
          client.nodeId ∈ image Client.nodeId (s.mClients.erase fd)
  | _ => True

instance (s : TopologyServer) : DecidablePred s.NamesOn
  | .data fd msg _ => inferInstanceAs (Decidable (∀ client ∈ s.mClients.lookup fd,
      msg.nodeId ≠ 0 → client.nodeId ≠ msg.nodeId →
        client.nodeId ∈ (replay s.mHistory).keys →
          client.nodeId ∈ image Client.nodeId (s.mClients.erase fd)))
  | .connect _ => isTrue trivial
  | .disconnect _ => isTrue trivial
  | .purge _ => isTrue trivial

/-! ## The listed nodes -/

section Listed

variable {id : UInt64} {history more : List TopologyMessage}

/-- Pruning takes the nodes with a LEAVE off the list, and no others. -/
theorem mem_replay_pruneRemoved :
    id ∈ replay (pruneRemoved history) ↔ id ∈ replay history ∧ id ∉ leftNodes history := by
  rw [mem_replay, mem_replay, pruneRemoved, entryAfter_filter_keeps]
  by_cases hleft : id ∈ leftNodes history
  · simp [hleft]
  · by_cases hone : 0 < id ∧ 1 ∈ leftNodes history <;> simp [hleft, hone]

/-- A pruned history lists no node that has a LEAVE in it. -/
theorem not_mem_leftNodes (hpruned : pruneRemoved history = history) (h : id ∈ replay history) :
    id ∉ leftNodes history := by
  rw [← hpruned] at h
  exact (mem_replay_pruneRemoved.mp h).2

/-- Messages about other nodes do not matter. -/
theorem mem_replay_append_of_ne (hpruned : pruneRemoved history = history)
    (hother : ∀ msg ∈ more, msg.nodeId ≠ id) :
    id ∈ replay (pruneRemoved (history ++ more)) ↔ id ∈ replay history := by
  have hnone : id ∉ leftNodes more := by
    intro hmem
    obtain ⟨msg, hmsg, hleave⟩ := mem_leftNodes.mp hmem
    exact hother msg hmsg hleave.nodeId
  rw [mem_replay_pruneRemoved, mem_replay, entryAfter_append, entryAfter_of_ne hother,
    ← mem_replay, leftNodes_append, Finset.notMem_union]
  constructor
  · exact fun h => h.1
  · exact fun h => ⟨h, not_mem_leftNodes hpruned h, hnone⟩

/-- LEAVEs only take nodes off the list, those they are about. -/
theorem mem_replay_append_leaves (hleaves : ∀ msg ∈ more, ∀ id, ¬ msg.JoinOf id)
    (h : id ∈ replay (pruneRemoved (history ++ more))) :
    id ∈ replay history ∧ id ∉ leftNodes more := by
  rw [mem_replay_pruneRemoved, leftNodes_append, Finset.notMem_union] at h
  refine ⟨?_, h.2.2⟩
  by_contra hnot
  have hlisted := mem_replay.mp h.1
  rw [entryAfter_append, not_mem_replay.mp hnot,
    entryAfter_none fun msg hmem => hleaves msg hmem id] at hlisted
  cases hlisted

end Listed

/-! ## One call -/

section Calls

variable {s : TopologyServer} {op : HubOp} {o : Outcome}

/-- Every call leaves a pruned history pruned. -/
theorem perform_pruned (h : s.perform op = some o)
    (hpruned : pruneRemoved s.mHistory = s.mHistory) :
    pruneRemoved o.server.mHistory = o.server.mHistory := by
  rcases perform_mHistory h with ⟨_, hhistory⟩ | hhistory
  · rw [hhistory, hpruned]
  · rw [hhistory, pruneRemoved_pruneRemoved]

/-- A node is connected when some connection is recorded for it. -/
theorem mem_connected {id : UInt64} :
    id ∈ s.connected ↔ ∃ fd client, s.mClients.lookup fd = some client ∧ client.nodeId = id :=
  mem_image _ _ _

/-- A connection that stays is taken for the node that the call names on it. -/
theorem perform_naming (h : s.perform op = some o) {fd : Fd} {client : Client}
    (hlookup : (s.staying op).lookup fd = some client) :
    op.naming fd client.nodeId ∈ o.server.connected := by
  obtain ⟨client', hclient'⟩ := perform_staying h hlookup
  rcases perform_client h hclient' with ⟨rfl, _, _⟩ | ⟨client₀, hclient₀, _, hnode, _⟩
  · -- this descriptor was not free
    have hmem : fd ∈ s.mClients := Finmap.mem_iff.mpr ⟨client, hlookup⟩
    simp [perform, hmem] at h
  · obtain rfl : client₀ = client := Option.some.inj (hclient₀.symm.trans hlookup)
    exact mem_connected.mpr ⟨fd, client', hclient', hnode⟩

/-- The node of a connection after a call is the one that the call names on it; a new connection
has none, which is recorded as 0. -/
theorem of_mem_connected (h : s.perform op = some o) {id : UInt64}
    (hid : id ∈ o.server.connected) :
    (∃ fd, op = .connect fd) ∧ id = 0 ∨
      ∃ fd client, (s.staying op).lookup fd = some client ∧ op.naming fd client.nodeId = id := by
  obtain ⟨fd, client', hclient', rfl⟩ := mem_connected.mp hid
  rcases perform_client h hclient' with ⟨hop, hzero, _⟩ | ⟨client, hclient, _, hnode, _⟩
  · exact Or.inl ⟨⟨fd, hop⟩, hzero⟩
  · exact Or.inr ⟨fd, client, hclient, hnode.symm⟩

/-- Opening a connection. -/
theorem connect_noGhosts {fd : Fd} (hs : s.NoGhosts) (h : s.perform (.connect fd) = some o) :
    o.server.NoGhosts := by
  intro id hid
  have hhistory : o.server.mHistory = s.mHistory := by
    rcases perform_cases h with ⟨_, _, _, rfl⟩ | ⟨_, _, _, _, _, rfl⟩ | ⟨_, _, hupdate, _, _, _⟩
    · rfl
    · rfl
    · exact absurd rfl (hupdate.ne_connect fd)
  rw [hhistory] at hid
  obtain ⟨fd', client, hclient, rfl⟩ := mem_connected.mp (hs hid)
  exact perform_naming h hclient

/-- A hang-up takes the node of the connection with it.  Its LEAVE prunes the JOIN, and nobody
else becomes active. -/
theorem disconnect_noGhosts {fd : Fd} (hs : s.NoGhosts)
    (h : s.perform (.disconnect fd) = some o) : o.server.NoGhosts := by
  intro id hid
  rw [Finmap.mem_keys] at hid
  have hincoming : ∃ client, s.mClients.lookup fd = some client ∧
      s.incoming (.disconnect fd) = [{ leaveMessage client.nodeId with seq := s.mNextSeq }] := by
    cases hclient : s.mClients.lookup fd with
    | none => simp [perform, onDisconnect, hclient] at h
    | some client => exact ⟨client, rfl, by simp [incoming, hclient]⟩
  obtain ⟨client, hclient, hincoming⟩ := hincoming
  rcases perform_mHistory h with ⟨hnone, _⟩ | hhistory
  · rw [hnone] at hincoming
    cases hincoming
  · rw [hhistory] at hid
    have hleave : ∀ msg ∈ s.incoming (.disconnect fd), msg.LeaveOf client.nodeId := by
      intro msg hmem
      rw [hincoming] at hmem
      obtain rfl := List.mem_singleton.mp hmem
      exact leaveMessage_leaveOf client.nodeId
    have hkept := mem_replay_append_leaves (fun msg hmem id hjoin => by
      cases (MessageOp.Reports.unique hjoin (hleave msg hmem)).1) hid
    -- the node is not the one that leaves, so it has another connection
    have hother : id ≠ client.nodeId := by
      intro heq
      refine hkept.2 (mem_leftNodes.mpr ⟨_, by rw [hincoming]; exact List.mem_singleton_self _, ?_⟩)
      exact heq ▸ leaveMessage_leaveOf client.nodeId
    obtain ⟨fd', client', hclient', hnode⟩ :=
      mem_connected.mp (hs (Finmap.mem_keys.mpr hkept.1))
    have hne : fd' ≠ fd := by
      intro heq
      rw [heq, hclient] at hclient'
      obtain rfl := Option.some.inj hclient'
      exact hother hnode.symm
    have hstays : (s.staying (.disconnect fd)).lookup fd' = some client' :=
      (Finmap.lookup_erase_ne hne).trans hclient'
    exact hnode ▸ perform_naming h hstays

/-- **The purge** leaves no ghost, whatever the history was: it mints a LEAVE for every active
node that no connection is taken for. -/
theorem purge_noGhosts {order : List UInt64} (h : s.perform (.purge order) = some o) :
    o.server.NoGhosts ∧ pruneRemoved o.server.mHistory = o.server.mHistory := by
  rcases perform_cases h with ⟨_, hop, _, _⟩ | ⟨_, _, _, hop, _, _⟩ |
    ⟨u, failed, hupdate, hserver, _, _⟩
  · cases hop
  · cases hop
  · have hhistory : o.server.mHistory =
        pruneRemoved (s.mHistory ++ s.incoming (.purge order)) := by
      rw [hserver, settle_mHistory, hupdate.history, hupdate.incoming]
    constructor
    · intro id hid
      rw [Finmap.mem_keys, hhistory] at hid
      have hkept := mem_replay_append_leaves (fun msg hmem id hjoin => by
        obtain ⟨id', _, hleave⟩ := mem_mintLeaves s _ hmem
        cases (MessageOp.Reports.unique hjoin hleave).1) hid
      have hconnected : id ∈ s.connected := by
        by_contra hnot
        have horder : id ∈ order := by
          have hactive : id ∈ historicallyActive s.mHistory :=
            mem_historicallyActive.mpr (mem_replay.mp hkept.1)
          simp only [perform] at h
          split at h
          · rename_i hgood
            rw [← hgood.2] at hactive
            exact List.mem_toFinset.mp hactive
          · cases h
        have hlisted : id ∈ order.filter fun id => id ∉ s.connected :=
          List.mem_filter.mpr ⟨horder, by simpa using hnot⟩
        exact hkept.2 (mem_leftNodes.mpr ((exists_leaveOf_mintLeaves s _).mpr hlisted))
      obtain ⟨fd, client, hclient, rfl⟩ := mem_connected.mp hconnected
      exact perform_naming h hclient
    · rw [hhistory, pruneRemoved_pruneRemoved]

/-- A packet changes the listing of no node but the one it names. -/
theorem data_mem_replay {fd : Fd} {msg : TopologyMessage} {random : UInt64}
    (hpruned : pruneRemoved s.mHistory = s.mHistory)
    (h : s.perform (.data fd msg random) = some o) {id : UInt64} (hid : id ≠ msg.nodeId) :
    id ∈ replay o.server.mHistory ↔ id ∈ replay s.mHistory := by
  have hother : ∀ new ∈ s.incoming (.data fd msg random), new.nodeId ≠ id := by
    intro new hmem
    have hnode : new.nodeId = msg.nodeId := by
      cases hclient : s.mClients.lookup fd with
      | none => simp [incoming, hclient] at hmem
      | some client =>
          simp only [incoming, hclient] at hmem
          split at hmem
          · cases hmem
          · split at hmem
            · split at hmem
              · cases hmem
              · rw [List.mem_singleton.mp hmem]
                rfl
            · split at hmem
              · rw [List.mem_singleton.mp hmem]
              · cases hmem
    exact fun heq => hid (heq.symm.trans hnode)
  rcases perform_mHistory h with ⟨_, hhistory⟩ | hhistory
  · rw [hhistory]
  · rw [hhistory, mem_replay_append_of_ne hpruned hother]

/-- The nodes of the connections after a packet: the one it names, and those of the other
connections. -/
theorem data_mem_connected {fd : Fd} {msg : TopologyMessage} {random : UInt64}
    (hnode : msg.nodeId ≠ 0) (h : s.perform (.data fd msg random) = some o) {id : UInt64} :
    id ∈ o.server.connected ↔
      id = msg.nodeId ∨ id ∈ image Client.nodeId (s.mClients.erase fd) := by
  rw [mem_image]
  constructor
  · intro hid
    rcases of_mem_connected h hid with ⟨⟨_, hop⟩, _⟩ | ⟨fd', client, hclient, rfl⟩
    · cases hop
    · by_cases hfd : fd' = fd
      · simp [HubOp.naming, hfd, hnode]
      · refine Or.inr ⟨fd', client, (Finmap.lookup_erase_ne hfd).trans hclient, ?_⟩
        simp [HubOp.naming, Ne.symm hfd]
  · intro hid
    rcases hid with rfl | ⟨fd', client, hclient, rfl⟩
    · obtain ⟨client, hclient⟩ : ∃ client, s.mClients.lookup fd = some client := by
        cases hclient : s.mClients.lookup fd with
        | none => simp [perform, onMessage, hnode, hclient] at h
        | some client => exact ⟨client, rfl⟩
      have hnamed := perform_naming h hclient
      simpa [HubOp.naming, hnode] using hnamed
    · have hfd : fd' ≠ fd := by
        rintro rfl
        simp at hclient
      rw [Finmap.lookup_erase_ne hfd] at hclient
      have hnamed := perform_naming h hclient
      simpa [HubOp.naming, Ne.symm hfd] using hnamed

/-- **A packet** leaves a ghost exactly when the connection drops a listed node
that no other connection is taken for. -/
theorem data_noGhosts_iff {fd : Fd} {msg : TopologyMessage} {random : UInt64} (hs : s.NoGhosts)
    (hpruned : pruneRemoved s.mHistory = s.mHistory)
    (h : s.perform (.data fd msg random) = some o) :
    o.server.NoGhosts ↔ s.NamesOn (.data fd msg random) := by
  by_cases hnode : msg.nodeId = 0
  · have hsame : o = { server := s } := by
      simpa [perform, onMessage, hnode] using h.symm
    rw [hsame]
    exact iff_of_true hs fun client _ hne => absurd hnode hne
  constructor
  · intro hafter client hclient _ hne hlisted
    rw [Finmap.mem_keys, ← data_mem_replay hpruned h hne, ← Finmap.mem_keys] at hlisted
    exact ((data_mem_connected hnode h).mp (hafter hlisted)).resolve_left hne
  · intro hon id hid
    rw [data_mem_connected hnode h]
    by_cases hne : id = msg.nodeId
    · exact Or.inl hne
    · refine Or.inr ?_
      rw [Finmap.mem_keys, data_mem_replay hpruned h hne, ← Finmap.mem_keys] at hid
      obtain ⟨fd', client, hclient, rfl⟩ := mem_connected.mp (hs hid)
      by_cases hfd : fd' = fd
      · subst hfd
        exact hon client hclient hnode hne hid
      · exact (mem_image _ _ _).mpr
          ⟨fd', client, (Finmap.lookup_erase_ne hfd).trans hclient, rfl⟩

end Calls

/-! ## Runs -/

/-- **No ghosts after the purge.**  In a run in which the purge has happened,
every listed node is the node of a connection from then on exactly when no
packet leaves a listed node behind. -/
theorem no_ghosts_iff (digest : List TopologyMessage) (before : List HubOp) (order : List UInt64)
    (after : List HubOp) {s s' : TopologyServer}
    (hpurged : exec step (create digest) (before ++ [.purge order]) = some s)
    (hafter : exec step s after = some s') :
    Throughout step NoGhosts s after ↔ Along step NamesOn s after := by
  have hstart : s.NoGhosts ∧ pruneRemoved s.mHistory = s.mHistory := by
    rw [exec_append, Option.bind_eq_some_iff] at hpurged
    obtain ⟨s₀, _, hpurge⟩ := hpurged
    rw [exec_cons, Option.bind_eq_some_iff] at hpurge
    obtain ⟨s₁, hstep, hlast⟩ := hpurge
    obtain rfl : s₁ = s := by simpa using hlast
    obtain ⟨o, hperform, rfl⟩ := step_eq_some.mp hstep
    exact purge_noGhosts hperform
  refine throughout_iff_along (D := fun _ _ => True)
    (I := fun s => s.NoGhosts ∧ pruneRemoved s.mHistory = s.mHistory) (fun s h => h.1) ?_ ?_
    hstart (along_true _ _) hafter
  · intro s op s' h _ hon hstep
    obtain ⟨o, hperform, rfl⟩ := step_eq_some.mp hstep
    refine ⟨?_, perform_pruned hperform h.2⟩
    cases op with
    | connect fd => exact connect_noGhosts h.1 hperform
    | data fd msg random => exact (data_noGhosts_iff h.1 h.2 hperform).mpr hon
    | disconnect fd => exact disconnect_noGhosts h.1 hperform
    | purge order => exact (purge_noGhosts hperform).1
  · intro s op s' h _ hon hstep hnone
    obtain ⟨o, hperform, rfl⟩ := step_eq_some.mp hstep
    cases op with
    | data fd msg random => exact hon ((data_noGhosts_iff h.1 h.2 hperform).mp hnone)
    | _ => exact hon trivial

/-- The introduction of node 7, which connects late and re-sends the JOIN of
node 5, long gone. -/
def lateIntroduction : List HubOp :=
  [.connect 3,
    .data 3 { seq := 4, uid := 31, op := .nodeChange { id := 5, op := .join, name := "five" } } 0,
    .data 3 { op := .nodeChange { id := 7, op := .join, name := "seven" } } 77]

/-- Node 5 is listed and is the node of no connection. -/
theorem ghost_lateIntroduction :
    ∃ s, exec step (create []) [.purge []] = some s ∧
      (exec step s lateIntroduction).isSome ∧ ¬ Throughout step NoGhosts s lateIntroduction :=
  ⟨{}, by decide +kernel, by decide +kernel, by decide +kernel⟩

/-- The digest of a hub that takes over node 5, which does not come back. -/
def fiveTakenOver : List TopologyMessage :=
  [{ seq := 4, uid := 31, op := .nodeChange { id := 5, op := .join, name := "five" } }]

/-- The introduction of node 7, which has nothing to re-send. -/
def freshIntroduction : List HubOp :=
  [.connect 3, .data 3 { op := .nodeChange { id := 7, op := .join, name := "seven" } } 77]

/-- The purge removes node 5, and node 7 is the node of its connection. -/
theorem no_ghosts_iff_freshIntroduction :
    ∃ s, exec step (create fiveTakenOver) [.purge [5]] = some s ∧
      Throughout step NoGhosts s freshIntroduction := by
  obtain ⟨s, hs⟩ := Option.isSome_iff_exists.mp
    (show (exec step (create fiveTakenOver) [.purge [5]]).isSome by decide +kernel)
  have hguarded : ∀ s ∈ exec step (create fiveTakenOver) [.purge [5]],
      (exec step s freshIntroduction).isSome ∧ Along step NamesOn s freshIntroduction := by
    decide +kernel
  obtain ⟨hsome, halong⟩ := hguarded s hs
  obtain ⟨s', hs'⟩ := Option.isSome_iff_exists.mp hsome
  exact ⟨s, hs, (no_ghosts_iff fiveTakenOver [] [5] freshIntroduction hs hs').mpr halong⟩

end TopologyServer

end IpcPubsub
