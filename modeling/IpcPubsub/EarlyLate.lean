import IpcPubsub.Delivery

/-!
# Early and late clients

A client that has been connected for long has applied everything it was sent; a
client that connects now applies the pruned history.  Both should see the same
topology, since pruning is meant to remove what has no effect.

It does so for every LEAVE but that of node 1.  The second loop of
`PruneRemoved` counts the comparison `node_id() > 0`, so the first LEAVE of node
1 takes the topics of every node out of the history, while the clients that were
sent them keep them.  `early_and_late_agree` has the exact condition: whenever
the LEAVE of node 1 is recorded, no client stays connected or no node that stays
has topics.
-/

namespace IpcPubsub

open FiniteMap GuardedRuns CursorLog

namespace TopologyServer

/-- If the call records the LEAVE of node 1 while a client stays connected, the
nodes it does not remove have no topics. -/
def SparesTopics (s : TopologyServer) (op : HubOp) : Prop :=
  (∃ msg ∈ s.incoming op, msg.LeaveOf 1) →
    ∀ fd client, (s.staying op).lookup fd = some client →
    ∀ id node, (replay s.mHistory).lookup id = some node →
      (∀ msg ∈ s.incoming op, ¬ msg.LeaveOf id) →
      node.publications = ∅ ∧ node.subscriptions = ∅

variable {s u : TopologyServer} {op : HubOp} {minted accepted : List TopologyMessage}
  {failed : List Assertion}

/-- A call that records a LEAVE records nothing else: a hang-up and the purge mint only LEAVEs,
and a packet is one message. -/
theorem Updates.leave_only (h : Updates s op u minted accepted failed) {id : UInt64}
    (hleave : ∃ msg ∈ minted ++ accepted, msg.LeaveOf id) :
    ∀ msg ∈ minted ++ accepted, ∃ id', msg.LeaveOf id' := by
  obtain ⟨leave, hmem, hid⟩ := hleave
  have hone : ∀ {only : TopologyMessage}, leave ∈ [only] →
      ∀ msg ∈ [only], ∃ id', msg.LeaveOf id' := by
    intro only hleave msg hmsg
    obtain rfl := List.mem_singleton.mp hleave
    obtain rfl := List.mem_singleton.mp hmsg
    exact ⟨id, hid⟩
  cases h with
  | redundant _ _ _ _ => cases hmem
  | held _ _ _ _ => cases hmem
  | novel _ _ _ _ => exact hone hmem
  | newest _ _ _ _ => exact hone hmem
  | disconnect _ => exact hone hmem
  | purge _ _ =>
      intro msg hmsg
      rw [List.append_nil] at hmsg
      obtain ⟨id', _, hid'⟩ := mem_mintLeaves _ _ hmsg
      exact ⟨id', hid'⟩

/-- A packet without a node is ignored, so node 0 never joins. -/
theorem Updates.not_joinOf_zero (h : Updates s op u minted accepted failed) :
    ∀ msg ∈ minted ++ accepted, ¬ msg.JoinOf 0 := by
  have hleave : ∀ {msg : TopologyMessage} {id : UInt64}, msg.LeaveOf id → ¬ msg.JoinOf 0 := by
    intro msg id hleave hjoin
    cases (MessageOp.Reports.unique hleave hjoin).1
  intro msg hmem
  cases h with
  | redundant _ _ _ _ => cases hmem
  | held _ _ _ _ => cases hmem
  | novel _ hid _ _ =>
      obtain rfl := List.mem_singleton.mp hmem
      exact fun hjoin => hid hjoin.nodeId
  | newest _ hid _ _ =>
      obtain rfl := List.mem_singleton.mp hmem
      exact fun hjoin => hid hjoin.nodeId
  | disconnect _ =>
      obtain rfl := List.mem_singleton.mp hmem
      exact hleave (leaveMessage_leaveOf _)
  | purge _ _ =>
      rw [List.append_nil] at hmem
      obtain ⟨id, _, hid⟩ := mem_mintLeaves _ _ hmem
      exact hleave hid

/-! ## Pruning against replay -/

section Replay

variable {id : UInt64} {history incoming : List TopologyMessage}

/-- The pruned history, node by node: what pruning leaves of the old entry, and
the new messages it keeps. -/
theorem entryAfter_pruneRemoved_append :
    entryAfter id none (pruneRemoved (history ++ incoming)) =
      entryAfter id
        (if id ∈ leftNodes (history ++ incoming) then none
          else if 0 < id ∧ 1 ∈ leftNodes (history ++ incoming) then
            (entryAfter id none history).map Node.clearTopics
          else entryAfter id none history)
        (incoming.filter (keeps (leftNodes (history ++ incoming)))) := by
  rw [pruneRemoved, List.filter_append, entryAfter_append, entryAfter_filter_keeps]

/-- A pruned history in which node 1 has left has no topics. -/
theorem clearTopics_of_pruned (hpruned : pruneRemoved history = history)
    (hone : 1 ∈ leftNodes history) (hid : 0 < id) {node : Node}
    (hnode : entryAfter id none history = some node) : node.clearTopics = node := by
  have hkeeps := entryAfter_filter_keeps id (leftNodes history) history
  rw [← pruneRemoved, hpruned, hnode] at hkeeps
  split at hkeeps
  · cases hkeeps
  · rw [if_pos ⟨hid, hone⟩] at hkeeps
    exact (Option.some.inj hkeeps).symm

/-- **A client that was sent the new messages agrees with the pruned history**,
unless the LEAVE of node 1 hides topics. -/
theorem entryAfter_agree (hpruned : pruneRemoved history = history)
    (hspares : 1 ∈ leftNodes incoming → id ∉ leftNodes incoming →
      ∀ node, entryAfter id none history = some node → node.clearTopics = node) :
    entryAfter id (entryAfter id none history)
        (incoming.filter (keeps (leftNodes (history ++ incoming)))) =
      entryAfter id none (pruneRemoved (history ++ incoming)) := by
  rw [entryAfter_pruneRemoved_append]
  rw [leftNodes_append]
  by_cases hleft : id ∈ leftNodes history ∪ leftNodes incoming
  · rw [if_pos hleft]
    rcases Finset.mem_union.mp hleft with hold | hnew
    · -- the node was gone before, and stays so
      have hnone : entryAfter id none history = none := by
        have hkeeps := entryAfter_filter_keeps id (leftNodes history) history
        rwa [← pruneRemoved, hpruned, if_pos hold] at hkeeps
      rw [hnone]
    · -- its LEAVE is among the new messages
      obtain ⟨leave, hmem, hleave⟩ := mem_leftNodes.mp hnew
      exact entryAfter_eq_of_leave (List.mem_filter.mpr ⟨hmem, keeps_leave hleave⟩) hleave _ _
  · rw [if_neg hleft]
    by_cases hone : 0 < id ∧ 1 ∈ leftNodes history ∪ leftNodes incoming
    · rw [if_pos hone]
      congr 1
      cases hentry : entryAfter id none history with
      | none => rfl
      | some node =>
          have hclear : node.clearTopics = node := by
            rcases Finset.mem_union.mp hone.2 with hold | hnew
            · exact clearTopics_of_pruned hpruned hold hone.1 hentry
            · exact hspares hnew (fun h => hleft (Finset.mem_union_right _ h)) node hentry
          rw [Option.map_some, hclear]
    · rw [if_neg hone]

/-- Conversely the topics of a node that stays are hidden.  Once node 1 has left, the digest has
none of them any more, so that a late client can only agree with an early one that knew none
either. -/
theorem clearTopics_of_agree (hpruned : pruneRemoved history = history)
    (hid : 0 < id) (hone : 1 ∈ leftNodes incoming) (hleft : id ∉ leftNodes incoming)
    (hleaves : ∀ msg ∈ incoming, ∃ id', msg.LeaveOf id') {node : Node}
    (hnode : entryAfter id none history = some node)
    (hagree : entryAfter id (entryAfter id none history)
        (incoming.filter (keeps (leftNodes (history ++ incoming)))) =
      entryAfter id none (pruneRemoved (history ++ incoming))) :
    node.clearTopics = node := by
  have hother : ∀ msg ∈ incoming.filter (keeps (leftNodes (history ++ incoming))),
      msg.nodeId ≠ id := by
    intro msg hmem heq
    have hincoming := (List.mem_filter.mp hmem).1
    obtain ⟨id', hid'⟩ := hleaves msg hincoming
    obtain rfl : id' = id := hid'.nodeId.symm.trans heq
    exact hleft (mem_leftNodes.mpr ⟨msg, hincoming, hid'⟩)
  have hold : id ∉ leftNodes history := by
    intro hmem
    have hkeeps := entryAfter_filter_keeps id (leftNodes history) history
    rw [← pruneRemoved, hpruned, if_pos hmem, hnode] at hkeeps
    cases hkeeps
  rw [entryAfter_pruneRemoved_append, entryAfter_of_ne hother, entryAfter_of_ne hother,
    leftNodes_append, if_neg (by simp [hold, hleft]), if_pos ⟨hid, by simp [hone]⟩, hnode] at hagree
  exact (Option.some.inj hagree).symm

end Replay

end TopologyServer

namespace Hub

open TopologyServer

/-- What every open connection has been sent stands for the topology of the
history. -/
def Agrees (hub : Hub) : Prop :=
  ∀ fd ∈ hub.server.mClients.keys, replay (hub.sent fd) = replay hub.server.mHistory

instance : DecidablePred Agrees := fun hub =>
  inferInstanceAs (Decidable (∀ fd ∈ hub.server.mClients.keys, _))

/-- Clients are up to date with a pruned history and agree with it. -/
structure Agreeing (hub : Hub) : Prop where
  current : hub.Current
  pruned : pruneRemoved hub.server.mHistory = hub.server.mHistory
  agrees : ∀ {fd : Fd} {client : Client}, hub.server.mClients.lookup fd = some client →
    ∀ id, entryAfter id none (hub.sent fd) = entryAfter id none hub.server.mHistory
  noZero : ∀ msg ∈ hub.server.mHistory, ¬ msg.JoinOf 0

/-- No client is connected, and so all of them agree. -/
theorem start_agreeing : (start []).Agreeing where
  current := start_current []
  pruned := rfl
  agrees := fun h => by simp [start, create] at h
  noZero := fun msg hmem => by cases hmem

variable {hub hub' : Hub} {op : HubOp}

/-- Two logs that come to the same for every node come to the same topology. -/
theorem Agreeing.allAgree (h : hub.Agreeing) : hub.Agrees := by
  intro fd hfd
  obtain ⟨client, hclient⟩ := Finmap.mem_iff.mp (Finmap.mem_keys.mp hfd)
  exact replay_eq_iff.mpr (h.agrees hclient)

/-- `SparesTopics` for one node, in terms of the history. -/
theorem spares_iff {fd : Fd} {client : Client} {s : TopologyServer}
    (hclient : (s.staying op).lookup fd = some client) :
    s.SparesTopics op ↔ ∀ id, 1 ∈ leftNodes (s.incoming op) → id ∉ leftNodes (s.incoming op) →
      ∀ node, entryAfter id none s.mHistory = some node → node.clearTopics = node := by
  simp only [SparesTopics, mem_leftNodes, lookup_replay, Node.clearTopics_eq_self_iff]
  constructor
  · intro h id hone hleft node hnode
    exact h hone fd client hclient id node hnode fun msg hmem hleave => hleft ⟨msg, hmem, hleave⟩
  · intro h hone _ _ _ id node hnode hleft
    exact h id hone (fun ⟨msg, hmem, hleave⟩ => hleft msg hmem hleave) node hnode

/-- What a connection that stays open has been sent after an update. -/
theorem Agreeing.sent_update (h : hub.Agreeing) (hreaches : hub.server.Reaches op)
    (hnovel : hub.server.Novel op) {u : TopologyServer}
    {minted accepted : List TopologyMessage} {failed : List Assertion}
    (hupdate : Updates hub.server op u minted accepted failed) {fd : Fd} {client : Client}
    (hclient : (hub.server.staying op).lookup fd = some client) (id : UInt64) :
    entryAfter id none (hub.sent fd ++
        (catchUp TopologyMessage.seq client.seq (pruneRemoved u.mHistory)).1) =
      entryAfter id (entryAfter id none hub.server.mHistory)
        ((hub.server.incoming op).filter
          (keeps (leftNodes (hub.server.mHistory ++ hub.server.incoming op)))) := by
  rw [h.current.sent_settled hreaches hupdate hclient, hnovel.fresh_eq, entryAfter_append,
    h.agrees (lookup_of_staying hclient)]

/-- **A call that spares the topics keeps early and late clients agreed.** -/
theorem Agreeing.step (h : hub.Agreeing) (hreaches : hub.server.Reaches op)
    (hnovel : hub.server.Novel op) (hspares : hub.server.SparesTopics op)
    (hstep : hub.step op = some hub') : hub'.Agreeing := by
  have hcurrent := h.current.step hreaches hstep
  obtain ⟨o, hop, rfl⟩ := step_eq_some.mp hstep
  rcases perform_cases hop with ⟨fd, rfl, hfd, rfl⟩ | ⟨fd, msg, random, rfl, _, rfl⟩ |
    ⟨u, failed, hupdate, hserver, hsent, _⟩
  · refine ⟨hcurrent, h.pruned, ?_, h.noZero⟩
    intro fd' client' hlookup id
    by_cases hne : fd' = fd
    · simp [observe, onConnect, hne]
    · simp only [observe, onConnect, Finmap.lookup_insert_of_ne _ hne] at hlookup
      simpa [observe, onConnect, hne, Ne.symm hne] using h.agrees hlookup id
  · refine ⟨hcurrent, h.pruned, ?_, h.noZero⟩
    intro fd' client' hlookup id
    simpa [observe] using h.agrees hlookup id
  · have hhistory : u.mHistory = hub.server.mHistory ++ hub.server.incoming op := by
      rw [hupdate.history, hupdate.incoming]
    have hnow : (hub.observe op o).server.mHistory =
        pruneRemoved (hub.server.mHistory ++ hub.server.incoming op) := by
      simp [observe, hserver, hhistory]
    refine ⟨hcurrent, by rw [hnow, pruneRemoved_pruneRemoved], ?_, ?_⟩
    · intro fd client' hlookup id
      have hlookup' : (settle u).server.mClients.lookup fd = some client' := hserver ▸ hlookup
      obtain ⟨client, hclient, _, _⟩ := hupdate.lookup_settled hlookup'
      have hrecord := (observe_staying hupdate hserver hsent hclient).2
      rw [hrecord, h.sent_update hreaches hnovel hupdate hclient, hnow]
      exact entryAfter_agree h.pruned ((spares_iff hclient).mp hspares id)
    · intro msg hmem
      rw [hnow] at hmem
      rcases List.mem_append.mp (mem_pruneRemoved.mp hmem).1 with hold | hnew
      · exact h.noZero msg hold
      · rw [← hupdate.incoming] at hnew
        exact hupdate.not_joinOf_zero msg hnew

/-- **A call that hides topics makes early and late clients differ:** the early ones were told of
the topics, and pruning takes them out of what the late ones are sent. -/
theorem Agreeing.not_agrees (h : hub.Agreeing) (hreaches : hub.server.Reaches op)
    (hnovel : hub.server.Novel op) (hspares : ¬ hub.server.SparesTopics op)
    (hstep : hub.step op = some hub') : ¬ hub'.Agrees := by
  intro hagrees
  obtain ⟨o, hop, rfl⟩ := step_eq_some.mp hstep
  rcases perform_cases hop with ⟨fd, rfl, hfd, rfl⟩ | ⟨fd, msg, random, rfl, hid, rfl⟩ |
    ⟨u, failed, hupdate, hserver, hsent, _⟩
  · exact hspares fun ⟨msg, hmem, _⟩ => by cases hmem
  · refine hspares fun ⟨msg', hmem, _⟩ => ?_
    rw [← perform_incoming hop] at hmem
    cases hmem
  · apply hspares
    intro hone fd client hclient
    suffices hsuff : hub.server.SparesTopics op from hsuff hone fd client hclient
    refine (spares_iff hclient).mpr fun id hone hleft node hnode => ?_
    obtain ⟨hmem, hrecord⟩ := observe_staying hupdate hserver hsent hclient
    have hnow : (hub.observe op o).server.mHistory =
        pruneRemoved (hub.server.mHistory ++ hub.server.incoming op) := by
      simp [observe, hserver, hupdate.history, hupdate.incoming]
    have hagree := replay_eq_iff.mp (hagrees fd hmem) id
    rw [hrecord, hnow, h.sent_update hreaches hnovel hupdate hclient] at hagree
    have hpos : 0 < id := by
      refine WordOrder.word_pos_iff.mpr ?_
      rintro rfl
      rw [entryAfter_none h.noZero] at hnode
      cases hnode
    refine clearTopics_of_agree h.pruned hpos hone hleft ?_ hnode hagree
    rw [mem_leftNodes, ← hupdate.incoming] at hone
    rw [← hupdate.incoming]
    exact hupdate.leave_only hone

/-- **Early and late clients.**  In every run of a hub that starts empty they
agree at every state if every call reaches the open connections with messages
new to the history and spares the topics; of the calls that do the former, the
latter is exactly what agreement needs. -/
theorem early_and_late_agree {ops : List HubOp}
    (hrun : exec Hub.step (start []) ops = some hub) :
    (Along Hub.step (fun hub op => (hub.server.Reaches op ∧ hub.server.Novel op) ∧
        hub.server.SparesTopics op) (start []) ops →
      Throughout Hub.step Agrees (start []) ops) ∧
    (Along Hub.step (fun hub op => hub.server.Reaches op ∧ hub.server.Novel op) (start []) ops →
      Throughout Hub.step Agrees (start []) ops →
      Along Hub.step (fun hub op => hub.server.SparesTopics op) (start []) ops) := by
  have hiff : Along Hub.step (fun hub op => hub.server.Reaches op ∧ hub.server.Novel op)
        (start []) ops →
      (Throughout Hub.step Agrees (start []) ops ↔
        Along Hub.step (fun hub op => hub.server.SparesTopics op) (start []) ops) := by
    intro henv
    refine throughout_iff_along (I := Agreeing) (fun _ => Agreeing.allAgree) ?_ ?_
      start_agreeing henv hrun
    · exact fun hub op hub' h hd hspares hstep => h.step hd.1 hd.2 hspares hstep
    · exact fun hub op hub' h hd hspares hstep => h.not_agrees hd.1 hd.2 hspares hstep
  refine ⟨fun h => ?_, fun henv hagrees => (hiff henv).mp hagrees⟩
  exact (hiff (h.mono fun _ _ h => h.1)).mpr (h.mono fun _ _ h => h.2)

/-- Nodes 1 and 2 join, node 2 subscribes, and node 1 hangs up. -/
def nodeOneLeaves : List HubOp :=
  [.connect 3, .data 3 { op := .nodeChange { id := 1, op := .join, name := "one" } } 51,
    .connect 4, .data 4 { op := .nodeChange { id := 2, op := .join, name := "two" } } 52,
    .data 4 { op := .topicChange { name := "topic", nodeId := 2, op := .subscribe } } 53,
    .disconnect 3]

/-- The client of node 2 sees its subscription, a newcomer does not. -/
theorem disagree_nodeOneLeaves :
    (exec Hub.step (start []) nodeOneLeaves).isSome ∧
      ¬ Throughout Hub.step Agrees (start []) nodeOneLeaves := by
  decide +kernel

/-- The same with node 3 in the place of node 1. -/
def nodeThreeLeaves : List HubOp :=
  [.connect 3, .data 3 { op := .nodeChange { id := 3, op := .join, name := "three" } } 51,
    .connect 4, .data 4 { op := .nodeChange { id := 2, op := .join, name := "two" } } 52,
    .data 4 { op := .topicChange { name := "topic", nodeId := 2, op := .subscribe } } 53,
    .disconnect 3]

/-- Node 3 leaves, and the early and the late client list the same. -/
theorem agree_nodeThreeLeaves :
    Along Hub.step (fun hub op => hub.server.SparesTopics op) (start []) nodeThreeLeaves := by
  have hrun : (exec Hub.step (start []) nodeThreeLeaves).isSome := by decide +kernel
  have hrun' := (Option.some_get hrun).symm
  exact (early_and_late_agree hrun').2 (along_reaches hrun' (by decide +kernel))
    (by decide +kernel)

end Hub

end IpcPubsub
