import IpcPubsub.HubRuns

/-!
# A connected node is visible

From the moment the hub has handled the JOIN of a node until the node's
connection closes, the node should be in the topology the history stands for.

`PruneRemoved` takes any LEAVE in the history as final, whatever comes after it,
unlike `PurgeDisconnected` and `ApplyUpdate`, which go by the order.  A node that
comes back on the same hub stays invisible: its JOIN is pruned as soon as it is
minted.  `visible_iff` has the exact condition: no LEAVE of the node is in the
history when the JOIN is handled, and no later call records one.
-/

namespace IpcPubsub

open FiniteMap GuardedRuns

namespace TopologyServer

/-- The node is in the topology the history stands for. -/
def Visible (id : UInt64) (s : TopologyServer) : Prop :=
  id ∈ replay s.mHistory

instance (id : UInt64) : DecidablePred (Visible id) := fun s =>
  inferInstanceAs (Decidable (id ∈ replay s.mHistory))

/-- The connection stays open, and what it sends is about its node and no
LEAVE. -/
def Speaks (fd : Fd) (id : UInt64) : HubOp → Prop
  | .data fd' msg _ => fd' = fd → msg.nodeId = id ∧ ¬ msg.LeaveOf id
  | .disconnect fd' => fd' ≠ fd
  | _ => True

instance (fd : Fd) (id : UInt64) : DecidablePred (Speaks fd id)
  | .data _ _ _ => inferInstanceAs (Decidable (_ → _ ∧ ¬ _))
  | .disconnect _ => inferInstanceAs (Decidable (_ ≠ _))
  | .connect _ => isTrue trivial
  | .purge _ => isTrue trivial

/-- The call records no LEAVE of the node: a received one is old and not beyond
the history, and no connection closes that is taken for the node. -/
def RecordsNoLeave (id : UInt64) (s : TopologyServer) : HubOp → Prop
  | .data _ msg _ => msg.LeaveOf id → msg.seq ≠ 0 ∧ s.hit msg ≠ none
  | .disconnect fd => ∀ client ∈ s.mClients.lookup fd, client.nodeId ≠ id
  | _ => True

instance (id : UInt64) (s : TopologyServer) : DecidablePred (RecordsNoLeave id s)
  | .data _ _ _ => inferInstanceAs (Decidable (_ → _ ∧ _ ≠ _))
  | .disconnect fd => inferInstanceAs (Decidable (∀ client ∈ s.mClients.lookup fd, _))
  | .connect _ => isTrue trivial
  | .purge _ => isTrue trivial

/-- What clients have been credited with went into the history: LEAVEs stay
there, JOINs until their node has a LEAVE. -/
def Recorded (s : TopologyServer) : Prop :=
  ∀ fd client, s.mClients.lookup fd = some client → ∀ msg ∈ client.history, ∀ id,
    (msg.LeaveOf id → id ∈ leftNodes s.mHistory) ∧
      (msg.JoinOf id → id ∈ leftNodes s.mHistory ∨ ∃ join ∈ s.mHistory, join.JoinOf id)

variable {s s' : TopologyServer} {op : HubOp} {o : Outcome} {fd : Fd} {id : UInt64}

/-- No client is connected yet, and none has been credited with anything. -/
theorem create_recorded (digest : List TopologyMessage) : (create digest).Recorded := by
  intro fd client hclient
  simp [create] at hclient

/-- A call credits a client with what it records, and what was credited before stays recorded:
no LEAVE is pruned, and a JOIN only when there is a LEAVE. -/
theorem Recorded.step (h : s.Recorded) (hop : s.perform op = some o) : o.server.Recorded := by
  intro fd client' hclient' msg hmsg id
  have hleft := perform_leftNodes hop
  rcases perform_client hop hclient' with ⟨_, _, hnil⟩ | ⟨client, hclient, _, _, hcredit⟩
  · rw [hnil] at hmsg
    cases hmsg
  · have hback := h fd client (lookup_of_staying hclient) msg
    constructor
    · intro hleave
      rw [hleft]
      rcases hcredit msg hmsg with hold | hnew
      · exact Finset.mem_union_left _ ((hback hold id).1 hleave)
      · exact Finset.mem_union_right _ (mem_leftNodes.mpr ⟨msg, hnew, hleave⟩)
    · intro hjoin
      by_cases hgone : id ∈ leftNodes o.server.mHistory
      · exact Or.inl hgone
      · refine Or.inr ?_
        rcases hcredit msg hmsg with hold | hnew
        · rcases (hback hold id).2 hjoin with hleft' | ⟨join, hmem, hid⟩
          · exact absurd (hleft ▸ Finset.mem_union_left _ hleft') hgone
          · exact ⟨join, perform_join_mem hop (List.mem_append_left _ hmem) hid hgone, hid⟩
        · exact ⟨msg, perform_join_mem hop (List.mem_append_right _ hnew) hjoin hgone, hjoin⟩

/-- A node without a LEAVE is visible when the history has a JOIN of it. -/
theorem visible_of_join (hleft : id ∉ leftNodes s.mHistory)
    (hjoin : ∃ join ∈ s.mHistory, join.JoinOf id) : s.Visible id := by
  obtain ⟨join, hmem, hid⟩ := hjoin
  rw [Visible, ← Finmap.lookup_isSome, lookup_replay]
  exact entryAfter_isSome_of_join hmem hid fun msg hmem hleave =>
    hleft (mem_leftNodes.mpr ⟨msg, hmem, hleave⟩)

/-- A node with a LEAVE is invisible once the history has been pruned. -/
theorem not_visible_of_left {history : List TopologyMessage}
    (hhistory : s.mHistory = pruneRemoved history) (hleft : id ∈ leftNodes history) :
    ¬ s.Visible id := by
  have hnone : entryAfter id none s.mHistory = none := by
    rw [hhistory]
    exact entryAfter_none fun msg hmem => not_joinOf_of_mem_pruneRemoved hmem hleft
  rw [Visible, ← Finmap.lookup_isSome, lookup_replay, hnone]
  simp

/-- The node is there to be seen, and its connection is taken for it. -/
structure Present (fd : Fd) (id : UInt64) (s : TopologyServer) : Prop where
  recorded : s.Recorded
  not_left : id ∉ leftNodes s.mHistory
  joined : ∃ join ∈ s.mHistory, join.JoinOf id
  named : ∃ client, s.mClients.lookup fd = some client ∧ client.nodeId = id

/-- The purge spares the nodes that connections are taken for. -/
theorem Present.not_mem_purged (h : s.Present fd id) {order : List UInt64} :
    id ∉ order.filter fun id => id ∉ s.connected := by
  obtain ⟨client, hclient, hid⟩ := h.named
  intro hmem
  have hnot := (List.mem_filter.mp hmem).2
  simp only [decide_eq_true_eq] at hnot
  exact hnot ((mem_image _ _ _).mpr ⟨fd, client, hclient, hid⟩)

/-- **A call adds a LEAVE of a present node exactly when it is said to.** -/
theorem Present.mem_leftNodes_incoming (h : s.Present fd id) (hzero : id ≠ 0)
    (hop : s.perform op = some o) :
    id ∈ leftNodes (s.incoming op) ↔ ¬ s.RecordsNoLeave id op := by
  have hone : ∀ {msg : TopologyMessage}, id ∈ leftNodes [msg] ↔ msg.LeaveOf id := by
    intro msg
    simp [mem_leftNodes]
  rcases perform_cases hop with ⟨fd', rfl, _, rfl⟩ | ⟨fd', msg, random, rfl, hid, rfl⟩ |
    ⟨u, failed, hupdate, _, _, _⟩
  · exact iff_of_false (by simp [incoming, leftNodes]) fun h => h trivial
  · rw [← perform_incoming hop]
    refine iff_of_false (by simp [Outcome.added, leftNodes]) fun hnot => hnot ?_
    exact fun hleave => absurd (hleave.nodeId.symm.trans hid) hzero
  · rw [← hupdate.incoming]
    generalize o.minted = minted at hupdate ⊢
    generalize o.accepted = accepted at hupdate ⊢
    cases hupdate with
    | @redundant fd' msg random client hclient hid hseq hredundant =>
        refine iff_of_false (by simp [leftNodes]) fun hnot => hnot fun hleave => ?_
        -- the client was credited with the same LEAVE, so the node would have left
        obtain ⟨earlier, hmem, hequal⟩ := List.any_eq_true.mp hredundant
        have hop : earlier.op = msg.op := (MessageOp.equal_iff.mp hequal).1
        refine absurd ((h.recorded fd' client hclient earlier hmem id).1 ?_) h.not_left
        rw [TopologyMessage.LeaveOf, hop]
        exact hleave
    | novel hclient hid hseq hredundant =>
        rw [List.append_nil, hone]
        simp [RecordsNoLeave, hseq]
    | newest hclient hid hseq hhit =>
        rw [List.nil_append, hone]
        simp [RecordsNoLeave, hhit]
    | held hclient hid hseq hhit =>
        exact iff_of_false (by simp [leftNodes]) fun hnot => hnot fun _ => ⟨hseq, by simp [hhit]⟩
    | disconnect hclient =>
        rw [List.append_nil, hone]
        simp [RecordsNoLeave, hclient, leaveMessage, TopologyMessage.LeaveOf]
    | purge _ _ =>
        refine iff_of_false ?_ fun hnot => hnot trivial
        rw [List.append_nil, mem_leftNodes]
        rintro ⟨msg, hmem, hleave⟩
        obtain ⟨id', hid', hleave'⟩ := mem_mintLeaves _ _ hmem
        obtain rfl := (MessageOp.Reports.unique hleave hleave').2
        exact h.not_mem_purged hid'

/-- A call that records no LEAVE keeps the node present: its JOIN stays in the history, and its
connection open. -/
theorem Present.step (h : s.Present fd id) (hzero : id ≠ 0) (hspeaks : Speaks fd id op)
    (hnoLeave : s.RecordsNoLeave id op) (hstep : s.step op = some s') : s'.Present fd id := by
  obtain ⟨o, hop, rfl⟩ := step_eq_some.mp hstep
  have hleft : id ∉ leftNodes o.server.mHistory := by
    rw [perform_leftNodes hop, Finset.mem_union, h.mem_leftNodes_incoming hzero hop]
    simp [h.not_left, hnoLeave]
  obtain ⟨join, hmem, hjoin⟩ := h.joined
  obtain ⟨client, hclient, hnamed⟩ := h.named
  have hstays : (s.staying op).lookup fd = some client := by
    cases op with
    | disconnect fd' => exact (Finmap.lookup_erase_ne (Ne.symm hspeaks)).trans hclient
    | _ => exact hclient
  obtain ⟨client', hclient'⟩ := perform_staying hop hstays
  refine ⟨h.recorded.step hop, hleft,
    ⟨join, perform_join_mem hop (List.mem_append_left _ hmem) hjoin hleft, hjoin⟩,
    client', hclient', ?_⟩
  rcases perform_client hop hclient' with ⟨hconnect, _⟩ | ⟨old, hold, _, hnode, _⟩
  · subst hconnect
    rcases perform_cases hop with ⟨fd', heq, hfd, _⟩ | ⟨_, _, _, heq, _⟩ | ⟨u, failed, hupdate, _⟩
    · cases heq
      exact absurd (Finmap.mem_iff.mpr ⟨client, hclient⟩) hfd
    · cases heq
    · exact absurd rfl (hupdate.ne_connect fd)
  · obtain rfl := Option.some.inj (hstays.symm.trans hold)
    rw [hnode]
    cases op with
    | data fd' msg random =>
        simp only [HubOp.naming]
        split
        · rename_i hself
          exact (hspeaks hself.1).1
        · exact hnamed
    | _ => exact hnamed

/-- A call that records a LEAVE makes the node invisible. -/
theorem Present.not_visible (h : s.Present fd id) (hzero : id ≠ 0)
    (hleave : ¬ s.RecordsNoLeave id op) (hstep : s.step op = some s') : ¬ s'.Visible id := by
  obtain ⟨o, hop, rfl⟩ := step_eq_some.mp hstep
  have hleft := (h.mem_leftNodes_incoming hzero hop).mpr hleave
  rcases perform_mHistory hop with ⟨hnone, _⟩ | hhistory
  · simp [hnone, leftNodes] at hleft
  · refine not_visible_of_left hhistory ?_
    rw [leftNodes_append]
    exact Finset.mem_union_right _ hleft

/-- A handled JOIN is in the history, or an earlier one of its node is. -/
theorem Recorded.exists_join (h : s.Recorded) {join : TopologyMessage} {random : UInt64}
    (hseq : join.seq = 0) (hjoin : join.JoinOf id) (hzero : id ≠ 0)
    (hop : s.perform (.data fd join random) = some o) (hleft : id ∉ leftNodes s.mHistory) :
    ∃ msg ∈ s.mHistory ++ s.incoming (.data fd join random), msg.JoinOf id := by
  rcases perform_cases hop with ⟨_, heq, _⟩ | ⟨_, _, _, heq, hid, _⟩ | ⟨u, failed, hupdate, _⟩
  · cases heq
  · cases heq
    exact absurd (hjoin.nodeId.symm.trans hid) hzero
  · rw [← hupdate.incoming]
    generalize o.minted = minted at hupdate ⊢
    generalize o.accepted = accepted at hupdate ⊢
    cases hupdate with
    | newest _ _ hne _ => exact absurd hseq hne
    | held _ _ hne _ => exact absurd hseq hne
    | novel _ _ _ _ => exact ⟨{ join with seq := s.mNextSeq, uid := random }, by simp, hjoin⟩
    | @redundant _ _ _ client hclient _ _ hredundant =>
        obtain ⟨earlier, hmem, hequal⟩ := List.any_eq_true.mp hredundant
        have hearlier : earlier.JoinOf id := by
          rw [TopologyMessage.JoinOf, (MessageOp.equal_iff.mp hequal).1]
          exact hjoin
        rcases (h fd client hclient earlier hmem id).2 hearlier with hgone | ⟨msg, hmsg, hid⟩
        · exact absurd hgone hleft
        · exact ⟨msg, List.mem_append_left _ hmsg, hid⟩

/-- What a handled JOIN adds is no LEAVE, so that nobody counts as departed by it. -/
theorem leftNodes_incoming_join {join : TopologyMessage} {random : UInt64}
    (hjoin : join.JoinOf id) : leftNodes (s.incoming (.data fd join random)) = ∅ := by
  refine leftNodes_eq_empty fun msg hmem id' hleave => ?_
  have hop : msg.op = join.op := by
    simp only [incoming] at hmem
    split at hmem
    · cases hmem
    · split at hmem
      · cases hmem
      · split at hmem
        · split at hmem
          · cases hmem
          · rw [List.mem_singleton.mp hmem]
        · split at hmem
          · rw [List.mem_singleton.mp hmem]
          · cases hmem
  rw [TopologyMessage.LeaveOf, hop] at hleave
  cases (MessageOp.Reports.unique hleave hjoin).1

/-- **The JOIN.**  Minted or dropped, it leaves its node present exactly when no
LEAVE of the node is in the history. -/
theorem Recorded.join (h : s.Recorded) {join : TopologyMessage} {random : UInt64}
    (hseq : join.seq = 0) (hjoin : join.JoinOf id) (hzero : id ≠ 0)
    (hop : s.perform (.data fd join random) = some o) :
    (id ∉ leftNodes s.mHistory → o.server.Present fd id) ∧
      (id ∈ leftNodes s.mHistory → ¬ o.server.Visible id) := by
  have hnode : join.nodeId = id := hjoin.nodeId
  have hnone := @leftNodes_incoming_join s fd id join random hjoin
  constructor
  · intro hleft
    have hstill : id ∉ leftNodes o.server.mHistory := by
      rw [perform_leftNodes hop, hnone, Finset.union_empty]
      exact hleft
    obtain ⟨msg, hmem, hmsg⟩ := h.exists_join hseq hjoin hzero hop hleft
    refine ⟨h.step hop, hstill, ⟨msg, perform_join_mem hop hmem hmsg hstill, hmsg⟩, ?_⟩
    rcases perform_cases hop with ⟨_, heq, _⟩ | ⟨_, _, _, heq, hid, _⟩ | ⟨u, failed, hupdate, _⟩
    · cases heq
    · cases heq
      exact absurd (hnode.symm.trans hid) hzero
    · obtain ⟨client, hclient⟩ := hupdate.exists_client
      obtain ⟨client', hclient'⟩ := perform_staying hop hclient
      refine ⟨client', hclient', ?_⟩
      rcases perform_client hop hclient' with ⟨heq, _⟩ | ⟨old, _, _, hnaming, _⟩
      · cases heq
      · rw [hnaming]
        simp [HubOp.naming, hnode, hzero]
  · intro hleft
    rcases perform_cases hop with ⟨_, heq, _⟩ | ⟨_, _, _, heq, hid, _⟩ |
      ⟨u, failed, hupdate, hserver, _⟩
    · cases heq
    · cases heq
      exact absurd (hnode.symm.trans hid) hzero
    · have hhistory : o.server.mHistory = pruneRemoved u.mHistory := by
        rw [hserver, settle_mHistory]
      refine not_visible_of_left hhistory ?_
      rw [hupdate.history, leftNodes_append]
      exact Finset.mem_union_left _ hleft

/-- **A connected, introduced node is visible.**  After any run from any digest,
a connection introduces its node.  The node is visible at every state from then
on, while the connection lasts, exactly when no LEAVE of it was in the history
and none is recorded. -/
theorem visible_iff {digest : List TopologyMessage} {before after : List HubOp}
    {join : TopologyMessage} {random : UInt64} {joined : TopologyServer}
    (hbefore : exec step (create digest) before = some s)
    (hseq : join.seq = 0) (hjoin : join.JoinOf id) (hzero : id ≠ 0)
    (hjoined : s.step (.data fd join random) = some joined)
    (hspeaks : Along step (fun _ op => Speaks fd id op) joined after)
    (hafter : exec step joined after = some s') :
    Throughout step (Visible id) joined after ↔
      id ∉ leftNodes s.mHistory ∧ Along step (RecordsNoLeave id) joined after := by
  obtain ⟨o, hop, rfl⟩ := step_eq_some.mp hjoined
  have hrecorded : s.Recorded := by
    refine exec_preserves (I := Recorded) ?_ (create_recorded digest) hbefore
    intro s op s' h hstep
    obtain ⟨o, hop, rfl⟩ := step_eq_some.mp hstep
    exact h.step hop
  obtain ⟨hpresent, hhidden⟩ := hrecorded.join hseq hjoin hzero hop
  by_cases hleft : id ∈ leftNodes s.mHistory
  · exact iff_of_false (fun hall => hhidden hleft hall.head) fun h => h.1 hleft
  · have hiff : Throughout step (Visible id) o.server after ↔
        Along step (RecordsNoLeave id) o.server after := by
      refine throughout_iff_along (I := Present fd id) ?_ ?_ ?_ (hpresent hleft) hspeaks hafter
      · exact fun s h => visible_of_join h.not_left h.joined
      · exact fun s op s' h hspeaks hnoLeave hstep => h.step hzero hspeaks hnoLeave hstep
      · exact fun s op s' h _ hleave hstep => h.not_visible hzero hleave hstep
    rw [hiff]
    exact ⟨fun h => ⟨hleft, h⟩, fun h => h.2⟩

/-- The JOIN of node 5. -/
def joinFive : TopologyMessage where
  op := .nodeChange { id := 5, op := .join, name := "five" }

/-- Node 5 joins, hangs up and connects again. -/
def comesBack : List HubOp :=
  [.connect 3, .data 3 joinFive 51, .disconnect 3, .connect 4]

/-- The server after a run, the empty one if the run cannot be completed. -/
def after (ops : List HubOp) : TopologyServer :=
  (exec step (create []) ops).getD (create [])

/-- The server once node 5 has joined on a connection of its own. -/
def fiveJoined : TopologyServer :=
  after [.connect 3, .data 3 joinFive 51]

/-- Its second JOIN does not make it visible. -/
theorem not_visible_comesBack :
    (exec step (create []) comesBack).isSome ∧
      ((after comesBack).step (.data 4 joinFive 52)).isSome ∧
      ¬ ∃ s ∈ (after comesBack).step (.data 4 joinFive 52), s.Visible 5 := by
  decide +kernel

/-- Node 6 leaves in the meantime. -/
def otherLeaves : List HubOp :=
  [.connect 8, .data 8 { op := .nodeChange { id := 6, op := .join, name := "six" } } 61,
    .purge [6, 5], .disconnect 8]

/-- Another node leaves, and this one stays to be seen. -/
theorem visible_iff_otherLeaves :
    5 ∉ leftNodes (after [.connect 3]).mHistory ∧
      Along step (RecordsNoLeave 5) fiveJoined otherLeaves := by
  have hrun : (exec step fiveJoined otherLeaves).isSome := by decide +kernel
  exact (@visible_iff (after [.connect 3]) _ 3 5 [] [.connect 3] otherLeaves joinFive 51 fiveJoined
    (by decide +kernel) rfl (by decide) (by decide) (by decide +kernel) (by decide +kernel)
    (Option.some_get hrun).symm).mp (by decide +kernel)

end TopologyServer

end IpcPubsub
