import IpcPubsub.Failover
import IpcPubsub.Pruning

/-!
# What hubs and queues keep of the topic changes

A topic change stands in the history of a hub until a call prunes it, and only a call that
runs `PruneRemoved` can, once the node counts as departed (`perform_topic_mem`).  A fresh
one is in the history after the hub has read it, or it is a repeat and the change that
stands says the same (`exists_stored_of_data`).

`Sound` says that all that is on its way from a public call is a fresh topic change of the
manager's node, in the encoding of the codec.
-/

namespace IpcPubsub

open GuardedRuns FiniteMap TopologyServer

/-- The calls that end with `PruneRemoved`: all but `OnConnect`, and `OnData` only if the
message names a node. -/
def HubOp.RunsPruneRemoved : HubOp → Prop
  | .connect _ => False
  | .data _ msg _ => msg.nodeId ≠ 0
  | .disconnect _ => True
  | .purge _ => True

instance : DecidablePred HubOp.RunsPruneRemoved
  | .connect _ => isFalse id
  | .data _ msg _ => inferInstanceAs (Decidable (msg.nodeId ≠ 0))
  | .disconnect _ => isTrue trivial
  | .purge _ => isTrue trivial

namespace TopologyServer

/-! ## What a hub keeps of a topic change -/

/-- What the second loop of `PruneRemoved` looks up for a topic change. -/
def counted (id : UInt64) : UInt64 := if id > 0 then 1 else 0

/-- A call will prune the topic changes of a node. -/
def Prunes (s : TopologyServer) (id : UInt64) (op : HubOp) : Prop :=
  op.RunsPruneRemoved ∧ counted id ∈ leftNodes (s.mHistory ++ s.incoming op)

instance (s : TopologyServer) (id : UInt64) : DecidablePred (s.Prunes id) :=
  fun _ => inferInstanceAs (Decidable (_ ∧ _))

section Topics

variable {s : TopologyServer} {op : HubOp} {o : Outcome} {msg : TopologyMessage}
  {change : TopicChange}

/-- `PruneRemoved` keeps a topic change unless the node it looks up for it has left, which is
node 1 for the changes of every node but node 0. -/
theorem keeps_topicChange {left : Finset UInt64} (hop : msg.op = .topicChange change) :
    keeps left msg = true ↔ counted change.nodeId ∉ left := by
  simp [keeps, hop, counted]

/-- Every call that goes through `settle` ends with a run of `PruneRemoved`. -/
theorem Updates.runsPruneRemoved {u : TopologyServer} {minted accepted : List TopologyMessage}
    {failed : List Assertion} (h : Updates s op u minted accepted failed) :
    op.RunsPruneRemoved := by
  cases h with
  | redundant _ hid _ _ => exact hid
  | novel _ hid _ _ => exact hid
  | newest _ hid _ _ => exact hid
  | held _ hid _ _ => exact hid
  | disconnect _ => trivial
  | purge _ _ => trivial

/-- A call that does not run `PruneRemoved` leaves the history as it is. -/
theorem perform_mHistory_of_not_runs (h : s.perform op = some o)
    (hruns : ¬ op.RunsPruneRemoved) :
    s.incoming op = [] ∧ o.server.mHistory = s.mHistory := by
  rcases perform_cases h with ⟨fd, rfl, _, rfl⟩ | ⟨fd, msg, random, rfl, hid, rfl⟩ |
    ⟨u, failed, hupdate, _, _, _⟩
  · exact ⟨rfl, rfl⟩
  · refine ⟨?_, rfl⟩
    simp only [incoming, hid, if_true]
    split <;> rfl
  · exact absurd hupdate.runsPruneRemoved hruns

/-- A topic change stays, or is there after the call, unless the call prunes it. -/
theorem perform_topic_mem (h : s.perform op = some o) (hmem : msg ∈ s.mHistory ++ s.incoming op)
    (hop : msg.op = .topicChange change) (hkeeps : ¬ s.Prunes change.nodeId op) :
    msg ∈ o.server.mHistory := by
  by_cases hruns : op.RunsPruneRemoved
  · have hleft : counted change.nodeId ∉ leftNodes (s.mHistory ++ s.incoming op) :=
      fun hpruned => hkeeps ⟨hruns, hpruned⟩
    rcases perform_mHistory h with ⟨hnone, hhistory⟩ | hhistory
    · rw [hnone, List.append_nil] at hmem
      rw [hhistory]
      exact hmem
    · rw [hhistory]
      exact mem_pruneRemoved.mpr ⟨hmem, (keeps_topicChange hop).mpr hleft⟩
  · obtain ⟨hnone, hhistory⟩ := perform_mHistory_of_not_runs h hruns
    rw [hnone, List.append_nil] at hmem
    rw [hhistory]
    exact hmem

/-- The change that stands is in the history. -/
theorem mem_of_standing {old : TopologyMessage} (h : s.standing msg = some old) :
    old ∈ s.mHistory :=
  List.mem_reverse.mp (List.mem_of_find?_eq_some h)

/-- A hub that reads a fresh topic change has it in its history afterwards, under the uid
drawn, or a change that says the same and still stands. -/
theorem exists_stored_of_data {fd : Fd} {random : UInt64}
    (hop : s.perform (.data fd msg random) = some o) (hchange : msg.op = .topicChange change)
    (hid : change.nodeId ≠ 0) (hseq : msg.seq = 0)
    (hkeeps : ¬ s.Prunes change.nodeId (.data fd msg random))
    (hrepeats : s.Repeats fd msg → (s.standing msg).map TopologyMessage.op = some msg.op) :
    ∃ stored ∈ o.server.mHistory,
      stored.uid = s.changeUid fd msg random ∧ stored.op = msg.op := by
  by_cases hrepeat : s.Repeats fd msg
  · obtain ⟨old, hold, hsame⟩ := Option.map_eq_some_iff.mp (hrepeats hrepeat)
    have hmem : old ∈ s.mHistory ++ s.incoming (.data fd msg random) :=
      List.mem_append_left _ (mem_of_standing hold)
    refine ⟨old, perform_topic_mem hop hmem (hsame.trans hchange) hkeeps, ?_, hsame⟩
    simp [changeUid, hrepeat, hold]
  · have hnode : msg.nodeId ≠ 0 := by
      simpa [TopologyMessage.nodeId, MessageOp.nodeId, hchange] using hid
    cases hclient : s.mClients.lookup fd with
    | none => simp [TopologyServer.perform, onMessage, hnode, hclient] at hop
    | some client =>
        have hnovel : isRedundant msg client = false := by
          by_contra hredundant
          exact hrepeat ⟨client, hclient, by simpa using hredundant⟩
        have hmem : { msg with seq := s.mNextSeq, uid := random } ∈
            s.mHistory ++ s.incoming (.data fd msg random) := by
          simp [incoming, hclient, hnode, hseq, hnovel]
        refine ⟨_, perform_topic_mem hop hmem hchange hkeeps, ?_, rfl⟩
        simp [changeUid, hrepeat]

end Topics

end TopologyServer

namespace Failover

/-! ## Which hub is alive -/

section Server

variable {codec : TopologyCodec} {s s' : Failover} {hub : Nat} {o : Outcome}

/-- A hub that is there has been started. -/
theorem lt_of_server {server : TopologyServer} (h : s.server hub = some server) :
    hub < s.hubs.length := by
  by_contra hbeyond
  simp [Failover.server, List.getElem?_eq_none (not_lt.mp hbeyond)] at h

/-- The hubs when one of them is replaced. -/
theorem server_set {entry : Option TopologyServer} {hub' : Nat} (hlt : hub < s.hubs.length)
    (hhubs : s'.hubs = s.hubs.set hub entry) :
    s'.server hub' = if hub' = hub then entry else s.server hub' := by
  unfold server
  rw [hhubs, List.getElem?_set]
  by_cases heq : hub = hub'
  · subst heq
    simp [hlt]
  · simp [heq, Ne.symm heq]

/-- The hubs after a call of one of them: it alone has changed. -/
theorem server_observe {server : TopologyServer} (h : s.server hub = some server) (hub' : Nat) :
    (s.observe codec hub o).server hub' = if hub' = hub then some o.server else s.server hub' :=
  server_set (lt_of_server h) rfl

end Server

/-! ## What holds in every state -/

/-- A fresh topic change of a node. -/
def OwnTopic (id : UInt64) (msg : TopologyMessage) : Prop :=
  msg.seq = 0 ∧ msg.op.Proper ∧ ∃ change, msg.op = .topicChange change ∧ change.nodeId = id

/-- The messages of public calls, wherever they are, are fresh topic changes of the manager's
node. -/
structure Sound (s : Failover) : Prop where
  unsent : ∀ request ∈ s.threads.unsent, OwnTopic s.manager.mNodeId request.msg
  completed : ∀ request ∈ s.completed, OwnTopic s.manager.mNodeId request.msg

section Sound

variable {codec : TopologyCodec} {s s' : Failover} {event : FailoverEvent}

/-- A manager that has just been created has sent nothing, so there is nothing of it on any way. -/
theorem start_sound {manager : TopologyManager} : Sound { manager := manager } where
  unsent := nofun
  completed := nofun

/-- A topic change that a node makes is about itself. -/
theorem OwnTopic.nodeId {id : UInt64} {msg : TopologyMessage} (h : OwnTopic id msg) :
    msg.nodeId = id := by
  obtain ⟨_, _, change, hop, hid⟩ := h
  rw [TopologyMessage.nodeId, hop]
  exact hid

/-- The public calls all make such messages, whatever their arguments are. -/
theorem message_own (manager : TopologyManager) (call : PublicCall) :
    OwnTopic manager.mNodeId (call.message manager) := by
  cases call <;> exact ⟨rfl, trivial, _, rfl, rfl⟩

/-- A call is done when its thread leaves `Send`; what `MainLoop` flushes was done before. -/
theorem mem_complete {sender : Sender} {request request' : Request}
    (hmem : request' ∈ s.complete sender request) :
    request' ∈ s.completed ∨ sender = .user ∧ request' = request := by
  cases sender with
  | user =>
      rcases List.mem_append.mp hmem with hold | hnew
      · exact .inl hold
      · exact .inr ⟨rfl, List.mem_singleton.mp hnew⟩
  | mainLoop => exact .inl hmem

/-- What is in the hands of a thread in `Send`. -/
theorem Sound.sending (h : s.Sound) {sender : Sender} {request : Request}
    (hsending : s.threads.sending = some (sender, request)) :
    OwnTopic s.manager.mNodeId request.msg :=
  h.unsent request (ManagerThreads.mem_unsent.mpr (.inl ⟨sender, hsending⟩))

/-- A step of the threads that is no call.  It makes no message, and what it completes was a fresh
change of the node. -/
theorem Sound.threads (h : s.Sound) {event : ThreadEvent}
    (hthreads : s.threads.step event = some s'.threads) (hcall : ∀ msg, event ≠ .call msg)
    (hid : s'.manager = s.manager)
    (hcompleted : ∀ request ∈ s'.completed,
      request ∈ s.completed ∨ OwnTopic s.manager.mNodeId request.msg) : s'.Sound where
  unsent := fun request hrequest => by
    rw [hid]
    rcases ManagerThreads.unsent_step hthreads hrequest with hold | hnew
    · exact h.unsent request hold
    · exact absurd hnew (hcall _)
  completed := fun request hmem => by
    rw [hid]
    exact (hcompleted request hmem).elim (h.completed request) id

/-- What a manager is told does not change which node it is. -/
theorem receive_mNodeId (m : TopologyManager) (data : List UInt8) :
    (receive codec m data).mNodeId = m.mNodeId := by
  unfold receive
  split <;> rfl

/-- **Every event** keeps to it: a call makes a fresh change of the manager's node, and from then
on the change is only passed on. -/
theorem Sound.step (h : s.Sound) (hstep : s.step codec event = some s') : s'.Sound := by
  cases step_happens hstep with
  | @calls call threads hthreads =>
      refine { unsent := ?_, completed := ?_ }
      · intro request hrequest
        rcases ManagerThreads.unsent_step hthreads hrequest with hold | hnew
        · exact h.unsent request hold
        · rw [← ThreadEvent.call.inj hnew]
          exact message_own s.manager call
      · intro request hmem
        simp only at hmem
        split at hmem
        · rcases List.mem_append.mp hmem with hold | hnew
          · exact h.completed request hold
          · rw [List.mem_singleton.mp hnew]
            exact message_own s.manager call
        · exact h.completed request hmem
  | sends hsending _ _ _ hthreads =>
      refine h.threads hthreads (fun _ => nofun) rfl fun request hmem => ?_
      rcases mem_complete hmem with hold | ⟨_, rfl⟩
      · exact .inl hold
      · exact .inr (h.sending hsending)
  | fails hsending _ hthreads =>
      refine h.threads hthreads (fun _ => nofun) rfl fun request hmem => ?_
      rcases mem_complete hmem with hold | ⟨_, rfl⟩
      · exact .inl hold
      · exact .inr (h.sending hsending)
  | crashes _ hthreads => exact h.threads hthreads (fun _ => nofun) rfl fun _ => .inl
  | connects _ hthreads => exact h.threads hthreads (fun _ => nofun) rfl fun _ => .inl
  | introduces _ hthreads => exact h.threads hthreads (fun _ => nofun) rfl fun _ => .inl
  | runs hplain hthreads =>
      refine h.threads hthreads ?_ rfl fun _ => .inl
      intro msg hcall
      subst hcall
      cases hplain
  | receives _ _ =>
      refine { unsent := ?_, completed := ?_ }
      · intro request hrequest
        rw [receive_mNodeId]
        exact h.unsent request hrequest
      · intro request hrequest
        rw [receive_mNodeId]
        exact h.completed request hrequest
  | starts => exact ⟨h.unsent, h.completed⟩
  | performs _ _ => exact ⟨h.unsent, h.completed⟩
  | handles _ _ _ _ => exact ⟨h.unsent, h.completed⟩
  | hangsUp _ _ _ => exact ⟨h.unsent, h.completed⟩
  | dies _ => exact ⟨h.unsent, h.completed⟩

end Sound

end Failover

end IpcPubsub
