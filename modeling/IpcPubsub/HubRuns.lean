import IpcPubsub.CursorLog
import IpcPubsub.GuardedRuns
import IpcPubsub.Pruning

/-!
# Runs of the hub

The calls a hub receives, as one step function: connections open and close,
messages arrive, and the purge timer fires.  A connection is opened on a
descriptor that is not connected, as `accept` returns it; data and hang-ups come
from connected descriptors, which the source asserts.

`perform_cases` is the inversion of a step.  Every operation but `OnConnect`
updates the server and then prunes and broadcasts; `Updates` lists the updates,
and nothing later takes the operations apart again.

A `Hub` is a server together with what it has sent on each open connection.
-/

namespace IpcPubsub

open FiniteMap GuardedRuns CursorLog

/-- A call of the hub.  `random` is the uid drawn if the message is minted, and
`order` is the order in which the departed nodes are iterated. -/
inductive HubOp
  | connect (fd : Fd)
  | data (fd : Fd) (msg : TopologyMessage) (random : UInt64)
  | disconnect (fd : Fd)
  | purge (order : List UInt64)
  deriving DecidableEq

/-- The node a connection is taken for after a call. -/
def HubOp.naming (op : HubOp) (fd : Fd) (old : UInt64) : UInt64 :=
  match op with
  | .data fd' msg _ => if fd' = fd ∧ msg.nodeId ≠ 0 then msg.nodeId else old
  | _ => old

namespace TopologyServer

def perform (s : TopologyServer) : HubOp → Option Outcome
  | .connect fd => if fd ∈ s.mClients then none else some (s.onConnect fd)
  | .data fd msg random => s.onMessage fd msg random
  | .disconnect fd => s.onDisconnect fd
  | .purge order =>
      if order.Nodup ∧ order.toFinset = historicallyActive s.mHistory then
        some (s.purgeDisconnected order)
      else none

/-- The connections that are still open after a call on open connections. -/
def staying (s : TopologyServer) : HubOp → UnorderedMap Fd Client
  | .disconnect fd => s.mClients.erase fd
  | _ => s.mClients

/-- A client that stays was a client before the call. -/
theorem lookup_of_staying {s : TopologyServer} {op : HubOp} {fd : Fd} {client : Client}
    (h : (s.staying op).lookup fd = some client) : s.mClients.lookup fd = some client := by
  cases op with
  | disconnect fd' =>
      have hne : fd ≠ fd' := by
        rintro rfl
        simp [staying] at h
      rwa [staying, Finmap.lookup_erase_ne hne] at h
  | _ => exact h

/-- The messages a call will append to the history, before anything is pruned:
fresh ones under the next sequence number, an old one that is beyond the end. -/
def incoming (s : TopologyServer) : HubOp → List TopologyMessage
  | .connect _ => []
  | .data fd msg random =>
      match s.mClients.lookup fd with
      | none => []
      | some client =>
          if msg.nodeId = 0 then []
          else if msg.seq = 0 then
            if isRedundant msg client then []
            else [{ msg with seq := s.mNextSeq, uid := random }]
          else if s.hit msg = none then [msg]
          else []
  | .disconnect fd =>
      match s.mClients.lookup fd with
      | none => []
      | some client => [{ leaveMessage client.nodeId with seq := s.mNextSeq }]
  | .purge order => (s.mintLeaves (order.filter fun id => id ∉ s.connected)).2

/-- What `AddOldMessage` finds is in the history. -/
theorem mem_of_hit {s : TopologyServer} {msg found : TopologyMessage}
    (h : s.hit msg = some found) : found ∈ s.mHistory :=
  List.mem_of_getElem? h

/-- `OnConnect` has one assertion, and no other can fail in it. -/
theorem sendHistory_failed_only (seq : UInt64) (history : List TopologyMessage) :
    ∀ assertion ∈ (sendHistory seq history).2, assertion = .connectSeq := by
  induction history generalizing seq with
  | nil => exact fun assertion hmem => by cases hmem
  | cons msg history ih =>
      intro assertion hmem
      simp only [sendHistory] at hmem
      split at hmem
      · exact ih _ assertion hmem
      · exact (List.mem_cons.mp hmem).elim id fun hmem => ih _ assertion hmem

/-- The updates that are followed by `PruneRemoved(); Broadcast();`, with the
messages minted and accepted and the assertions that failed. -/
inductive Updates (s : TopologyServer) :
    HubOp → TopologyServer → List TopologyMessage → List TopologyMessage →
      List Assertion → Prop
  /-- A fresh message this client has sent before is dropped. -/
  | redundant {fd : Fd} {msg : TopologyMessage} {random : UInt64} {client : Client}
      (hclient : s.mClients.lookup fd = some client) (hid : msg.nodeId ≠ 0)
      (hseq : msg.seq = 0) (hredundant : isRedundant msg client = true) :
      Updates s (.data fd msg random)
        { s with mClients := s.mClients.insert fd { client with nodeId := msg.nodeId } }
        [] [] []
  /-- Any other fresh message is minted. -/
  | novel {fd : Fd} {msg : TopologyMessage} {random : UInt64} {client : Client}
      (hclient : s.mClients.lookup fd = some client) (hid : msg.nodeId ≠ 0)
      (hseq : msg.seq = 0) (hredundant : isRedundant msg client = false) :
      Updates s (.data fd msg random)
        { s.mint { msg with uid := random } with
          mClients := s.mClients.insert fd { client with
            nodeId := msg.nodeId
            history := client.history ++ [{ msg with seq := s.mNextSeq, uid := random }] } }
        [{ msg with seq := s.mNextSeq, uid := random }] [] []
  /-- An old message beyond the whole history is accepted. -/
  | newest {fd : Fd} {msg : TopologyMessage} {random : UInt64} {client : Client}
      (hclient : s.mClients.lookup fd = some client) (hid : msg.nodeId ≠ 0)
      (hseq : msg.seq ≠ 0) (hhit : s.hit msg = none) :
      Updates s (.data fd msg random)
        { s with
          mNextSeq := msg.seq + 1
          mHistory := s.mHistory ++ [msg]
          mClients := s.mClients.insert fd { client with
            nodeId := msg.nodeId
            history := client.history ++ [msg] } }
        [] [msg] (if msg.uid ≠ 0 then [] else [.oldUid])
  /-- Any other old message is ignored or rejected. -/
  | held {fd : Fd} {msg found : TopologyMessage} {random : UInt64} {client : Client}
      (hclient : s.mClients.lookup fd = some client) (hid : msg.nodeId ≠ 0)
      (hseq : msg.seq ≠ 0) (hhit : s.hit msg = some found) :
      Updates s (.data fd msg random)
        { s with mClients := s.mClients.insert fd { client with nodeId := msg.nodeId } }
        [] []
        (if (found.seq = msg.seq ∧ found.uid = msg.uid) ∧ found.equal msg = false then
          [.oldMatch] else [])
  | disconnect {fd : Fd} {client : Client} (hclient : s.mClients.lookup fd = some client) :
      Updates s (.disconnect fd)
        { s.mint (leaveMessage client.nodeId) with mClients := s.mClients.erase fd }
        [{ leaveMessage client.nodeId with seq := s.mNextSeq }] [] []
  | purge {order : List UInt64} (hnodup : order.Nodup)
      (horder : order.toFinset = historicallyActive s.mHistory) :
      Updates s (.purge order)
        (s.mintLeaves (order.filter fun id => id ∉ s.connected)).1
        (s.mintLeaves (order.filter fun id => id ∉ s.connected)).2 [] []

/-- What one call of the hub can do: send a new connection the history, drop a packet without a
node id, or update the history and broadcast. -/
theorem perform_cases {s : TopologyServer} {op : HubOp} {o : Outcome}
    (h : s.perform op = some o) :
    (∃ fd, op = .connect fd ∧ fd ∉ s.mClients ∧ o = s.onConnect fd) ∨
    (∃ fd msg random, op = .data fd msg random ∧ msg.nodeId = 0 ∧ o = { server := s }) ∨
    ∃ u failed, Updates s op u o.minted o.accepted failed ∧
      o.server = (settle u).server ∧ o.sent = (settle u).sent ∧
      o.failed = failed ++ (settle u).failed := by
  cases op with
  | connect fd =>
      simp only [perform] at h
      split at h
      · cases h
      · rename_i hfd
        exact Or.inl ⟨fd, rfl, hfd, (Option.some.inj h).symm⟩
  | disconnect fd =>
      simp only [perform, onDisconnect] at h
      split at h
      · cases h
      · rename_i client hclient
        obtain rfl := Option.some.inj h
        exact Or.inr (Or.inr ⟨_, [], .disconnect hclient, rfl, rfl, rfl⟩)
  | purge order =>
      simp only [perform] at h
      split at h
      · rename_i horder
        obtain rfl := Option.some.inj h
        exact Or.inr (Or.inr ⟨_, [], .purge horder.1 horder.2, rfl, rfl, rfl⟩)
      · cases h
  | data fd msg random =>
      simp only [perform, onMessage] at h
      split at h
      · rename_i hid
        exact Or.inr (Or.inl ⟨fd, msg, random, rfl, hid, (Option.some.inj h).symm⟩)
      · rename_i hid
        split at h
        · cases h
        · rename_i client hclient
          obtain rfl := Option.some.inj h
          refine Or.inr (Or.inr ?_)
          by_cases hseq : msg.seq = 0
          · cases hred : isRedundant msg client with
            | true =>
                refine ⟨_, [], ?_, rfl, rfl, ?_⟩
                · have hred' : isRedundant msg { client with nodeId := msg.nodeId } = true := hred
                  simp only [if_pos hseq, addNovelMessage, hred', if_true]
                  exact .redundant hclient hid hseq hred
                · have hred' : isRedundant msg { client with nodeId := msg.nodeId } = true := hred
                  simp [hseq, addNovelMessage, hred']
            | false =>
                refine ⟨_, [], ?_, rfl, rfl, ?_⟩
                · have hred' : isRedundant msg { client with nodeId := msg.nodeId } = false := hred
                  simp only [if_pos hseq, addNovelMessage, hred', Bool.false_eq_true, if_false]
                  exact .novel hclient hid hseq hred
                · have hred' : isRedundant msg { client with nodeId := msg.nodeId } = false := hred
                  simp [hseq, addNovelMessage, hred']
          · cases hhit : s.hit msg with
            | none =>
                refine ⟨_, _, ?_, rfl, rfl, rfl⟩
                simp only [if_neg hseq, addOldMessage, hhit]
                exact .newest hclient hid hseq hhit
            | some found =>
                refine ⟨_, _, ?_, rfl, rfl, rfl⟩
                have hupdate : Updates s (.data fd msg random) _ _ _ _ :=
                  .held hclient hid hseq hhit
                simp only [if_neg hseq, addOldMessage, hhit]
                by_cases hmatch : found.seq = msg.seq ∧ found.uid = msg.uid
                · cases hequal : found.equal msg <;>
                    simpa [hmatch, hequal] using hupdate
                · simpa [hmatch] using hupdate

/-! ## Pruning and broadcasting -/

/-- The loop of `Broadcast` is a subscriber catching up with the history. -/
theorem broadcastTo_eq (client : Client) (history : List TopologyMessage) :
    broadcastTo client history =
      ({ client with seq := (catchUp TopologyMessage.seq client.seq history).2 },
        (catchUp TopologyMessage.seq client.seq history).1) := by
  induction history generalizing client with
  | nil => rfl
  | cons msg history ih =>
      unfold broadcastTo catchUp
      split
      · rw [ih]
      · exact ih client

section Settle

variable (u : TopologyServer) (fd : Fd)

/-- What `PruneRemoved` and `Broadcast` make of the history. -/
@[simp] theorem settle_mHistory : (settle u).server.mHistory = pruneRemoved u.mHistory := rfl

/-- They mint nothing. -/
@[simp] theorem settle_mNextSeq : (settle u).server.mNextSeq = u.mNextSeq := rfl

/-- A client after `Broadcast`: its mark has caught up with the history. -/
@[simp] theorem lookup_settle :
    (settle u).server.mClients.lookup fd =
      (u.mClients.lookup fd).map fun client =>
        { client with
          seq := (catchUp TopologyMessage.seq client.seq (pruneRemoved u.mHistory)).2 } := by
  simp [settle, broadcast, broadcastTo_eq]

/-- Broadcasting moves the marks and nothing else. -/
theorem exists_lookup_settle {fd : Fd} {client : Client}
    (h : u.mClients.lookup fd = some client) :
    ∃ client', (settle u).server.mClients.lookup fd = some client' ∧
      client'.nodeId = client.nodeId ∧ client'.history = client.history :=
  ⟨{ client with seq := (catchUp TopologyMessage.seq client.seq (pruneRemoved u.mHistory)).2 },
    by simp [h], rfl, rfl⟩

/-- A client after `Broadcast` was one before, and of the same node. -/
theorem of_lookup_settle {fd : Fd} {client' : Client}
    (h : (settle u).server.mClients.lookup fd = some client') :
    ∃ client, u.mClients.lookup fd = some client ∧
      client'.nodeId = client.nodeId ∧ client'.history = client.history := by
  rw [lookup_settle, Option.map_eq_some_iff] at h
  obtain ⟨client, hclient, rfl⟩ := h
  exact ⟨client, hclient, rfl, rfl⟩

/-- `Broadcast` drops no client. -/
@[simp] theorem mem_settle : fd ∈ (settle u).server.mClients ↔ fd ∈ u.mClients := by
  simp [settle, broadcast]

/-- `Broadcast` sends each client what it is behind. -/
theorem settle_sent :
    (settle u).sent fd =
      match u.mClients.lookup fd with
      | some client => (catchUp TopologyMessage.seq client.seq (pruneRemoved u.mHistory)).1
      | none => [] := by
  cases h : u.mClients.lookup fd with
  | none => simp [settle, broadcast, broadcastSent, h]
  | some client => simp [settle, broadcast, broadcastSent, broadcastTo_eq, h]

/-- What is sent stands in the pruned history. -/
theorem mem_settle_sent {msg : TopologyMessage} (h : msg ∈ (settle u).sent fd) :
    msg ∈ pruneRemoved u.mHistory := by
  rw [settle_sent] at h
  split at h
  · exact (mem_catchUp h).1
  · cases h

/-- `Broadcast` has one assertion, and no other can fail in it. -/
theorem settle_failed_only : ∀ assertion ∈ (settle u).failed, assertion = .broadcastSeq := by
  intro assertion hmem
  simp only [settle, broadcast] at hmem
  split at hmem
  · cases hmem
  · exact List.mem_singleton.mp hmem

/-- It holds as long as the history is below the next number. -/
theorem settle_failed (h : ∀ msg ∈ pruneRemoved u.mHistory, msg.seq < u.mNextSeq) :
    (settle u).failed = [] := by
  have hall : ∀ fd ∈ u.mClients.keys, ∀ msg ∈ (settle u).sent fd, msg.seq < u.mNextSeq :=
    fun fd _ msg hmsg => h msg (mem_settle_sent u fd hmsg)
  exact if_pos hall

end Settle

/-! ## The parts of an update -/

section Mint

variable (s : TopologyServer) (ids : List UInt64)

/-- To mint a message is to leave the clients alone. -/
@[simp] theorem mint_mClients (msg : TopologyMessage) : (s.mint msg).mClients = s.mClients := rfl

/-- And so is to mint one LEAVE after another. -/
@[simp] theorem mintLeaves_mClients : (s.mintLeaves ids).1.mClients = s.mClients := by
  induction ids generalizing s with
  | nil => rfl
  | cons id ids ih => exact ih _

/-- The LEAVEs go to the end of the history, in the order of the nodes. -/
theorem mintLeaves_mHistory :
    (s.mintLeaves ids).1.mHistory = s.mHistory ++ (s.mintLeaves ids).2 := by
  induction ids generalizing s with
  | nil => simp [mintLeaves]
  | cons id ids ih => simp [mintLeaves, ih, mint]

/-- There is one LEAVE for each node. -/
@[simp] theorem mintLeaves_length : (s.mintLeaves ids).2.length = ids.length := by
  induction ids generalizing s with
  | nil => rfl
  | cons id ids ih => simp [mintLeaves, ih]

/-- The minted messages are the LEAVEs of the listed nodes. -/
theorem mintLeaves_map_op :
    (s.mintLeaves ids).2.map TopologyMessage.op = ids.map fun id => (leaveMessage id).op := by
  induction ids generalizing s with
  | nil => rfl
  | cons id ids ih => simp [mintLeaves, ih]

/-- The message that is minted for a node reports that it has left. -/
theorem leaveMessage_leaveOf (id : UInt64) : (leaveMessage id).LeaveOf id :=
  ⟨rfl, rfl⟩

/-- LEAVEs of different nodes are different messages. -/
theorem mintLeaves_nodup (hnodup : ids.Nodup) : (s.mintLeaves ids).2.Nodup := by
  refine List.Nodup.of_map TopologyMessage.op ?_
  rw [mintLeaves_map_op]
  refine hnodup.map fun id id' h => ?_
  simpa [leaveMessage] using h

/-- Every LEAVE that was minted is that of one of the nodes. -/
theorem mem_mintLeaves {msg : TopologyMessage} (h : msg ∈ (s.mintLeaves ids).2) :
    ∃ id ∈ ids, msg.LeaveOf id := by
  have hop : msg.op ∈ (s.mintLeaves ids).2.map TopologyMessage.op := List.mem_map_of_mem h
  rw [mintLeaves_map_op] at hop
  obtain ⟨id, hid, heq⟩ := List.mem_map.mp hop
  exact ⟨id, hid, by rw [TopologyMessage.LeaveOf, ← heq]; exact leaveMessage_leaveOf id⟩

/-- A LEAVE is minted without a uid, unlike what clients say of themselves. -/
theorem mintLeaves_uid {msg : TopologyMessage} (h : msg ∈ (s.mintLeaves ids).2) :
    msg.uid = 0 := by
  induction ids generalizing s with
  | nil => cases h
  | cons id ids ih =>
      rcases List.mem_cons.mp h with rfl | h
      · rfl
      · exact ih _ h

/-- And every one of the nodes gets its LEAVE. -/
theorem leaveOf_mem_mintLeaves {id : UInt64} (h : id ∈ ids) :
    ∃ msg ∈ (s.mintLeaves ids).2, msg.LeaveOf id := by
  have hop : (leaveMessage id).op ∈ (s.mintLeaves ids).2.map TopologyMessage.op := by
    rw [mintLeaves_map_op]
    exact List.mem_map_of_mem h
  obtain ⟨msg, hmsg, heq⟩ := List.mem_map.mp hop
  exact ⟨msg, hmsg, by rw [TopologyMessage.LeaveOf, heq]; exact leaveMessage_leaveOf id⟩

/-- Exactly the listed nodes get a LEAVE. -/
theorem exists_leaveOf_mintLeaves {id : UInt64} :
    (∃ msg ∈ (s.mintLeaves ids).2, msg.LeaveOf id) ↔ id ∈ ids := by
  refine ⟨?_, leaveOf_mem_mintLeaves s ids⟩
  rintro ⟨msg, hmem, hleave⟩
  obtain ⟨id', hid', hleave'⟩ := mem_mintLeaves s ids hmem
  exact (MessageOp.Reports.unique hleave hleave').2 ▸ hid'

end Mint

section Updates

variable {s u : TopologyServer} {op : HubOp} {minted accepted : List TopologyMessage}
  {failed : List Assertion}

/-- An update only appends to the history. -/
theorem Updates.history (h : Updates s op u minted accepted failed) :
    u.mHistory = s.mHistory ++ (minted ++ accepted) := by
  cases h with
  | purge hnodup horder => simp [mintLeaves_mHistory]
  | _ => simp [mint]

/-- An update moves no mark; that is left to the broadcast after it. -/
theorem Updates.staying (h : Updates s op u minted accepted failed) (fd : Fd) :
    (u.mClients.lookup fd).map Client.seq = ((s.staying op).lookup fd).map Client.seq := by
  have hinsert : ∀ {fd' : Fd} {client updated : Client},
      s.mClients.lookup fd' = some client → updated.seq = client.seq →
      ((s.mClients.insert fd' updated).lookup fd).map Client.seq =
        (s.mClients.lookup fd).map Client.seq := by
    intro fd' client updated hclient hseq
    by_cases hfd : fd = fd'
    · subst hfd
      simp [hclient, hseq]
    · rw [Finmap.lookup_insert_of_ne _ hfd]
  cases h with
  | redundant hclient _ _ _ => exact hinsert hclient (by rfl)
  | novel hclient _ _ _ => exact hinsert hclient (by rfl)
  | newest hclient _ _ _ => exact hinsert hclient (by rfl)
  | held hclient _ _ _ => exact hinsert hclient (by rfl)
  | disconnect hclient => rfl
  | purge _ _ => rw [mintLeaves_mClients]; rfl

/-- The connections after an update are those that stay. -/
theorem Updates.lookup (h : Updates s op u minted accepted failed) {fd : Fd} {client' : Client}
    (hlookup : u.mClients.lookup fd = some client') :
    ∃ client, (s.staying op).lookup fd = some client ∧ client'.seq = client.seq := by
  have hseq := h.staying fd
  rw [hlookup, Option.map_some, eq_comm, Option.map_eq_some_iff] at hseq
  obtain ⟨client, hclient, heq⟩ := hseq
  exact ⟨client, hclient, heq.symm⟩

/-- A client that stays is there after the update, with the mark it had; `Broadcast` comes
later. -/
theorem Updates.exists_lookup (h : Updates s op u minted accepted failed) {fd : Fd}
    {client : Client} (hlookup : (s.staying op).lookup fd = some client) :
    ∃ updated, u.mClients.lookup fd = some updated ∧ updated.seq = client.seq := by
  have hseq := h.staying fd
  rw [hlookup, Option.map_some, Option.map_eq_some_iff] at hseq
  exact hseq

/-- Data come from a connection that stays open. -/
theorem Updates.exists_client {fd : Fd} {msg : TopologyMessage} {random : UInt64}
    (h : Updates s (.data fd msg random) u minted accepted failed) :
    ∃ client, (s.staying (.data fd msg random)).lookup fd = some client := by
  cases h with
  | redundant hclient _ _ _ => exact ⟨_, hclient⟩
  | novel hclient _ _ _ => exact ⟨_, hclient⟩
  | newest hclient _ _ _ => exact ⟨_, hclient⟩
  | held hclient _ _ _ => exact ⟨_, hclient⟩

/-- An update credits a client with nothing but what it adds, and takes it for
the node it names. -/
theorem Updates.client (h : Updates s op u minted accepted failed) {fd : Fd} {updated : Client}
    (hlookup : u.mClients.lookup fd = some updated) :
    ∃ client, (s.staying op).lookup fd = some client ∧
      updated.nodeId = op.naming fd client.nodeId ∧
      ∀ msg ∈ updated.history, msg ∈ client.history ∨ msg ∈ minted ++ accepted := by
  have hinsert : ∀ {fd' : Fd} {client updated' : Client} {msg : TopologyMessage} {random : UInt64}
      {added : List TopologyMessage}, s.mClients.lookup fd' = some client → msg.nodeId ≠ 0 →
      updated'.nodeId = msg.nodeId → updated'.history = client.history ++ added →
      (s.mClients.insert fd' updated').lookup fd = some updated →
      ∃ client, s.mClients.lookup fd = some client ∧
        updated.nodeId = (HubOp.data fd' msg random).naming fd client.nodeId ∧
        ∀ msg ∈ updated.history, msg ∈ client.history ∨ msg ∈ added := by
    intro fd' client updated' msg random added hclient hid hnode hhistory hlookup
    by_cases hfd : fd = fd'
    · subst hfd
      rw [Finmap.lookup_insert] at hlookup
      obtain rfl := Option.some.inj hlookup
      refine ⟨client, hclient, by simp [HubOp.naming, hnode, hid], fun m hm => ?_⟩
      rw [hhistory] at hm
      exact List.mem_append.mp hm
    · rw [Finmap.lookup_insert_of_ne _ hfd] at hlookup
      exact ⟨updated, hlookup, by simp [HubOp.naming, Ne.symm hfd], fun m hm => Or.inl hm⟩
  cases h with
  | redundant hclient hid _ _ => exact hinsert hclient hid (by rfl) (by simp) hlookup
  | novel hclient hid _ _ => exact hinsert hclient hid (by rfl) (by rfl) hlookup
  | newest hclient hid _ _ => exact hinsert hclient hid (by rfl) (by rfl) hlookup
  | held hclient hid _ _ => exact hinsert hclient hid (by rfl) (by simp) hlookup
  | disconnect _ => exact ⟨updated, hlookup, rfl, fun m hm => Or.inl hm⟩
  | purge _ _ =>
      rw [mintLeaves_mClients] at hlookup
      exact ⟨updated, hlookup, rfl, fun m hm => Or.inl hm⟩

/-- What an update puts into the history was announced by state and call. -/
theorem Updates.incoming (h : Updates s op u minted accepted failed) :
    minted ++ accepted = s.incoming op := by
  cases h with
  | redundant hclient hid hseq hredundant =>
      simp [TopologyServer.incoming, hclient, hid, hseq, hredundant]
  | novel hclient hid hseq hredundant =>
      simp [TopologyServer.incoming, hclient, hid, hseq, hredundant]
  | newest hclient hid hseq hhit =>
      simp [TopologyServer.incoming, hclient, hid, hseq, hhit]
  | held hclient hid hseq hhit =>
      simp [TopologyServer.incoming, hclient, hid, hseq, hhit]
  | disconnect hclient => simp [TopologyServer.incoming, hclient]
  | purge _ _ => simp [TopologyServer.incoming]

/-- Opening a connection is no update. -/
theorem Updates.ne_connect (h : Updates s op u minted accepted failed) (fd : Fd) :
    op ≠ .connect fd := by
  rintro rfl
  cases h

/-- The connections once an update has settled. -/
theorem Updates.lookup_settled (h : Updates s op u minted accepted failed) {fd : Fd}
    {client' : Client} (hlookup : (settle u).server.mClients.lookup fd = some client') :
    ∃ client, (s.staying op).lookup fd = some client ∧
      client'.seq = (catchUp TopologyMessage.seq client.seq (pruneRemoved u.mHistory)).2 ∧
      (settle u).sent fd =
        (catchUp TopologyMessage.seq client.seq (pruneRemoved u.mHistory)).1 := by
  rw [lookup_settle, Option.map_eq_some_iff] at hlookup
  obtain ⟨updated, hupdated, rfl⟩ := hlookup
  obtain ⟨client, hclient, hseq⟩ := h.lookup hupdated
  refine ⟨client, hclient, by rw [hseq], ?_⟩
  rw [settle_sent, hupdated, ← hseq]

/-- No update adds the same message twice. -/
theorem Updates.nodup (h : Updates s op u minted accepted failed) :
    (minted ++ accepted).Nodup := by
  cases h with
  | purge hnodup _ =>
      rw [List.append_nil]
      exact mintLeaves_nodup _ _ (hnodup.filter _)
  | _ => simp

end Updates

/-- A call adds what state and call announced. -/
theorem perform_incoming {s : TopologyServer} {op : HubOp} {o : Outcome}
    (h : s.perform op = some o) : o.added = s.incoming op := by
  rcases perform_cases h with ⟨fd, rfl, _, rfl⟩ | ⟨fd, msg, random, rfl, hid, rfl⟩ |
    ⟨u, failed, hupdate, _, _, _⟩
  · rfl
  · cases hclient : s.mClients.lookup fd <;> simp [Outcome.added, incoming, hclient, hid]
  · exact hupdate.incoming

section Perform

variable {s : TopologyServer} {op : HubOp} {o : Outcome}

/-- What a call does to the history. -/
theorem perform_mHistory (h : s.perform op = some o) :
    s.incoming op = [] ∧ o.server.mHistory = s.mHistory ∨
      o.server.mHistory = pruneRemoved (s.mHistory ++ s.incoming op) := by
  have hadded := perform_incoming h
  rcases perform_cases h with ⟨fd, rfl, _, rfl⟩ | ⟨fd, msg, random, rfl, _, rfl⟩ |
    ⟨u, failed, hupdate, hserver, _, _⟩
  · exact Or.inl ⟨rfl, rfl⟩
  · exact Or.inl ⟨hadded.symm, rfl⟩
  · refine Or.inr ?_
    rw [hserver, settle_mHistory, hupdate.history, hupdate.incoming]

/-- Nothing but what is added enters the history. -/
theorem perform_sublist (h : s.perform op = some o) :
    o.server.mHistory.Sublist (s.mHistory ++ o.added) := by
  rw [perform_incoming h]
  rcases perform_mHistory h with ⟨_, hhistory⟩ | hhistory
  · rw [hhistory]
    exact List.sublist_append_left _ _
  · rw [hhistory]
    exact pruneRemoved_sublist

/-- What is in the history after a call was there before or came in with it. -/
theorem perform_mem (h : s.perform op = some o) {msg : TopologyMessage}
    (hmem : msg ∈ o.server.mHistory) : msg ∈ s.mHistory ∨ msg ∈ o.added :=
  List.mem_append.mp ((perform_sublist h).subset hmem)

/-- All that a call sends stood in the history or was added. -/
theorem perform_sent (h : s.perform op = some o) {fd : Fd} {msg : TopologyMessage}
    (hmem : msg ∈ o.sent fd) : msg ∈ s.mHistory ∨ msg ∈ o.added := by
  rcases perform_cases h with ⟨fd', rfl, _, rfl⟩ | ⟨fd', msg', random, rfl, _, rfl⟩ |
    ⟨u, failed, hupdate, _, hsent, _⟩
  · simp only [onConnect] at hmem
    split at hmem
    · exact Or.inl hmem
    · cases hmem
  · cases hmem
  · rw [hsent] at hmem
    have hpruned := pruneRemoved_sublist.subset (mem_settle_sent u fd hmem)
    rw [hupdate.history] at hpruned
    exact List.mem_append.mp hpruned

/-- A minted message has no uid, or it is the only one and has the uid drawn. -/
theorem perform_minted (h : s.perform op = some o) {new : TopologyMessage}
    (hmem : new ∈ o.minted) :
    new.uid = 0 ∨ ∃ fd msg random, op = .data fd msg random ∧ msg.seq = 0 ∧
      o.minted = [new] ∧ new.uid = random := by
  rcases perform_cases h with ⟨fd', rfl, _, rfl⟩ | ⟨fd', msg', random, rfl, _, rfl⟩ |
    ⟨u, failed, hupdate, _, _, _⟩
  · cases hmem
  · cases hmem
  · generalize o.minted = minted at hupdate hmem ⊢
    generalize o.accepted = accepted at hupdate
    cases hupdate with
    | redundant _ _ _ _ => cases hmem
    | newest _ _ _ _ => cases hmem
    | held _ _ _ _ => cases hmem
    | novel _ _ hseq _ =>
        obtain rfl := List.mem_singleton.mp hmem
        exact Or.inr ⟨_, _, _, rfl, hseq, rfl, rfl⟩
    | disconnect _ =>
        obtain rfl := List.mem_singleton.mp hmem
        exact Or.inl rfl
    | purge _ _ => exact Or.inl (mintLeaves_uid _ _ hmem)

/-- An accepted message is the one received, and not a fresh one. -/
theorem perform_accepted (h : s.perform op = some o) {msg : TopologyMessage}
    (hmem : msg ∈ o.accepted) : ∃ fd random, op = .data fd msg random ∧ msg.seq ≠ 0 := by
  rcases perform_cases h with ⟨fd', rfl, _, rfl⟩ | ⟨fd', msg', random, rfl, _, rfl⟩ |
    ⟨u, failed, hupdate, _, _, _⟩
  · cases hmem
  · cases hmem
  · generalize o.minted = minted at hupdate
    generalize o.accepted = accepted at hupdate hmem
    cases hupdate with
    | newest _ _ hseq _ =>
        obtain rfl := List.mem_singleton.mp hmem
        exact ⟨_, _, rfl, hseq⟩
    | _ => cases hmem

/-- The nodes with a LEAVE after a call. -/
theorem perform_leftNodes (h : s.perform op = some o) :
    leftNodes o.server.mHistory = leftNodes s.mHistory ∪ leftNodes (s.incoming op) := by
  rcases perform_mHistory h with ⟨hnone, hhistory⟩ | hhistory
  · simp [hhistory, hnone, leftNodes]
  · rw [hhistory, leftNodes_pruneRemoved, leftNodes_append]

/-- A JOIN of a node without a LEAVE is not lost. -/
theorem perform_join_mem (h : s.perform op = some o) {id : UInt64} {msg : TopologyMessage}
    (hmem : msg ∈ s.mHistory ++ s.incoming op) (hjoin : msg.JoinOf id)
    (hleft : id ∉ leftNodes o.server.mHistory) : msg ∈ o.server.mHistory := by
  rcases perform_mHistory h with ⟨hnone, hhistory⟩ | hhistory
  · rw [hnone, List.append_nil] at hmem
    exact hhistory.symm ▸ hmem
  · rw [hhistory, leftNodes_pruneRemoved] at hleft
    exact hhistory.symm ▸ join_mem_pruneRemoved hmem hjoin hleft

/-- The connections of a hub after one was opened: that one, with nothing
remembered, and those before it. -/
theorem of_lookup_onConnect {fd fd' : Fd} (hfd : fd ∉ s.mClients) {client' : Client}
    (h : (s.onConnect fd).server.mClients.lookup fd' = some client') :
    (fd' = fd ∧ client' = { seq := (sendHistory 0 s.mHistory).1 }) ∨
      (fd' ≠ fd ∧ s.mClients.lookup fd' = some client') := by
  by_cases hne : fd' = fd
  · subst hne
    simp only [onConnect, Finmap.lookup_eq_none.mpr hfd, Option.getD_none,
      Finmap.lookup_insert, Option.some.injEq] at h
    exact Or.inl ⟨rfl, h.symm⟩
  · simp only [onConnect, Finmap.lookup_insert_of_ne _ hne] at h
    exact Or.inr ⟨hne, h⟩

/-- What a call does to a connection: it opens it, or leaves it with the node named last and with
what the client sent before, the packet in hand perhaps added. -/
theorem perform_client (h : s.perform op = some o) {fd : Fd} {client' : Client}
    (hlookup : o.server.mClients.lookup fd = some client') :
    (op = .connect fd ∧ client'.nodeId = 0 ∧ client'.history = []) ∨
      ∃ client, (s.staying op).lookup fd = some client ∧ op ≠ .connect fd ∧
        client'.nodeId = op.naming fd client.nodeId ∧
        ∀ msg ∈ client'.history, msg ∈ client.history ∨ msg ∈ s.incoming op := by
  rcases perform_cases h with ⟨fd', rfl, hfd, rfl⟩ | ⟨fd', msg, random, rfl, hid, rfl⟩ |
    ⟨u, failed, hupdate, hserver, _, _⟩
  · rcases of_lookup_onConnect hfd hlookup with ⟨rfl, rfl⟩ | ⟨hne, hlookup⟩
    · exact Or.inl ⟨rfl, rfl, rfl⟩
    · refine Or.inr ⟨client', hlookup, ?_, rfl, fun m hm => Or.inl hm⟩
      simp [Ne.symm hne]
  · refine Or.inr ⟨client', hlookup, by simp, ?_, fun m hm => Or.inl hm⟩
    simp [HubOp.naming, hid]
  · rw [hserver] at hlookup
    obtain ⟨updated, hupdated, hnode, hhistory⟩ := of_lookup_settle u hlookup
    obtain ⟨client, hclient, hnaming, hcredit⟩ := hupdate.client hupdated
    refine Or.inr ⟨client, hclient, hupdate.ne_connect fd, hnode.trans hnaming, ?_⟩
    rw [hhistory, ← hupdate.incoming]
    exact hcredit

/-- A connection that stays is still there, with whatever the broadcast has made of its mark. -/
theorem perform_staying (h : s.perform op = some o) {fd : Fd} {client : Client}
    (hlookup : (s.staying op).lookup fd = some client) :
    ∃ client', o.server.mClients.lookup fd = some client' := by
  rcases perform_cases h with ⟨fd', rfl, hfd, rfl⟩ | ⟨fd', msg, random, rfl, hid, rfl⟩ |
    ⟨u, failed, hupdate, hserver, _, _⟩
  · have hne : fd ≠ fd' := by
      rintro rfl
      exact hfd (Finmap.mem_iff.mpr ⟨client, hlookup⟩)
    exact ⟨client, (Finmap.lookup_insert_of_ne _ hne).trans hlookup⟩
  · exact ⟨client, hlookup⟩
  · obtain ⟨updated, hupdated, _⟩ := hupdate.exists_lookup hlookup
    obtain ⟨client', hclient', _⟩ := exists_lookup_settle u hupdated
    exact ⟨client', hserver ▸ hclient'⟩

end Perform

/-- The server after a call. -/
def step (s : TopologyServer) (op : HubOp) : Option TopologyServer :=
  (s.perform op).map Outcome.server

/-- A step is a call, without what it sends. -/
theorem step_eq_some {s s' : TopologyServer} {op : HubOp} :
    s.step op = some s' ↔ ∃ o, s.perform op = some o ∧ o.server = s' := by
  simp [step]

end TopologyServer

/-! ## Packets -/

/-- A call of the hub with the bytes of a packet still to be parsed. -/
inductive HubCall
  | onConnect (fd : Fd)
  | onData (fd : Fd) (data : List UInt8) (random : UInt64)
  | onDisconnect (fd : Fd)
  | purgeDisconnected (order : List UInt64)

/-- A call on bytes; `parse` is what `ParseFromArray` leaves in the message. -/
def TopologyServer.call (parse : List UInt8 → TopologyMessage) (s : TopologyServer) :
    HubCall → Option Outcome
  | .onConnect fd => s.perform (.connect fd)
  | .onData fd data random => s.onData parse fd data random
  | .onDisconnect fd => s.perform (.disconnect fd)
  | .purgeDisconnected order => s.perform (.purge order)

/-- A call does nothing, on an empty packet, or performs an operation. -/
theorem TopologyServer.call_cases {parse : List UInt8 → TopologyMessage} {s : TopologyServer}
    {call : HubCall} {o : Outcome} (h : s.call parse call = some o) :
    o = { server := s } ∨
      ∃ op, s.perform op = some o ∧ ∀ fd msg random, op = .data fd msg random →
        ∃ data, call = .onData fd data random ∧ data.length ≠ 0 ∧ parse data = msg := by
  cases call with
  | onConnect fd => exact Or.inr ⟨.connect fd, h, fun _ _ _ heq => by cases heq⟩
  | onDisconnect fd => exact Or.inr ⟨.disconnect fd, h, fun _ _ _ heq => by cases heq⟩
  | purgeDisconnected order => exact Or.inr ⟨.purge order, h, fun _ _ _ heq => by cases heq⟩
  | onData fd data random =>
      simp only [call, onData] at h
      split at h
      · exact Or.inl (Option.some.inj h).symm
      · rename_i hlen
        refine Or.inr ⟨.data fd (parse data) random, h, fun fd' msg random' heq => ?_⟩
        cases heq
        exact ⟨data, rfl, hlen, rfl⟩

/-! ## What the connections are sent -/

/-- A server and what it has sent on each connection since that was opened. -/
structure Hub where
  server : TopologyServer
  sent : Fd → List TopologyMessage := fun _ => []

namespace Hub

/-- A hub that has just been created. -/
def start (digest : List TopologyMessage) : Hub where
  server := .create digest

/-- Record what an operation sent; a connection starts with an empty record. -/
def observe (hub : Hub) (op : HubOp) (o : Outcome) : Hub where
  server := o.server
  sent := fun fd => (if op = .connect fd then [] else hub.sent fd) ++ o.sent fd

def step (hub : Hub) (op : HubOp) : Option Hub :=
  (hub.server.perform op).map (hub.observe op)

/-- What a client was sent in all: before the call, or by it. -/
theorem mem_observe_sent {hub : Hub} {op : HubOp} {o : Outcome} {fd : Fd}
    {msg : TopologyMessage} (h : msg ∈ (hub.observe op o).sent fd) :
    msg ∈ hub.sent fd ∨ msg ∈ o.sent fd := by
  rcases List.mem_append.mp h with hold | hnew
  · split at hold
    · cases hold
    · exact Or.inl hold
  · exact Or.inr hnew

/-- A step of the hub with its clients is a call and what is then on its way. -/
theorem step_eq_some {hub hub' : Hub} {op : HubOp} :
    hub.step op = some hub' ↔
      ∃ o, hub.server.perform op = some o ∧ hub.observe op o = hub' := by
  simp [step]

end Hub

end IpcPubsub
