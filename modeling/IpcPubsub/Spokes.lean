import IpcPubsub.Minting
import IpcPubsub.Observers

/-!
# Nodes on their way through the hub

A node has its own manager and one connection to the hub, with a queue of
packets in either direction.  It introduces itself once, at any time, with
whatever it has received by then, and then sends topic changes.

`Logged` is what the hub's messages say about one node: at most one JOIN, and a
LEAVE only after it, once the node has joined and its connection is down.
-/

namespace IpcPubsub

open CursorLog

/-- The one connection of a node. -/
inductive Link
  | apart
  | up (fd : Fd)
  | down
  deriving DecidableEq

/-- How far the introduction of a node has come. -/
inductive Phase
  /-- The node has not sent it. -/
  | silent
  /-- It is on its way; the hub has handled none of it. -/
  | introduced
  /-- The hub has handled some of the re-sent history. -/
  | heard
  /-- The hub has handled the JOIN. -/
  | joined
  deriving DecidableEq

/-- A node as seen from its connection. -/
structure Spoke where
  manager : TopologyManager
  link : Link := .apart
  phase : Phase := .silent
  /-- The packets on their way to the hub. -/
  toHub : List TopologyMessage := []
  /-- The packets on their way to the node. -/
  fromHub : List TopologyMessage := []
  /-- The messages the manager has applied. -/
  received : List TopologyMessage := []
  /-- The handler calls the manager has made. -/
  calls : List Callback := []

namespace Spoke

/-- What the hub has just sent is on its way to the node. -/
def transmit (spoke : Spoke) (sent : Fd → List TopologyMessage) : Spoke :=
  match spoke.link with
  | .up fd => { spoke with fromHub := spoke.fromHub ++ sent fd }
  | _ => spoke

/-- `IntroduceOurselves`. -/
def introduce (spoke : Spoke) (pubs : List Publication) (subs : List String) : Spoke :=
  { spoke with
    phase := .introduced
    toHub := spoke.toHub ++ spoke.manager.introduceOurselves pubs subs }

/-- `Announce`, `Retract`, `Subscribe` and `Unsubscribe`. -/
def request (spoke : Spoke) (op : TopicOperation) (topic mime : String) : Spoke :=
  { spoke with toHub := spoke.toHub ++ [spoke.manager.topicMessage op topic mime] }

/-- `ApplyUpdate` on the next packet from the hub. -/
def deliver (spoke : Spoke) (msg : TopologyMessage) (rest : List TopologyMessage) : Spoke :=
  { spoke with
    manager := (spoke.manager.applyUpdate msg).1
    fromHub := rest
    received := spoke.received ++ [msg]
    calls := spoke.calls ++ (spoke.manager.applyUpdate msg).2 }

/-- The hub takes the next packet of the node. -/
def handle (spoke : Spoke) (msg : TopologyMessage) (rest : List TopologyMessage) : Spoke :=
  { spoke with
    toHub := rest
    phase :=
      if spoke.phase = .joined ∨ msg.seq = 0 ∧ msg.JoinOf spoke.manager.mNodeId then .joined
      else .heard }

end Spoke

section Transmit

variable (spoke : Spoke) (sent : Fd → List TopologyMessage)

/-- What the hub sends a node waits on its way, and leaves the node as it is. -/
@[simp] theorem Spoke.transmit_manager : (spoke.transmit sent).manager = spoke.manager := by
  unfold transmit
  split <;> rfl

@[simp] theorem Spoke.transmit_link : (spoke.transmit sent).link = spoke.link := by
  unfold transmit
  split <;> rfl

@[simp] theorem Spoke.transmit_phase : (spoke.transmit sent).phase = spoke.phase := by
  unfold transmit
  split <;> rfl

@[simp] theorem Spoke.transmit_toHub : (spoke.transmit sent).toHub = spoke.toHub := by
  unfold transmit
  split <;> rfl

@[simp] theorem Spoke.transmit_received : (spoke.transmit sent).received = spoke.received := by
  unfold transmit
  split <;> rfl

@[simp] theorem Spoke.transmit_calls : (spoke.transmit sent).calls = spoke.calls := by
  unfold transmit
  split <;> rfl

/-- A node that is connected is sent what the hub has for its descriptor. -/
theorem Spoke.transmit_fromHub_up {fd : Fd} (h : spoke.link = .up fd) :
    (spoke.transmit sent).fromHub = spoke.fromHub ++ sent fd := by
  simp [transmit, h]

/-- One that is not connected is sent nothing. -/
theorem Spoke.transmit_eq_self (h : ∀ fd, spoke.link ≠ .up fd) : spoke.transmit sent = spoke := by
  unfold transmit
  split
  · rename_i fd hlink
    exact absurd hlink (h fd)
  · rfl

end Transmit

/-! ## What is minted about a node -/

/-- At most one JOIN of the node was minted, and its LEAVE after it. -/
structure Logged (minted : List TopologyMessage) (id : UInt64) (spoke : Spoke) : Prop where
  join_iff : (∃ msg ∈ minted, msg.JoinOf id) ↔ spoke.phase = .joined
  join_once : minted.countP (TopologyMessage.JoinOf id) ≤ 1
  leave_iff : id ≠ 0 →
    ((∃ msg ∈ minted, msg.LeaveOf id) ↔ spoke.phase = .joined ∧ spoke.link = .down)
  order : ∀ join ∈ minted, ∀ leave ∈ minted, join.JoinOf id → leave.LeaveOf id →
    join.seq < leave.seq

section Logged

variable {minted more : List TopologyMessage} {id : UInt64} {spoke spoke' : Spoke}

/-- What the hub has minted about a node depends on whether it has joined and whether it has
hung up. -/
theorem Logged.congr (h : Logged minted id spoke)
    (hphase : spoke'.phase = .joined ↔ spoke.phase = .joined)
    (hlink : spoke'.link = .down ↔ spoke.link = .down) : Logged minted id spoke' := by
  obtain ⟨hjoin, honce, hleave, horder⟩ := h
  exact ⟨hjoin.trans hphase.symm, honce, by rwa [hphase, hlink], horder⟩

/-- Messages about other nodes are added, which change neither the JOIN nor the LEAVE of this one. -/
theorem Logged.append_other (h : Logged minted id spoke)
    (hincreasing : Increasing TopologyMessage.seq (minted ++ more))
    (hjoin : ∀ msg ∈ more, ¬ msg.JoinOf id)
    (hleave : id ≠ 0 → ∀ msg ∈ more, ¬ msg.LeaveOf id) : Logged (minted ++ more) id spoke := by
  have hlater := (List.pairwise_append.mp hincreasing).2.2
  have hcount : more.countP (TopologyMessage.JoinOf id) = 0 := by
    simpa [List.countP_eq_zero] using hjoin
  constructor
  · rw [← h.join_iff]
    constructor
    · intro ⟨msg, hmem, hmsg⟩
      rcases List.mem_append.mp hmem with hmem | hmem
      · exact ⟨msg, hmem, hmsg⟩
      · exact absurd hmsg (hjoin msg hmem)
    · intro ⟨msg, hmem, hmsg⟩
      exact ⟨msg, List.mem_append_left _ hmem, hmsg⟩
  · rw [List.countP_append, hcount]
    exact h.join_once
  · intro hid
    rw [← h.leave_iff hid]
    constructor
    · intro ⟨msg, hmem, hmsg⟩
      rcases List.mem_append.mp hmem with hmem | hmem
      · exact ⟨msg, hmem, hmsg⟩
      · exact absurd hmsg (hleave hid msg hmem)
    · intro ⟨msg, hmem, hmsg⟩
      exact ⟨msg, List.mem_append_left _ hmem, hmsg⟩
  · intro join hjoinMem leave hleaveMem hjoinOf hleaveOf
    rcases List.mem_append.mp hjoinMem with hjoinMem | hjoinMem
    · rcases List.mem_append.mp hleaveMem with hleaveMem | hleaveMem
      · exact h.order join hjoinMem leave hleaveMem hjoinOf hleaveOf
      · exact hlater join hjoinMem leave hleaveMem
    · exact absurd hjoinOf (hjoin join hjoinMem)

/-- The JOIN of the node is added, and with it the node counts as joined. -/
theorem Logged.append_join (h : Logged minted id spoke) (hid : id ≠ 0)
    (hphase : spoke.phase ≠ .joined) {join : TopologyMessage} (hjoin : join.JoinOf id)
    (hphase' : spoke'.phase = .joined) (hlink' : spoke'.link ≠ .down) :
    Logged (minted ++ [join]) id spoke' := by
  have hnoJoin : ∀ msg ∈ minted, ¬ msg.JoinOf id :=
    fun msg hmem hmsg => hphase (h.join_iff.mp ⟨msg, hmem, hmsg⟩)
  have hnoLeave : ∀ msg ∈ minted ++ [join], ¬ msg.LeaveOf id := by
    intro msg hmem hmsg
    rcases List.mem_append.mp hmem with hmem | hmem
    · exact hphase ((h.leave_iff hid).mp ⟨msg, hmem, hmsg⟩).1
    · obtain rfl := List.mem_singleton.mp hmem
      cases (MessageOp.Reports.unique hjoin hmsg).1
  constructor
  · exact iff_of_true ⟨join, by simp, hjoin⟩ hphase'
  · have hnone : minted.countP (TopologyMessage.JoinOf id) = 0 := by
      simpa [List.countP_eq_zero] using hnoJoin
    rw [List.countP_append, hnone, List.countP_singleton]
    split <;> omega
  · intro _
    exact iff_of_false (fun ⟨msg, hmem, hmsg⟩ => hnoLeave msg hmem hmsg) fun hboth => hlink' hboth.2
  · intro _ _ leave hmem _ hleave
    exact absurd hleave (hnoLeave leave hmem)

/-- The LEAVE of the node is added behind its JOIN, and its connection is gone. -/
theorem Logged.append_leave (h : Logged minted id spoke) (hphase : spoke.phase = .joined)
    {leave : TopologyMessage} (hleave : leave.LeaveOf id)
    (hincreasing : Increasing TopologyMessage.seq (minted ++ [leave]))
    (hphase' : spoke'.phase = .joined) (hlink' : spoke'.link = .down) :
    Logged (minted ++ [leave]) id spoke' := by
  have hnotJoin : ¬ leave.JoinOf id := by
    intro hjoin
    cases (MessageOp.Reports.unique hjoin hleave).1
  have hlater := (List.pairwise_append.mp hincreasing).2.2
  obtain ⟨join, hmem, hjoin⟩ := h.join_iff.mpr hphase
  constructor
  · exact iff_of_true ⟨join, List.mem_append_left _ hmem, hjoin⟩ hphase'
  · rw [List.countP_append, List.countP_singleton]
    simpa [hnotJoin] using h.join_once
  · intro _
    exact iff_of_true ⟨leave, by simp, hleave⟩ ⟨hphase', hlink'⟩
  · intro join hjoinMem leave' hleaveMem hjoinOf hleaveOf
    rcases List.mem_append.mp hjoinMem with hjoinMem | hjoinMem
    · rcases List.mem_append.mp hleaveMem with hleaveMem | hleaveMem
      · exact h.order join hjoinMem leave' hleaveMem hjoinOf hleaveOf
      · exact hlater join hjoinMem leave' hleaveMem
    · obtain rfl := List.mem_singleton.mp hjoinMem
      exact absurd hjoinOf hnotJoin

end Logged

end IpcPubsub
