import IpcPubsub.HubMemory
import IpcPubsub.TopologyWire

/-!
# Topic changes across the failure of a hub

The message of a public call moves from the backlog to the hub's queue, into its
history, and back to the manager as an echo.  It is held if it is in one of
these places; then the next hub can still learn of it.  A hub mints a number and
a uid for it, so in a history it is the message with the uid under which a hub
has read the call.

A successful send keeps no copy.  Until the echo has been applied the message is
with the hub alone, and goes with it.  `SafeLoss` lists when a hub loses a packet or a
change, each time by what is in its queues and by what the manager has got back, and
`no_lost_change` shows that nothing else loses a change.
-/

namespace IpcPubsub

open GuardedRuns FiniteMap TopologyServer

/-- The message is the change of the call, as the hub has read it. -/
def ReadCall.Stores (entry : ReadCall) (request : Request) (stored : TopologyMessage) : Prop :=
  entry.call = request.number ∧ stored.uid = entry.uid ∧ stored.op = request.msg.op

instance (entry : ReadCall) (request : Request) : DecidablePred (entry.Stores request) :=
  fun _ => inferInstanceAs (Decidable (_ ∧ _))

/-- No packet of a public call waits to be read. -/
def Connection.Idle (conn : Connection) : Prop := ∀ packet ∈ conn.toHub, packet.call = none

instance : DecidablePred Connection.Idle :=
  fun _ => inferInstanceAs (Decidable (∀ packet ∈ _, _))

/-- A hub will take a fresh change into its history, or has one that says the same and
stands: it does not drop the change as a repeat of what was withdrawn since. -/
def TopologyServer.Takes (s : TopologyServer) (fd : Fd) (msg : TopologyMessage) : Prop :=
  s.Repeats fd msg → (s.standing msg).map TopologyMessage.op = some msg.op

instance (s : TopologyServer) (fd : Fd) : DecidablePred (s.Takes fd) :=
  fun _ => inferInstanceAs (Decidable (_ → _))

namespace Failover

/-! ## Where a message is held -/

/-- The message is in the backlog, or in the copy that is being flushed. -/
def Waits (s : Failover) (request : Request) : Prop := request ∈ s.threads.pending

/-- The packet is that of the call. -/
def Carries (codec : TopologyCodec) (packet : Packet) (request : Request) : Prop :=
  packet.call = some request.number ∧ packet.data = codec.serialize request.msg

/-- The packet of the call is on its way to a live hub. -/
def InFlight (codec : TopologyCodec) (s : Failover) (request : Request) : Prop :=
  ∃ conn ∈ s.connections, (s.server conn.hub).isSome ∧
    ∃ packet ∈ conn.toHub, Carries codec packet request

/-- The change is in the history of a live hub that has read the call. -/
def AtHub (s : Failover) (request : Request) : Prop :=
  ∃ entry ∈ s.read, ∃ server ∈ s.server entry.hub, ∃ stored ∈ server.mHistory,
    entry.Stores request stored

/-- The change is in the manager's own history: its echo has been applied. -/
def Applied (s : Failover) (request : Request) : Prop :=
  ∃ entry ∈ s.read, ∃ stored ∈ s.manager.mHistory, entry.Stores request stored

def Held (codec : TopologyCodec) (s : Failover) (request : Request) : Prop :=
  s.Waits request ∨ s.InFlight codec request ∨ s.AtHub request ∨ s.Applied request

/-- **No topic change is lost.** -/
def NoneLost (codec : TopologyCodec) (s : Failover) : Prop :=
  ∀ request ∈ s.completed, s.Held codec request

/-! ## When a hub loses something -/

/-- The manager has applied the echo of every call that the hub has read. -/
def Confirmed (s : Failover) (hub : Nat) : Prop :=
  ∀ entry ∈ s.read, entry.hub = hub → ∀ request ∈ s.completed,
    entry.call = request.number → s.Applied request

/-- What an event must meet not to lose a change.

A hub that dies has read all packets of public calls, and their echoes have been applied.
A connection is given up only when no packet of a public call waits on it.  Topic changes are
pruned only once the echoes of all that the hub has read have been applied.  The packet of a
public call fits the buffer, names a node, is not pruned at once, and is no repeat of a change
that was withdrawn since. -/
def SafeLoss (codec : TopologyCodec) (s : Failover) : FailoverEvent → Prop
  | .performs hub op => ∀ server ∈ s.server hub,
      server.Prunes s.manager.mNodeId op → s.Confirmed hub
  | .handles c random => ∀ conn ∈ s.connections[c]?, ∀ server ∈ s.server conn.hub,
      ∀ packet ∈ conn.toHub.head?,
        let msg := (codec.readPacket packet.data).2
        let op : HubOp := .data conn.fd msg random
        (server.Prunes s.manager.mNodeId op → s.Confirmed conn.hub) ∧
          (packet.call ≠ none → packet.data.length ≤ uint16Max ∧ s.manager.mNodeId ≠ 0 ∧
            ¬ server.Prunes s.manager.mNodeId op ∧ server.Takes conn.fd msg)
  | .hangsUp c => ∀ conn ∈ s.connections[c]?, ∀ server ∈ s.server conn.hub,
      conn.Idle ∧ (server.Prunes s.manager.mNodeId (.disconnect conn.fd) → s.Confirmed conn.hub)
  | .dies hub => (∀ conn ∈ s.connections, conn.hub = hub → conn.Idle) ∧ s.Confirmed hub
  | _ => True

section Decidable

variable (codec : TopologyCodec) (s : Failover)

instance (packet : Packet) : DecidablePred (Carries codec packet) :=
  fun _ => inferInstanceAs (Decidable (_ ∧ _))

instance : DecidablePred s.Applied :=
  fun _ => inferInstanceAs (Decidable (∃ entry ∈ s.read, ∃ stored ∈ s.manager.mHistory, _))

instance : DecidablePred (s.Held codec) :=
  fun request => inferInstanceAs (Decidable (request ∈ s.threads.pending ∨
    (∃ conn ∈ s.connections, _ ∧ ∃ packet ∈ conn.toHub, _) ∨
    (∃ entry ∈ s.read, ∃ server ∈ s.server entry.hub, ∃ stored ∈ server.mHistory, _) ∨
    s.Applied request))

instance : DecidablePred (NoneLost codec) :=
  fun s => inferInstanceAs (Decidable (∀ request ∈ s.completed, _))

instance : DecidablePred s.Confirmed :=
  fun _ => inferInstanceAs (Decidable (∀ entry ∈ s.read, _ → ∀ request ∈ s.completed, _ → _))

instance : DecidablePred (s.SafeLoss codec)
  | .performs hub _ => inferInstanceAs (Decidable (∀ server ∈ s.server hub, _ → _))
  | .handles c _ => inferInstanceAs (Decidable (∀ conn ∈ s.connections[c]?,
      ∀ server ∈ s.server conn.hub, ∀ packet ∈ conn.toHub.head?, (_ → _) ∧ (_ → _)))
  | .hangsUp c => inferInstanceAs (Decidable (∀ conn ∈ s.connections[c]?,
      ∀ server ∈ s.server conn.hub, _ ∧ (_ → _)))
  | .dies hub =>
      inferInstanceAs (Decidable ((∀ conn ∈ s.connections, conn.hub = hub → _) ∧ s.Confirmed hub))
  | .call _ => isTrue trivial
  | .transmit _ => isTrue trivial
  | .connect _ _ => isTrue trivial
  | .introduce _ _ => isTrue trivial
  | .runs _ => isTrue trivial
  | .starts _ => isTrue trivial
  | .receives _ => isTrue trivial

end Decidable

/-! ## What an event leaves of a message -/

section Held

variable {codec : TopologyCodec} {s s' : Failover} {request : Request} {hub c : Nat}
  {conns conns' conns'' : List Connection} {conn : Connection} {o : Outcome}
  {f : Connection → Connection}

/-- The packet of a call is not taken away from the queues. -/
def Spares (codec : TopologyCodec) (request : Request) (conns conns' : List Connection) : Prop :=
  ∀ conn ∈ conns, ∀ packet ∈ conn.toHub, Carries codec packet request →
    ∃ conn' ∈ conns', conn'.hub = conn.hub ∧ packet ∈ conn'.toHub

/-- Nor is its change taken away from the hubs. -/
def Preserves (s s' : Failover) (request : Request) : Prop :=
  ∀ hub server, s.server hub = some server → ∃ server', s'.server hub = some server' ∧
    ∀ stored ∈ server.mHistory, stored.op = request.msg.op → stored ∈ server'.mHistory

/-- Where the hubs are the same, so is what they have got. -/
theorem preserves_of_server_eq (h : ∀ hub, s'.server hub = s.server hub) :
    Preserves s s' request :=
  fun hub server hserver => ⟨server, (h hub).trans hserver, fun _ hstored _ => hstored⟩

/-- A packet that is not taken away from its queue stays in flight while its hub lives. -/
theorem InFlight.mono (h : s.InFlight codec request)
    (hspares : Spares codec request s.connections s'.connections)
    (halive : ∀ hub, (s.server hub).isSome → (s'.server hub).isSome) :
    s'.InFlight codec request := by
  obtain ⟨conn, hconn, hlive, packet, hpacket, hcarries⟩ := h
  obtain ⟨conn', hconn', hhub, hpacket'⟩ := hspares conn hconn packet hpacket hcarries
  exact ⟨conn', hconn', hhub ▸ halive _ hlive, packet, hpacket', hcarries⟩

/-- An echo that was applied stays so: the manager takes nothing out of its history. -/
theorem Applied.mono (h : s.Applied request) (hread : s.read ⊆ s'.read)
    (hhistory : s.manager.mHistory ⊆ s'.manager.mHistory) : s'.Applied request := by
  obtain ⟨entry, hentry, stored, hstored, hstores⟩ := h
  exact ⟨entry, hread hentry, stored, hhistory hstored, hstores⟩

/-- A hub that has got a request goes on having it while the hubs keep what they have. -/
theorem AtHub.mono (h : s.AtHub request) (hhubs : Preserves s s' request)
    (hread : s.read ⊆ s'.read) : s'.AtHub request := by
  obtain ⟨entry, hentry, server, hserver, stored, hstored, hstores⟩ := h
  obtain ⟨server', hserver', hkept⟩ := hhubs entry.hub server hserver
  exact ⟨entry, hread hentry, server', hserver', stored, hkept stored hstored hstores.2.2, hstores⟩

/-- A message stays held when nothing is taken away from queues, hubs and the manager's history.
Only the backlog may give it up, for another place. -/
theorem Held.mono (h : s.Held codec request) (hwaits : s.Waits request → s'.Held codec request)
    (hspares : Spares codec request s.connections s'.connections)
    (hhubs : Preserves s s' request) (hread : s.read ⊆ s'.read)
    (hhistory : s.manager.mHistory ⊆ s'.manager.mHistory) : s'.Held codec request := by
  rcases h with hbefore | hflight | hathub | happlied
  · exact hwaits hbefore
  · refine .inr (.inl (hflight.mono hspares fun hub halive => ?_))
    obtain ⟨server, hserver⟩ := Option.isSome_iff_exists.mp halive
    obtain ⟨server', hserver', _⟩ := hhubs hub server hserver
    rw [hserver']
    rfl
  · exact .inr (.inr (.inl (hathub.mono hhubs hread)))
  · exact .inr (.inr (.inr (happlied.mono hread hhistory)))

/-- Where a hub has lost its changes, their echoes have been applied, if they have been of all
that it has read. -/
theorem Confirmed.of_atHub (h : s.Confirmed hub) (hmem : request ∈ s.completed)
    {entry : ReadCall} (hentry : entry ∈ s.read) (hhub : entry.hub = hub)
    {stored : TopologyMessage} (hstores : entry.Stores request stored) : s.Applied request :=
  h entry hentry hhub request hmem hstores.1

/-! ## Queues -/

/-- Nothing has happened to the connections. -/
theorem spares_refl : Spares codec request conns conns :=
  fun conn hconn _ hpacket _ => ⟨conn, hconn, rfl, hpacket⟩

/-- Two stretches of time, one after the other. -/
theorem Spares.trans (h : Spares codec request conns conns')
    (h' : Spares codec request conns' conns'') : Spares codec request conns conns'' := by
  intro conn hconn packet hpacket hcarries
  obtain ⟨conn', hconn', hhub, hpacket'⟩ := h conn hconn packet hpacket hcarries
  obtain ⟨conn'', hconn'', hhub', hpacket''⟩ := h' conn' hconn' packet hpacket' hcarries
  exact ⟨conn'', hconn'', hhub'.trans hhub, hpacket''⟩

/-- A new connection takes nothing from the others. -/
theorem spares_append {more : List Connection} : Spares codec request conns (conns ++ more) :=
  fun conn hconn _ hpacket _ => ⟨conn, List.mem_append_left _ hconn, rfl, hpacket⟩

/-- Connections that may have got more, all of them at once. -/
theorem spares_map (hf : ∀ conn, (f conn).hub = conn.hub ∧ conn.toHub ⊆ (f conn).toHub) :
    Spares codec request conns (conns.map f) :=
  fun conn hconn _ hpacket _ =>
    ⟨f conn, List.mem_map_of_mem hconn, (hf conn).1, (hf conn).2 hpacket⟩

/-- The connection that was changed is one of them. -/
theorem mem_modify (hconn : conns[c]? = some conn) : f conn ∈ conns.modify c f :=
  List.mem_iff_getElem?.mpr ⟨c, by simp [hconn]⟩

/-- One connection is changed, and a packet that carries the request stays on its way. -/
theorem spares_modify (hf : ∀ conn, conns[c]? = some conn → (f conn).hub = conn.hub ∧
      ∀ packet ∈ conn.toHub, Carries codec packet request → packet ∈ (f conn).toHub) :
    Spares codec request conns (conns.modify c f) := by
  intro conn hconn packet hpacket hcarries
  obtain ⟨i, hi⟩ := List.mem_iff_getElem?.mp hconn
  by_cases hci : c = i
  · subst hci
    obtain ⟨hhub, hkept⟩ := hf conn hi
    exact ⟨f conn, mem_modify hi, hhub, hkept packet hpacket hcarries⟩
  · refine ⟨conn, List.mem_iff_getElem?.mpr ⟨i, ?_⟩, rfl, hpacket⟩
    simp [hci, hi]

/-- A queue from which one that carries nothing of the call is taken. -/
theorem spares_modify_of (hconn : conns[c]? = some conn) (hhub : (f conn).hub = conn.hub)
    (hkept : ∀ packet ∈ conn.toHub, Carries codec packet request → packet ∈ (f conn).toHub) :
    Spares codec request conns (conns.modify c f) := by
  apply spares_modify
  intro conn' hconn'
  obtain rfl : conn = conn' := Option.some.inj (hconn.symm.trans hconn')
  exact ⟨hhub, hkept⟩

/-- A packet that is written comes behind those that are on their way. -/
theorem spares_write {packets : List Packet} :
    Spares codec request s.connections (s.connections.modify c (s.write packets)) := by
  apply spares_modify
  intro conn _
  unfold write
  split
  · exact ⟨rfl, fun packet hpacket _ => List.mem_append_left _ hpacket⟩
  · exact ⟨rfl, fun packet hpacket _ => hpacket⟩

/-- What a hub writes goes the other way. -/
theorem spares_observe {read : List ReadCall} :
    Spares codec request conns
      (({ s with connections := conns, read := read } : Failover).observe codec hub
        o).connections := by
  apply spares_map
  intro conn
  split
  · exact ⟨rfl, fun _ hpacket => hpacket⟩
  · exact ⟨rfl, fun _ hpacket => hpacket⟩

/-- A hub that starts has not got the request, but takes it from no other. -/
theorem preserves_starts {digest : List TopologyMessage} :
    Preserves s { s with hubs := s.hubs ++ [some (create digest)] } request := by
  intro hub server hserver
  refine ⟨server, ?_, fun _ hstored _ => hstored⟩
  rw [Failover.server, List.getElem?_append_left (lt_of_server hserver)]
  exact hserver

/-! ## Threads -/

/-- A step of the threads that sends nothing of the backlog leaves every message where it is. -/
theorem Held.threads (h : s.Held codec request) {event : ThreadEvent}
    (hthreads : s.threads.step event = some s'.threads)
    (hquiet : event = .transmit true → s.threads.sending = none ∨ s.threads.mClient = none)
    (hspares : Spares codec request s.connections s'.connections)
    (hhubs : s'.hubs = s.hubs) (hread : s'.read = s.read) (hmanager : s'.manager = s.manager) :
    s'.Held codec request := by
  refine h.mono ?_ hspares ?_ ?_ ?_
  · intro hwaits
    rcases ManagerThreads.pending_step hthreads hwaits with hkept | ⟨htransmit, hsending, hclient⟩
    · exact .inl hkept
    · rcases hquiet htransmit with hnone | hnull
      · rw [hnone] at hsending
        cases hsending
      · exact absurd hnull hclient
  · exact preserves_of_server_eq fun hub => by rw [Failover.server, Failover.server, hhubs]
  · rw [hread]
    exact fun _ hentry => hentry
  · rw [hmanager]
    exact fun _ hstored => hstored

/-- What has been written to a connection is in flight: the hub is alive and has its end open. -/
theorem held_of_write {threads : ManagerThreads} {completed : List Request}
    (hconn : s.connections[c]? = some conn) (hreaches : s.reaches conn) :
    ({ s with
      threads := threads
      connections := s.connections.modify c (s.write [packetOf codec request])
      completed := completed } : Failover).Held codec request := by
  have hwritten : s.write [packetOf codec request] conn =
      { conn with toHub := conn.toHub ++ [packetOf codec request] } := by
    simp [write, hreaches]
  have halive : (s.server conn.hub).isSome := by
    unfold reaches at hreaches
    exact (Bool.and_eq_true_iff.mp hreaches).2
  right; left
  refine ⟨s.write [packetOf codec request] conn, mem_modify hconn, ?_, packetOf codec request, ?_,
    rfl, rfl⟩
  · rw [hwritten]
    exact halive
  · rw [hwritten]
    exact List.mem_append_right _ List.mem_cons_self

end Held

/-! ## Calls of a hub -/

section Perform

variable {codec : TopologyCodec} {s s' : Failover} {request : Request} {hub : Nat}
  {op : HubOp} {server : TopologyServer} {o : Outcome}

/-- A call that does not prune leaves the change of a call where it is. -/
theorem perform_keeps (hop : server.perform op = some o)
    (hown : OwnTopic s.manager.mNodeId request.msg)
    (hkeeps : ¬ server.Prunes s.manager.mNodeId op) :
    ∀ stored ∈ server.mHistory, stored.op = request.msg.op → stored ∈ o.server.mHistory := by
  obtain ⟨_, _, change, hchange, hid⟩ := hown
  intro stored hstored hsame
  refine perform_topic_mem hop (List.mem_append_left _ hstored) (hsame.trans hchange) ?_
  rw [hid]
  exact hkeeps

/-- A call of a hub that spares the packet of a call: its change stays with the hub, or the
hub has lost it and the echo has been applied. -/
theorem Held.call (h : s.Held codec request) (hmem : request ∈ s.completed)
    (hserver : s.server hub = some server) (hthreads : s'.threads = s.threads)
    (hmanager : s'.manager = s.manager) (hread : s.read ⊆ s'.read)
    (hs' : ∀ hub', s'.server hub' = if hub' = hub then some o.server else s.server hub')
    (hspares : Spares codec request s.connections s'.connections)
    (hkept : s.Confirmed hub ∨
      ∀ stored ∈ server.mHistory, stored.op = request.msg.op → stored ∈ o.server.mHistory) :
    s'.Held codec request := by
  have hhistory : s.manager.mHistory ⊆ s'.manager.mHistory := by
    rw [hmanager]
    exact fun _ hstored => hstored
  rcases h with hwaits | hflight | hathub | happlied
  · left
    rw [Waits, hthreads]
    exact hwaits
  · refine .inr (.inl (hflight.mono hspares fun hub' halive => ?_))
    rw [hs']
    split
    · rfl
    · exact halive
  · right; right
    obtain ⟨entry, hentry, server', hserver', stored, hstored, hstores⟩ := hathub
    by_cases hhub : entry.hub = hub
    · rcases hkept with hconfirmed | hkept
      · exact .inr ((hconfirmed.of_atHub hmem hentry hhub hstores).mono hread hhistory)
      · obtain rfl : server = server' :=
          Option.some.inj (hserver.symm.trans (hhub ▸ hserver'))
        refine .inl ⟨entry, hread hentry, o.server, ?_, stored, ?_, hstores⟩
        · rw [hs', if_pos hhub]
          rfl
        · exact hkept stored hstored hstores.2.2
    · refine .inl ⟨entry, hread hentry, server', ?_, stored, hstored, hstores⟩
      rw [hs', if_neg hhub]
      exact hserver'
  · exact .inr (.inr (.inr (happlied.mono hread hhistory)))

/-- `OnData` on an empty packet does nothing. -/
theorem onData_cases {parse : List UInt8 → TopologyMessage} {fd : Fd} {data : List UInt8}
    {random : UInt64} (h : server.onData parse fd data random = some o) :
    (data = [] ∧ o.server = server) ∨
      (data ≠ [] ∧ server.perform (.data fd (parse data) random) = some o) := by
  rw [onData] at h
  split at h
  · rename_i hlength
    obtain rfl := Option.some.inj h
    exact .inl ⟨List.length_eq_zero_iff.mp hlength, rfl⟩
  · rename_i hlength
    exact .inr ⟨fun hnil => hlength (by rw [hnil]; rfl), h⟩

/-- A packet of a public call that is read as it was sent is in the history of its hub
afterwards. -/
theorem atHub_of_data (hcodec : codec.Lawful) {fd : Fd} {data : List UInt8} {random : UInt64}
    (hown : OwnTopic s.manager.mNodeId request.msg) (hdata : data = codec.serialize request.msg)
    (hfits : data.length ≤ uint16Max) (hid : s.manager.mNodeId ≠ 0)
    (hkeeps : ¬ server.Prunes s.manager.mNodeId (.data fd (codec.readPacket data).2 random))
    (htakes : server.Takes fd (codec.readPacket data).2)
    (hop : server.onData (fun data => (codec.parse data).2) fd (data.take uint16Max) random =
      some o) :
    ∃ stored ∈ o.server.mHistory,
      stored.uid = server.changeUid fd (codec.readPacket data).2 random ∧
        stored.op = request.msg.op := by
  obtain ⟨hseq, hproper, change, hchange, hnode⟩ := hown
  have hread : (codec.readPacket data).2 = request.msg := by
    rw [hdata, (hcodec.readPacket_iff hproper).mpr (hdata ▸ hfits)]
  have hne : request.msg ≠ {} := by
    intro heq
    rw [heq] at hchange
    cases hchange
  rw [hread] at hkeeps htakes
  rw [List.take_of_length_le hfits] at hop
  rcases onData_cases hop with ⟨hnil, _⟩ | ⟨_, hperform⟩
  · exact absurd (hdata ▸ hnil) (hcodec.serialize_ne_nil hproper hne)
  · have hparsed : (codec.parse data).2 = request.msg := by
      rw [hdata, hcodec.parse_serialize request.msg hproper]
    rw [hparsed] at hperform
    rw [hread]
    exact exists_stored_of_data hperform hchange (hnode ▸ hid) hseq (hnode ▸ hkeeps) htakes

end Perform

/-! ## Runs -/

section Runs

variable {codec : TopologyCodec} {s s' : Failover} {event : FailoverEvent}

/-- The hub reads a packet.  If it stems from a call, the change is in the history afterwards, or
one that says the same stands there. -/
theorem NoneLost.handles (hcodec : codec.Lawful) (hlost : s.NoneLost codec) (h : s.Sound)
    {c : Nat} {random : UInt64} {conn : Connection} {packet : Packet} {rest : List Packet}
    {server : TopologyServer} {o : Outcome} (hconn : s.connections[c]? = some conn)
    (htoHub : conn.toHub = packet :: rest) (hserver : s.server conn.hub = some server)
    (hop : server.onData (fun data => (codec.parse data).2) conn.fd (packet.data.take uint16Max)
      random = some o)
    (hguard : s.SafeLoss codec (.handles c random)) :
    (({ s with
      connections := s.connections.modify c fun conn => { conn with toHub := rest }
      read := s.read ++ packet.call.toList.map fun call =>
        { call := call
          hub := conn.hub
          uid := server.changeUid conn.fd (codec.readPacket packet.data).2 random } } :
      Failover).observe codec conn.hub o).NoneLost codec := by
  obtain ⟨hprunes, hcall⟩ := hguard conn hconn server hserver packet (by simp [htoHub])
  intro request hmem
  have hown := h.completed request hmem
  by_cases hcarries : Carries codec packet request
  · obtain ⟨hnumber, hdata⟩ := hcarries
    obtain ⟨hfits, hid, hkeeps, htakes⟩ := hcall (by simp [hnumber])
    obtain ⟨stored, hstored, huid, hsame⟩ :=
      atHub_of_data hcodec hown hdata hfits hid hkeeps htakes hop
    right; right; left
    refine ⟨{
      call := request.number
      hub := conn.hub
      uid := server.changeUid conn.fd (codec.readPacket packet.data).2 random },
      List.mem_append_right _ (by simp [hnumber]), o.server, ?_, stored, hstored, rfl, huid, hsame⟩
    rw [Option.mem_def]
    exact (server_set (lt_of_server hserver) rfl).trans (if_pos rfl)
  · refine (hlost request hmem).call hmem hserver rfl rfl (List.subset_append_left _ _)
      (server_observe hserver) ?_ ?_
    · refine (spares_modify_of hconn rfl fun packet' hpacket' hcarries' => ?_).trans spares_observe
      rw [htoHub] at hpacket'
      rcases List.mem_cons.mp hpacket' with rfl | hrest
      · exact absurd hcarries' hcarries
      · exact hrest
    · rcases onData_cases hop with ⟨_, hsame⟩ | ⟨_, hperform⟩
      · rw [hsame]
        exact .inr fun _ hstored _ => hstored
      · by_cases hpruned : server.Prunes s.manager.mNodeId
            (.data conn.fd (codec.readPacket packet.data).2 random)
        · exact .inl (hprunes hpruned)
        · exact .inr (perform_keeps hperform hown hpruned)

/-- A call of a hub that reads no packet of the manager can only prune what it has, and then the
echoes have been applied. -/
theorem NoneLost.performs (hlost : s.NoneLost codec) (h : s.Sound) {hub : Nat} {op : HubOp}
    {server : TopologyServer} {o : Outcome} (hserver : s.server hub = some server)
    (hop : server.perform op = some o) (hthreads : s'.threads = s.threads)
    (hmanager : s'.manager = s.manager) (hcompleted : s'.completed = s.completed)
    (hread : s'.read = s.read)
    (hs' : ∀ hub', s'.server hub' = if hub' = hub then some o.server else s.server hub')
    (hprunes : server.Prunes s.manager.mNodeId op → s.Confirmed hub)
    (hspares : ∀ request, Spares codec request s.connections s'.connections) :
    s'.NoneLost codec := by
  intro request hmem
  rw [hcompleted] at hmem
  have hsubset : s.read ⊆ s'.read := by
    rw [hread]
    exact fun _ hentry => hentry
  refine (hlost request hmem).call hmem hserver hthreads hmanager hsubset hs' (hspares request) ?_
  by_cases hpruned : server.Prunes s.manager.mNodeId op
  · exact .inl (hprunes hpruned)
  · exact .inr (perform_keeps hop (h.completed request hmem) hpruned)

/-- The death of a hub that has read all packets of public calls and whose echoes have all been
applied. -/
theorem NoneLost.dies (hlost : s.NoneLost codec) {hub : Nat} (halive : (s.server hub).isSome)
    (hidle : ∀ conn ∈ s.connections, conn.hub = hub → conn.Idle) (hconfirmed : s.Confirmed hub) :
    ({ s with
      hubs := s.hubs.set hub none
      connections := s.connections.map (Connection.afterDeath hub) } :
        Failover).NoneLost codec := by
  obtain ⟨server, hserver⟩ := Option.isSome_iff_exists.mp halive
  have hs' : ∀ hub', ({ s with
      hubs := s.hubs.set hub none
      connections := s.connections.map (Connection.afterDeath hub) } : Failover).server hub' =
        if hub' = hub then none else s.server hub' :=
    fun hub' => server_set (lt_of_server hserver) rfl
  intro request hmem
  rcases hlost request hmem with hwaits | ⟨conn, hconn, hlive, packet, hpacket, hcarries⟩ |
    ⟨entry, hentry, server', hserver', stored, hstored, hstores⟩ | happlied
  · exact .inl hwaits
  · have hother : conn.hub ≠ hub := by
      intro heq
      have hnone := hidle conn hconn heq packet hpacket
      rw [hcarries.1] at hnone
      cases hnone
    have hsame : Connection.afterDeath hub conn = conn := if_neg hother
    refine .inr (.inl ⟨conn, List.mem_map.mpr ⟨conn, hconn, hsame⟩, ?_, packet, hpacket, hcarries⟩)
    rw [hs', if_neg hother]
    exact hlive
  · right; right
    by_cases hhub : entry.hub = hub
    · exact .inr (hconfirmed.of_atHub hmem hentry hhub hstores)
    · refine .inl ⟨entry, hentry, server', ?_, stored, hstored, hstores⟩
      rw [hs', if_neg hhub]
      exact hserver'
  · exact .inr (.inr (.inr happlied))

/-- **Every event that meets the condition** keeps every message held.  The threads, the hubs, the
queues and the manager each give a message up only to the next. -/
theorem NoneLost.step (hcodec : codec.Lawful) (hlost : s.NoneLost codec) (h : s.Sound)
    (hguard : s.SafeLoss codec event) (hstep : s.step codec event = some s') :
    s'.NoneLost codec := by
  cases step_happens hstep with
  | @calls call threads hthreads =>
      intro request hmem
      have hcases : request ∈ s.completed ∨ s.threads.mClient = none ∧
          request = { number := s.threads.calls, msg := call.message s.manager } := by
        simp only at hmem
        split at hmem
        · rename_i hnull
          exact (List.mem_append.mp hmem).imp id fun hnew => ⟨hnull, List.mem_singleton.mp hnew⟩
        · exact .inl hmem
      rcases hcases with hbefore | ⟨hnull, rfl⟩
      · exact (hlost request hbefore).threads hthreads nofun spares_refl rfl rfl rfl
      · exact .inl (ManagerThreads.pending_of_call hthreads hnull)
  | @sends sender request c conn threads hsending hclient hconn hreaches hthreads =>
      intro request' hmem
      rcases mem_complete hmem with hbefore | ⟨_, rfl⟩
      · refine (hlost request' hbefore).mono ?_ spares_write
          (preserves_of_server_eq fun _ => rfl) (fun _ hentry => hentry) fun _ hstored => hstored
        intro hwaits
        rcases ManagerThreads.pending_step hthreads hwaits with hkept | ⟨_, hsending', _⟩
        · exact .inl hkept
        · rw [hsending] at hsending'
          cases hsending'
          exact held_of_write hconn hreaches
      · exact held_of_write hconn hreaches
  | @fails sender request c threads hsending hclient hthreads =>
      intro request' hmem
      rcases mem_complete hmem with hbefore | ⟨_, rfl⟩
      · exact (hlost request' hbefore).threads hthreads nofun spares_refl rfl rfl rfl
      · exact .inl (ManagerThreads.pending_of_fails hthreads hsending (by simp [hclient]))
  | crashes hnone hthreads =>
      exact fun request hmem =>
        (hlost request hmem).threads hthreads (fun _ => hnone) spares_refl rfl rfl rfl
  | connects halive hthreads =>
      exact fun request hmem =>
        (hlost request hmem).threads hthreads nofun spares_append rfl rfl rfl
  | introduces hpc hthreads =>
      exact fun request hmem =>
        (hlost request hmem).threads hthreads nofun spares_write rfl rfl rfl
  | runs hplain hthreads =>
      intro request hmem
      refine (hlost request hmem).threads hthreads ?_ spares_refl rfl rfl rfl
      intro htransmit
      subst htransmit
      cases hplain
  | starts =>
      intro request hmem
      exact (hlost request hmem).mono .inl spares_refl preserves_starts (fun _ hentry => hentry)
        fun _ hstored => hstored
  | @performs hub op server o hserver hop =>
      exact hlost.performs h hserver hop rfl rfl rfl rfl (server_observe hserver)
        (hguard server hserver) fun _ => spares_observe
  | handles hconn htoHub hserver hop =>
      exact hlost.handles hcodec h hconn htoHub hserver hop hguard
  | hangsUp hconn hserver hop =>
      obtain ⟨hidle, hprunes⟩ := hguard _ hconn _ hserver
      refine hlost.performs h hserver hop rfl rfl rfl rfl (server_observe hserver) hprunes
        fun request => ?_
      refine (spares_modify_of hconn rfl fun packet hpacket hcarries => ?_).trans spares_observe
      have hnone := hidle packet hpacket
      rw [hcarries.1] at hnone
      cases hnone
  | receives hconn htoManager =>
      intro request hmem
      refine (hlost request hmem).mono .inl ?_ (preserves_of_server_eq fun _ => rfl)
        (fun _ hentry => hentry) ?_
      · exact spares_modify fun _ _ => ⟨rfl, fun _ hpacket _ => hpacket⟩
      · simp only [receive]
        split
        · exact fun _ hstored => hstored
        · exact fun _ hstored => List.subset_insertIdx _ _ _ hstored
  | dies halive => exact hlost.dies halive hguard.1 hguard.2

/-- **No topic change is lost across the failure of a hub.**  `codec` is protobuf's.  In every
run in which hubs die, hang up, prune and read only as `SafeLoss` says, every message of a
completed call is held in every state. -/
theorem no_lost_change (codec : TopologyCodec) (hcodec : codec.Lawful)
    {manager : TopologyManager} {events : List FailoverEvent}
    (hguard : Along (step codec) (SafeLoss codec) { manager := manager } events) :
    Throughout (step codec) (NoneLost codec) { manager := manager } events := by
  refine throughout_of_invariant (I := fun s => s.NoneLost codec ∧ s.Sound) ?_ ?_ ?_ hguard
  · intro s event s' ⟨hlost, hsound⟩ hsafe hstep
    exact ⟨hlost.step hcodec hsound hsafe hstep, hsound.step hstep⟩
  · exact fun s h => h.1
  · exact ⟨nofun, start_sound⟩

/-- A subscription waits in the backlog for the hub and an announcement is sent
at once; both have come back when the hub dies. -/
def diesAfterEcho : List FailoverEvent :=
  [.starts [], .call (.subscribe "scan"), .runs .advance, .connect 0 7,
    .performs 0 (.connect 7), .introduce [] [], .handles 0 11, .receives 0, .runs .advance,
    .runs .advance, .transmit true, .handles 0 12, .receives 0, .runs .advance, .runs .advance,
    .call (.announce "image" "png"), .transmit true, .handles 0 13, .receives 0, .dies 0]

/-- The hub has read both packets and sent them back when it dies, so that the manager has them
in the history that it will introduce itself with. -/
theorem no_lost_change_diesAfterEcho :
    Throughout (step (wireCodec 8192)) (NoneLost (wireCodec 8192))
      { manager := { mNodeId := 5 } } diesAfterEcho := by
  apply no_lost_change (wireCodec 8192) (wireCodec_lawful 8192)
  decide +kernel

/-- The announcement has been sent, and the hub dies before it has read the packet. -/
def diesBeforeReading : List FailoverEvent :=
  [.starts [], .runs .advance, .connect 0 7, .performs 0 (.connect 7), .introduce [] [],
    .handles 0 11, .receives 0, .runs .advance, .runs .advance, .runs .advance,
    .call (.announce "image" "png"), .transmit true, .dies 0]

/-- The packet is in the buffer of the hub when it dies: it has been sent, and nobody has it. -/
theorem lost_diesBeforeReading :
    ∃ s ∈ exec (step (wireCodec 8192)) { manager := { mNodeId := 5 } } diesBeforeReading,
      ¬ s.NoneLost (wireCodec 8192) := by
  decide +kernel

end Runs

end Failover

end IpcPubsub
