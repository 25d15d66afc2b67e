import IpcPubsub.CallOrder
import IpcPubsub.HubRuns
import IpcPubsub.Protobuf
import IpcPubsub.TopologyManager

/-!
# A manager and the hubs it meets

The threads of a manager together with its own history, the hubs that are alive
and the packets on every connection it has had.  A hub can die at any moment;
what it has in its history and what it has not read yet goes with it.

A send succeeds only while the hub has its end of the connection open, and then
the packet waits there for the hub to read it.  `IntroduceOurselves` does not
look at the result of its sends.  Packets are bytes: the hub reads one into a buffer
and parses what is in it, and so does the manager.  What protobuf does is the
parameter `codec`.  Accepting a connection, the timer and the packets of other
nodes are calls of the hub that may come in any order.
-/

namespace IpcPubsub

open GuardedRuns TopologyServer

namespace ManagerThreads

/-- Every message that has been handed to `Send` and not been sent. -/
def unsent (s : ManagerThreads) : List Request :=
  (s.sending.map Prod.snd).toList ++ s.waiting

section Unsent

variable {s s' : ManagerThreads} {event : ThreadEvent} {request : Request} {msg : TopologyMessage}

/-- The requests that wait for the connection: the one that `MainLoop` sends, those of its flush
after it, and the backlog. -/
theorem mem_pending : request ∈ s.pending ↔
    s.sending = some (.mainLoop, request) ∨ request ∈ s.pc.backlog ∨ request ∈ s.mBacklog := by
  unfold pending waiting
  split
  · rename_i request' hsending
    simp [hsending, eq_comm]
  · rename_i hother
    have hnot : s.sending ≠ some (.mainLoop, request) := hother request
    simp [hnot]

/-- The requests that no `write` has taken yet; the one in hand may be that of a public call. -/
theorem mem_unsent : request ∈ s.unsent ↔
    (∃ sender, s.sending = some (sender, request)) ∨ request ∈ s.pc.backlog ∨
      request ∈ s.mBacklog := by
  unfold unsent waiting
  cases hsending : s.sending with
  | none => simp
  | some sending =>
      obtain ⟨sender, request'⟩ := sending
      simp [eq_comm]

/-- A message that waits is sent or goes on waiting; only a successful send of the flush takes it
out. -/
theorem Acts.pending (h : Acts s event s') (hmem : request ∈ s.pending) :
    request ∈ s'.pending ∨
      event = .transmit true ∧ s.sending = some (.mainLoop, request) ∧ s.mClient ≠ none := by
  rw [mem_pending] at hmem ⊢
  cases h with
  | moves hmoves =>
      obtain ⟨hafter, hbefore⟩ := hmoves.backlog
      rw [hbefore] at hmem
      rw [hafter]
      exact .inl hmem
  | callWaits hfree hnull => grind
  | callBegins hfree hclient => grind
  | sends hsending hclient => grind
  | fails hsending hclient => grind
  | sendCrashes hsending hnull => exact .inl hmem
  | creates hpc => grind [MainPoint.backlog]
  | publishes hpc hfree => grind [MainPoint.backlog]
  | flushWaits hpc hfree hnull => grind [MainPoint.backlog]
  | flushBegins hpc hfree hclient => grind [MainPoint.backlog]
  | waitCrashes hpc hnull => exact .inl hmem
  | clears hpc => grind [MainPoint.backlog]
  | destroy => exact .inl hmem
  | destroyClear => exact .inl hmem
  | hubCloses => exact .inl hmem
  | clientEnds => exact .inl hmem

/-- Only a call makes a message: what is to be sent now was to be sent before, or a public call
has just been made. -/
theorem Acts.unsent (h : Acts s event s') (hmem : request ∈ s'.unsent) :
    request ∈ s.unsent ∨ event = .call request.msg := by
  rw [mem_unsent] at hmem ⊢
  cases h with
  | moves hmoves =>
      obtain ⟨hafter, hbefore⟩ := hmoves.backlog
      rw [hafter] at hmem
      rw [hbefore]
      exact .inl hmem
  | callWaits hfree hnull => grind
  | callBegins hfree hclient => grind
  | sends hsending hclient => grind
  | fails hsending hclient => grind
  | sendCrashes hsending hnull => exact .inl hmem
  | creates hpc => grind [MainPoint.backlog]
  | publishes hpc hfree => grind [MainPoint.backlog]
  | flushWaits hpc hfree hnull => grind [MainPoint.backlog]
  | flushBegins hpc hfree hclient => grind [MainPoint.backlog]
  | waitCrashes hpc hnull => exact .inl hmem
  | clears hpc => grind [MainPoint.backlog]
  | destroy => exact .inl hmem
  | destroyClear => exact .inl hmem
  | hubCloses => exact .inl hmem
  | clientEnds => exact .inl hmem

/-- A request that waits goes on waiting until `MainLoop` has sent it. -/
theorem pending_step (h : s.step event = some s') (hmem : request ∈ s.pending) :
    request ∈ s'.pending ∨
      event = .transmit true ∧ s.sending = some (.mainLoop, request) ∧ s.mClient ≠ none := by
  obtain ⟨_, acted, hacts, rfl⟩ := step_cases h
  exact hacts.pending hmem

/-- A request that has not been sent was not before either, unless it was called for just now. -/
theorem unsent_step (h : s.step event = some s') (hmem : request ∈ s'.unsent) :
    request ∈ s.unsent ∨ event = .call request.msg := by
  obtain ⟨_, acted, hacts, rfl⟩ := step_cases h
  exact hacts.unsent hmem

/-- The message of a call without a client goes to the backlog. -/
theorem pending_of_call (h : s.step (.call msg) = some s') (hnull : s.mClient = none) :
    { number := s.calls, msg := msg } ∈ s'.pending := by
  obtain ⟨_, acted, hacts, rfl⟩ := step_cases h
  cases hacts with
  | moves hmoves => cases hmoves
  | callWaits hfree _ =>
      exact mem_pending.mpr (.inr (.inr (List.mem_append_right _ List.mem_cons_self)))
  | callBegins hfree hclient =>
      rw [hnull] at hclient
      cases hclient

/-- So does one that could not be sent. -/
theorem pending_of_fails {sender : Sender} (h : s.step (.transmit false) = some s')
    (hsending : s.sending = some (sender, request)) (hclient : s.mClient ≠ none) :
    request ∈ s'.pending := by
  obtain ⟨_, acted, hacts, rfl⟩ := step_cases h
  cases hacts with
  | moves hmoves => cases hmoves
  | fails hsending' _ =>
      rw [hsending] at hsending'
      cases hsending'
      exact mem_pending.mpr (.inr (.inr (List.mem_append_right _ List.mem_cons_self)))
  | sendCrashes _ hnull => exact absurd hnull hclient

end Unsent

end ManagerThreads

/-- The public calls that change a topic. -/
inductive PublicCall
  | announce (topic mime : String)
  | retract (topic : String)
  | subscribe (topic : String)
  | unsubscribe (topic : String)
  deriving DecidableEq

/-- The message that a public call hands to `Send`. -/
def PublicCall.message (m : TopologyManager) : PublicCall → TopologyMessage
  | .announce topic mime => m.announce topic mime
  | .retract topic => m.retract topic
  | .subscribe topic => m.subscribe topic
  | .unsubscribe topic => m.unsubscribe topic

/-- A packet, and the number of the public call it stems from. -/
structure Packet where
  data : List UInt8
  call : Option Nat := none
  deriving DecidableEq

/-- A connection of the manager. -/
structure Connection where
  hub : Nat
  /-- The hub's descriptor for it. -/
  fd : Fd
  /-- The hub has not closed its end. -/
  isOpen : Bool := true
  toHub : List Packet := []
  toManager : List (List UInt8) := []
  deriving DecidableEq

/-- A connection after the death of a hub. -/
def Connection.afterDeath (hub : Nat) (conn : Connection) : Connection :=
  if conn.hub = hub then { conn with isOpen := false, toHub := [] } else conn

/-- The publication or the subscription that a topic change is about. -/
def MessageOp.subject : MessageOp → Option (UInt64 × String × Bool)
  | .topicChange change =>
      match change.op with
      | .announce => some (change.nodeId, change.name, true)
      | .retract => some (change.nodeId, change.name, true)
      | .subscribe => some (change.nodeId, change.name, false)
      | .unsubscribe => some (change.nodeId, change.name, false)
      | _ => none
  | _ => none

namespace TopologyServer

/-- The last message in the history with the subject of this one. -/
def standing (s : TopologyServer) (msg : TopologyMessage) : Option TopologyMessage :=
  s.mHistory.reverse.find? fun old => decide (old.op.subject = msg.op.subject)

/-- A packet says again what its connection has said before, and is dropped. -/
def Repeats (s : TopologyServer) (fd : Fd) (msg : TopologyMessage) : Prop :=
  ∃ client ∈ s.mClients.lookup fd, isRedundant msg client

instance (s : TopologyServer) (fd : Fd) : DecidablePred (s.Repeats fd) :=
  fun msg => inferInstanceAs (Decidable (∃ client ∈ s.mClients.lookup fd, isRedundant msg client))

/-- The uid under which a hub has a fresh change when it has read it: the one
drawn, or that of the standing change if it takes this one for a repeat. -/
def changeUid (s : TopologyServer) (fd : Fd) (msg : TopologyMessage) (random : UInt64) : UInt64 :=
  if s.Repeats fd msg then ((s.standing msg).map TopologyMessage.uid).getD random else random

end TopologyServer

/-- A public call whose packet a hub has read, with the uid under which it has the change. -/
structure ReadCall where
  call : Nat
  hub : Nat
  uid : UInt64
  deriving DecidableEq

structure Failover where
  threads : ManagerThreads := {}
  manager : TopologyManager
  /-- Every hub that was ever started, and none where it has died. -/
  hubs : List (Option TopologyServer) := []
  /-- The connections of the clients of `threads`, in their order. -/
  connections : List Connection := []
  /-- The public calls that have returned. -/
  completed : List Request := []
  read : List ReadCall := []
  deriving DecidableEq

inductive FailoverEvent
  /-- A public call gets the lock in `Send` and tests `mClient`. -/
  | call (call : PublicCall)
  /-- The thread in `Send` calls `mClient->Send`. -/
  | transmit (ok : Bool)
  /-- `UDSClient::Create` connects to a hub. -/
  | connect (hub : Nat) (fd : Fd)
  /-- `IntroduceOurselves`, with the order of the own topics. -/
  | introduce (pubs : List Publication) (subs : List String)
  /-- Any other step of the threads. -/
  | runs (event : ThreadEvent)
  | starts (digest : List TopologyMessage)
  /-- A call of a hub that is not about a packet of the manager. -/
  | performs (hub : Nat) (op : HubOp)
  /-- The hub reads the next packet of a connection. -/
  | handles (c : Nat) (random : UInt64)
  /-- The hub gives a connection up, with the packets it has not read. -/
  | hangsUp (c : Nat)
  /-- The manager applies the next packet of a connection. -/
  | receives (c : Nat)
  | dies (hub : Nat)
  deriving DecidableEq

namespace Failover

/-- The hub of that name, if it is alive. -/
def server (s : Failover) (hub : Nat) : Option TopologyServer := (s.hubs[hub]?).join

/-- A packet can be written to the connection. -/
def reaches (s : Failover) (conn : Connection) : Bool :=
  conn.isOpen && (s.server conn.hub).isSome

/-- The steps of the threads that concern neither a hub nor a message. -/
def plain (s : Failover) : ThreadEvent → Bool
  | .call _ => false
  | .transmit _ => false
  | .create connected => !connected
  | .advance =>
      match s.threads.pc with
      | .introducing _ => false
      | _ => true
  | _ => true

/-- Write to a connection, if that is possible. -/
def write (s : Failover) (packets : List Packet) (conn : Connection) : Connection :=
  if s.reaches conn then { conn with toHub := conn.toHub ++ packets } else conn

/-- A hub after a call, which has written to the open connections. -/
def observe (codec : TopologyCodec) (s : Failover) (hub : Nat) (o : Outcome) : Failover :=
  { s with
    hubs := s.hubs.set hub (some o.server)
    connections := s.connections.map fun conn =>
      if conn.hub = hub ∧ conn.isOpen then
        { conn with toManager := conn.toManager ++ (o.sent conn.fd).flatMap codec.written }
      else conn }

/-- A call has returned, unless it is the flush that has called `Send`. -/
def complete (s : Failover) (sender : Sender) (request : Request) : List Request :=
  match sender with
  | .user => s.completed ++ [request]
  | .mainLoop => s.completed

/-- The packet with the message of a public call. -/
def packetOf (codec : TopologyCodec) (request : Request) : Packet where
  data := codec.serialize request.msg
  call := some request.number

/-- The rest of `Send`. -/
def transmit (codec : TopologyCodec) (s : Failover) (ok : Bool) : Option Failover :=
  match s.threads.sending, s.threads.mClient with
  | some (sender, request), some c =>
      if ok then
        match s.connections[c]? with
        | none => none
        | some conn =>
            if s.reaches conn then
              (s.threads.step (.transmit true)).map fun threads => { s with
                threads := threads
                connections := s.connections.modify c (s.write [packetOf codec request])
                completed := s.complete sender request }
            else none
      else
        (s.threads.step (.transmit false)).map fun threads => { s with
          threads := threads
          completed := s.complete sender request }
  | _, _ => (s.threads.step (.transmit ok)).map fun threads => { s with threads := threads }

/-- The hub reads the next packet of a connection, or what of it fits the buffer. -/
def handle (codec : TopologyCodec) (s : Failover) (c : Nat) (random : UInt64) :
    Option Failover :=
  match s.connections[c]? with
  | none => none
  | some conn =>
      match conn.toHub with
      | [] => none
      | packet :: rest =>
          match s.server conn.hub with
          | none => none
          | some server =>
              (server.onData (fun data => (codec.parse data).2) conn.fd
                  (packet.data.take uint16Max) random).map fun o =>
                ({ s with
                  connections := s.connections.modify c fun conn => { conn with toHub := rest }
                  read := s.read ++ packet.call.toList.map fun call =>
                    { call := call
                      hub := conn.hub
                      uid := server.changeUid conn.fd (codec.readPacket packet.data).2 random } } :
                  Failover).observe codec conn.hub o

/-- The manager reads a packet; an empty one is not passed on to `ApplyUpdate`. -/
def receive (codec : TopologyCodec) (m : TopologyManager) (data : List UInt8) : TopologyManager :=
  if data = [] then m else (m.applyUpdate (codec.readPacket data).2).1

def hangUp (codec : TopologyCodec) (s : Failover) (c : Nat) : Option Failover :=
  match s.connections[c]? with
  | none => none
  | some conn =>
      match s.server conn.hub with
      | none => none
      | some server =>
          (server.perform (.disconnect conn.fd)).map fun o =>
            ({ s with
              connections := s.connections.modify c fun conn =>
                { conn with isOpen := false, toHub := [] } } : Failover).observe codec conn.hub o

def step (codec : TopologyCodec) (s : Failover) : FailoverEvent → Option Failover
  | .call call =>
      let msg := call.message s.manager
      (s.threads.step (.call msg)).map fun threads => { s with
        threads := threads
        completed :=
          if s.threads.mClient = none then
            s.completed ++ [{ number := s.threads.calls, msg := msg }]
          else s.completed }
  | .transmit ok => s.transmit codec ok
  | .connect hub fd =>
      if (s.server hub).isSome then
        (s.threads.step (.create true)).map fun threads => { s with
          threads := threads
          connections := s.connections ++ [{ hub := hub, fd := fd }] }
      else none
  | .introduce pubs subs =>
      match s.threads.pc with
      | .introducing c =>
          (s.threads.step .advance).map fun threads => { s with
            threads := threads
            connections := s.connections.modify c
              (s.write
                ((s.manager.introduceOurselves pubs subs).map ({ data := codec.serialize · }))) }
      | _ => none
  | .runs event =>
      if s.plain event then
        (s.threads.step event).map fun threads => { s with threads := threads }
      else none
  | .starts digest => some { s with hubs := s.hubs ++ [some (.create digest)] }
  | .performs hub op =>
      match s.server hub with
      | none => none
      | some server => (server.perform op).map (s.observe codec hub)
  | .handles c random => s.handle codec c random
  | .hangsUp c => s.hangUp codec c
  | .receives c =>
      match s.connections[c]? with
      | none => none
      | some conn =>
          match conn.toManager with
          | [] => none
          | data :: rest => some { s with
              manager := receive codec s.manager data
              connections := s.connections.modify c fun conn => { conn with toManager := rest } }
  | .dies hub =>
      if (s.server hub).isSome then
        some { s with
          hubs := s.hubs.set hub none
          connections := s.connections.map (Connection.afterDeath hub) }
      else none

/-! ## What an event can do -/

section Happens

variable (codec : TopologyCodec) (s : Failover)

inductive Happens : FailoverEvent → Failover → Prop
  | calls {call : PublicCall} {threads : ManagerThreads}
      (hthreads : s.threads.step (.call (call.message s.manager)) = some threads) :
      Happens (.call call) { s with
        threads := threads
        completed :=
          if s.threads.mClient = none then
            s.completed ++ [{ number := s.threads.calls, msg := call.message s.manager }]
          else s.completed }
  | sends {sender : Sender} {request : Request} {c : Nat} {conn : Connection}
      {threads : ManagerThreads} (hsending : s.threads.sending = some (sender, request))
      (hclient : s.threads.mClient = some c) (hconn : s.connections[c]? = some conn)
      (hreaches : s.reaches conn)
      (hthreads : s.threads.step (.transmit true) = some threads) :
      Happens (.transmit true) { s with
        threads := threads
        connections := s.connections.modify c (s.write [packetOf codec request])
        completed := s.complete sender request }
  | fails {sender : Sender} {request : Request} {c : Nat} {threads : ManagerThreads}
      (hsending : s.threads.sending = some (sender, request))
      (hclient : s.threads.mClient = some c)
      (hthreads : s.threads.step (.transmit false) = some threads) :
      Happens (.transmit false) { s with
        threads := threads
        completed := s.complete sender request }
  /-- `mClient` was cleared under the thread in `Send`. -/
  | crashes {ok : Bool} {threads : ManagerThreads}
      (hnone : s.threads.sending = none ∨ s.threads.mClient = none)
      (hthreads : s.threads.step (.transmit ok) = some threads) :
      Happens (.transmit ok) { s with threads := threads }
  | connects {hub : Nat} {fd : Fd} {threads : ManagerThreads} (halive : (s.server hub).isSome)
      (hthreads : s.threads.step (.create true) = some threads) :
      Happens (.connect hub fd) { s with
        threads := threads
        connections := s.connections ++ [{ hub := hub, fd := fd }] }
  | introduces {pubs : List Publication} {subs : List String} {c : Nat}
      {threads : ManagerThreads} (hpc : s.threads.pc = .introducing c)
      (hthreads : s.threads.step .advance = some threads) :
      Happens (.introduce pubs subs) { s with
        threads := threads
        connections := s.connections.modify c
          (s.write ((s.manager.introduceOurselves pubs subs).map ({ data := codec.serialize · }))) }
  | runs {event : ThreadEvent} {threads : ManagerThreads} (hplain : s.plain event)
      (hthreads : s.threads.step event = some threads) :
      Happens (.runs event) { s with threads := threads }
  | starts {digest : List TopologyMessage} :
      Happens (.starts digest) { s with hubs := s.hubs ++ [some (.create digest)] }
  | performs {hub : Nat} {op : HubOp} {server : TopologyServer} {o : Outcome}
      (hserver : s.server hub = some server) (hop : server.perform op = some o) :
      Happens (.performs hub op) (s.observe codec hub o)
  | handles {c : Nat} {random : UInt64} {conn : Connection} {packet : Packet}
      {rest : List Packet} {server : TopologyServer} {o : Outcome}
      (hconn : s.connections[c]? = some conn) (htoHub : conn.toHub = packet :: rest)
      (hserver : s.server conn.hub = some server)
      (hop : server.onData (fun data => (codec.parse data).2) conn.fd
        (packet.data.take uint16Max) random = some o) :
      Happens (.handles c random) (({ s with
        connections := s.connections.modify c fun conn => { conn with toHub := rest }
        read := s.read ++ packet.call.toList.map fun call =>
          { call := call
            hub := conn.hub
            uid := server.changeUid conn.fd (codec.readPacket packet.data).2 random } } :
        Failover).observe codec conn.hub o)
  | hangsUp {c : Nat} {conn : Connection} {server : TopologyServer} {o : Outcome}
      (hconn : s.connections[c]? = some conn) (hserver : s.server conn.hub = some server)
      (hop : server.perform (.disconnect conn.fd) = some o) :
      Happens (.hangsUp c) (({ s with
        connections := s.connections.modify c fun conn =>
          { conn with isOpen := false, toHub := [] } } : Failover).observe codec conn.hub o)
  | receives {c : Nat} {conn : Connection} {data : List UInt8} {rest : List (List UInt8)}
      (hconn : s.connections[c]? = some conn) (htoManager : conn.toManager = data :: rest) :
      Happens (.receives c) { s with
        manager := receive codec s.manager data
        connections := s.connections.modify c fun conn => { conn with toManager := rest } }
  | dies {hub : Nat} (halive : (s.server hub).isSome) :
      Happens (.dies hub) { s with
        hubs := s.hubs.set hub none
        connections := s.connections.map (Connection.afterDeath hub) }

variable {codec} {s} {s' : Failover} {event : FailoverEvent}

/-- What happens when a thread sends: the connection takes the packet, or it fails and `mClient`
is cleared. -/
theorem happens_of_transmit {ok : Bool} (h : s.transmit codec ok = some s') :
    Happens codec s (.transmit ok) s' := by
  unfold transmit at h
  split at h
  · rename_i sender request c hsending hclient
    cases ok with
    | true =>
        simp only [if_true] at h
        split at h
        · cases h
        · rename_i conn hconn
          split at h
          · rename_i hreaches
            obtain ⟨threads, hthreads, rfl⟩ := Option.map_eq_some_iff.mp h
            exact .sends hsending hclient hconn hreaches hthreads
          · cases h
    | false =>
        simp only [Bool.false_eq_true, if_false] at h
        obtain ⟨threads, hthreads, rfl⟩ := Option.map_eq_some_iff.mp h
        exact .fails hsending hclient hthreads
  · rename_i hother
    obtain ⟨threads, hthreads, rfl⟩ := Option.map_eq_some_iff.mp h
    refine .crashes ?_ hthreads
    cases hsending : s.threads.sending with
    | none => exact .inl rfl
    | some sending =>
        cases hclient : s.threads.mClient with
        | none => exact .inr rfl
        | some c => exact absurd hclient (hother _ _ c hsending)

/-- **What an event can do,** one case for each, with what it takes for granted. -/
theorem step_happens (h : s.step codec event = some s') : Happens codec s event s' := by
  cases event with
  | call call =>
      obtain ⟨threads, hthreads, rfl⟩ := Option.map_eq_some_iff.mp h
      exact .calls hthreads
  | transmit ok => exact happens_of_transmit h
  | connect hub fd =>
      simp only [step] at h
      split at h
      · rename_i halive
        obtain ⟨threads, hthreads, rfl⟩ := Option.map_eq_some_iff.mp h
        exact .connects halive hthreads
      · cases h
  | introduce pubs subs =>
      simp only [step] at h
      split at h
      · rename_i c hpc
        obtain ⟨threads, hthreads, rfl⟩ := Option.map_eq_some_iff.mp h
        exact .introduces hpc hthreads
      · cases h
  | runs event =>
      simp only [step] at h
      split at h
      · rename_i hplain
        obtain ⟨threads, hthreads, rfl⟩ := Option.map_eq_some_iff.mp h
        exact .runs hplain hthreads
      · cases h
  | starts digest =>
      obtain rfl := Option.some.inj h
      exact .starts
  | performs hub op =>
      simp only [step] at h
      split at h
      · cases h
      · rename_i server hserver
        obtain ⟨o, hop, rfl⟩ := Option.map_eq_some_iff.mp h
        exact .performs hserver hop
  | handles c random =>
      simp only [step, handle] at h
      split at h
      · cases h
      · rename_i conn hconn
        split at h
        · cases h
        · rename_i packet rest htoHub
          split at h
          · cases h
          · rename_i server hserver
            obtain ⟨o, hop, rfl⟩ := Option.map_eq_some_iff.mp h
            exact .handles hconn htoHub hserver hop
  | hangsUp c =>
      simp only [step, hangUp] at h
      split at h
      · cases h
      · rename_i conn hconn
        split at h
        · cases h
        · rename_i server hserver
          obtain ⟨o, hop, rfl⟩ := Option.map_eq_some_iff.mp h
          exact .hangsUp hconn hserver hop
  | receives c =>
      simp only [step] at h
      split at h
      · cases h
      · rename_i conn hconn
        split at h
        · cases h
        · rename_i data rest htoManager
          obtain rfl := Option.some.inj h
          exact .receives hconn htoManager
  | dies hub =>
      simp only [step] at h
      split at h
      · rename_i halive
        obtain rfl := Option.some.inj h
        exact .dies halive
      · cases h

end Happens

end Failover

end IpcPubsub
