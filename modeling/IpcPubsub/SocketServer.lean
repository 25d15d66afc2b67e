import IpcPubsub.HubRuns

/-!
# The socket server under the hub

`UDSServer::MainLoop` keeps a set of accepted descriptors of its own and calls
the hub as events come in.  One iteration takes a snapshot of the set, polls it,
accepts at most one connection, and then works through the snapshot: it reads a
packet where there is one and drops the connection where the peer has hung up.

The loop is modelled one action at a time, since the purge runs on a thread of
its own and may come between any two of them.  What the kernel answers (the
result of `poll`, of `accept` and of every `read`) is part of the event.  A
descriptor is open from the `accept` that returns it to the `close`, and
`accept` returns none that is open.

The two tables are updated one after the other, so they differ while a
connection is being set up or torn down.  The invariant follows each descriptor
through its `FdStatus` and says which calls the hub has had about it.
-/

namespace IpcPubsub

open FiniteMap GuardedRuns

/-- What `poll` reports of a client. -/
structure Revents where
  pollin : Bool := false
  pollhup : Bool := false
  deriving DecidableEq

/-- What a successful `poll` reports: the shutdown event, a new client, and the
events of the clients in the order of the snapshot. -/
structure PollResult where
  shutdown : Bool := false
  listen : Bool := false
  clients : List Revents := []
  deriving DecidableEq

/-- Where `UDSServer::MainLoop` is. -/
inductive LoopPoint
  /-- At the start of an iteration. -/
  | top
  /-- In `poll`, with the snapshot of the clients. -/
  | polling (fds : List Fd)
  /-- Before `accept`. -/
  | accepting (ready : List (Fd × Revents))
  /-- The new client is in `mClients`; before `mOnConnect`. -/
  | connecting (fd : Fd) (ready : List (Fd × Revents))
  /-- Before the next client of the snapshot is looked at. -/
  | serving (ready : List (Fd × Revents))
  /-- Before `read`; `hup` says whether the client has also hung up. -/
  | reading (fd : Fd) (hup : Bool) (ready : List (Fd × Revents))
  /-- Before `mOnDisconnect`. -/
  | disconnecting (fd : Fd) (ready : List (Fd × Revents))
  /-- Before `mClients.erase`. -/
  | erasing (fd : Fd) (ready : List (Fd × Revents))
  /-- Out of the loop, before the descriptors are closed. -/
  | closing
  | returned
  /-- An assertion of the hub about the descriptor has failed. -/
  | aborted
  deriving DecidableEq

/-- A call of the hub by the socket server. -/
inductive SocketCall
  | onConnect (fd : Fd)
  | onData (fd : Fd) (data : List UInt8)
  | onDisconnect (fd : Fd)
  deriving DecidableEq

def SocketCall.fd : SocketCall → Fd
  | .onConnect fd => fd
  | .onData fd _ => fd
  | .onDisconnect fd => fd

/-- The socket server, the hub it drives, and what has happened so far: the
results of `accept`, the calls of `close` and the calls of the hub. -/
structure UDSServer where
  hub : TopologyServer
  mClients : Finset Fd := ∅
  pc : LoopPoint := .top
  accepted : List Fd := []
  closed : List Fd := []
  calls : List SocketCall := []

/-- An action of the loop with what the kernel answers, or the purge. -/
inductive LoopEvent
  /-- Copy `mClients` in the order it is iterated in. -/
  | snapshot (order : List Fd)
  /-- `none` is an error. -/
  | poll (result : Option PollResult)
  /-- `none` is an error. -/
  | accept (fd : Option Fd)
  /-- `none` is an error; `random` is the uid drawn if the packet is minted. -/
  | read (result : Option (List UInt8)) (random : UInt64)
  /-- The next action that asks the kernel nothing. -/
  | advance
  /-- Close what is left in `mClients` in the order it is iterated in. -/
  | close (order : List Fd)
  | purge (order : List UInt64)
  deriving DecidableEq

namespace UDSServer

/-- A descriptor that was accepted and has not been closed since. -/
def IsOpen (s : UDSServer) (fd : Fd) : Prop :=
  s.closed.count fd < s.accepted.count fd

instance (s : UDSServer) : DecidablePred s.IsOpen := fun fd =>
  inferInstanceAs (Decidable (s.closed.count fd < s.accepted.count fd))

/-- A server that has just been created, over a hub with the given digest. -/
def start (digest : List TopologyMessage) : UDSServer where
  hub := .create digest

/-- After `mOnData`, or where there was nothing to read. -/
def afterRead (fd : Fd) (hup : Bool) (ready : List (Fd × Revents)) : LoopPoint :=
  if hup then .disconnecting fd ready else .serving ready

/-- The actions that depend on no answer of the kernel. -/
def advance (s : UDSServer) : Option UDSServer :=
  match s.pc with
  | .connecting fd ready => some { s with
      hub := (s.hub.onConnect fd).server
      calls := s.calls ++ [.onConnect fd]
      pc := .serving ready }
  | .serving [] => some { s with pc := .top }
  | .serving ((fd, revents) :: ready) => some { s with
      pc :=
        if revents.pollin then .reading fd revents.pollhup ready
        else afterRead fd revents.pollhup ready }
  | .disconnecting fd ready =>
      match s.hub.onDisconnect fd with
      | none => some { s with calls := s.calls ++ [.onDisconnect fd], pc := .aborted }
      | some o => some { s with
          hub := o.server
          calls := s.calls ++ [.onDisconnect fd]
          pc := .erasing fd ready }
  | .erasing fd ready => some { s with
      mClients := s.mClients.erase fd
      pc := .serving ready }
  | _ => none

/-- What is done with a packet that was read; `parse` is what `ParseFromArray`
leaves in the message. -/
def receive (parse : List UInt8 → TopologyMessage) (s : UDSServer) (fd : Fd) (data : List UInt8)
    (random : UInt64) (next : LoopPoint) : UDSServer :=
  match s.hub.onData parse fd data random with
  | none => { s with calls := s.calls ++ [.onData fd data], pc := .aborted }
  | some o => { s with
      hub := o.server
      calls := s.calls ++ [.onData fd data]
      pc := next }

/-- Close every member of `mClients`, as the end of `MainLoop` does; `onRet`
finds the set empty. -/
def closeAll (s : UDSServer) (order : List Fd) : UDSServer :=
  { s with closed := s.closed ++ order, mClients := ∅, pc := .returned }

/-- One action of the loop, or the purge. -/
def step (parse : List UInt8 → TopologyMessage) (s : UDSServer) : LoopEvent → Option UDSServer
  | .snapshot order =>
      if s.pc = .top ∧ order.Nodup ∧ order.toFinset = s.mClients then
        some { s with pc := .polling order }
      else none
  | .poll result =>
      match s.pc, result with
      | .polling _, none => some { s with pc := .closing }
      | .polling fds, some result =>
          if result.clients.length ≠ fds.length then none
          else if result.shutdown then some { s with pc := .closing }
          else if result.listen then some { s with pc := .accepting (fds.zip result.clients) }
          else some { s with pc := .serving (fds.zip result.clients) }
      | _, _ => none
  | .accept fd =>
      match s.pc, fd with
      | .accepting _, none => some { s with pc := .closing }
      | .accepting ready, some fd =>
          if s.IsOpen fd then none
          else some { s with
            mClients := insert fd s.mClients
            accepted := s.accepted ++ [fd]
            pc := .connecting fd ready }
      | _, _ => none
  | .read result random =>
      match s.pc with
      | .reading fd hup ready =>
          match result with
          | none | some [] => some { s with pc := afterRead fd hup ready }
          | some data => some (s.receive parse fd data random (afterRead fd hup ready))
      | _ => none
  | .advance => s.advance
  | .close order =>
      if s.pc = .closing ∧ order.Nodup ∧ order.toFinset = s.mClients then
        some (s.closeAll order)
      else none
  | .purge order =>
      if order.Nodup ∧ order.toFinset = TopologyServer.historicallyActive s.hub.mHistory then
        some { s with hub := (s.hub.purgeDisconnected order).server }
      else none

end UDSServer

/-! ## The connections of the hub -/

namespace TopologyServer

variable {parse : List UInt8 → TopologyMessage} {s : TopologyServer} {fd fd' : Fd} {o : Outcome}

/-- `OnConnect` enters the client. -/
theorem mem_onConnect : fd' ∈ (s.onConnect fd).server.mClients ↔ fd' = fd ∨ fd' ∈ s.mClients := by
  simp [onConnect]

/-- `OnDisconnect` has no client to speak of exactly where there is none: the iterator it uses
is the end. -/
theorem onDisconnect_eq_none : s.onDisconnect fd = none ↔ fd ∉ s.mClients := by
  unfold onDisconnect
  cases hclient : s.mClients.lookup fd with
  | none => simp [Finmap.lookup_eq_none.mp hclient]
  | some client =>
      have hmem : fd ∈ s.mClients := Finmap.mem_iff.mpr ⟨client, hclient⟩
      simp [hmem]

/-- Otherwise it removes the client. -/
theorem mem_onDisconnect (h : s.onDisconnect fd = some o) :
    fd' ∈ o.server.mClients ↔ fd' ≠ fd ∧ fd' ∈ s.mClients := by
  unfold onDisconnect at h
  split at h
  · cases h
  · obtain rfl := Option.some.inj h
    simp

/-- A packet of a connected client never runs into the assertion. -/
theorem onData_ne_none (hfd : fd ∈ s.mClients) (data : List UInt8) (random : UInt64) :
    s.onData parse fd data random ≠ none := by
  obtain ⟨client, hclient⟩ := Finmap.mem_iff.mp hfd
  unfold onData onMessage
  rw [hclient]
  split
  · simp
  · split <;> simp

/-- A packet opens and closes no connection, whatever it parses to and whatever the hub makes of
it. -/
theorem mem_onData {data : List UInt8} {random : UInt64}
    (h : s.onData parse fd data random = some o) :
    fd' ∈ o.server.mClients ↔ fd' ∈ s.mClients := by
  unfold onData at h
  split at h
  · obtain rfl := Option.some.inj h
    rfl
  · have hperform : s.perform (.data fd (parse data) random) = some o := h
    constructor
    · intro hmem
      obtain ⟨client', hclient'⟩ := Finmap.mem_iff.mp hmem
      rcases perform_client hperform hclient' with ⟨hop, _, _⟩ | ⟨client, hclient, _⟩
      · cases hop
      · exact Finmap.mem_iff.mpr ⟨client, hclient⟩
    · intro hmem
      obtain ⟨client, hclient⟩ := Finmap.mem_iff.mp hmem
      obtain ⟨client', hclient'⟩ := perform_staying hperform hclient
      exact Finmap.mem_iff.mpr ⟨client', hclient'⟩

/-- The purge removes none. -/
theorem mem_purgeDisconnected {order : List UInt64} :
    fd ∈ (s.purgeDisconnected order).server.mClients ↔ fd ∈ s.mClients := by
  simp [purgeDisconnected]

end TopologyServer

/-! ## The status of a descriptor -/

/-- What a descriptor is to the two tables. -/
inductive FdStatus
  /-- Not accepted yet. -/
  | unknown
  /-- Accepted; the hub does not know yet. -/
  | knocking
  | connected
  /-- Hung up, but not closed. -/
  | gone
  deriving DecidableEq

/-- The calls that the hub has had about a descriptor, in order. -/
def FdStatus.Allows (fd : Fd) (calls : List SocketCall) : FdStatus → Prop
  | .unknown => calls = []
  | .knocking => calls = []
  | .connected => ∃ packets : List (List UInt8),
      calls = .onConnect fd :: packets.map (.onData fd)
  | .gone => ∃ packets : List (List UInt8),
      calls = .onConnect fd :: packets.map (.onData fd) ++ [.onDisconnect fd]

namespace LoopPoint

/-- The client that is in `mClients` and not known to the hub yet. -/
def knocking : LoopPoint → Option Fd
  | .connecting fd _ => some fd
  | _ => none

/-- The client that is in `mClients` and not known to the hub any more. -/
def dropping : LoopPoint → Option Fd
  | .erasing fd _ => some fd
  | _ => none

/-- The clients of the snapshot that are still to be served. -/
def pending : LoopPoint → List Fd
  | .polling fds => fds
  | .accepting ready => ready.map Prod.fst
  | .connecting _ ready => ready.map Prod.fst
  | .serving ready => ready.map Prod.fst
  | .reading fd _ ready => fd :: ready.map Prod.fst
  | .disconnecting fd ready => fd :: ready.map Prod.fst
  | .erasing _ ready => ready.map Prod.fst
  | _ => []

end LoopPoint

namespace UDSServer

def status (s : UDSServer) (fd : Fd) : FdStatus :=
  if fd ∉ s.accepted then .unknown
  else if s.pc.knocking = some fd then .knocking
  else if fd ∈ s.hub.mClients then .connected
  else .gone

def callsOn (s : UDSServer) (fd : Fd) : List SocketCall :=
  s.calls.filter fun call => call.fd = fd

/-- The two tables agree but for the client that is being set up or torn down. -/
structure Agrees (s : UDSServer) : Prop where
  assertions : s.pc ≠ .aborted
  known : s.pc ≠ .returned → ∀ fd, fd ∈ s.hub.mClients ↔
    fd ∈ s.mClients ∧ s.pc.knocking ≠ some fd ∧ s.pc.dropping ≠ some fd
  nodup : s.pc.pending.Nodup
  pending : ∀ fd ∈ s.pc.pending, fd ∈ s.hub.mClients
  accepted : ∀ fd ∈ s.mClients, fd ∈ s.accepted
  knocking : ∀ fd, s.pc.knocking = some fd → fd ∈ s.mClients
  closed : s.pc ≠ .returned → s.closed = []
  calls : ∀ fd, (s.status fd).Allows fd (s.callsOn fd)

section Agrees

variable {parse : List UInt8 → TopologyMessage} {s : UDSServer} {fd : Fd}

/-- A status is decided by three facts. -/
theorem standing_congr {s' : UDSServer} (haccepted : s'.accepted = s.accepted)
    (hknocking : s'.pc.knocking = some fd ↔ s.pc.knocking = some fd)
    (hknown : fd ∈ s'.hub.mClients ↔ fd ∈ s.hub.mClients) : s'.status fd = s.status fd := by
  simp only [status, haccepted, hknocking, hknown]

/-- In the beginning both tables are empty. -/
theorem start_agrees (digest : List TopologyMessage) : (start digest).Agrees where
  assertions := by simp [start]
  known := fun _ fd => by
    have hnone : fd ∉ (∅ : UnorderedMap Fd Client) := Finmap.notMem_empty
    simpa [start, TopologyServer.create] using hnone
  nodup := List.nodup_nil
  pending := fun fd h => by cases h
  accepted := fun fd h => by cases h
  knocking := fun fd h => by cases h
  closed := fun _ => rfl
  calls := fun fd => by simp [start, status, callsOn, FdStatus.Allows]

/-- Nothing is half way between the tables. -/
def Settled (pc : LoopPoint) : Prop :=
  pc.knocking = none ∧ pc.dropping = none ∧ pc ≠ .returned ∧ pc ≠ .aborted

/-- An action that touches neither table, and between whose ends no client is being accepted or
dropped. -/
theorem Agrees.move (h : s.Agrees) {pc : LoopPoint} (hbefore : Settled s.pc) (hafter : Settled pc)
    (hnodup : pc.pending.Nodup) (hpending : ∀ fd ∈ pc.pending, fd ∈ s.hub.mClients) :
    ({ s with pc := pc } : UDSServer).Agrees where
  assertions := hafter.2.2.2
  known := fun _ fd => by
    have hknown := h.known hbefore.2.2.1 fd
    simpa [hbefore.1, hbefore.2.1, hafter.1, hafter.2.1] using hknown
  nodup := hnodup
  pending := hpending
  accepted := h.accepted
  knocking := fun fd hfd => by simp [hafter.1] at hfd
  closed := fun _ => h.closed hbefore.2.2.1
  calls := fun fd => by
    have hcalls := h.calls fd
    simpa [status, callsOn, hbefore.1, hafter.1] using hcalls

/-- Leaving the loop. -/
theorem Agrees.stop (h : s.Agrees) (hpc : Settled s.pc) :
    ({ s with pc := .closing } : UDSServer).Agrees := by
  apply h.move hpc
  · simp [Settled, LoopPoint.knocking, LoopPoint.dropping]
  · exact List.nodup_nil
  · exact fun fd hfd => by cases hfd

/-- A descriptor that is not open was never accepted. -/
theorem Agrees.not_mem_accepted (h : s.Agrees) (hpc : s.pc ≠ .returned) (hfree : ¬ s.IsOpen fd) :
    fd ∉ s.accepted := by
  unfold IsOpen at hfree
  rw [h.closed hpc, List.count_nil, Nat.pos_iff_ne_zero, not_not] at hfree
  exact List.count_eq_zero.mp hfree

/-- A new client enters the table of the socket server; until `mOnConnect` is called it is the one
that knocks. -/
theorem Agrees.accept (h : s.Agrees) {ready : List (Fd × Revents)} (hpc : s.pc = .accepting ready)
    (hfree : ¬ s.IsOpen fd) :
    ({ s with
        mClients := insert fd s.mClients
        accepted := s.accepted ++ [fd]
        pc := .connecting fd ready } : UDSServer).Agrees := by
  have hrunning : s.pc ≠ .returned := by simp [hpc]
  have hnew : fd ∉ s.accepted := h.not_mem_accepted hrunning hfree
  have hknown : ∀ fd', fd' ∈ s.hub.mClients ↔ fd' ∈ s.mClients := by
    intro fd'
    simpa [hpc, LoopPoint.knocking, LoopPoint.dropping] using h.known hrunning fd'
  have hnone : fd ∉ s.mClients := fun hmem => hnew (h.accepted fd hmem)
  constructor
  · simp
  · intro _ fd'
    by_cases hfd : fd' = fd
    · simp [hfd, hknown, hnone, LoopPoint.knocking]
    · simp [hfd, hknown, LoopPoint.knocking, LoopPoint.dropping, Ne.symm hfd]
  · simpa [hpc, LoopPoint.pending] using h.nodup
  · simpa [hpc, LoopPoint.pending] using h.pending
  · intro fd' hmem
    rcases Finset.mem_insert.mp hmem with rfl | hmem
    · simp
    · simp [h.accepted fd' hmem]
  · intro fd' hfd
    obtain rfl : fd = fd' := Option.some.inj hfd
    simp
  · exact fun _ => h.closed hrunning
  · intro fd'
    have hcalls := h.calls fd'
    by_cases hfd : fd' = fd
    · subst hfd
      simpa [status, callsOn, hnew, FdStatus.Allows, LoopPoint.knocking] using hcalls
    · simpa [status, callsOn, hfd, Ne.symm hfd, hpc, LoopPoint.knocking] using hcalls

/-- A call of the hub concerns the record of one descriptor, and the others keep theirs. -/
theorem Agrees.record (h : s.Agrees) {s' : UDSServer} (fd : Fd) (call : SocketCall)
    (status : FdStatus)
    (hfd : call.fd = fd) (hcalls : s'.calls = s.calls ++ [call])
    (hother : ∀ fd', fd' ≠ fd → s'.status fd' = s.status fd')
    (hown : s'.status fd = status) (hallows : status.Allows fd (s.callsOn fd ++ [call])) :
    ∀ fd', (s'.status fd').Allows fd' (s'.callsOn fd') := by
  intro fd'
  have hrecord : s'.callsOn fd' = s.callsOn fd' ++ if fd = fd' then [call] else [] := by
    unfold callsOn
    rw [hcalls, List.filter_append]
    by_cases hne : fd = fd' <;> simp [hfd, hne]
  rw [hrecord]
  by_cases hne : fd' = fd
  · subst hne
    rw [hown, if_pos rfl]
    exact hallows
  · rw [hother fd' hne, if_neg (Ne.symm hne), List.append_nil]
    exact h.calls fd'

/-- The hub learns of the new client, and from here on both tables have it. -/
theorem Agrees.connect (h : s.Agrees) {ready : List (Fd × Revents)}
    (hpc : s.pc = .connecting fd ready) :
    ({ s with
        hub := (s.hub.onConnect fd).server
        calls := s.calls ++ [.onConnect fd]
        pc := .serving ready } : UDSServer).Agrees := by
  have hrunning : s.pc ≠ .returned := by simp [hpc]
  have hmem : fd ∈ s.mClients := h.knocking fd (by simp [hpc, LoopPoint.knocking])
  have haccepted : fd ∈ s.accepted := h.accepted fd hmem
  have hknown : ∀ fd', fd' ∈ s.hub.mClients ↔ fd' ∈ s.mClients ∧ fd ≠ fd' := by
    intro fd'
    simpa [hpc, LoopPoint.knocking, LoopPoint.dropping] using h.known hrunning fd'
  constructor
  · simp
  · intro _ fd'
    by_cases hfd : fd' = fd
    · simp [hfd, TopologyServer.mem_onConnect, hmem, LoopPoint.knocking, LoopPoint.dropping]
    · simp [hfd, TopologyServer.mem_onConnect, hknown, Ne.symm hfd, LoopPoint.knocking,
        LoopPoint.dropping]
  · simpa [hpc, LoopPoint.pending] using h.nodup
  · intro fd' hfd'
    rw [TopologyServer.mem_onConnect]
    exact Or.inr (h.pending fd' (by simpa [hpc, LoopPoint.pending] using hfd'))
  · exact h.accepted
  · exact fun fd' hfd' => by cases hfd'
  · exact fun _ => h.closed hrunning
  · apply h.record fd (.onConnect fd) .connected rfl rfl
    · intro fd' hne
      simp [status, hpc, LoopPoint.knocking, TopologyServer.mem_onConnect, hne, Ne.symm hne]
    · simp [status, haccepted, LoopPoint.knocking, TopologyServer.mem_onConnect]
    · have hempty : s.callsOn fd = [] := by
        have hbefore := h.calls fd
        simpa [status, haccepted, hpc, LoopPoint.knocking, FdStatus.Allows] using hbefore
      exact ⟨[], by simp [hempty]⟩

/-- The record of a client both tables know. -/
theorem Agrees.connected (h : s.Agrees) (hpc : Settled s.pc) (hfd : fd ∈ s.hub.mClients) :
    fd ∈ s.accepted ∧ ∃ packets : List (List UInt8),
      s.callsOn fd = .onConnect fd :: packets.map (.onData fd) := by
  have haccepted : fd ∈ s.accepted := h.accepted fd ((h.known hpc.2.2.1 fd).mp hfd).1
  have hcalls := h.calls fd
  have hstatus : s.status fd = .connected := by
    simp [status, haccepted, hpc.1, hfd]
  rw [hstatus] at hcalls
  exact ⟨haccepted, hcalls⟩

/-- The hub is handed a packet of a connected client, whose record grows by it. -/
theorem Agrees.data (h : s.Agrees) {data : List UInt8} {random : UInt64} {next : LoopPoint}
    (hbefore : Settled s.pc) (hafter : Settled next) (hnodup : next.pending.Nodup)
    (hpending : ∀ fd ∈ next.pending, fd ∈ s.hub.mClients) (hfd : fd ∈ s.hub.mClients) :
    (s.receive parse fd data random next).Agrees := by
  unfold receive
  cases ho : s.hub.onData parse fd data random with
  | none => exact absurd ho (TopologyServer.onData_ne_none hfd data random)
  | some o =>
      have hkeys : ∀ fd', fd' ∈ o.server.mClients ↔ fd' ∈ s.hub.mClients :=
        fun fd' => TopologyServer.mem_onData ho
      obtain ⟨haccepted, packets, hpackets⟩ := h.connected hbefore hfd
      constructor
      · exact hafter.2.2.2
      · intro _ fd'
        have hknown := h.known hbefore.2.2.1 fd'
        simpa [hkeys, hbefore.1, hbefore.2.1, hafter.1, hafter.2.1] using hknown
      · exact hnodup
      · exact fun fd' hfd' => (hkeys fd').mpr (hpending fd' hfd')
      · exact h.accepted
      · exact fun fd' hfd' => by simp [hafter.1] at hfd'
      · exact fun _ => h.closed hbefore.2.2.1
      · apply h.record fd (.onData fd data) .connected rfl rfl
        · intro fd' _
          simp [status, hbefore.1, hafter.1, hkeys]
        · simp [status, haccepted, hafter.1, hkeys, hfd]
        · exact ⟨packets ++ [data], by simp [hpackets]⟩

/-- The hub learns of a hang-up and drops its client; the socket server has it until the next
step. -/
theorem Agrees.disconnect (h : s.Agrees) {ready : List (Fd × Revents)} {o : Outcome}
    (hpc : s.pc = .disconnecting fd ready) (ho : s.hub.onDisconnect fd = some o) :
    ({ s with
        hub := o.server
        calls := s.calls ++ [.onDisconnect fd]
        pc := .erasing fd ready } : UDSServer).Agrees := by
  have hsettled : Settled s.pc := by simp [Settled, hpc, LoopPoint.knocking, LoopPoint.dropping]
  have hkeys : ∀ fd', fd' ∈ o.server.mClients ↔ fd' ≠ fd ∧ fd' ∈ s.hub.mClients :=
    fun fd' => TopologyServer.mem_onDisconnect ho
  have hpending : fd ∉ ready.map Prod.fst ∧ (ready.map Prod.fst).Nodup := by
    have hnodup := h.nodup
    rw [hpc] at hnodup
    exact List.nodup_cons.mp hnodup
  have hfd : fd ∈ s.hub.mClients := h.pending fd (by simp [hpc, LoopPoint.pending])
  obtain ⟨haccepted, packets, hpackets⟩ := h.connected hsettled hfd
  constructor
  · simp
  · intro _ fd'
    have hknown := h.known hsettled.2.2.1 fd'
    rw [hkeys, hknown]
    simp [hpc, LoopPoint.knocking, LoopPoint.dropping, and_comm, eq_comm]
  · exact hpending.2
  · intro fd' hfd'
    refine (hkeys fd').mpr ⟨?_, h.pending fd' ?_⟩
    · intro heq
      exact hpending.1 (heq ▸ hfd')
    · rw [hpc]
      exact List.mem_cons_of_mem _ hfd'
  · exact h.accepted
  · exact fun fd' hfd' => by cases hfd'
  · exact fun _ => h.closed hsettled.2.2.1
  · apply h.record fd (.onDisconnect fd) .gone rfl rfl
    · intro fd' hne
      simp [status, hpc, LoopPoint.knocking, hkeys, hne]
    · simp [status, haccepted, LoopPoint.knocking, hkeys]
    · exact ⟨packets, by simp [hpackets]⟩

/-- The client leaves the table of the socket server too.  Its descriptor stays open. -/
theorem Agrees.erase (h : s.Agrees) {ready : List (Fd × Revents)}
    (hpc : s.pc = .erasing fd ready) :
    ({ s with mClients := s.mClients.erase fd, pc := .serving ready } : UDSServer).Agrees where
  assertions := by simp
  known := fun _ fd' => by
    have hknown := h.known (by simp [hpc]) fd'
    rw [hknown]
    simp [hpc, LoopPoint.knocking, LoopPoint.dropping, and_comm, eq_comm]
  nodup := by simpa [hpc, LoopPoint.pending] using h.nodup
  pending := by simpa [hpc, LoopPoint.pending] using h.pending
  accepted := fun fd' hmem => h.accepted fd' (Finset.mem_of_mem_erase hmem)
  knocking := fun fd' hfd' => by cases hfd'
  closed := fun _ => h.closed (by simp [hpc])
  calls := fun fd' => by
    have hcalls := h.calls fd'
    simpa [status, callsOn, hpc, LoopPoint.knocking] using hcalls

/-- The purge opens and closes no connection, and no handler of the socket server is called for
it. -/
theorem Agrees.purge (h : s.Agrees) (order : List UInt64) :
    ({ s with hub := (s.hub.purgeDisconnected order).server } : UDSServer).Agrees where
  assertions := h.assertions
  known := fun hrunning fd => by
    rw [TopologyServer.mem_purgeDisconnected]
    exact h.known hrunning fd
  nodup := h.nodup
  pending := fun fd hfd => TopologyServer.mem_purgeDisconnected.mpr (h.pending fd hfd)
  accepted := h.accepted
  knocking := h.knocking
  closed := h.closed
  calls := fun fd => by
    have hstatus : ({ s with hub := (s.hub.purgeDisconnected order).server } :
        UDSServer).status fd = s.status fd :=
      standing_congr rfl Iff.rfl TopologyServer.mem_purgeDisconnected
    rw [hstatus]
    exact h.calls fd

/-- At the end of the loop the sockets are closed, and the hub has been told of none of it. -/
theorem Agrees.closeAll (h : s.Agrees) (hpc : s.pc = .closing) (order : List Fd) :
    (s.closeAll order).Agrees where
  assertions := by simp [UDSServer.closeAll]
  known := fun hrunning => absurd rfl hrunning
  nodup := List.nodup_nil
  pending := fun fd hfd => by cases hfd
  accepted := fun fd hfd => by cases hfd
  knocking := fun fd hfd => by cases hfd
  closed := fun hrunning => absurd rfl hrunning
  calls := fun fd => by
    have hstatus : (s.closeAll order).status fd = s.status fd :=
      standing_congr rfl (by simp [hpc, UDSServer.closeAll, LoopPoint.knocking]) Iff.rfl
    rw [hstatus]
    exact h.calls fd

/-- After a `read` nothing is half way between the tables. -/
theorem settled_afterRead (hup : Bool) (ready : List (Fd × Revents)) :
    Settled (afterRead fd hup ready) := by
  cases hup <;> simp [Settled, afterRead, LoopPoint.knocking, LoopPoint.dropping]

/-- What is left to serve after a read. -/
theorem pending_afterRead (hup : Bool) (ready : List (Fd × Revents)) :
    (afterRead fd hup ready).pending.Sublist (fd :: ready.map Prod.fst) := by
  cases hup with
  | true => exact List.Sublist.refl _
  | false => exact List.sublist_cons_self _ _

/-- The steps of the loop between its system calls, one case for each place of the loop. -/
theorem Agrees.advance (h : s.Agrees) {s' : UDSServer} (hstep : s.advance = some s') :
    s'.Agrees := by
  unfold UDSServer.advance at hstep
  split at hstep
  · rename_i fd ready hpc
    obtain rfl := Option.some.inj hstep
    exact h.connect hpc
  · rename_i hpc
    obtain rfl := Option.some.inj hstep
    apply h.move
    · simp [Settled, hpc, LoopPoint.knocking, LoopPoint.dropping]
    · simp [Settled, LoopPoint.knocking, LoopPoint.dropping]
    · exact List.nodup_nil
    · exact fun fd hfd => by cases hfd
  · rename_i fd revents ready hpc
    obtain rfl := Option.some.inj hstep
    have hpending : s.pc.pending = fd :: ready.map Prod.fst := by rw [hpc]; rfl
    have hsub : (if revents.pollin then LoopPoint.reading fd revents.pollhup ready
        else afterRead fd revents.pollhup ready).pending.Sublist s.pc.pending := by
      rw [hpending]
      split
      · exact List.Sublist.refl _
      · exact pending_afterRead revents.pollhup ready
    apply h.move
    · simp [Settled, hpc, LoopPoint.knocking, LoopPoint.dropping]
    · split
      · simp [Settled, LoopPoint.knocking, LoopPoint.dropping]
      · exact settled_afterRead revents.pollhup ready
    · exact h.nodup.sublist hsub
    · exact fun fd' hfd' => h.pending fd' (hsub.subset hfd')
  · rename_i fd ready hpc
    split at hstep
    · rename_i hnone
      have hfd : fd ∈ s.hub.mClients := h.pending fd (by simp [hpc, LoopPoint.pending])
      exact absurd hfd (TopologyServer.onDisconnect_eq_none.mp hnone)
    · rename_i o ho
      obtain rfl := Option.some.inj hstep
      exact h.disconnect hpc ho
  · rename_i fd ready hpc
    obtain rfl := Option.some.inj hstep
    exact h.erase hpc
  · cases hstep

end Agrees

/-- `poll` returns, and the loop has the snapshot it will serve, or is about to end. -/
theorem Agrees.poll {parse : List UInt8 → TopologyMessage} {s s' : UDSServer}
    {result : Option PollResult} (h : s.Agrees)
    (hstep : s.step parse (.poll result) = some s') : s'.Agrees := by
  have hpolled : ∀ {fds : List Fd}, s.pc = .polling fds → Settled s.pc := by
    intro fds hpc
    simp [Settled, hpc, LoopPoint.knocking, LoopPoint.dropping]
  simp only [UDSServer.step] at hstep
  split at hstep
  · rename_i fds hpc
    obtain rfl := Option.some.inj hstep
    exact h.stop (hpolled hpc)
  · rename_i fds result hpc
    split at hstep
    · cases hstep
    · rename_i hlength
      have hready : ((fds.zip result.clients).map Prod.fst).Nodup ∧
          ∀ fd ∈ (fds.zip result.clients).map Prod.fst, fd ∈ s.hub.mClients := by
        have hfst : (fds.zip result.clients).map Prod.fst = s.pc.pending := by
          rw [hpc]
          exact List.map_fst_zip (by omega)
        rw [hfst]
        exact ⟨h.nodup, h.pending⟩
      split at hstep
      · obtain rfl := Option.some.inj hstep
        exact h.stop (hpolled hpc)
      · split at hstep
        · obtain rfl := Option.some.inj hstep
          apply h.move (hpolled hpc)
          · simp [Settled, LoopPoint.knocking, LoopPoint.dropping]
          · exact hready.1
          · exact hready.2
        · obtain rfl := Option.some.inj hstep
          apply h.move (hpolled hpc)
          · simp [Settled, LoopPoint.knocking, LoopPoint.dropping]
          · exact hready.1
          · exact hready.2
  · cases hstep

/-- A `read` returns, and what it has read is passed on if there is anything. -/
theorem Agrees.read {parse : List UInt8 → TopologyMessage} {s s' : UDSServer}
    {result : Option (List UInt8)}
    {random : UInt64} (h : s.Agrees)
    (hstep : s.step parse (.read result random) = some s') : s'.Agrees := by
  simp only [UDSServer.step] at hstep
  split at hstep
  · rename_i fd hup ready hpc
    have hsettled : Settled s.pc := by
      simp [Settled, hpc, LoopPoint.knocking, LoopPoint.dropping]
    have hsub : (afterRead fd hup ready).pending.Sublist s.pc.pending := by
      rw [hpc]
      exact pending_afterRead hup ready
    have hnodup := h.nodup.sublist hsub
    have hpending : ∀ fd' ∈ (afterRead fd hup ready).pending, fd' ∈ s.hub.mClients :=
      fun fd' hfd' => h.pending fd' (hsub.subset hfd')
    split at hstep
    · obtain rfl := Option.some.inj hstep
      exact h.move hsettled (settled_afterRead hup ready) hnodup hpending
    · obtain rfl := Option.some.inj hstep
      exact h.move hsettled (settled_afterRead hup ready) hnodup hpending
    · obtain rfl := Option.some.inj hstep
      have hfd : fd ∈ s.hub.mClients := h.pending fd (by simp [hpc, LoopPoint.pending])
      exact h.data hsettled (settled_afterRead hup ready) hnodup hpending hfd
  · cases hstep

/-- **One action** keeps the tables in agreement, whichever thread takes it. -/
theorem Agrees.step {parse : List UInt8 → TopologyMessage} {s s' : UDSServer} {event : LoopEvent}
    (h : s.Agrees) (hstep : s.step parse event = some s') : s'.Agrees := by
  cases event with
  | snapshot order =>
      simp only [UDSServer.step] at hstep
      split at hstep
      · rename_i horder
        obtain rfl := Option.some.inj hstep
        have hpc : Settled s.pc := by
          simp [Settled, horder.1, LoopPoint.knocking, LoopPoint.dropping]
        apply h.move hpc
        · simp [Settled, LoopPoint.knocking, LoopPoint.dropping]
        · exact horder.2.1
        · intro fd hfd
          have hmem : fd ∈ s.mClients := horder.2.2 ▸ List.mem_toFinset.mpr hfd
          exact (h.known hpc.2.2.1 fd).mpr ⟨hmem, by simp [hpc.1], by simp [hpc.2.1]⟩
      · cases hstep
  | poll result => exact h.poll hstep
  | accept fd =>
      simp only [UDSServer.step] at hstep
      split at hstep
      · rename_i ready hpc
        obtain rfl := Option.some.inj hstep
        exact h.stop (by simp [Settled, hpc, LoopPoint.knocking, LoopPoint.dropping])
      · rename_i ready fd hpc
        split at hstep
        · cases hstep
        · rename_i hfree
          obtain rfl := Option.some.inj hstep
          exact h.accept hpc hfree
      · cases hstep
  | read result random => exact h.read hstep
  | advance => exact h.advance hstep
  | close order =>
      simp only [UDSServer.step] at hstep
      split at hstep
      · rename_i hclosing
        obtain rfl := Option.some.inj hstep
        exact h.closeAll hclosing.1 order
      · cases hstep
  | purge order =>
      simp only [UDSServer.step] at hstep
      split at hstep
      · obtain rfl := Option.some.inj hstep
        exact h.purge order
      · cases hstep

/-! ## Runs -/

/-- The calls of the hub about a descriptor: it is connected once and first, and
disconnected at most once and last. -/
def Session (fd : Fd) (calls : List SocketCall) : Prop :=
  ∃ (packets : List (List UInt8)) (hungUp : Bool),
    calls = .onConnect fd :: packets.map (.onData fd) ++ if hungUp then [.onDisconnect fd] else []

/-- **Socket layer and hub agree on who is connected.**  Whatever the kernel
answers, no assertion about a descriptor fails; at the start of every iteration
the two tables have the same keys; no new client is known to the hub already;
and the calls about an accepted descriptor are one session, those about any
other none. -/
theorem connected_agree {parse : List UInt8 → TopologyMessage} {digest : List TopologyMessage}
    {events : List LoopEvent} {s : UDSServer}
    (hrun : exec (step parse) (start digest) events = some s) :
    s.pc ≠ .aborted ∧
      (s.pc = .top → s.hub.mClients.keys = s.mClients) ∧
      (∀ fd ready, s.pc = .connecting fd ready → fd ∉ s.hub.mClients) ∧
      ∀ fd, if fd ∈ s.accepted ∧ s.pc.knocking ≠ some fd then Session fd (s.callsOn fd)
        else s.callsOn fd = [] := by
  have h : s.Agrees :=
    exec_preserves (fun s event s' h hstep => h.step hstep) (start_agrees digest) hrun
  refine ⟨h.assertions, ?_, ?_, ?_⟩
  · intro hpc
    ext fd
    rw [Finmap.mem_keys, h.known (by simp [hpc]) fd]
    simp [hpc, LoopPoint.knocking, LoopPoint.dropping]
  · intro fd ready hpc hmem
    have hknown := (h.known (by simp [hpc]) fd).mp hmem
    simp [hpc, LoopPoint.knocking] at hknown
  · intro fd
    have hcalls := h.calls fd
    by_cases haccepted : fd ∈ s.accepted
    · by_cases hknocking : s.pc.knocking = some fd
      · have hstatus : s.status fd = .knocking := by
          simp [status, haccepted, hknocking]
        rw [hstatus] at hcalls
        simpa [hknocking, FdStatus.Allows] using hcalls
      · rw [if_pos ⟨haccepted, hknocking⟩]
        by_cases hmem : fd ∈ s.hub.mClients
        · have hstatus : s.status fd = .connected := by
            simp [status, haccepted, hknocking, hmem]
          rw [hstatus] at hcalls
          obtain ⟨packets, hpackets⟩ := hcalls
          exact ⟨packets, false, by simp [hpackets]⟩
        · have hstatus : s.status fd = .gone := by
            simp [status, haccepted, hknocking, hmem]
          rw [hstatus] at hcalls
          obtain ⟨packets, hpackets⟩ := hcalls
          exact ⟨packets, true, by simp [hpackets]⟩
    · have hstatus : s.status fd = .unknown := by simp [status, haccepted]
      rw [hstatus] at hcalls
      simpa [haccepted, FdStatus.Allows] using hcalls

/-- Two iterations: client 7 is accepted, then sends a packet and hangs up in
one go while the purge comes in between. -/
def acceptAndHangUp : List LoopEvent :=
  [.snapshot [], .poll (some { listen := true }), .accept (some 7), .advance, .advance,
    .snapshot [7], .poll (some { clients := [{ pollin := true, pollhup := true }] }), .advance,
    .read (some [1]) 77, .purge [5], .advance, .advance, .advance]

/-- A client is accepted, joins and hangs up: its session is complete, and both tables have lost
it. -/
theorem connected_agree_acceptAndHangUp :
    ∃ s, exec (step fun _ => { op := .nodeChange { id := 5, op := .join } }) (start [])
        acceptAndHangUp = some s ∧ s.hub.mClients.keys = s.mClients ∧ Session 7 (s.callsOn 7) := by
  have hfinal : ∀ s ∈ exec (step fun _ => { op := .nodeChange { id := 5, op := .join } })
      (start []) acceptAndHangUp, s.pc = .top ∧ 7 ∈ s.accepted := by
    decide +kernel
  obtain ⟨s, hrun⟩ := Option.isSome_iff_exists.mp (show (exec
    (step fun _ => { op := .nodeChange { id := 5, op := .join } }) (start [])
      acceptAndHangUp).isSome by decide +kernel)
  obtain ⟨hpc, haccepted⟩ := hfinal s hrun
  obtain ⟨_, hkeys, _, hcalls⟩ := connected_agree hrun
  refine ⟨s, hrun, hkeys hpc, ?_⟩
  have hsession := hcalls 7
  rwa [if_pos ⟨haccepted, by simp [hpc, LoopPoint.knocking]⟩] at hsession

end UDSServer

end IpcPubsub
