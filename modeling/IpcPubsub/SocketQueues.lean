import IpcPubsub.SocketServer

/-!
# Packets that are queued when a peer closes

A peer may send several packets and close before its reader polls again.  The
kernel keeps the packets for the reader, and from then on `poll` reports the
hang-up and the readable socket together, however many packets are left.  Both
`UDSServer::MainLoop` and `UDSClient::MainLoop` then read once and take the
connection for finished.

The kernel's side is a `SocketBuffer` for each connection.  The loops get from it the
answers of `poll` and `read`; a `read` may also fail, which takes nothing.
-/

namespace IpcPubsub

open GuardedRuns

/-- A packet that fills no more than the buffers of the readers.  `read` returns
zero bytes at the end of a connection only. -/
abbrev SocketPacket := { data : List UInt8 // data ≠ [] ∧ data.length ≤ 65535 }

/-- What the kernel keeps for the reader of a connection. -/
structure SocketBuffer where
  /-- The packets that were read. -/
  taken : List SocketPacket := []
  queue : List SocketPacket := []
  hungUp : Bool := false
  deriving DecidableEq

namespace SocketBuffer

/-- All the packets of the peer, in the order in which it sent them. -/
def sent (i : SocketBuffer) : List (List UInt8) := (i.taken ++ i.queue).map Subtype.val

def send (i : SocketBuffer) (packet : SocketPacket) : Option SocketBuffer :=
  if i.hungUp then none else some { i with queue := i.queue ++ [packet] }

def hangUp (i : SocketBuffer) : SocketBuffer := { i with hungUp := true }

/-- Whether `poll` reports POLLIN.  A connection whose peer has closed is
readable. -/
def pollin (i : SocketBuffer) : Bool := i.hungUp || !i.queue.isEmpty

/-- `read` with its result: the next packet, nothing at the end, or an error. -/
def read (i : SocketBuffer) : Option (List UInt8) → Option SocketBuffer
  | none => some i
  | some data =>
      match i.queue with
      | [] => if i.hungUp ∧ data = [] then some i else none
      | packet :: queue =>
          if data = packet.val then some { i with taken := i.taken ++ [packet], queue := queue }
          else none

/-- A `read` with this result leaves nothing in the queue. -/
def Drained (i : SocketBuffer) (result : Option (List UInt8)) : Prop :=
  i.queue.length ≤ if result.isSome then 1 else 0

instance (i : SocketBuffer) (result : Option (List UInt8)) : Decidable (i.Drained result) :=
  inferInstanceAs (Decidable (_ ≤ _))

/-- The data that a loop hands on after a `read`. -/
def handed : Option (List UInt8) → List (List UInt8)
  | none => []
  | some [] => []
  | some data => [data]

variable {i i' : SocketBuffer} {result : Option (List UInt8)}

/-- A `read` that fails or finds the connection closed leaves the queue; another takes its first
packet. -/
theorem read_cases (h : i.read result = some i') :
    (i' = i ∧ handed result = [] ∧ (result.isSome → i.queue = [])) ∨
      ∃ packet queue, i.queue = packet :: queue ∧ result = some packet.val ∧
        i' = { i with taken := i.taken ++ [packet], queue := queue } := by
  unfold read at h
  split at h
  · exact Or.inl ⟨(Option.some.inj h).symm, rfl, nofun⟩
  · split at h
    · rename_i hqueue
      split at h
      · rename_i hend
        exact Or.inl ⟨(Option.some.inj h).symm, by rw [hend.2]; rfl, fun _ => hqueue⟩
      · cases h
    · rename_i packet queue hqueue
      split at h
      · rename_i hdata
        exact Or.inr ⟨packet, queue, hqueue, by rw [hdata], (Option.some.inj h).symm⟩
      · cases h

/-- To read does not make the peer hang up. -/
theorem hungUp_read (h : i.read result = some i') : i'.hungUp = i.hungUp := by
  rcases read_cases h with ⟨rfl, _⟩ | ⟨_, _, _, _, rfl⟩ <;> rfl

/-- What was read is what was handed on. -/
theorem taken_read (h : i.read result = some i') :
    i'.taken.map Subtype.val = i.taken.map Subtype.val ++ handed result := by
  rcases read_cases h with ⟨rfl, hnone, _⟩ | ⟨packet, queue, _, rfl, rfl⟩
  · rw [hnone, List.append_nil]
  · obtain ⟨data, hdata⟩ := packet
    cases data with
    | nil => exact absurd rfl hdata.1
    | cons byte bytes => simp [handed]

/-- The queue is empty after a `read` that has drained it. -/
theorem queue_read_eq_nil (h : i.read result = some i') :
    i'.queue = [] ↔ i.Drained result := by
  rcases read_cases h with ⟨rfl, _, hend⟩ | ⟨packet, queue, hqueue, rfl, rfl⟩
  · unfold Drained
    split
    · rename_i hsome
      simp [hend hsome]
    · simp
  · simp [Drained, hqueue]

/-- A buffer is empty exactly when all that was sent was taken. -/
theorem sent_eq_taken : i.sent = i.taken.map Subtype.val ↔ i.queue = [] := by
  rw [sent, List.map_append, List.append_right_eq_self, List.map_eq_nil_iff]

end SocketBuffer

/-! ## The server -/

/-- The data of the packet that a call passes. -/
def SocketCall.packet? : SocketCall → Option (List UInt8)
  | .onData _ data => some data
  | _ => none

/-- The clients that are still to be served, with what `poll` has reported of
them. -/
def LoopPoint.ready : LoopPoint → List (Fd × Revents)
  | .accepting ready => ready
  | .connecting _ ready => ready
  | .serving ready => ready
  | .reading fd hup ready => (fd, { pollin := true, pollhup := hup }) :: ready
  | .disconnecting _ ready => ready
  | .erasing _ ready => ready
  | _ => []

namespace UDSServer

/-- The packets of a client that were passed to the hub. -/
def passed (s : UDSServer) (fd : Fd) : List (List UInt8) :=
  (s.callsOn fd).filterMap SocketCall.packet?

/-- The loop is about to call `mOnDisconnect` for a client, or has done so. -/
def Dropping (s : UDSServer) (fd : Fd) : Prop :=
  (∃ ready, s.pc = .disconnecting fd ready) ∨ .onDisconnect fd ∈ s.calls

section Passed

variable {parse : List UInt8 → TopologyMessage} {s s' : UDSServer} {fd : Fd}

/-- In the record of a session the packets are those passed. -/
theorem passed_eq {packets : List (List UInt8)} {rest : List SocketCall}
    (hcalls : s.callsOn fd = .onConnect fd :: packets.map (.onData fd) ++ rest)
    (hrest : rest.filterMap SocketCall.packet? = []) : s.passed fd = packets := by
  have hdata : (packets.map (SocketCall.onData fd)).filterMap SocketCall.packet? = packets := by
    rw [List.filterMap_map]
    exact List.filterMap_some
  rw [passed, hcalls, List.filterMap_append, List.filterMap_cons_none rfl, hdata, hrest,
    List.append_nil]

/-- What was passed on about a client, and what one more call passes on. -/
theorem passed_append {call : SocketCall} (hcalls : s'.calls = s.calls ++ [call]) (fd : Fd) :
    s'.passed fd = s.passed fd ++ if call.fd = fd then call.packet?.toList else [] := by
  unfold passed callsOn
  rw [hcalls, List.filter_append, List.filterMap_append]
  by_cases hfd : call.fd = fd
  · cases call <;> simp [hfd, SocketCall.packet?]
  · simp [hfd]

/-- Before `mOnDisconnect` the calls about a client are its start and its
packets. -/
theorem Agrees.callsOn_disconnecting (h : s.Agrees) {ready : List (Fd × Revents)}
    (hpc : s.pc = .disconnecting fd ready) :
    s.callsOn fd = .onConnect fd :: (s.passed fd).map (.onData fd) := by
  have hsettled : Settled s.pc := by simp [Settled, hpc, LoopPoint.knocking, LoopPoint.dropping]
  obtain ⟨_, packets, hpackets⟩ :=
    h.connected hsettled (h.pending fd (by simp [hpc, LoopPoint.pending]))
  have hwhole : s.callsOn fd = .onConnect fd :: packets.map (.onData fd) ++ [] := by
    rw [hpackets, List.append_nil]
  rw [passed_eq hwhole rfl, hpackets]

/-- After `mOnDisconnect` nothing follows it: the client was accepted, its packets were passed on,
and that was all. -/
theorem Agrees.callsOn_disconnected (h : s.Agrees) (hcall : .onDisconnect fd ∈ s.calls) :
    s.callsOn fd = .onConnect fd :: (s.passed fd).map (.onData fd) ++ [.onDisconnect fd] := by
  have hmem : .onDisconnect fd ∈ s.callsOn fd :=
    List.mem_filter.mpr ⟨hcall, decide_eq_true rfl⟩
  have hcalls := h.calls fd
  cases hstatus : s.status fd with
  | unknown =>
      rw [hstatus] at hcalls
      rw [show s.callsOn fd = [] from hcalls] at hmem
      cases hmem
  | knocking =>
      rw [hstatus] at hcalls
      rw [show s.callsOn fd = [] from hcalls] at hmem
      cases hmem
  | connected =>
      rw [hstatus] at hcalls
      obtain ⟨packets, hpackets⟩ := hcalls
      simp [hpackets] at hmem
  | gone =>
      rw [hstatus] at hcalls
      obtain ⟨packets, hpackets⟩ := hcalls
      rw [passed_eq hpackets rfl, hpackets]

/-- After a client was read, the others that were reported are still to be served. -/
theorem ready_afterRead (hup : Bool) (ready : List (Fd × Revents)) :
    (afterRead fd hup ready).ready = ready := by
  cases hup <;> rfl

/-- An action that reads nothing passes no packet.  It comes to drop a client
only where `poll` has reported a hang-up and nothing to read. -/
structure Quiet (s s' : UDSServer) : Prop where
  ready : ∀ entry ∈ s'.pc.ready, entry ∈ s.pc.ready
  passed : ∀ fd, s'.passed fd = s.passed fd
  dropping : ∀ fd, s'.Dropping fd → s.Dropping fd ∨
    ∃ revents, (fd, revents) ∈ s.pc.ready ∧ revents.pollhup ∧ revents.pollin = false

/-- An action without a call. -/
theorem Quiet.silent (hcalls : s'.calls = s.calls)
    (hready : ∀ entry ∈ s'.pc.ready, entry ∈ s.pc.ready)
    (hpc : ∀ fd ready, s'.pc ≠ .disconnecting fd ready) : Quiet s s' where
  ready := hready
  passed := fun fd => by simp only [UDSServer.passed, callsOn, hcalls]
  dropping := fun fd hfd => by
    rcases hfd with ⟨ready, hdisconnecting⟩ | hcall
    · exact absurd hdisconnecting (hpc fd ready)
    · exact Or.inl (Or.inr (hcalls ▸ hcall))

/-- An action with a call that passes no packet.  If it tells of a hang-up, the client was being
dropped before. -/
theorem Quiet.tells {call : SocketCall} (hcalls : s'.calls = s.calls ++ [call])
    (hpacket : call.packet? = none) (hready : s'.pc.ready = [] ∨ s'.pc.ready = s.pc.ready)
    (hpc : ∀ fd ready, s'.pc ≠ .disconnecting fd ready)
    (hcall : ∀ fd, call = .onDisconnect fd → s.Dropping fd) : Quiet s s' where
  ready := fun entry hentry => by
    rcases hready with hempty | hsame
    · rw [hempty] at hentry
      cases hentry
    · exact hsame ▸ hentry
  passed := fun fd => by
    rw [passed_append hcalls, hpacket]
    simp
  dropping := fun fd hfd => by
    rcases hfd with ⟨ready, hdisconnecting⟩ | hmem
    · exact absurd hdisconnecting (hpc fd ready)
    · rw [hcalls] at hmem
      rcases List.mem_append.mp hmem with hmem | hmem
      · exact Or.inl (Or.inr hmem)
      · exact Or.inl (hcall fd (List.mem_singleton.mp hmem).symm)

/-- The loop turns to the next client of the snapshot, and knows of it what `poll` has reported. -/
theorem Quiet.serve {revents : Revents} {ready : List (Fd × Revents)}
    (hpc : s.pc = .serving ((fd, revents) :: ready)) :
    Quiet s { s with
      pc :=
        if revents.pollin then .reading fd revents.pollhup ready
        else afterRead fd revents.pollhup ready } where
  ready := fun entry hentry => by
    rw [hpc]
    obtain ⟨pollin, pollhup⟩ := revents
    cases pollin with
    | true => exact hentry
    | false =>
        rw [if_neg Bool.false_ne_true, ready_afterRead] at hentry
        exact List.mem_cons_of_mem _ hentry
  passed := fun _ => rfl
  dropping := fun fd' hfd' => by
    rcases hfd' with ⟨ready', hdisconnecting⟩ | hcall
    · right
      obtain ⟨pollin, pollhup⟩ := revents
      cases pollin with
      | true => cases hdisconnecting
      | false =>
          cases pollhup with
          | false => cases hdisconnecting
          | true =>
              cases hdisconnecting
              exact ⟨_, by rw [hpc]; exact List.mem_cons_self, rfl, rfl⟩
    · exact Or.inl (Or.inr hcall)

/-- The steps of the loop between its system calls read nothing and begin to drop only whom `poll`
has reported gone. -/
theorem advance_quiet (hstep : s.advance = some s') : Quiet s s' := by
  unfold advance at hstep
  split at hstep
  · rename_i fd ready hpc
    obtain rfl := Option.some.inj hstep
    exact .tells rfl rfl (Or.inr (by rw [hpc]; rfl)) nofun nofun
  · rename_i hpc
    obtain rfl := Option.some.inj hstep
    exact .silent rfl nofun nofun
  · rename_i fd revents ready hpc
    obtain rfl := Option.some.inj hstep
    exact .serve hpc
  · rename_i fd ready hpc
    have hdropping : ∀ fd', SocketCall.onDisconnect fd = .onDisconnect fd' → s.Dropping fd' := by
      intro fd' hcall
      obtain rfl : fd = fd' := SocketCall.onDisconnect.inj hcall
      exact Or.inl ⟨ready, hpc⟩
    split at hstep
    · obtain rfl := Option.some.inj hstep
      exact .tells rfl rfl (Or.inl rfl) nofun hdropping
    · obtain rfl := Option.some.inj hstep
      exact .tells rfl rfl (Or.inr (by rw [hpc]; rfl)) nofun hdropping
  · rename_i fd ready hpc
    obtain rfl := Option.some.inj hstep
    exact .silent rfl (by rw [hpc]; exact fun _ hentry => hentry) nofun
  · cases hstep

/-- Every action but the successful `poll` and the `read`s passes no packet on, and learns of no
hang-up. -/
theorem step_quiet {event : LoopEvent} (hpoll : ∀ result, event ≠ .poll (some result))
    (hread : ∀ result random, event ≠ .read result random)
    (hstep : s.step parse event = some s') : Quiet s s' := by
  cases event with
  | snapshot order =>
      simp only [step] at hstep
      split at hstep
      · obtain rfl := Option.some.inj hstep
        exact .silent rfl (by simp [LoopPoint.ready]) (by simp)
      · cases hstep
  | poll result =>
      cases result with
      | none =>
          simp only [step] at hstep
          split at hstep
          · obtain rfl := Option.some.inj hstep
            exact .silent rfl (by simp [LoopPoint.ready]) (by simp)
          · contradiction
          · cases hstep
      | some result => exact absurd rfl (hpoll result)
  | accept fd =>
      simp only [step] at hstep
      split at hstep
      · obtain rfl := Option.some.inj hstep
        exact .silent rfl (by simp [LoopPoint.ready]) (by simp)
      · rename_i ready fd hpc
        split at hstep
        · cases hstep
        · obtain rfl := Option.some.inj hstep
          exact .silent rfl (by rw [hpc]; exact fun _ hentry => hentry) (by simp)
      · cases hstep
  | read result random => exact absurd rfl (hread result random)
  | advance => exact advance_quiet hstep
  | close order =>
      simp only [step] at hstep
      split at hstep
      · obtain rfl := Option.some.inj hstep
        exact .silent rfl (by simp [closeAll, LoopPoint.ready]) (by simp [closeAll])
      · cases hstep
  | purge order =>
      simp only [step] at hstep
      split at hstep
      · obtain rfl := Option.some.inj hstep
        exact ⟨fun _ hentry => hentry, fun _ => rfl, fun _ hfd => Or.inl hfd⟩
      · cases hstep

/-- After a `poll` every client of the snapshot stands with what was reported of
it. -/
theorem step_poll {fds : List Fd} {result : PollResult} (hpc : s.pc = .polling fds)
    (hstep : s.step parse (.poll (some result)) = some s') :
    s'.calls = s.calls ∧ (∀ entry ∈ s'.pc.ready, entry ∈ fds.zip result.clients) ∧
      ∀ fd ready, s'.pc ≠ .disconnecting fd ready := by
  simp only [step, hpc] at hstep
  split at hstep
  · cases hstep
  · split at hstep
    · obtain rfl := Option.some.inj hstep
      exact ⟨rfl, by simp [LoopPoint.ready], by simp⟩
    · split at hstep
      · obtain rfl := Option.some.inj hstep
        exact ⟨rfl, fun _ hentry => hentry, by simp⟩
      · obtain rfl := Option.some.inj hstep
        exact ⟨rfl, fun _ hentry => hentry, by simp⟩

/-- A `read` passes what it returns, and the loop moves on: to the hang-up if there is one, or to
the next client. -/
theorem step_read {hup : Bool} {ready : List (Fd × Revents)} {result : Option (List UInt8)}
    {random : UInt64} (hpc : s.pc = .reading fd hup ready)
    (hstep : s.step parse (.read result random) = some s') (halive : s'.pc ≠ .aborted) :
    s'.pc = afterRead fd hup ready ∧
      (∀ fd', s'.passed fd' = s.passed fd' ++ if fd = fd' then SocketBuffer.handed result else []) ∧
      ∀ fd', .onDisconnect fd' ∈ s'.calls ↔ .onDisconnect fd' ∈ s.calls := by
  simp only [step, hpc] at hstep
  split at hstep
  · obtain rfl := Option.some.inj hstep
    exact ⟨rfl, fun fd' => by simp [SocketBuffer.handed, passed, callsOn], fun _ => Iff.rfl⟩
  · obtain rfl := Option.some.inj hstep
    exact ⟨rfl, fun fd' => by simp [SocketBuffer.handed, passed, callsOn], fun _ => Iff.rfl⟩
  · rename_i data hempty
    obtain rfl := Option.some.inj hstep
    have hhanded : SocketBuffer.handed (some data) = [data] := by
      cases data with
      | nil => exact absurd rfl hempty
      | cons byte bytes => rfl
    rw [hhanded]
    unfold receive at halive ⊢
    split
    · rename_i hnone
      rw [hnone] at halive
      exact absurd rfl halive
    · exact ⟨rfl, @passed_append s _ (.onData fd data) rfl, fun fd' => by simp⟩

end Passed

end UDSServer

/-- The socket server and what the kernel keeps for it.  `accept` returns no
descriptor twice (the loop closes none before it ends), so a descriptor stands
for one connection, also before `accept` has returned it. -/
structure ServerSockets where
  server : UDSServer
  buffer : Fd → SocketBuffer := fun _ => {}

/-- The peers, and the actions of the loop and of the purge. -/
inductive ServerSocketsEvent
  | send (fd : Fd) (packet : SocketPacket)
  | hangUp (fd : Fd)
  | loop (event : LoopEvent)
  deriving DecidableEq

namespace ServerSockets

def start (digest : List TopologyMessage) : ServerSockets where
  server := .start digest

def setBuffer (s : ServerSockets) (fd : Fd) (buffer : SocketBuffer) : ServerSockets :=
  { s with buffer := Function.update s.buffer fd buffer }

/-- The answer of `poll` about a client. -/
def revents (s : ServerSockets) (fd : Fd) : Revents where
  pollin := (s.buffer fd).pollin
  pollhup := (s.buffer fd).hungUp

/-- What an action of the loop takes from the buffers, where the kernel can
answer as the event says. -/
def answer (s : ServerSockets) : LoopEvent → Option ServerSockets
  | .poll (some result) =>
      match s.server.pc with
      | .polling fds => if result.clients = fds.map s.revents then some s else none
      | _ => none
  | .read result _ =>
      match s.server.pc with
      | .reading fd _ _ => ((s.buffer fd).read result).map (s.setBuffer fd)
      | _ => none
  | _ => some s

def step (parse : List UInt8 → TopologyMessage) (s : ServerSockets) :
    ServerSocketsEvent → Option ServerSockets
  | .send fd packet =>
      if fd ∈ s.server.closed then none
      else ((s.buffer fd).send packet).map (s.setBuffer fd)
  | .hangUp fd => some (s.setBuffer fd (s.buffer fd).hangUp)
  | .loop event =>
      (s.answer event).bind fun asked =>
        (s.server.step parse event).map fun server => { asked with server := server }

/-- When the loop calls `mOnDisconnect` for a client, it has passed to `mOnData`
all that the client sent, in order. -/
def DeliveredFirst (s : ServerSockets) : Prop :=
  (∀ fd ready, s.server.pc = .disconnecting fd ready →
    s.server.callsOn fd = .onConnect fd :: (s.buffer fd).sent.map (.onData fd)) ∧
  ∀ fd, .onDisconnect fd ∈ s.server.calls →
    s.server.callsOn fd =
      .onConnect fd :: (s.buffer fd).sent.map (.onData fd) ++ [.onDisconnect fd]

/-- A client that has hung up by the last `poll` has no more in its queue than
what the loop reads of it now. -/
def LastRead (s : ServerSockets) : ServerSocketsEvent → Prop
  | .loop (.read result _) =>
      match s.server.pc with
      | .reading fd true _ => (s.buffer fd).Drained result
      | _ => True
  | _ => True

instance (s : ServerSockets) (event : ServerSocketsEvent) : Decidable (s.LastRead event) := by
  unfold LastRead
  split
  · split <;> infer_instance
  · infer_instance

/-- What the loop knows of the buffers at any moment. -/
structure Consistent (s : ServerSockets) : Prop where
  agrees : s.server.Agrees
  passed : ∀ fd, s.server.passed fd = (s.buffer fd).taken.map Subtype.val
  reported : ∀ fd revents, (fd, revents) ∈ s.server.pc.ready → revents.pollhup →
    revents.pollin ∧ (s.buffer fd).hungUp
  dropped : ∀ fd, s.server.Dropping fd → (s.buffer fd).hungUp

variable {parse : List UInt8 → TopologyMessage} {s s' : ServerSockets} {fd : Fd}
  {buffer : SocketBuffer}

/-- A buffer is beside the server. -/
@[simp] theorem setBuffer_server : (s.setBuffer fd buffer).server = s.server := rfl

/-- The buffer that was changed. -/
@[simp] theorem setBuffer_self : (s.setBuffer fd buffer).buffer fd = buffer := by
  simp [setBuffer]

/-- The other buffers. -/
@[simp] theorem setBuffer_of_ne {fd' : Fd} (hfd : fd' ≠ fd) :
    (s.setBuffer fd buffer).buffer fd' = s.buffer fd' := by
  simp [setBuffer, hfd]

/-- What holds of the buffers as they were and of the new one holds of all. -/
theorem setBuffer_induction {P : Fd → SocketBuffer → Prop} (hself : P fd buffer)
    (hother : ∀ fd', P fd' (s.buffer fd')) (fd' : Fd) :
    P fd' ((s.setBuffer fd buffer).buffer fd') := by
  by_cases hfd : fd' = fd
  · subst hfd
    rw [setBuffer_self]
    exact hself
  · rw [setBuffer_of_ne hfd]
    exact hother fd'

/-- In the beginning nobody is connected. -/
theorem start_consistent (digest : List TopologyMessage) : (start digest).Consistent where
  agrees := UDSServer.start_agrees digest
  passed := fun _ => rfl
  reported := nofun
  dropped := fun fd hfd => by rcases hfd with ⟨ready, hpc⟩ | hcall <;> contradiction

/-- The packets came before `mOnDisconnect` where the queues of the dropped
clients are empty. -/
theorem Consistent.deliveredFirst_iff (h : s.Consistent) :
    s.DeliveredFirst ↔ ∀ fd, s.server.Dropping fd → (s.buffer fd).queue = [] := by
  have hsent : ∀ fd, s.server.passed fd = (s.buffer fd).sent ↔ (s.buffer fd).queue = [] := by
    intro fd
    rw [h.passed fd, eq_comm, SocketBuffer.sent_eq_taken]
  have hdata : ∀ fd, Function.Injective (SocketCall.onData fd) := fun fd _ _ heq => by
    cases heq
    rfl
  constructor
  · intro hdelivered fd hfd
    rw [← hsent fd]
    rcases hfd with ⟨ready, hpc⟩ | hcall
    · have hcalls := hdelivered.1 fd ready hpc
      rw [h.agrees.callsOn_disconnecting hpc] at hcalls
      exact List.map_injective_iff.mpr (hdata fd) (List.cons.inj hcalls).2
    · have hcalls := hdelivered.2 fd hcall
      rw [h.agrees.callsOn_disconnected hcall] at hcalls
      have hcalls := List.append_cancel_right hcalls
      exact List.map_injective_iff.mpr (hdata fd) (List.cons.inj hcalls).2
  · intro hempty
    constructor
    · intro fd ready hpc
      rw [h.agrees.callsOn_disconnecting hpc, (hsent fd).mpr (hempty fd (Or.inl ⟨ready, hpc⟩))]
    · intro fd hcall
      rw [h.agrees.callsOn_disconnected hcall, (hsent fd).mpr (hempty fd (Or.inr hcall))]

/-- A peer acts: it writes or hangs up, and never takes anything back. -/
theorem Consistent.peer (h : s.Consistent) (htaken : buffer.taken = (s.buffer fd).taken)
    (hhungUp : (s.buffer fd).hungUp → buffer.hungUp) : (s.setBuffer fd buffer).Consistent := by
  have hstays : ∀ fd', (s.buffer fd').hungUp → ((s.setBuffer fd buffer).buffer fd').hungUp :=
    setBuffer_induction (P := fun fd' buffer => (s.buffer fd').hungUp → buffer.hungUp) hhungUp
      fun _ => id
  constructor
  · exact h.agrees
  · apply setBuffer_induction
      (P := fun fd' buffer => s.server.passed fd' = buffer.taken.map Subtype.val)
    · rw [htaken, h.passed]
    · exact h.passed
  · intro fd' revents hentry hhup
    obtain ⟨hin, hup⟩ := h.reported fd' revents hentry hhup
    exact ⟨hin, hstays fd' hup⟩
  · exact fun fd' hfd' => hstays fd' (h.dropped fd' hfd')

/-- An action that takes nothing from the buffers, seen from them. -/
structure Keeps (s : ServerSockets) (server : UDSServer) : Prop where
  passed : ∀ fd, server.passed fd = s.server.passed fd
  reported : ∀ fd revents, (fd, revents) ∈ server.pc.ready → revents.pollhup →
    revents.pollin ∧ (s.buffer fd).hungUp
  dropping : ∀ fd, server.Dropping fd → s.server.Dropping fd

/-- A server that keeps what the invariant speaks of, with the buffers as they are. -/
theorem Consistent.keeps (h : s.Consistent) {server : UDSServer} (hagrees : server.Agrees)
    (hkeeps : s.Keeps server) : ({ s with server := server } : ServerSockets).Consistent where
  agrees := hagrees
  passed := fun fd => by rw [hkeeps.passed fd, h.passed fd]
  reported := hkeeps.reported
  dropped := fun fd hfd => h.dropped fd (hkeeps.dropping fd hfd)

/-- An action that reads nothing keeps it. -/
theorem Consistent.quiet (h : s.Consistent) {server : UDSServer}
    (hquiet : s.server.Quiet server) : s.Keeps server where
  passed := hquiet.passed
  reported := fun fd revents hentry => h.reported fd revents (hquiet.ready _ hentry)
  dropping := fun fd hfd => by
    rcases hquiet.dropping fd hfd with hdropping | ⟨revents, hentry, hhup, hin⟩
    · exact hdropping
    · -- a hang-up is never reported alone
      have hboth := (h.reported fd revents hentry hhup).1
      rw [hin] at hboth
      cases hboth

/-- `poll` reports what the buffers hold at that moment, and calls nobody. -/
theorem keeps_poll {fds : List Fd} {result : PollResult} {server : UDSServer}
    (hpc : s.server.pc = .polling fds) (hresult : result.clients = fds.map s.revents)
    (hstep : s.server.step parse (.poll (some result)) = some server) : s.Keeps server := by
  obtain ⟨hcalls, hready, hnot⟩ := UDSServer.step_poll hpc hstep
  constructor
  · intro fd
    simp only [UDSServer.passed, UDSServer.callsOn, hcalls]
  · intro fd revents hentry hhup
    have hzip := hready _ hentry
    rw [hresult, ← List.map_prod_left_eq_zip] at hzip
    obtain ⟨fd', _, heq⟩ := List.mem_map.mp hzip
    cases heq
    have hup : (s.buffer fd).hungUp := hhup
    exact ⟨by simp [ServerSockets.revents, SocketBuffer.pollin, hup], hup⟩
  · intro fd hfd
    rcases hfd with ⟨ready, hdisconnecting⟩ | hcall
    · exact absurd hdisconnecting (hnot fd ready)
    · exact Or.inr (hcalls ▸ hcall)

section Loop

variable {hup : Bool} {ready : List (Fd × Revents)} {result : Option (List UInt8)}
  {random : UInt64} {server : UDSServer}

/-- A client that the loop drops after a `read` is the one it has read, or was
dropped before. -/
theorem dropping_read (hpc : s.server.pc = .reading fd hup ready)
    (hstep : s.server.step parse (.read result random) = some server)
    (halive : server.pc ≠ .aborted) (fd' : Fd) :
    server.Dropping fd' ↔ s.server.Dropping fd' ∨ fd' = fd ∧ hup = true := by
  obtain ⟨hafter, _, hcalls⟩ := UDSServer.step_read hpc hstep halive
  have hnot : ¬ ∃ ready', s.server.pc = .disconnecting fd' ready' := by simp [hpc]
  have hpoint : (∃ ready', server.pc = .disconnecting fd' ready') ↔ fd' = fd ∧ hup = true := by
    cases hup <;> simp [hafter, UDSServer.afterRead, eq_comm]
  rw [UDSServer.Dropping, UDSServer.Dropping, hpoint, hcalls fd', or_comm]
  exact or_congr_left (or_iff_right hnot).symm

/-- A `read` passes on what it has taken from the buffer, so that the two accounts agree again. -/
theorem Consistent.read (h : s.Consistent) (hpc : s.server.pc = .reading fd hup ready)
    (hread : (s.buffer fd).read result = some buffer)
    (hstep : s.server.step parse (.read result random) = some server) :
    (({ s with server := server } : ServerSockets).setBuffer fd buffer).Consistent := by
  have hagrees : server.Agrees := h.agrees.step hstep
  obtain ⟨hafter, hpassed, _⟩ := UDSServer.step_read hpc hstep hagrees.assertions
  have hready : server.pc.ready = ready := by rw [hafter, UDSServer.ready_afterRead]
  have hhungUp : buffer.hungUp = (s.buffer fd).hungUp := SocketBuffer.hungUp_read hread
  have hstays : ∀ fd', (s.buffer fd').hungUp →
      ((({ s with server := server } : ServerSockets).setBuffer fd buffer).buffer fd').hungUp :=
    setBuffer_induction (P := fun fd' buffer => (s.buffer fd').hungUp → buffer.hungUp)
      (fun hup => hhungUp ▸ hup) fun _ => id
  constructor
  · exact hagrees
  · intro fd'
    rw [setBuffer_server, hpassed, h.passed]
    by_cases hfd : fd' = fd
    · subst hfd
      rw [if_pos rfl, setBuffer_self, SocketBuffer.taken_read hread]
    · rw [if_neg (Ne.symm hfd), List.append_nil, setBuffer_of_ne hfd]
  · intro fd' revents hentry hhup
    rw [setBuffer_server, hready] at hentry
    obtain ⟨hin, hup⟩ :=
      h.reported fd' revents (by rw [hpc]; exact List.mem_cons_of_mem _ hentry) hhup
    exact ⟨hin, hstays fd' hup⟩
  · intro fd' hfd'
    apply hstays
    rcases (dropping_read hpc hstep hagrees.assertions fd').mp hfd' with hdropping | ⟨rfl, rfl⟩
    · exact h.dropped fd' hdropping
    · exact (h.reported fd' ⟨true, true⟩ (by rw [hpc]; exact List.mem_cons_self) rfl).2

end Loop

/-- What the events do. -/
inductive Acts (parse : List UInt8 → TopologyMessage) (s : ServerSockets) :
    ServerSocketsEvent → ServerSockets → Prop
  | sends {fd : Fd} {packet : SocketPacket} (hopen : (s.buffer fd).hungUp = false) :
      Acts parse s (.send fd packet)
        (s.setBuffer fd { s.buffer fd with queue := (s.buffer fd).queue ++ [packet] })
  | hangsUp {fd : Fd} : Acts parse s (.hangUp fd) (s.setBuffer fd (s.buffer fd).hangUp)
  | moves {event : LoopEvent} {server : UDSServer}
      (hread : ∀ result random, event ≠ .read result random)
      (hstep : s.server.step parse event = some server) (hkeeps : s.Keeps server) :
      Acts parse s (.loop event) { s with server := server }
  | reads {fd : Fd} {hup : Bool} {ready : List (Fd × Revents)} {result : Option (List UInt8)}
      {random : UInt64} {buffer : SocketBuffer} {server : UDSServer}
      (hpc : s.server.pc = .reading fd hup ready) (hread : (s.buffer fd).read result = some buffer)
      (hstep : s.server.step parse (.read result random) = some server) :
      Acts parse s (.loop (.read result random))
        (({ s with server := server } : ServerSockets).setBuffer fd buffer)

/-- What a step of the server and the kernel does, where the two are consistent. -/
theorem Consistent.acts (h : s.Consistent) {event : ServerSocketsEvent}
    (hstep : s.step parse event = some s') : Acts parse s event s' := by
  cases event with
  | send fd packet =>
      simp only [step] at hstep
      split at hstep
      · cases hstep
      · obtain ⟨buffer, hsend, rfl⟩ := Option.map_eq_some_iff.mp hstep
        unfold SocketBuffer.send at hsend
        split at hsend
        · cases hsend
        · rename_i hopen
          obtain rfl := Option.some.inj hsend
          exact .sends (Bool.eq_false_of_not_eq_true hopen)
  | hangUp fd =>
      obtain rfl := Option.some.inj hstep
      exact .hangsUp
  | loop event =>
      obtain ⟨asked, hanswer, hmoved⟩ := Option.bind_eq_some_iff.mp hstep
      obtain ⟨server, hserver, rfl⟩ := Option.map_eq_some_iff.mp hmoved
      unfold answer at hanswer
      split at hanswer
      · split at hanswer
        · rename_i fds hpc
          split at hanswer
          · rename_i hresult
            obtain rfl := Option.some.inj hanswer
            exact .moves nofun hserver (keeps_poll hpc hresult hserver)
          · cases hanswer
        · cases hanswer
      · split at hanswer
        · rename_i hpc
          obtain ⟨taken, hread, rfl⟩ := Option.map_eq_some_iff.mp hanswer
          exact .reads hpc hread hserver
        · cases hanswer
      · rename_i hpoll hread
        obtain rfl := Option.some.inj hanswer
        exact .moves hread hserver (h.quiet (UDSServer.step_quiet hpoll hread hserver))

/-- **One event** leaves the loop's knowledge of the buffers right. -/
theorem Consistent.step (h : s.Consistent) {event : ServerSocketsEvent}
    (hstep : s.step parse event = some s') : s'.Consistent := by
  cases h.acts hstep with
  | sends hopen => exact h.peer rfl id
  | hangsUp => exact h.peer rfl fun _ => rfl
  | moves _ hserver hkeeps => exact h.keeps (h.agrees.step hserver) hkeeps
  | reads hpc hread hserver => exact h.read hpc hread hserver

/-- A guarded event drops no client with packets left, for the last of them has been read. -/
theorem Consistent.delivers (h : s.Consistent) (hdelivered : s.DeliveredFirst)
    {event : ServerSocketsEvent} (hguard : s.LastRead event)
    (hstep : s.step parse event = some s') : s'.DeliveredFirst := by
  rw [(h.step hstep).deliveredFirst_iff]
  rw [h.deliveredFirst_iff] at hdelivered
  intro fd' hfd'
  cases h.acts hstep with
  | @sends fd packet hopen =>
      refine setBuffer_induction (P := fun fd' buffer => s.server.Dropping fd' → buffer.queue = [])
        ?_ hdelivered fd' hfd'
      intro hdropping
      have hup := h.dropped fd hdropping
      rw [hopen] at hup
      cases hup
  | @hangsUp fd =>
      refine setBuffer_induction (P := fun fd' buffer => s.server.Dropping fd' → buffer.queue = [])
        ?_ hdelivered fd' hfd'
      exact hdelivered fd
  | moves _ _ hkeeps => exact hdelivered fd' (hkeeps.dropping fd' hfd')
  | @reads fd hup ready result random buffer server hpc hread hserver =>
      have halive := (h.agrees.step hserver).assertions
      by_cases hfd : fd' = fd
      · subst hfd
        rw [setBuffer_self, SocketBuffer.queue_read_eq_nil hread]
        rcases (dropping_read hpc hserver halive fd').mp hfd' with hdropping | ⟨_, rfl⟩
        · simp [SocketBuffer.Drained, hdelivered fd' hdropping]
        · simpa [LastRead, hpc] using hguard
      · rw [setBuffer_of_ne hfd]
        rcases (dropping_read hpc hserver halive fd').mp hfd' with hdropping | ⟨heq, _⟩
        · exact hdelivered fd' hdropping
        · exact absurd heq hfd

/-- **Any other event** drops a client whose packets are in the queue. -/
theorem Consistent.discards (h : s.Consistent) {event : ServerSocketsEvent}
    (hguard : ¬ s.LastRead event) (hstep : s.step parse event = some s') :
    ¬ s'.DeliveredFirst := by
  rw [(h.step hstep).deliveredFirst_iff]
  intro hdelivered
  cases h.acts hstep with
  | sends _ => exact hguard trivial
  | hangsUp => exact hguard trivial
  | @moves event server hnot hserver hkeeps =>
      apply hguard
      cases event with
      | read result random => exact absurd rfl (hnot result random)
      | _ => exact trivial
  | @reads fd hup ready result random buffer server hpc hread hserver =>
      have halive := (h.agrees.step hserver).assertions
      cases hup with
      | false => exact hguard (by simp [LastRead, hpc])
      | true =>
          have hempty := hdelivered fd
            ((dropping_read hpc hserver halive fd).mpr (Or.inr ⟨rfl, rfl⟩))
          rw [setBuffer_self, SocketBuffer.queue_read_eq_nil hread] at hempty
          exact hguard (by simpa [LastRead, hpc] using hempty)

/-- In a run of the server. -/
theorem deliveredFirst_iff {digest : List TopologyMessage} {events : List ServerSocketsEvent}
    (hrun : exec (step parse) (start digest) events = some s) :
    Throughout (step parse) DeliveredFirst (start digest) events ↔
      Along (step parse) LastRead (start digest) events := by
  refine throughout_iff_along (D := fun _ _ => True)
    (I := fun s => s.Consistent ∧ s.DeliveredFirst) (fun s h => h.2) ?_ ?_
    ⟨start_consistent digest, ⟨nofun, nofun⟩⟩ (along_true _ _) hrun
  · exact fun s event s' h _ hguard hstep => ⟨h.1.step hstep, h.1.delivers h.2 hguard hstep⟩
  · exact fun s event s' h _ hguard hstep => h.1.discards hguard hstep

end ServerSockets

/-! ## The client -/

/-- What `poll` reports of the connection of a client. -/
structure ClientRevents where
  pollin : Bool := false
  pollerr : Bool := false
  pollhup : Bool := false
  pollnval : Bool := false
  deriving DecidableEq

/-- Why `UDSClient::MainLoop` leaves its loop. -/
inductive LeaveReason
  | pollFailed
  | shutdown
  | pollerr
  | pollhup
  | pollnval
  deriving DecidableEq

/-- Where `UDSClient::MainLoop` is. -/
inductive ClientPoint
  /-- In `poll`. -/
  | polling
  /-- Before `read`. -/
  | reading (revents : ClientRevents)
  /-- Out of the loop, before `mOnDisconnect`. -/
  | left (reason : LeaveReason)
  /-- After `mOnDisconnect`. -/
  | disconnected (reason : LeaveReason)
  deriving DecidableEq

/-- The loop of a client and what the kernel keeps for it. -/
structure ClientSocket where
  buffer : SocketBuffer := {}
  pc : ClientPoint := .polling
  /-- What was passed to `mOnData`. -/
  received : List (List UInt8) := []
  deriving DecidableEq

/-- The hub at the other end, and the actions of the loop with the answers of
the kernel. -/
inductive ClientSocketEvent
  | send (packet : SocketPacket)
  | hangUp
  /-- Whether there is a shutdown event, and the events of the connection;
  `none` is an error. -/
  | poll (result : Option (Bool × ClientRevents))
  | read (result : Option (List UInt8))
  | onDisconnect
  deriving DecidableEq

namespace ClientSocket

/-- The tests after `mOnData`, or where there was nothing to read. -/
def afterRead (revents : ClientRevents) : ClientPoint :=
  if revents.pollerr then .left .pollerr
  else if revents.pollhup then .left .pollhup
  else if revents.pollnval then .left .pollnval
  else .polling

def step (s : ClientSocket) : ClientSocketEvent → Option ClientSocket
  | .send packet => (s.buffer.send packet).map fun buffer => { s with buffer := buffer }
  | .hangUp => some { s with buffer := s.buffer.hangUp }
  | .poll result =>
      match s.pc, result with
      | .polling, none => some { s with pc := .left .pollFailed }
      | .polling, some (shutdown, revents) =>
          if revents.pollin = s.buffer.pollin ∧ revents.pollhup = s.buffer.hungUp then
            some { s with
              pc :=
                if shutdown then .left .shutdown
                else if revents.pollin then .reading revents
                else afterRead revents }
          else none
      | _, _ => none
  | .read result =>
      match s.pc with
      | .reading revents =>
          (s.buffer.read result).map fun buffer => { s with
            buffer := buffer
            received := s.received ++ SocketBuffer.handed result
            pc := afterRead revents }
      | _ => none
  | .onDisconnect =>
      match s.pc with
      | .left reason => some { s with pc := .disconnected reason }
      | _ => none

/-- When the loop has left on POLLHUP, it has passed to `mOnData` all that the
hub sent, in order. -/
def DeliveredFirst (s : ClientSocket) : Prop :=
  s.pc = .left .pollhup ∨ s.pc = .disconnected .pollhup → s.received = s.buffer.sent

/-- Where the loop is to leave on POLLHUP, there is no more in the queue than what
it reads now. -/
def LastRead (s : ClientSocket) : ClientSocketEvent → Prop
  | .read result =>
      match s.pc with
      | .reading revents => revents.pollhup ∧ ¬ revents.pollerr → s.buffer.Drained result
      | _ => True
  | _ => True

instance (s : ClientSocket) (event : ClientSocketEvent) : Decidable (s.LastRead event) := by
  unfold LastRead
  split
  · split <;> infer_instance
  · infer_instance

instance : DecidablePred DeliveredFirst := fun _ => inferInstanceAs (Decidable (_ → _))

/-- The loop ends on a hang-up, unless an error was reported, which it looks at first. -/
theorem afterRead_eq_pollhup (revents : ClientRevents) :
    afterRead revents = .left .pollhup ↔ revents.pollhup ∧ ¬ revents.pollerr := by
  unfold afterRead
  cases revents.pollerr <;> cases revents.pollhup <;> cases revents.pollnval <;> simp

/-- No reading leads to `mOnDisconnect` at once. -/
theorem afterRead_ne_disconnected (revents : ClientRevents) (reason : LeaveReason) :
    afterRead revents ≠ .disconnected reason := by
  unfold afterRead
  split_ifs <;> nofun

/-- After a `read` there is no other before `poll`. -/
theorem afterRead_ne_reading (revents revents' : ClientRevents) :
    afterRead revents ≠ .reading revents' := by
  unfold afterRead
  split_ifs <;> nofun

/-- The loop leaves, or has left, on POLLHUP. -/
def HungUp (s : ClientSocket) : Prop :=
  s.pc = .left .pollhup ∨ s.pc = .disconnected .pollhup

/-- What the loop knows of its buffer at any moment. -/
structure Consistent (s : ClientSocket) : Prop where
  received : s.received = s.buffer.taken.map Subtype.val
  reported : ∀ revents, s.pc = .reading revents → revents.pollhup → s.buffer.hungUp
  left : s.HungUp → s.buffer.hungUp

variable {s s' : ClientSocket} {event : ClientSocketEvent}

/-- What the events do. -/
inductive Acts (s : ClientSocket) : ClientSocketEvent → ClientSocket → Prop
  | sends {packet : SocketPacket} (hopen : s.buffer.hungUp = false) :
      Acts s (.send packet)
        { s with buffer := { s.buffer with queue := s.buffer.queue ++ [packet] } }
  | hangsUp : Acts s .hangUp { s with buffer := s.buffer.hangUp }
  | polls {result : Option (Bool × ClientRevents)} {pc : ClientPoint}
      (hreading : ∀ revents, pc = .reading revents → revents.pollhup → s.buffer.hungUp)
      (hleft : pc ≠ .left .pollhup) (hdisconnected : ∀ reason, pc ≠ .disconnected reason) :
      Acts s (.poll result) { s with pc := pc }
  | reads {revents : ClientRevents} {result : Option (List UInt8)} {buffer : SocketBuffer}
      (hpc : s.pc = .reading revents) (hread : s.buffer.read result = some buffer) :
      Acts s (.read result) { s with
        buffer := buffer
        received := s.received ++ SocketBuffer.handed result
        pc := afterRead revents }
  | ends {reason : LeaveReason} (hpc : s.pc = .left reason) :
      Acts s .onDisconnect { s with pc := .disconnected reason }

/-- `poll` reports what the buffer holds, and a hang-up is readable too. -/
theorem acts_poll {shutdown : Bool} {revents : ClientRevents}
    (hin : revents.pollin = s.buffer.pollin) (hhup : revents.pollhup = s.buffer.hungUp) :
    Acts s (.poll (some (shutdown, revents))) { s with
      pc :=
        if shutdown then .left .shutdown
        else if revents.pollin then .reading revents
        else afterRead revents } := by
  cases shutdown with
  | true => exact .polls nofun nofun nofun
  | false =>
      cases hpollin : revents.pollin with
      | true =>
          refine .polls ?_ nofun nofun
          intro revents' hpc hup
          obtain rfl : revents = revents' := ClientPoint.reading.inj hpc
          exact hhup ▸ hup
      | false =>
          have hopen : s.buffer.hungUp = false := by
            rw [hpollin, eq_comm, SocketBuffer.pollin, Bool.or_eq_false_iff] at hin
            exact hin.1
          refine .polls ?_ ?_ (afterRead_ne_disconnected revents)
          · exact fun revents' hpc => absurd hpc (afterRead_ne_reading revents revents')
          · intro hpc
            have hup := ((afterRead_eq_pollhup revents).mp hpc).1
            rw [hhup, hopen] at hup
            cases hup

/-- A step of the client and the kernel is one of these. -/
theorem step_cases (hstep : s.step event = some s') : Acts s event s' := by
  cases event with
  | send packet =>
      obtain ⟨buffer, hsend, rfl⟩ := Option.map_eq_some_iff.mp hstep
      unfold SocketBuffer.send at hsend
      split at hsend
      · cases hsend
      · rename_i hopen
        obtain rfl := Option.some.inj hsend
        exact .sends (Bool.eq_false_of_not_eq_true hopen)
  | hangUp =>
      obtain rfl := Option.some.inj hstep
      exact .hangsUp
  | poll result =>
      simp only [step] at hstep
      split at hstep
      · obtain rfl := Option.some.inj hstep
        exact .polls nofun nofun nofun
      · split at hstep
        · rename_i hrevents
          obtain rfl := Option.some.inj hstep
          exact acts_poll hrevents.1 hrevents.2
        · cases hstep
      · cases hstep
  | read result =>
      simp only [step] at hstep
      split at hstep
      · rename_i revents hpc
        obtain ⟨buffer, hread, rfl⟩ := Option.map_eq_some_iff.mp hstep
        exact .reads hpc hread
      · cases hstep
  | onDisconnect =>
      simp only [step] at hstep
      split at hstep
      · rename_i reason hpc
        obtain rfl := Option.some.inj hstep
        exact .ends hpc
      · cases hstep

/-- **One event** leaves the loop's knowledge of its buffer right, whoever acts. -/
theorem Consistent.step (h : s.Consistent) (hstep : s.step event = some s') : s'.Consistent := by
  cases step_cases hstep with
  | sends _ => exact ⟨h.received, h.reported, h.left⟩
  | hangsUp => exact ⟨h.received, fun _ _ _ => rfl, fun _ => rfl⟩
  | polls hreading hleft hdisconnected =>
      refine ⟨h.received, hreading, ?_⟩
      rintro (hpc | hpc)
      · exact absurd hpc hleft
      · exact absurd hpc (hdisconnected .pollhup)
  | @reads revents result buffer hpc hread =>
      have hhungUp : buffer.hungUp = s.buffer.hungUp := SocketBuffer.hungUp_read hread
      constructor
      · show s.received ++ SocketBuffer.handed result = buffer.taken.map Subtype.val
        rw [h.received, SocketBuffer.taken_read hread]
      · exact fun revents' hpc' => absurd hpc' (afterRead_ne_reading revents revents')
      · rintro (hpc' | hpc')
        · show buffer.hungUp = true
          rw [hhungUp]
          exact h.reported revents hpc ((afterRead_eq_pollhup revents).mp hpc').1
        · exact absurd hpc' (afterRead_ne_disconnected revents .pollhup)
  | @ends reason hpc =>
      refine ⟨h.received, nofun, ?_⟩
      rintro (hpc' | hpc')
      · cases hpc'
      · cases hpc'
        exact h.left (Or.inl hpc)

/-- All was passed on before the end where the queue is empty then. -/
theorem Consistent.deliveredFirst_iff (h : s.Consistent) :
    s.DeliveredFirst ↔ (s.HungUp → s.buffer.queue = []) := by
  rw [← SocketBuffer.sent_eq_taken, ← h.received]
  exact ⟨fun hdelivered hup => (hdelivered hup).symm, fun hdelivered hup => (hdelivered hup).symm⟩

/-- A guarded event does not leave packets behind: the loop ends only when it has read the last
one. -/
theorem Consistent.delivers (h : s.Consistent) (hdelivered : s.DeliveredFirst)
    (hguard : s.LastRead event) (hstep : s.step event = some s') : s'.DeliveredFirst := by
  rw [(h.step hstep).deliveredFirst_iff]
  rw [h.deliveredFirst_iff] at hdelivered
  cases step_cases hstep with
  | sends hopen =>
      intro hup
      have hhungUp := h.left hup
      rw [hopen] at hhungUp
      cases hhungUp
  | hangsUp => exact hdelivered
  | polls _ hleft hdisconnected =>
      rintro (hpc | hpc)
      · exact absurd hpc hleft
      · exact absurd hpc (hdisconnected .pollhup)
  | @reads revents result buffer hpc hread =>
      rintro (hpc' | hpc')
      · have hdrained : s.buffer.Drained result := by
          simp only [LastRead, hpc] at hguard
          exact hguard ((afterRead_eq_pollhup revents).mp hpc')
        exact (SocketBuffer.queue_read_eq_nil hread).mpr hdrained
      · exact absurd hpc' (afterRead_ne_disconnected revents .pollhup)
  | ends hpc =>
      rintro (hpc' | hpc')
      · cases hpc'
      · cases hpc'
        exact hdelivered (Or.inl hpc)

/-- **Any other event** leaves on POLLHUP with packets in the queue. -/
theorem Consistent.discards (h : s.Consistent) (hguard : ¬ s.LastRead event)
    (hstep : s.step event = some s') : ¬ s'.DeliveredFirst := by
  rw [(h.step hstep).deliveredFirst_iff]
  intro hdelivered
  cases step_cases hstep with
  | @reads revents result buffer hpc hread =>
      simp only [LastRead, hpc, Classical.not_imp] at hguard
      have hempty : buffer.queue = [] :=
        hdelivered (Or.inl ((afterRead_eq_pollhup revents).mpr hguard.1))
      exact hguard.2 ((SocketBuffer.queue_read_eq_nil hread).mp hempty)
  | _ => exact hguard trivial

/-- In a run of the client. -/
theorem deliveredFirst_iff {events : List ClientSocketEvent}
    (hrun : exec ClientSocket.step {} events = some s) :
    Throughout ClientSocket.step DeliveredFirst {} events ↔
      Along ClientSocket.step LastRead {} events := by
  refine throughout_iff_along (D := fun _ _ => True)
    (I := fun s => s.Consistent ∧ s.DeliveredFirst) (fun s h => h.2) ?_ ?_ ⟨?_, ?_⟩
    (along_true _ _) hrun
  · exact fun s event s' h _ hguard hstep => ⟨h.1.step hstep, h.1.delivers h.2 hguard hstep⟩
  · exact fun s event s' h _ hguard hstep => h.1.discards hguard hstep
  · exact ⟨rfl, nofun, by rintro (hpc | hpc) <;> cases hpc⟩
  · rintro (hpc | hpc) <;> cases hpc

end ClientSocket

/-! ## Both loops -/

/-- **A hang-up discards no packet** in a run of the server or of a client exactly
when every `read` after a reported hang-up takes the last packet of the queue. -/
theorem hangUp_delivers_iff {parse : List UInt8 → TopologyMessage}
    {digest : List TopologyMessage} {serverEvents : List ServerSocketsEvent} {s : ServerSockets}
    {clientEvents : List ClientSocketEvent} {c : ClientSocket}
    (hserver : exec (ServerSockets.step parse) (.start digest) serverEvents = some s)
    (hclient : exec ClientSocket.step {} clientEvents = some c) :
    (Throughout (ServerSockets.step parse) ServerSockets.DeliveredFirst (.start digest)
        serverEvents ↔
      Along (ServerSockets.step parse) ServerSockets.LastRead (.start digest) serverEvents) ∧
    (Throughout ClientSocket.step ClientSocket.DeliveredFirst {} clientEvents ↔
      Along ClientSocket.step ClientSocket.LastRead {} clientEvents) :=
  ⟨ServerSockets.deliveredFirst_iff hserver, ClientSocket.deliveredFirst_iff hclient⟩

/-- Client 7 is accepted. -/
def clientAccepted : List LoopEvent :=
  [.snapshot [], .poll (some { listen := true }), .accept (some 7), .advance, .advance]

/-- One iteration, in which client 7 is readable and has hung up. -/
def clientHungUp : List LoopEvent :=
  [.snapshot [7], .poll (some { clients := [{ pollin := true, pollhup := true }] }), .advance,
    .read (some [1]) 77, .advance, .advance]

/-- The packets of client 7 and its hang-up come between two calls of `poll`. -/
def sentAndClosed (packets : List SocketPacket) : List ServerSocketsEvent :=
  (clientAccepted.map .loop).append
    ((packets.map (.send 7)).append (.hangUp 7 :: clientHungUp.map .loop))

/-- The packets of the hub and its hang-up come before the first `poll`. -/
def sentAndShutdown (packets : List SocketPacket) : List ClientSocketEvent :=
  (packets.map .send).append
    [.hangUp, .poll (some (false, { pollin := true, pollhup := true })), .read (some [1]),
      .onDisconnect]

/-- The parser of a server that is only sent JOINs of node 5. -/
def parseJoin (_ : List UInt8) : TopologyMessage :=
  { op := .nodeChange { id := 5, op := .join } }

/-- One packet, which is read before the hang-up is seen, at both ends. -/
theorem hangUp_delivers_iff_oneQueued :
    Throughout (ServerSockets.step parseJoin) ServerSockets.DeliveredFirst (.start [])
        (sentAndClosed [⟨[1], by decide⟩]) ∧
    Throughout ClientSocket.step ClientSocket.DeliveredFirst {}
        (sentAndShutdown [⟨[1], by decide⟩]) := by
  obtain ⟨s, hserver⟩ := Option.isSome_iff_exists.mp
    (show (exec (ServerSockets.step parseJoin) (.start [])
      (sentAndClosed [⟨[1], by decide⟩])).isSome by decide +kernel)
  obtain ⟨c, hclient⟩ := Option.isSome_iff_exists.mp
    (show (exec ClientSocket.step {} (sentAndShutdown [⟨[1], by decide⟩])).isSome by
      decide +kernel)
  obtain ⟨hs, hc⟩ := hangUp_delivers_iff hserver hclient
  exact ⟨hs.mpr (by decide +kernel), hc.mpr (by decide +kernel)⟩

/-- Of two packets in the queue the second is lost, in both loops. -/
theorem twoQueued_discarded :
    ¬ Throughout (ServerSockets.step parseJoin) ServerSockets.DeliveredFirst (.start [])
        (sentAndClosed [⟨[1], by decide⟩, ⟨[2], by decide⟩]) ∧
    ¬ Throughout ClientSocket.step ClientSocket.DeliveredFirst {}
        (sentAndShutdown [⟨[1], by decide⟩, ⟨[2], by decide⟩]) := by
  constructor
  · intro hdelivered
    obtain ⟨s, hrun⟩ := Option.isSome_iff_exists.mp
      (show (exec (ServerSockets.step parseJoin) (.start [])
        (sentAndClosed [⟨[1], by decide⟩, ⟨[2], by decide⟩])).isSome by decide +kernel)
    have hfinal : ∀ s ∈ exec (ServerSockets.step parseJoin) (.start [])
        (sentAndClosed [⟨[1], by decide⟩, ⟨[2], by decide⟩]),
        s.server.calls = [.onConnect 7, .onData 7 [1], .onDisconnect 7] ∧
          (s.buffer 7).sent = [[1], [2]] := by
      decide +kernel
    obtain ⟨hcalls, hsent⟩ := hfinal s hrun
    have hsession := (hdelivered.last hrun).2 7 (by simp [hcalls])
    rw [hsent, UDSServer.callsOn, hcalls] at hsession
    revert hsession
    decide
  · decide +kernel

end IpcPubsub
