import IpcPubsub.SettlingRuns
import IpcPubsub.TopologyManager
import IpcPubsub.Minting

/-!
# Full sockets

The hub writes to its connections inside of its calls, and so does a manager: all of
`IntroduceOurselves` and every `Send` hold `mMtx` until the last packet is written.
The sockets are blocking.  Where one takes no more packets, the thread that writes to it waits,
with all it holds.

The main thread of the hub reads no connection while it writes.  The thread of a
manager's client reads the next packet only when it has applied the last one, for which
it needs `mMtx`.  So the hub and a manager can wait for each other.  `Unsubscribe` takes
`mMtx` and then calls `Send`, which waits for it: such a manager applies nothing any more.

`OnData` looks at the node id of a packet before it takes the hub's lock, and returns where
there is none.

How much a socket takes is up to the kernel; it takes a packet where nothing is under way.
The main thread and the purge thread of the hub take turns in its calls under its own
mutex.  The order in which a call writes to the connections is that of a hash table.
A descriptor is not used again, since `UDSServer` does not close those of connections
that have hung up.
-/

namespace IpcPubsub

open GuardedRuns FiniteMap

/-- When a socket takes no more packets. -/
structure BlockingSocket where
  full : List TopologyMessage → Bool
  /-- So many packets find room at least. -/
  room : Nat
  room_pos : 0 < room
  room_le : ∀ packets, full packets = true → room ≤ packets.length
  /-- So many do not. -/
  limit : Nat
  full_of_le : ∀ packets, limit ≤ packets.length → full packets = true

/-- What the hub knows of a connection. -/
inductive HubEnd
  /-- It has not been accepted. -/
  | backlog
  | accepted (fd : Fd)
  /-- It has hung up, and `UDSServer` has dropped it. -/
  | dropped (fd : Fd)
  deriving DecidableEq

/-- The hub's descriptor. -/
def HubEnd.fd : HubEnd → Option Fd
  | .backlog => none
  | .accepted fd => some fd
  | .dropped fd => some fd

/-- A connection with the manager at its other end. -/
structure Peer where
  manager : TopologyManager
  hubEnd : HubEnd := .backlog
  /-- The manager has not gone. -/
  isOpen : Bool := true
  introduced : Bool := false
  /-- A call of `Unsubscribe` has `mMtx` and waits for it. -/
  hung : Bool := false
  /-- What the thread that holds `mMtx` has still to send. -/
  sending : List TopologyMessage := []
  /-- What the thread of the client has read and not applied yet. -/
  reading : Option TopologyMessage := none
  toHub : List TopologyMessage := []
  fromHub : List TopologyMessage := []
  /-- How many messages the manager has begun to send in all. -/
  offered : Nat := 0
  /-- How many messages the hub has begun to write to it in all. -/
  due : Nat := 0
  deriving DecidableEq

/-- Nobody has `mMtx`. -/
def Peer.Free (p : Peer) : Prop := p.sending = [] ∧ p.hung = false

instance : DecidablePred Peer.Free := fun _ => inferInstanceAs (Decidable (_ ∧ _))

/-- A message of `Unsubscribe`, which never gets to sending it. -/
def MessageOp.isUnsubscribe : MessageOp → Bool
  | .topicChange change => change.op = .unsubscribe
  | _ => false

/-- Where the main thread of the hub is. -/
inductive HubThread
  /-- In `poll`. -/
  | polling
  /-- Before the lock of the call. -/
  | entering (op : HubOp)
  /-- In a call that writes. -/
  | inside
  deriving DecidableEq

structure Backpressure where
  hub : TopologyServer
  main : HubThread := .polling
  /-- What the call that is under way has still to write, and to which connection. -/
  writing : List (Nat × TopologyMessage) := []
  peers : List Peer := []
  deriving DecidableEq

/-- What can happen at one connection. -/
inductive PeerEvent
  | introduce (pubs : List Publication) (subs : List String)
  /-- A public call other than `Unsubscribe`, or one of the flush. -/
  | request (msg : TopologyMessage)
  | unsubscribe
  /-- The manager goes. -/
  | depart
  /-- The thread that holds `mMtx` sends the next packet. -/
  | send
  /-- The thread of the client reads a packet. -/
  | read
  | apply
  | accept (fd : Fd)
  /-- The main thread of the hub reads a packet; `random` is the uid it may draw. -/
  | receive (random : UInt64)
  | hangUp
  deriving DecidableEq

inductive PacketEvent
  /-- A manager connects. -/
  | connect (manager : TopologyManager)
  | peer (i : Nat) (event : PeerEvent)
  /-- The main thread of the hub gets the lock; its call takes the connections in the
  order given. -/
  | enter (order : List Nat)
  /-- The purge thread gets it. -/
  | purge (left : List UInt64) (order : List Nat)
  /-- The call that is under way writes the next packet. -/
  | write
  deriving DecidableEq

namespace Backpressure

/-- A hub that has just been started. -/
def start (digest : List TopologyMessage) : Backpressure where
  hub := .create digest

def put (s : Backpressure) (i : Nat) (p : Peer) : Backpressure :=
  { s with peers := s.peers.set i p }

/-- What a call writes to a connection. -/
def sentTo (o : Outcome) (p : Peer) : List TopologyMessage :=
  match p.hubEnd.fd with
  | none => []
  | some fd => o.sent fd

def writesTo (s : Backpressure) (o : Outcome) (i : Nat) : List (Nat × TopologyMessage) :=
  match s.peers[i]? with
  | none => []
  | some p => (sentTo o p).map fun msg => (i, msg)

/-- What a call writes, in the order it takes the connections. -/
def writesOf (s : Backpressure) (o : Outcome) (order : List Nat) :
    List (Nat × TopologyMessage) :=
  order.flatMap (s.writesTo o)

/-- A call from the lock to its first write. -/
def begin (s : Backpressure) (o : Outcome) (order : List Nat) : Backpressure :=
  { s with
    hub := o.server
    writing := s.writesOf o order
    peers := s.peers.map fun p => { p with due := p.due + (sentTo o p).length } }

/-- The main thread after the last write of a call. -/
def afterWrite (main : HubThread) (rest : List (Nat × TopologyMessage)) : HubThread :=
  if rest = [] ∧ main = .inside then .polling else main

/-- An event at a connection, and what it makes of the connection and the main thread. -/
def act (b : BlockingSocket) (s : Backpressure) (p : Peer) : PeerEvent → Option (Peer × HubThread)
  | .introduce pubs subs =>
      if p.isOpen ∧ p.introduced = false ∧ p.Free then
        let msgs := p.manager.introduceOurselves pubs subs
        some ({ p with introduced := true, sending := msgs, offered := p.offered + msgs.length },
          s.main)
      else none
  | .request msg =>
      if p.isOpen ∧ p.introduced ∧ p.Free ∧ msg.op.isUnsubscribe = false then
        some ({ p with sending := [msg], offered := p.offered + 1 }, s.main)
      else none
  | .unsubscribe =>
      if p.isOpen ∧ p.Free then some ({ p with hung := true }, s.main) else none
  | .depart =>
      if p.isOpen then
        some
          ({ p with isOpen := false, hung := false, sending := [], reading := none, fromHub := [] },
            s.main)
      else none
  | .send =>
      match p.sending with
      | [] => none
      | msg :: rest =>
          if b.full p.toHub then none
          else some ({ p with sending := rest, toHub := p.toHub ++ [msg] }, s.main)
  | .read =>
      match p.reading, p.fromHub with
      | none, msg :: rest => some ({ p with reading := some msg, fromHub := rest }, s.main)
      | _, _ => none
  | .apply =>
      match p.reading with
      | none => none
      | some msg =>
          if p.Free then
            some ({ p with manager := (p.manager.applyUpdate msg).1, reading := none }, s.main)
          else none
  | .accept fd =>
      if s.main = .polling ∧ p.hubEnd = .backlog ∧ ∀ q ∈ s.peers, q.hubEnd.fd ≠ some fd then
        some ({ p with hubEnd := .accepted fd }, .entering (.connect fd))
      else none
  | .receive random =>
      match s.main, p.hubEnd, p.toHub with
      | .polling, .accepted fd, msg :: rest =>
          some ({ p with toHub := rest },
            if msg.nodeId = 0 then .polling else .entering (.data fd msg random))
      | _, _, _ => none
  | .hangUp =>
      match s.main, p.hubEnd with
      | .polling, .accepted fd =>
          if p.isOpen then none
          else some ({ p with hubEnd := .dropped fd, toHub := [] }, .entering (.disconnect fd))
      | _, _ => none

/-- The next write; one to a connection that has hung up fails. -/
def write (b : BlockingSocket) (s : Backpressure) : Option Backpressure :=
  match s.writing with
  | [] => none
  | (i, msg) :: rest =>
      match s.peers[i]? with
      | none => none
      | some p =>
          let s' := { s with writing := rest, main := afterWrite s.main rest }
          if p.isOpen then
            if b.full p.fromHub then none
            else some (s'.put i { p with fromHub := p.fromHub ++ [msg] })
          else some s'

/-- The main thread gets the lock. -/
def enter (s : Backpressure) (order : List Nat) : Option Backpressure :=
  match s.main with
  | .entering op =>
      if s.writing = [] ∧ order.Perm (List.range s.peers.length) then
        (s.hub.perform op).map fun o =>
          { s.begin o order with main := if s.writesOf o order = [] then .polling else .inside }
      else none
  | _ => none

def step (b : BlockingSocket) (s : Backpressure) : PacketEvent → Option Backpressure
  | .connect manager => some { s with peers := s.peers ++ [{ manager := manager }] }
  | .peer i event =>
      s.peers[i]?.bind fun p =>
        (s.act b p event).map fun r => { s.put i r.1 with main := r.2 }
  | .enter order => s.enter order
  | .purge left order =>
      if s.writing = [] ∧ order.Perm (List.range s.peers.length) then
        (s.hub.perform (.purge left)).map fun o => s.begin o order
      else none
  | .write => s.write b

/-! ## What an event does -/

section Happens

variable (b : BlockingSocket) (s : Backpressure)

inductive Goes (p : Peer) : PeerEvent → Peer → HubThread → Prop
  | introduces {pubs : List Publication} {subs : List String} (hopen : p.isOpen = true)
      (hnew : p.introduced = false) (hfree : p.Free) :
      Goes p (.introduce pubs subs)
        { p with
          introduced := true
          sending := p.manager.introduceOurselves pubs subs
          offered := p.offered + (p.manager.introduceOurselves pubs subs).length } s.main
  | requests {msg : TopologyMessage} (hopen : p.isOpen = true) (hintroduced : p.introduced = true)
      (hfree : p.Free) (hsent : msg.op.isUnsubscribe = false) :
      Goes p (.request msg) { p with sending := [msg], offered := p.offered + 1 } s.main
  | unsubscribes (hopen : p.isOpen = true) (hfree : p.Free) :
      Goes p .unsubscribe { p with hung := true } s.main
  | departs (hopen : p.isOpen = true) :
      Goes p .depart
        { p with isOpen := false, hung := false, sending := [], reading := none, fromHub := [] }
        s.main
  | sends {msg : TopologyMessage} {rest : List TopologyMessage} (hsending : p.sending = msg :: rest)
      (hroom : b.full p.toHub = false) :
      Goes p .send { p with sending := rest, toHub := p.toHub ++ [msg] } s.main
  | reads {msg : TopologyMessage} {rest : List TopologyMessage} (hreading : p.reading = none)
      (hfrom : p.fromHub = msg :: rest) :
      Goes p .read { p with reading := some msg, fromHub := rest } s.main
  | applies {msg : TopologyMessage} (hreading : p.reading = some msg) (hfree : p.Free) :
      Goes p .apply { p with manager := (p.manager.applyUpdate msg).1, reading := none } s.main
  | accepts {fd : Fd} (hmain : s.main = .polling) (hwaits : p.hubEnd = .backlog)
      (hfresh : ∀ q ∈ s.peers, q.hubEnd.fd ≠ some fd) :
      Goes p (.accept fd) { p with hubEnd := .accepted fd } (.entering (.connect fd))
  | receives {fd : Fd} {msg : TopologyMessage} {rest : List TopologyMessage} {random : UInt64}
      (hmain : s.main = .polling) (hfd : p.hubEnd = .accepted fd) (hto : p.toHub = msg :: rest)
      (hid : msg.nodeId ≠ 0) :
      Goes p (.receive random) { p with toHub := rest } (.entering (.data fd msg random))
  /-- `OnData` returns before the lock. -/
  | ignores {fd : Fd} {msg : TopologyMessage} {rest : List TopologyMessage} {random : UInt64}
      (hmain : s.main = .polling) (hfd : p.hubEnd = .accepted fd) (hto : p.toHub = msg :: rest)
      (hid : msg.nodeId = 0) : Goes p (.receive random) { p with toHub := rest } s.main
  | hangsUp {fd : Fd} (hmain : s.main = .polling) (hfd : p.hubEnd = .accepted fd)
      (hclosed : p.isOpen = false) :
      Goes p .hangUp { p with hubEnd := .dropped fd, toHub := [] } (.entering (.disconnect fd))

inductive Happens : PacketEvent → Backpressure → Prop
  | connects {manager : TopologyManager} :
      Happens (.connect manager) { s with peers := s.peers ++ [{ manager := manager }] }
  | goes {i : Nat} {event : PeerEvent} {p p' : Peer} {main : HubThread}
      (hp : s.peers[i]? = some p) (hgoes : Goes b s p event p' main) :
      Happens (.peer i event) { s.put i p' with main := main }
  | enters {op : HubOp} {order : List Nat} {o : Outcome} (hmain : s.main = .entering op)
      (hfree : s.writing = []) (horder : order.Perm (List.range s.peers.length))
      (hop : s.hub.perform op = some o) :
      Happens (.enter order)
        { s.begin o order with main := if s.writesOf o order = [] then .polling else .inside }
  | purges {left : List UInt64} {order : List Nat} {o : Outcome} (hfree : s.writing = [])
      (horder : order.Perm (List.range s.peers.length))
      (hop : s.hub.perform (.purge left) = some o) : Happens (.purge left order) (s.begin o order)
  | writes {i : Nat} {msg : TopologyMessage} {rest : List (Nat × TopologyMessage)} {p : Peer}
      (hwriting : s.writing = (i, msg) :: rest) (hp : s.peers[i]? = some p)
      (hopen : p.isOpen = true) (hroom : b.full p.fromHub = false) :
      Happens .write
        (put { s with writing := rest, main := afterWrite s.main rest } i
          { p with fromHub := p.fromHub ++ [msg] })
  | fails {i : Nat} {msg : TopologyMessage} {rest : List (Nat × TopologyMessage)} {p : Peer}
      (hwriting : s.writing = (i, msg) :: rest) (hp : s.peers[i]? = some p)
      (hclosed : p.isOpen = false) :
      Happens .write { s with writing := rest, main := afterWrite s.main rest }

end Happens

section Step

variable {b : BlockingSocket} {s s' : Backpressure}

/-- What an event does to one connection, and when it can happen. -/
theorem goes_iff {p p' : Peer} {event : PeerEvent} {main : HubThread} :
    s.act b p event = some (p', main) ↔ Goes b s p event p' main := by
  constructor
  · intro h
    cases event with
    | introduce pubs subs =>
        simp only [act, Option.ite_none_right_eq_some, Option.some.injEq, Prod.mk.injEq] at h
        obtain ⟨⟨hopen, hnew, hfree⟩, rfl, rfl⟩ := h
        exact .introduces hopen hnew hfree
    | request msg =>
        simp only [act, Option.ite_none_right_eq_some, Option.some.injEq, Prod.mk.injEq] at h
        obtain ⟨⟨hopen, hintroduced, hfree, hsent⟩, rfl, rfl⟩ := h
        exact .requests hopen hintroduced hfree hsent
    | unsubscribe =>
        simp only [act, Option.ite_none_right_eq_some, Option.some.injEq, Prod.mk.injEq] at h
        obtain ⟨⟨hopen, hfree⟩, rfl, rfl⟩ := h
        exact .unsubscribes hopen hfree
    | depart =>
        simp only [act, Option.ite_none_right_eq_some, Option.some.injEq, Prod.mk.injEq] at h
        obtain ⟨hopen, rfl, rfl⟩ := h
        exact .departs hopen
    | send =>
        simp only [act] at h
        split at h
        case h_1 => cases h
        case h_2 msg rest hsending =>
          simp only [Option.ite_none_left_eq_some, Option.some.injEq, Prod.mk.injEq] at h
          obtain ⟨hroom, rfl, rfl⟩ := h
          exact .sends hsending (by simpa using hroom)
    | read =>
        simp only [act] at h
        split at h
        case h_1 msg rest hreading hfrom =>
          simp only [Option.some.injEq, Prod.mk.injEq] at h
          obtain ⟨rfl, rfl⟩ := h
          exact .reads hreading hfrom
        case h_2 => cases h
    | apply =>
        simp only [act] at h
        split at h
        case h_1 => cases h
        case h_2 msg hreading =>
          simp only [Option.ite_none_right_eq_some, Option.some.injEq, Prod.mk.injEq] at h
          obtain ⟨hfree, rfl, rfl⟩ := h
          exact .applies hreading hfree
    | accept fd =>
        simp only [act, Option.ite_none_right_eq_some, Option.some.injEq, Prod.mk.injEq] at h
        obtain ⟨⟨hmain, hwaits, hfresh⟩, rfl, rfl⟩ := h
        exact .accepts hmain hwaits hfresh
    | receive random =>
        simp only [act] at h
        split at h
        case h_1 fd msg rest hmain hfd hto =>
          simp only [Option.some.injEq, Prod.mk.injEq] at h
          obtain ⟨rfl, rfl⟩ := h
          split
          case isTrue hid =>
            rw [← hmain]
            exact .ignores hmain hfd hto hid
          case isFalse hid => exact .receives hmain hfd hto hid
        case h_2 => cases h
    | hangUp =>
        simp only [act] at h
        split at h
        case h_1 fd hmain hfd =>
          simp only [Option.ite_none_left_eq_some, Option.some.injEq, Prod.mk.injEq] at h
          obtain ⟨hclosed, rfl, rfl⟩ := h
          exact .hangsUp hmain hfd (by simpa using hclosed)
        case h_2 => cases h
  · intro h
    cases h with
    | introduces hopen hnew hfree => simp [act, hopen, hnew, hfree]
    | requests hopen hintroduced hfree hsent => simp [act, hopen, hintroduced, hfree, hsent]
    | unsubscribes hopen hfree => simp [act, hopen, hfree]
    | departs hopen => simp [act, hopen]
    | sends hsending hroom => simp [act, hsending, hroom]
    | reads hreading hfrom => simp [act, hreading, hfrom]
    | applies hreading hfree => simp [act, hreading, hfree]
    | accepts hmain hwaits hfresh => simpa [act, hmain, hwaits] using hfresh
    | receives hmain hfd hto hid => simp [act, hmain, hfd, hto, hid]
    | ignores hmain hfd hto hid => simp [act, hmain, hfd, hto, hid]
    | hangsUp hmain hfd hclosed => simp [act, hmain, hfd, hclosed]

/-- What an event does to the system, and when it can happen. -/
theorem step_iff {event : PacketEvent} : s.step b event = some s' ↔ Happens b s event s' := by
  constructor
  · intro h
    cases event with
    | connect manager => cases h; exact .connects
    | peer i event =>
        obtain ⟨p, hp, hact⟩ := Option.bind_eq_some_iff.mp h
        obtain ⟨⟨p', main⟩, hgoes, rfl⟩ := Option.map_eq_some_iff.mp hact
        exact .goes hp (goes_iff.mp hgoes)
    | enter order =>
        simp only [step, enter] at h
        split at h
        case h_1 op hmain =>
          obtain ⟨⟨hfree, horder⟩, hmap⟩ := Option.ite_none_right_eq_some.mp h
          obtain ⟨o, hop, rfl⟩ := Option.map_eq_some_iff.mp hmap
          exact .enters hmain hfree horder hop
        case h_2 => cases h
    | purge left order =>
        obtain ⟨⟨hfree, horder⟩, hmap⟩ := Option.ite_none_right_eq_some.mp h
        obtain ⟨o, hop, rfl⟩ := Option.map_eq_some_iff.mp hmap
        exact .purges hfree horder hop
    | write =>
        simp only [step, write] at h
        split at h
        case h_1 => cases h
        case h_2 i msg rest hwriting =>
          split at h
          case h_1 => cases h
          case h_2 p hp =>
            split at h
            case isTrue hopen =>
              obtain ⟨hroom, hs⟩ := Option.ite_none_left_eq_some.mp h
              cases hs
              exact .writes hwriting hp hopen (by simpa using hroom)
            case isFalse hclosed =>
              cases h
              exact .fails hwriting hp (by simpa using hclosed)
  · intro h
    cases h with
    | connects => rfl
    | goes hp hgoes => simp [step, hp, goes_iff.mpr hgoes]
    | enters hmain hfree horder hop => simp [step, enter, hmain, hfree, horder, hop]
    | purges hfree horder hop => simp [step, hfree, horder, hop]
    | writes hwriting hp hopen hroom => simp [step, write, hwriting, hp, hopen, hroom]
    | fails hwriting hp hclosed => simp [step, write, hwriting, hp, hclosed]

end Step

/-! ## The invariant -/

/-- A call of the main thread that the hub can take. -/
def Possible (s : Backpressure) : HubOp → Prop
  | .connect fd => fd ∉ s.hub.mClients ∧ ∃ p ∈ s.peers, p.hubEnd = .accepted fd
  | .data fd _ _ => fd ∈ s.hub.mClients
  | .disconnect fd => fd ∈ s.hub.mClients ∧ ∀ p ∈ s.peers, p.hubEnd ≠ .accepted fd
  | .purge _ => False

/-- What is true at any moment of any run. -/
structure Valid (s : Backpressure) : Prop where
  inside : s.main = .inside → s.writing ≠ []
  entering : ∀ op, s.main = .entering op → s.Possible op
  distinct : ∀ (i j : Nat) (p q : Peer) (fd : Fd), s.peers[i]? = some p → s.peers[j]? = some q →
    p.hubEnd.fd = some fd → q.hubEnd.fd = some fd → i = j
  known : ∀ fd ∈ s.hub.mClients, ∃ p ∈ s.peers, p.hubEnd.fd = some fd
  accepted : ∀ p ∈ s.peers, ∀ fd, p.hubEnd = .accepted fd →
    fd ∈ s.hub.mClients ∨ s.main = .entering (.connect fd)
  dropped : ∀ p ∈ s.peers, ∀ fd, p.hubEnd = .dropped fd → p.isOpen = false ∧ p.toHub = []
  closed : ∀ p ∈ s.peers, p.isOpen = false →
    p.sending = [] ∧ p.reading = none ∧ p.fromHub = []
  writing : ∀ w ∈ s.writing, ∃ p, s.peers[w.1]? = some p ∧ p.hubEnd ≠ .backlog
  offered : ∀ p ∈ s.peers, p.sending.length + p.toHub.length ≤ p.offered
  due : ∀ (i : Nat) (p : Peer), s.peers[i]? = some p →
    p.fromHub.length + p.reading.toList.length + s.writing.countP (fun w => w.1 = i) ≤ p.due

section Invariant

variable {b : BlockingSocket} {s s' : Backpressure} {i j : Nat} {p p' q : Peer}
  {event : PeerEvent} {main : HubThread} {op : HubOp} {o : Outcome} {order : List Nat}

/-- A hub that was just started has no connection, so that there is nothing to account for. -/
theorem valid_start (digest : List TopologyMessage) : (start digest).Valid where
  inside := by simp [start]
  entering := by simp [start]
  distinct := by simp [start]
  known := by
    intro fd hfd
    exact absurd hfd (Finmap.notMem_empty)
  accepted := by simp [start]
  dropped := by simp [start]
  closed := by simp [start]
  writing := by simp [start]
  offered := by simp [start]
  due := by simp [start]

/-- The connections when one of them moves on. -/
theorem peers_put (hp : s.peers[i]? = some p) (p' : Peer) (j : Nat) :
    (s.put i p').peers[j]? = if j = i then some p' else s.peers[j]? :=
  getElem?_set_part hp p' j

/-- A property of the connections one by one, where one of them changes. -/
theorem forall_put {P : Peer → Prop} (hall : ∀ q ∈ s.peers, P q) (hp' : P p') :
    ∀ q ∈ (s.put i p').peers, P q := by
  intro q hq
  rcases List.mem_or_eq_of_mem_set hq with hold | rfl
  · exact hall q hold
  · exact hp'

/-- What becomes of the hub's end of a connection, and of the main thread. -/
inductive Ends (s : Backpressure) (p : Peer) : HubEnd → HubThread → Prop
  | keeps : Ends s p p.hubEnd s.main
  | accepts {fd : Fd} (hmain : s.main = .polling) (hwaits : p.hubEnd = .backlog)
      (hfresh : ∀ q ∈ s.peers, q.hubEnd.fd ≠ some fd) :
      Ends s p (.accepted fd) (.entering (.connect fd))
  | receives {fd : Fd} {msg : TopologyMessage} {random : UInt64} (hmain : s.main = .polling)
      (hfd : p.hubEnd = .accepted fd) : Ends s p (.accepted fd) (.entering (.data fd msg random))
  | hangsUp {fd : Fd} (hmain : s.main = .polling) (hfd : p.hubEnd = .accepted fd) :
      Ends s p (.dropped fd) (.entering (.disconnect fd))

/-- An event at a connection leaves the hub's end and the main thread as they are, or is one of
the three that start a call. -/
theorem Goes.ends (h : Goes b s p event p' main) : Ends s p p'.hubEnd main := by
  cases h with
  | accepts hmain hwaits hfresh => exact .accepts hmain hwaits hfresh
  | receives hmain hfd hto hid =>
      show Ends s p p.hubEnd _
      rw [hfd]
      exact .receives hmain hfd
  | hangsUp hmain hfd hclosed => exact .hangsUp hmain hfd
  | _ => exact .keeps

/-- While the main thread polls, the hub knows every connection that was accepted. -/
theorem Valid.mem_of_polling (h : s.Valid) (hmain : s.main = .polling) (hp : p ∈ s.peers) {fd : Fd}
    (hfd : p.hubEnd = .accepted fd) : fd ∈ s.hub.mClients := by
  rcases h.accepted p hp fd hfd with hmem | hentering
  · exact hmem
  · rw [hmain] at hentering
    cases hentering

/-- A descriptor is new, or that of the connection before. -/
theorem Ends.fd {hubEnd : HubEnd} (h : Ends s p hubEnd main) {fd : Fd} (hfd : hubEnd.fd = some fd) :
    p.hubEnd.fd = some fd ∨ ∀ q ∈ s.peers, q.hubEnd.fd ≠ some fd := by
  cases h with
  | keeps => exact .inl hfd
  | accepts _ _ hfresh => exact .inr (Option.some.inj hfd ▸ hfresh)
  | receives _ hold => exact .inl (hold ▸ hfd)
  | hangsUp _ hold => exact .inl (hold ▸ hfd)

/-- So no two connections come to have the same. -/
theorem Ends.distinct (h : s.Valid) (hp : s.peers[i]? = some p) {hubEnd : HubEnd}
    (hends : Ends s p hubEnd main) {j : Nat} {q : Peer} {fd : Fd} (hq : s.peers[j]? = some q)
    (hfd : hubEnd.fd = some fd) (hqfd : q.hubEnd.fd = some fd) : i = j := by
  rcases hends.fd hfd with hold | hfresh
  · exact h.distinct i j p q fd hp hq hold hqfd
  · exact absurd hqfd (hfresh q (List.mem_of_getElem? hq))

/-- A connection is still there when one has moved on. -/
theorem exists_put (hp : s.peers[i]? = some p) {P : HubEnd → Prop} (hP : P p.hubEnd → P p'.hubEnd)
    {q : Peer} (hq : q ∈ s.peers) (hqP : P q.hubEnd) :
    ∃ q' ∈ (s.put i p').peers, P q'.hubEnd := by
  obtain ⟨j, hj⟩ := List.getElem?_of_mem hq
  by_cases heq : j = i
  · subst heq
    obtain rfl : p = q := Option.some.inj (hp.symm.trans hj)
    exact ⟨p', List.mem_of_getElem? ((peers_put hp p' j).trans (if_pos rfl)), hP hqP⟩
  · exact ⟨q, List.mem_of_getElem? (((peers_put hp p' j).trans (if_neg heq)).trans hj), hqP⟩

/-- The call that the main thread is about to make is one that the hub can take. -/
theorem Ends.entering (h : s.Valid) (hp : s.peers[i]? = some p) (hends : Ends s p p'.hubEnd main)
    (hop : main = .entering op) :
    ({ s.put i p' with main := main } : Backpressure).Possible op := by
  have hmem : p ∈ s.peers := List.mem_of_getElem? hp
  generalize hnew : p'.hubEnd = hubEnd at hends
  cases hends with
  | keeps =>
      have hpossible := h.entering op hop
      cases op with
      | connect fd =>
          obtain ⟨hunknown, q, hq, hqfd⟩ := hpossible
          exact ⟨hunknown, exists_put hp (P := fun e => e = .accepted fd) (hnew ▸ id) hq hqfd⟩
      | data fd msg random => exact hpossible
      | disconnect fd =>
          exact ⟨hpossible.1, forall_put (P := fun q => q.hubEnd ≠ .accepted fd) hpossible.2
            (hnew ▸ hpossible.2 p hmem)⟩
      | purge left => exact hpossible
  | accepts _ _ hfresh =>
      cases hop
      refine ⟨fun hknown => ?_, p', ?_, hnew⟩
      · obtain ⟨q, hq, hqfd⟩ := h.known _ hknown
        exact hfresh q hq hqfd
      · exact List.mem_of_getElem? ((peers_put hp p' i).trans (if_pos rfl))
  | receives hmain hfd =>
      cases hop
      exact h.mem_of_polling hmain hmem hfd
  | @hangsUp fd hmain hfd =>
      cases hop
      refine ⟨h.mem_of_polling hmain hmem hfd, fun q hq hqfd => ?_⟩
      obtain ⟨j, hj⟩ := List.getElem?_of_mem hq
      rw [peers_put hp] at hj
      split at hj
      case isTrue =>
        cases hj
        rw [hnew] at hqfd
        cases hqfd
      case isFalse hne =>
        exact hne (h.distinct j i q p fd hj hp (by rw [hqfd, HubEnd.fd]) (by rw [hfd, HubEnd.fd]))

/-- One connection moves on, and the main thread with it.  The invariant asks only for what has
changed: the end of the hub, what a closed connection has left, and the two counts. -/
theorem Valid.move (h : s.Valid) (p' : Peer) (hp : s.peers[i]? = some p)
    (hends : Ends s p p'.hubEnd main)
    (hdropped : ∀ fd, p'.hubEnd = .dropped fd → p'.isOpen = false ∧ p'.toHub = [])
    (hclosed : p'.isOpen = false → p'.sending = [] ∧ p'.reading = none ∧ p'.fromHub = [])
    (hoffered : p'.sending.length + p'.toHub.length ≤ p'.offered)
    (hdue : p'.fromHub.length + p'.reading.toList.length +
      s.writing.countP (fun w => w.1 = i) ≤ p'.due) :
    Valid { s.put i p' with main := main } where
  inside := by
    intro hinside
    generalize p'.hubEnd = hubEnd at hends
    cases hends with
    | keeps => exact h.inside hinside
    | _ => cases hinside
  entering := fun op hop => hends.entering h hp hop
  distinct := by
    intro j k q r fd hq hr hqfd hrfd
    have hq' := (peers_put hp p' j).symm.trans hq
    have hr' := (peers_put hp p' k).symm.trans hr
    split at hq' <;> split at hr'
    case isTrue.isTrue hj hk => exact hj.trans hk.symm
    case isTrue.isFalse hj _ =>
      cases hq'
      exact hj ▸ hends.distinct h hp hr' hqfd hrfd
    case isFalse.isTrue _ hk =>
      cases hr'
      exact hk ▸ (hends.distinct h hp hq' hrfd hqfd).symm
    case isFalse.isFalse => exact h.distinct j k q r fd hq' hr' hqfd hrfd
  known := by
    intro fd hfd
    obtain ⟨q, hq, hqfd⟩ := h.known fd hfd
    refine exists_put hp (P := fun e => e.fd = some fd) (fun hold => ?_) hq hqfd
    generalize p'.hubEnd = hubEnd at hends
    cases hends with
    | keeps => exact hold
    | accepts _ hwaits _ =>
        rw [hwaits] at hold
        cases hold
    | receives _ hsame => rwa [hsame] at hold
    | hangsUp _ hsame => rwa [hsame] at hold
  accepted := by
    -- a connection other than a new one is known, or about to be
    have hkept : ∀ q ∈ s.peers, ∀ fd, q.hubEnd = .accepted fd →
        fd ∈ s.hub.mClients ∨ main = .entering (.connect fd) := by
      intro q hq fd hfd
      generalize p'.hubEnd = hubEnd at hends
      cases hends with
      | keeps => exact h.accepted q hq fd hfd
      | accepts hmain _ _ => exact .inl (h.mem_of_polling hmain hq hfd)
      | receives hmain _ => exact .inl (h.mem_of_polling hmain hq hfd)
      | hangsUp hmain _ => exact .inl (h.mem_of_polling hmain hq hfd)
    refine forall_put (P := fun q => ∀ fd, q.hubEnd = .accepted fd →
      fd ∈ s.hub.mClients ∨ main = .entering (.connect fd)) hkept ?_
    intro fd hfd
    have hmem : p ∈ s.peers := List.mem_of_getElem? hp
    generalize p'.hubEnd = hubEnd at hends hfd
    cases hends with
    | keeps => exact hkept p hmem fd hfd
    | accepts _ _ _ =>
        cases hfd
        exact .inr rfl
    | receives _ hsame => exact hkept p hmem fd (hsame.trans hfd)
    | hangsUp _ _ => cases hfd
  dropped := forall_put (P := fun q => ∀ fd, q.hubEnd = .dropped fd →
    q.isOpen = false ∧ q.toHub = []) h.dropped hdropped
  closed := forall_put (P := fun q => q.isOpen = false →
    q.sending = [] ∧ q.reading = none ∧ q.fromHub = []) h.closed hclosed
  writing := by
    intro w hw
    obtain ⟨q, hq, hback⟩ := h.writing w hw
    by_cases heq : w.1 = i
    · refine ⟨p', (peers_put hp p' w.1).trans (if_pos heq), ?_⟩
      obtain rfl : p = q := Option.some.inj (hp.symm.trans (heq ▸ hq))
      generalize p'.hubEnd = hubEnd at hends
      cases hends with
      | keeps => exact hback
      | _ => simp
    · exact ⟨q, ((peers_put hp p' w.1).trans (if_neg heq)).trans hq, hback⟩
  offered := forall_put (P := fun q => q.sending.length + q.toHub.length ≤ q.offered) h.offered
    hoffered
  due := by
    intro j q hq
    have hq' := (peers_put hp p' j).symm.trans hq
    split at hq'
    case isTrue heq =>
      cases hq'
      exact heq ▸ hdue
    case isFalse => exact h.due j q hq'

/-- An event at a connection keeps the invariant, one case for each of the ways a connection can
move on. -/
theorem Goes.valid (h : s.Valid) (hp : s.peers[i]? = some p)
    (hgoes : Goes b s p event p' main) : Valid { s.put i p' with main := main } := by
  have hmem : p ∈ s.peers := List.mem_of_getElem? hp
  have hdropped := h.dropped p hmem
  have hclosed := h.closed p hmem
  have hoffered := h.offered p hmem
  have hdue := h.due i p hp
  apply h.move p' hp hgoes.ends
  · intro fd hfd
    cases hgoes <;> simp_all
  · intro hshut
    cases hgoes <;> simp_all
  · cases hgoes <;> simp_all <;> omega
  · cases hgoes <;> simp_all <;> omega

/-! ### The calls of the hub -/

/-- A call makes the hub know a connection only if it is about that connection. -/
theorem mem_of_perform {server : TopologyServer} (hop : server.perform op = some o) {fd : Fd}
    (hmem : fd ∈ o.server.mClients) : fd ∈ server.mClients ∨ op = .connect fd := by
  obtain ⟨client', hclient'⟩ := Finmap.mem_iff.mp hmem
  rcases TopologyServer.perform_client hop hclient' with ⟨rfl, _⟩ | ⟨client, hclient, _⟩
  · exact .inr rfl
  · exact .inl (Finmap.mem_iff.mpr ⟨client, TopologyServer.lookup_of_staying hclient⟩)

/-- After `OnConnect` the hub knows the connection. -/
theorem mem_connect {server : TopologyServer} {fd : Fd}
    (hop : server.perform (.connect fd) = some o) : fd ∈ o.server.mClients := by
  obtain ⟨_, ho⟩ := Option.ite_none_left_eq_some.mp hop
  cases ho
  simp [TopologyServer.onConnect]

/-- A call that is possible is carried out. -/
theorem exists_perform (hop : s.Possible op) : ∃ o, s.hub.perform op = some o := by
  cases op with
  | connect fd => exact ⟨_, if_neg hop.1⟩
  | data fd msg random =>
      obtain ⟨client, hclient⟩ := Finmap.mem_iff.mp hop
      simp only [TopologyServer.perform, TopologyServer.onMessage, hclient]
      split <;> exact ⟨_, rfl⟩
  | disconnect fd =>
      obtain ⟨client, hclient⟩ := Finmap.mem_iff.mp hop.1
      simp [TopologyServer.perform, TopologyServer.onDisconnect, hclient]
  | purge left => exact hop.elim

/-- What is written to a connection is written to that one. -/
theorem fst_of_mem_writesTo {w : Nat × TopologyMessage} (hw : w ∈ s.writesTo o i) : w.1 = i := by
  unfold writesTo at hw
  split at hw
  · cases hw
  · obtain ⟨msg, _, rfl⟩ := List.mem_map.mp hw
    rfl

/-- What is written to one connection, whatever the order of the connections. -/
theorem countP_writesOf (hp : s.peers[i]? = some p) (horder : order.Nodup) :
    (s.writesOf o order).countP (fun w => w.1 = i) ≤ (sentTo o p).length := by
  induction order with
  | nil => simp [writesOf]
  | cons k order ih =>
      obtain ⟨hk, hrest⟩ := List.nodup_cons.mp horder
      rw [writesOf, List.flatMap_cons, List.countP_append]
      by_cases heq : k = i
      · subst heq
        -- the connection does not come again
        have hnone : (order.flatMap (s.writesTo o)).countP (fun w => w.1 = k) = 0 := by
          rw [List.countP_eq_zero]
          intro w hw
          obtain ⟨j, hj, hwj⟩ := List.mem_flatMap.mp hw
          have hne : j ≠ k := fun heq => hk (heq ▸ hj)
          simpa [fst_of_mem_writesTo hwj] using hne
        have hfirst : (s.writesTo o k).length = (sentTo o p).length := by
          rw [writesTo, hp, List.length_map]
        rw [hnone, ← hfirst]
        exact List.countP_le_length
      · have hnone : (s.writesTo o k).countP (fun w => w.1 = i) = 0 := by
          rw [List.countP_eq_zero]
          intro w hw
          simpa [fst_of_mem_writesTo hw] using heq
        rw [hnone, Nat.zero_add]
        exact ih hrest

/-- When a call begins, more becomes due at each connection, and nothing else changes. -/
theorem lookup_begin (order : List Nat) {j : Nat} {q' : Peer}
    (h : (s.begin o order).peers[j]? = some q') :
    ∃ q, s.peers[j]? = some q ∧ q' = { q with due := q.due + (sentTo o q).length } := by
  rw [Backpressure.begin, List.getElem?_map] at h
  obtain ⟨q, hq, rfl⟩ := Option.map_eq_some_iff.mp h
  exact ⟨q, hq, rfl⟩

/-- The same, of a connection that was there. -/
theorem mem_begin (order : List Nat) {q : Peer} (h : q ∈ s.peers) :
    { q with due := q.due + (sentTo o q).length } ∈ (s.begin o order).peers :=
  List.mem_map.mpr ⟨_, h, rfl⟩

/-- What holds of the connections one by one, when a call begins. -/
theorem forall_begin (order : List Nat) {P : Peer → Prop}
    (h : ∀ q ∈ s.peers, P { q with due := q.due + (sentTo o q).length }) :
    ∀ q' ∈ (s.begin o order).peers, P q' := by
  intro q' hq'
  obtain ⟨q, hq, rfl⟩ := List.mem_map.mp hq'
  exact h q hq

/-- After a purge, what the main thread is about to call is as possible as before. -/
theorem Valid.possible_begin (h : s.Valid) {left : List UInt64} {next : HubOp}
    (hop : s.hub.perform (.purge left) = some o) (hnext : s.main = .entering next)
    {order : List Nat} {main : HubThread} :
    Possible { s.begin o order with main := main } next := by
  have hpossible := h.entering next hnext
  have hkept : ∀ fd, fd ∈ o.server.mClients ↔ fd ∈ s.hub.mClients := by
    intro fd
    constructor
    · intro hmem
      rcases mem_of_perform hop hmem with hold | hconnect
      · exact hold
      · cases hconnect
    · exact fun hmem => TopologyServer.perform_open hop hmem (by simp)
  cases next with
  | connect fd =>
      obtain ⟨hnew, q, hq, hqfd⟩ := hpossible
      exact ⟨fun hmem => hnew ((hkept fd).mp hmem), _, mem_begin order hq, hqfd⟩
  | data fd msg random => exact (hkept fd).mpr hpossible
  | disconnect fd => exact ⟨(hkept fd).mpr hpossible.1, forall_begin order hpossible.2⟩
  | purge left => exact hpossible

/-- A call of the hub, before the main thread is looked at. -/
theorem Valid.begin (h : s.Valid) (hfree : s.writing = []) (hop : s.hub.perform op = some o)
    (horder : order.Perm (List.range s.peers.length))
    (hinside : main = .inside → s.writesOf o order ≠ [])
    (hentering : ∀ next, main = .entering next →
      s.main = main ∧ ∃ left, op = .purge left)
    (hcall : (∃ left, op = .purge left ∧ s.main = main) ∨ s.main = .entering op) :
    Valid { s.begin o order with main := main } := by
  have hnodup : order.Nodup := horder.nodup_iff.mpr List.nodup_range
  exact
    { inside := hinside
      entering := by
        intro next hnext
        obtain ⟨hmain, left, rfl⟩ := hentering next hnext
        exact h.possible_begin hop (hmain.trans hnext)
      distinct := by
        intro j k q r fd hq hr hqfd hrfd
        obtain ⟨q₀, hq₀, rfl⟩ := lookup_begin order hq
        obtain ⟨r₀, hr₀, rfl⟩ := lookup_begin order hr
        exact h.distinct j k q₀ r₀ fd hq₀ hr₀ hqfd hrfd
      known := by
        intro fd hfd
        rcases mem_of_perform hop hfd with hold | rfl
        · obtain ⟨q, hq, hqfd⟩ := h.known fd hold
          exact ⟨_, mem_begin order hq, hqfd⟩
        · rcases hcall with ⟨left, hpurge, _⟩ | hcalled
          · cases hpurge
          · obtain ⟨_, q, hq, hqfd⟩ := h.entering _ hcalled
            exact ⟨_, mem_begin order hq, by rw [hqfd, HubEnd.fd]⟩
      accepted := by
        refine @forall_begin s o order _ fun q hq fd hqfd => ?_
        by_cases hgone : op = .disconnect fd
        · subst hgone
          rcases hcall with ⟨left, hpurge, _⟩ | hcalled
          · cases hpurge
          · exact absurd hqfd ((h.entering _ hcalled).2 q hq)
        · rcases h.accepted q hq fd hqfd with hmem | hconnect
          · exact .inl (TopologyServer.perform_open hop hmem hgone)
          · rcases hcall with ⟨left, rfl, hmain⟩ | hcalled
            · exact .inr (hmain ▸ hconnect)
            · obtain rfl : op = .connect fd := by simpa [hcalled] using hconnect
              exact .inl (mem_connect hop)
      dropped := forall_begin order h.dropped
      closed := forall_begin order h.closed
      writing := by
        intro w hw
        obtain ⟨j, hj, hwj⟩ := List.mem_flatMap.mp hw
        unfold writesTo at hwj
        split at hwj
        · cases hwj
        · rename_i q hq
          obtain ⟨msg, hmsg, rfl⟩ := List.mem_map.mp hwj
          refine ⟨{ q with due := q.due + (sentTo o q).length }, ?_, ?_⟩
          · simp [Backpressure.begin, hq]
          · rintro (hback : q.hubEnd = .backlog)
            simp [sentTo, hback, HubEnd.fd] at hmsg
      offered := forall_begin order h.offered
      due := by
        intro j q' hq'
        obtain ⟨q, hq, rfl⟩ := lookup_begin order hq'
        have hold := h.due j q hq
        have hcount := countP_writesOf (o := o) hq hnodup
        rw [hfree] at hold
        simp only [List.countP_nil] at hold
        show q.fromHub.length + q.reading.toList.length +
          (s.writesOf o order).countP (fun w => w.1 = j) ≤ q.due + (sentTo o q).length
        omega }

/-- A write does not start a call. -/
theorem entering_afterWrite {rest : List (Nat × TopologyMessage)}
    (h : afterWrite s.main rest = .entering op) : s.main = .entering op := by
  unfold afterWrite at h
  split at h
  · cases h
  · exact h

/-- The first of what is written has been written, or the connection has gone in the meantime; the
count of what is due only falls. -/
theorem Valid.written (h : s.Valid) {msg : TopologyMessage} {rest : List (Nat × TopologyMessage)}
    (hwriting : s.writing = (i, msg) :: rest) :
    Valid { s with writing := rest, main := afterWrite s.main rest } where
  inside := by
    intro hinside hrest
    simp only [afterWrite] at hinside
    split at hinside
    case isTrue => cases hinside
    case isFalse hnot => exact hnot ⟨hrest, hinside⟩
  entering := fun op hop => h.entering op (entering_afterWrite hop)
  distinct := h.distinct
  known := h.known
  accepted := by
    intro q hq fd hfd
    rcases h.accepted q hq fd hfd with hmem | hconnect
    · exact .inl hmem
    · right
      show afterWrite s.main rest = .entering (.connect fd)
      simp [afterWrite, hconnect]
  dropped := h.dropped
  closed := h.closed
  writing := fun w hw => h.writing w (hwriting ▸ List.mem_cons_of_mem _ hw)
  offered := h.offered
  due := by
    intro j q hq
    have hold := h.due j q hq
    rw [hwriting, List.countP_cons] at hold
    show q.fromHub.length + q.reading.toList.length + rest.countP (fun w => w.1 = j) ≤ q.due
    omega

/-- The packet comes last in the socket of an open connection, and what is due to it stays the
same in all. -/
theorem Valid.writes (h : s.Valid) {msg : TopologyMessage} {rest : List (Nat × TopologyMessage)}
    (hwriting : s.writing = (i, msg) :: rest) (hp : s.peers[i]? = some p)
    (hopen : p.isOpen = true) :
    Valid (put { s with writing := rest, main := afterWrite s.main rest } i
      { p with fromHub := p.fromHub ++ [msg] }) := by
  have hmem : p ∈ s.peers := List.mem_of_getElem? hp
  have hdue := h.due i p hp
  rw [hwriting, List.countP_cons] at hdue
  simp only [decide_true, if_true] at hdue
  refine (h.written hwriting).move { p with fromHub := p.fromHub ++ [msg] } hp .keeps ?_ ?_ ?_ ?_
  · exact h.dropped p hmem
  · intro hshut
    rw [hopen] at hshut
    cases hshut
  · exact h.offered p hmem
  · show (p.fromHub ++ [msg]).length + p.reading.toList.length +
      rest.countP (fun w => w.1 = i) ≤ p.due
    rw [List.length_append, List.length_singleton]
    omega

/-- A connection that is new has nothing under way, and the hub has no descriptor for it yet. -/
theorem Valid.connects (h : s.Valid) (manager : TopologyManager) :
    Valid { s with peers := s.peers ++ [{ manager := manager }] } := by
  have hlookup : ∀ j, (s.peers ++ [({ manager := manager } : Peer)])[j]? =
      if j = s.peers.length then some { manager := manager } else s.peers[j]? := by
    intro j
    grind
  have hall : ∀ {P : Peer → Prop}, (∀ q ∈ s.peers, P q) → P { manager := manager } →
      ∀ q ∈ s.peers ++ [({ manager := manager } : Peer)], P q := by
    intro P hP hnew q hq
    rcases List.mem_append.mp hq with hold | hlast
    · exact hP q hold
    · exact List.mem_singleton.mp hlast ▸ hnew
  have hsome : ∀ {q : Peer}, q ∈ s.peers → q ∈ s.peers ++ [({ manager := manager } : Peer)] :=
    fun hq => List.mem_append_left _ hq
  exact
    { inside := h.inside
      entering := by
        intro op hop
        have hpossible := h.entering op hop
        cases op with
        | connect fd =>
            obtain ⟨hnew, q, hq, hqfd⟩ := hpossible
            exact ⟨hnew, q, hsome hq, hqfd⟩
        | data fd msg random => exact hpossible
        | disconnect fd => exact ⟨hpossible.1, hall hpossible.2 (by simp)⟩
        | purge left => exact hpossible
      distinct := by
        intro j k q r fd hq hr hqfd hrfd
        rw [hlookup] at hq hr
        split at hq
        · cases hq
          cases hqfd
        · split at hr
          · cases hr
            cases hrfd
          · exact h.distinct j k q r fd hq hr hqfd hrfd
      known := fun fd hfd =>
        have ⟨q, hq, hqfd⟩ := h.known fd hfd
        ⟨q, hsome hq, hqfd⟩
      accepted := hall h.accepted (by simp)
      dropped := hall h.dropped (by simp)
      closed := hall h.closed (by simp)
      writing := fun w hw =>
        have ⟨q, hq, hback⟩ := h.writing w hw
        ⟨q, (List.getElem?_append_left (List.getElem?_eq_some_iff.mp hq).1).trans hq, hback⟩
      offered := hall h.offered (by simp)
      due := by
        intro j q hq
        rw [hlookup] at hq
        split at hq
        case isTrue heq =>
          cases hq
          have hnone : s.writing.countP (fun w => w.1 = j) = 0 := by
            rw [List.countP_eq_zero]
            intro w hw
            obtain ⟨q, hq, _⟩ := h.writing w hw
            have hlength := (List.getElem?_eq_some_iff.mp hq).1
            simp
            omega
          simp [hnone]
        case isFalse => exact h.due j q hq }

/-- **The invariant is kept** by every event, those at a connection by `Goes.valid` and the calls
of the hub by what they write. -/
theorem Valid.step {event : PacketEvent} (h : s.Valid) (hstep : s.step b event = some s') :
    s'.Valid := by
  cases step_iff.mp hstep with
  | connects => exact h.connects _
  | goes hp hgoes => exact hgoes.valid h hp
  | enters hmain hfree horder hop =>
      apply h.begin hfree hop horder
      · intro hinside
        split at hinside
        case isTrue => cases hinside
        case isFalse hne => exact hne
      · intro next hnext
        split at hnext <;> cases hnext
      · exact .inr hmain
  | purges hfree horder hop =>
      apply h.begin hfree hop horder
      · exact fun hinside => absurd hfree (h.inside hinside)
      · exact fun next hnext => ⟨rfl, _, rfl⟩
      · exact .inl ⟨_, rfl, rfl⟩
  | writes hwriting hp hopen hroom => exact h.writes hwriting hp hopen
  | fails hwriting hp hclosed => exact h.written hwriting

/-- Every state of a run is valid. -/
theorem valid_of_exec {digest : List TopologyMessage} {events : List PacketEvent}
    (hs : exec (Backpressure.step b) (start digest) events = some s) : s.Valid :=
  exec_preserves (fun _ _ _ h hstep => h.step hstep) (valid_start digest) hs

end Invariant

end Backpressure

end IpcPubsub
