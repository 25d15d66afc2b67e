import IpcPubsub.Datagrams
import IpcPubsub.NodeAddress
import IpcPubsub.SettlingRuns

/-!
# Datagrams on their way

Any number of nodes, with the datagrams between them.  `Publish` holds the node's `mMtx` while
it calls `sendto` for one entry of the table after the other, and the sockets are blocking:
where the queue of the receiver is full, it waits.  The main thread of a node reads a
datagram, parses it, gets `mMtx` to look up the handlers, and calls the callback when it
has given `mMtx` back.  A callback returns, but it may call `Publish` before it does.

A datagram is queued at the socket that is bound to the address it is sent to, if any
is.  How many a socket queues is up to the kernel (`limit`), and a call of `sendto` can fail
for a reason of its own, as it does for a datagram that is too long.  `MainLoop` returns when
`poll` fails or reports an error; the node stays, and nobody reads its queue any more.

What protobuf does is the parameter `codec`.  Nothing is lost, doubled or overtaken between a
`sendto` that succeeds and the callback (`in_order`, `published_is_called_back`).
-/

namespace IpcPubsub

open FiniteMap GuardedRuns

/-- A datagram in a queue, with the node that has sent it. -/
structure Arrival where
  sender : Nat
  blob : List UInt8
  deriving DecidableEq

/-- Where the main thread of a node is. -/
inductive Reader (γ : Type)
  /-- In `poll`. -/
  | polling
  /-- In `OnData`, before the lock. -/
  | looking (packet : Arrival) (msg : MetadataMessage)
  /-- In the callback. -/
  | calling (packet : Arrival) (call : RawCall γ)
  /-- In a `Publish` that the callback has called, before the lock. -/
  | asking (packet : Arrival) (call : RawCall γ) (topic : String) (data : List UInt8)
  /-- In such a `Publish`, with the lock. -/
  | answering (packet : Arrival) (call : RawCall γ)
  /-- `MainLoop` has returned. -/
  | ended
  deriving DecidableEq

/-- The main thread has `mMtx` for a `Publish` of its own. -/
def Reader.isAnswering {γ : Type} : Reader γ → Bool
  | .answering _ _ => true
  | _ => false

structure DataNode (γ : Type) where
  node : IPCNode
  /-- What `mInputFd` is bound to. -/
  address : SockaddrUn
  mSubscriptions : UnorderedMap String (IPCHandlers γ) := ∅
  isOpen : Bool := true
  /-- What the `Publish` that holds `mMtx` has still to send. -/
  sending : List Datagram := []
  /-- What waits at `mInputFd`. -/
  queue : List Arrival := []
  reader : Reader γ := .polling
  /-- What all calls of `Publish` were to send. -/
  published : List Datagram := []
  /-- The calls of `sendto` that have returned, with the node whose queue took it. -/
  sent : List (Datagram × Option Nat) := []
  /-- The datagrams the main thread is done with, with the callback it has made. -/
  handled : List (Arrival × Option (RawCall γ)) := []

structure DataPlane (γ : Type) where
  nodes : List (DataNode γ) := []

inductive NodeEvent (γ : Type)
  /-- `Publish` gets the lock; `order` is the order in which the table is iterated. -/
  | publish (order : List UInt64) (topic : String) (data : List UInt8)
  | send
  /-- `sendto` fails although somebody has the address. -/
  | refuse
  | read
  | lookUp
  /-- The callback calls `Publish`. -/
  | ask (topic : String) (data : List UInt8)
  /-- That `Publish` gets the lock. -/
  | answer (order : List UInt64)
  /-- It returns to the callback. -/
  | resume
  /-- The callback returns. -/
  | finish
  /-- `MainLoop` returns on an error. -/
  | stop
  | subscribe (topic : String) (cb : γ)
  /-- The manager applies a message. -/
  | update (msg : TopologyMessage)
  /-- The process ends. -/
  | depart

inductive DataEvent (γ : Type)
  /-- `Create`; `random` is the number drawn, `name` the local variable as it is found. -/
  | create (nodeName : String) (nodeId random : UInt64) (name : SockaddrUn)
  | node (i : Nat) (event : NodeEvent γ)

/-- The handlers of a node that take its `mMtx`. -/
def Callback.TakesLock : Callback → Bool
  | .onAnnounce _ => false
  | .onRetract _ => false
  | _ => true

/-- What `OnData` finds for a message under the lock. -/
def consult {γ : Type} (subscriptions : UnorderedMap String (IPCHandlers γ))
    (msg : MetadataMessage) : Option (RawCall γ) :=
  match subscriptions.lookup msg.topic with
  | none => none
  | some handlers =>
      if msg.inlined ≠ [] then
        some { callback := handlers.rawCb, len := msg.inlined.length, data := msg.inlined }
      else none

/-- What is read of a datagram. -/
def Arrival.parsed (codec : MetadataCodec) (packet : Arrival) : Option MetadataMessage :=
  codec.parse (packet.blob.take uint16Max)

namespace DataNode

variable {γ : Type}

/-- Nobody has `mMtx`. -/
def Free (n : DataNode γ) : Prop := n.sending = [] ∧ n.reader.isAnswering = false

instance : DecidablePred (Free (γ := γ)) := fun _ => inferInstanceAs (Decidable (_ ∧ _))

/-- An order in which the table can be iterated. -/
def Lists (n : DataNode γ) (order : List UInt64) : Prop :=
  order.Nodup ∧ order.toFinset = n.node.mNodeById.keys

instance (n : DataNode γ) : DecidablePred n.Lists := fun _ => inferInstanceAs (Decidable (_ ∧ _))

/-- `Publish` gets the lock. -/
def publish (n : DataNode γ) (datagrams : List Datagram) : DataNode γ :=
  { n with sending := datagrams, published := n.published ++ datagrams }

/-- A call of `sendto` has returned. -/
def tried (n : DataNode γ) (datagram : Datagram) (rest : List Datagram) (found : Option Nat) :
    DataNode γ :=
  { n with sending := rest, sent := n.sent ++ [(datagram, found)] }

def enqueue (n : DataNode γ) (packet : Arrival) : DataNode γ :=
  { n with queue := n.queue ++ [packet] }

/-- The main thread is done with a datagram. -/
def done (n : DataNode γ) (packet : Arrival) (call : Option (RawCall γ)) : DataNode γ :=
  { n with reader := .polling, handled := n.handled ++ [(packet, call)] }

/-- A round of `MainLoop` up to the lock of `OnData`. -/
def take (codec : MetadataCodec) (n : DataNode γ) (packet : Arrival) : DataNode γ :=
  match packet.parsed codec with
  | none => n.done packet none
  | some msg => { n with reader := .looking packet msg }

/-- `OnData` with the lock. -/
def lookUp (n : DataNode γ) (packet : Arrival) (msg : MetadataMessage) : DataNode γ :=
  match consult n.mSubscriptions msg with
  | none => n.done packet none
  | some call => { n with reader := .calling packet call }

/-- What a node does without the others. -/
def act (codec : MetadataCodec) (n : DataNode γ) : NodeEvent γ → Option (DataNode γ)
  | .publish order topic data =>
      if n.isOpen ∧ n.Free ∧ n.Lists order then
        some (n.publish (n.node.publish codec.serialize order topic data))
      else none
  | .send => none
  | .refuse =>
      match n.sending with
      | [] => none
      | datagram :: rest => some (n.tried datagram rest none)
  | .read =>
      match n.reader, n.queue with
      | .polling, packet :: rest => some ({ n with queue := rest }.take codec packet)
      | _, _ => none
  | .lookUp =>
      match n.reader with
      | .looking packet msg => if n.Free then some (n.lookUp packet msg) else none
      | _ => none
  | .ask topic data =>
      match n.reader with
      | .calling packet call => some { n with reader := .asking packet call topic data }
      | _ => none
  | .answer order =>
      match n.reader with
      | .asking packet call topic data =>
          if n.Free ∧ n.Lists order then
            some { n.publish (n.node.publish codec.serialize order topic data) with
              reader := .answering packet call }
          else none
      | _ => none
  | .resume =>
      match n.reader with
      | .answering packet call =>
          if n.sending = [] then some { n with reader := .calling packet call } else none
      | _ => none
  | .finish =>
      match n.reader with
      | .calling packet call => some (n.done packet (some call))
      | _ => none
  | .stop =>
      match n.reader with
      | .polling => if n.isOpen then some { n with reader := .ended } else none
      | _ => none
  | .subscribe topic cb =>
      if n.isOpen ∧ n.Free then
        some { n with mSubscriptions := n.mSubscriptions.insert topic { rawCb := cb } }
      else none
  | .update msg =>
      if n.isOpen ∧ (n.Free ∨
          ∀ call ∈ (n.node.mTopologyManager.applyUpdate msg).2, call.TakesLock = false) then
        (n.node.applyUpdate msg).map fun node => { n with node := node }
      else none
  | .depart =>
      if n.isOpen then
        some { n with isOpen := false, sending := [], queue := [], reader := .polling }
      else none

end DataNode

namespace DataPlane

variable {γ : Type}

def put (s : DataPlane γ) (i : Nat) (n : DataNode γ) : DataPlane γ :=
  { s with nodes := s.nodes.set i n }

/-- The node whose socket is bound to an address. -/
def target (s : DataPlane γ) (address : SockaddrUn) : Option Nat :=
  s.nodes.findIdx? fun n => n.isOpen && n.address == address

/-- The next call of `sendto`; where nobody has the address, it fails. -/
def send (limit : Nat) (s : DataPlane γ) (i : Nat) (n : DataNode γ) : Option (DataPlane γ) :=
  match n.sending with
  | [] => none
  | datagram :: rest =>
      match s.target datagram.address with
      | none => some (s.put i (n.tried datagram rest none))
      | some j =>
          let s' := s.put i (n.tried datagram rest (some j))
          s'.nodes[j]?.bind fun receiver =>
            if limit ≤ receiver.queue.length then none
            else some (s'.put j (receiver.enqueue { sender := i, blob := datagram.blob }))

/-- `bind` fails where the address is taken. -/
def step (codec : MetadataCodec) (limit : Nat) (s : DataPlane γ) :
    DataEvent γ → Option (DataPlane γ)
  | .create nodeName nodeId random name =>
      (IPCNode.bindName name (dataPath random)).bind fun address =>
        if s.target address = none then
          let node := IPCNode.create nodeId nodeName (dataPath random)
          some { s with nodes := s.nodes ++ [{ node := node, address := address }] }
        else none
  | .node i event =>
      s.nodes[i]?.bind fun n =>
        match event with
        | .send => s.send limit i n
        | _ => (n.act codec event).map (s.put i)

end DataPlane

/-- `OnData` in one piece is what the main thread does in two. -/
theorem Receiver.onData_eq_consult {γ : Type} (parse : List UInt8 → Option MetadataMessage)
    (r : Receiver γ) (data : List UInt8) :
    r.onData parse data = ((parse data).bind (consult r.mSubscriptions)).toList := by
  rw [Receiver.onData]
  cases parse data with
  | none => rfl
  | some msg =>
      cases hlookup : r.mSubscriptions.lookup msg.topic with
      | none => simp [consult, hlookup]
      | some handlers => by_cases hinlined : msg.inlined = [] <;> simp [consult, hlookup, hinlined]

/-! ## What an event does -/

section Happens

variable {γ : Type}

inductive DataNode.Goes (codec : MetadataCodec) (n : DataNode γ) : NodeEvent γ → DataNode γ → Prop
  | publishes {order : List UInt64} {topic : String} {data : List UInt8} (hopen : n.isOpen = true)
      (hfree : n.Free) (horder : n.Lists order) :
      Goes codec n (.publish order topic data)
        (n.publish (n.node.publish codec.serialize order topic data))
  | refuses {datagram : Datagram} {rest : List Datagram} (hsending : n.sending = datagram :: rest) :
      Goes codec n .refuse (n.tried datagram rest none)
  | reads {packet : Arrival} {rest : List Arrival} (hreader : n.reader = .polling)
      (hqueue : n.queue = packet :: rest) :
      Goes codec n .read ({ n with queue := rest }.take codec packet)
  | looksUp {packet : Arrival} {msg : MetadataMessage} (hreader : n.reader = .looking packet msg)
      (hfree : n.Free) : Goes codec n .lookUp (n.lookUp packet msg)
  | asks {packet : Arrival} {call : RawCall γ} {topic : String} {data : List UInt8}
      (hreader : n.reader = .calling packet call) :
      Goes codec n (.ask topic data) { n with reader := .asking packet call topic data }
  | answers {packet : Arrival} {call : RawCall γ} {order : List UInt64} {topic : String}
      {data : List UInt8} (hreader : n.reader = .asking packet call topic data) (hfree : n.Free)
      (horder : n.Lists order) :
      Goes codec n (.answer order)
        { n.publish (n.node.publish codec.serialize order topic data) with
          reader := .answering packet call }
  | resumes {packet : Arrival} {call : RawCall γ} (hreader : n.reader = .answering packet call)
      (hsent : n.sending = []) : Goes codec n .resume { n with reader := .calling packet call }
  | finishes {packet : Arrival} {call : RawCall γ} (hreader : n.reader = .calling packet call) :
      Goes codec n .finish (n.done packet (some call))
  | stops (hreader : n.reader = .polling) (hopen : n.isOpen = true) :
      Goes codec n .stop { n with reader := .ended }
  | subscribes {topic : String} {cb : γ} (hopen : n.isOpen = true) (hfree : n.Free) :
      Goes codec n (.subscribe topic cb)
        { n with mSubscriptions := n.mSubscriptions.insert topic { rawCb := cb } }
  | updates {msg : TopologyMessage} {node : IPCNode} (hopen : n.isOpen = true)
      (hlock : n.Free ∨
        ∀ call ∈ (n.node.mTopologyManager.applyUpdate msg).2, call.TakesLock = false)
      (hnode : n.node.applyUpdate msg = some node) :
      Goes codec n (.update msg) { n with node := node }
  | departs (hopen : n.isOpen = true) :
      Goes codec n .depart
        { n with isOpen := false, sending := [], queue := [], reader := .polling }

/-- An event that a node can take on its own is one of these. -/
theorem DataNode.goes_of_act {codec : MetadataCodec} {n n' : DataNode γ} {event : NodeEvent γ}
    (h : n.act codec event = some n') : n.Goes codec event n' := by
  cases event with
  | publish order topic data =>
      simp only [act, Option.ite_none_right_eq_some, Option.some.injEq] at h
      obtain ⟨⟨hopen, hfree, horder⟩, rfl⟩ := h
      exact .publishes hopen hfree horder
  | send => cases h
  | refuse =>
      simp only [act] at h
      split at h
      case h_1 => cases h
      case h_2 datagram rest hsending =>
        obtain rfl := Option.some.inj h
        exact .refuses hsending
  | read =>
      simp only [act] at h
      split at h
      case h_1 packet rest hreader hqueue =>
        obtain rfl := Option.some.inj h
        exact .reads hreader hqueue
      case h_2 => cases h
  | lookUp =>
      simp only [act] at h
      split at h
      case h_1 packet msg hreader =>
        simp only [Option.ite_none_right_eq_some, Option.some.injEq] at h
        obtain ⟨hfree, rfl⟩ := h
        exact .looksUp hreader hfree
      case h_2 => cases h
  | ask topic data =>
      simp only [act] at h
      split at h
      case h_1 packet call hreader =>
        obtain rfl := Option.some.inj h
        exact .asks hreader
      case h_2 => cases h
  | answer order =>
      simp only [act] at h
      split at h
      case h_1 packet call topic data hreader =>
        simp only [Option.ite_none_right_eq_some, Option.some.injEq] at h
        obtain ⟨⟨hfree, horder⟩, rfl⟩ := h
        exact .answers hreader hfree horder
      case h_2 => cases h
  | resume =>
      simp only [act] at h
      split at h
      case h_1 packet call hreader =>
        simp only [Option.ite_none_right_eq_some, Option.some.injEq] at h
        obtain ⟨hsent, rfl⟩ := h
        exact .resumes hreader hsent
      case h_2 => cases h
  | finish =>
      simp only [act] at h
      split at h
      case h_1 packet call hreader =>
        obtain rfl := Option.some.inj h
        exact .finishes hreader
      case h_2 => cases h
  | stop =>
      simp only [act] at h
      split at h
      case h_1 hreader =>
        simp only [Option.ite_none_right_eq_some, Option.some.injEq] at h
        obtain ⟨hopen, rfl⟩ := h
        exact .stops hreader hopen
      case h_2 => cases h
  | subscribe topic cb =>
      simp only [act, Option.ite_none_right_eq_some, Option.some.injEq] at h
      obtain ⟨⟨hopen, hfree⟩, rfl⟩ := h
      exact .subscribes hopen hfree
  | update msg =>
      simp only [act, Option.ite_none_right_eq_some] at h
      obtain ⟨⟨hopen, hlock⟩, h⟩ := h
      obtain ⟨node, hnode, rfl⟩ := Option.map_eq_some_iff.mp h
      exact .updates hopen hlock hnode
  | depart =>
      simp only [act, Option.ite_none_right_eq_some, Option.some.injEq] at h
      obtain ⟨hopen, rfl⟩ := h
      exact .departs hopen

namespace DataPlane

variable (codec : MetadataCodec) (limit : Nat) (s : DataPlane γ)

inductive Happens : DataEvent γ → DataPlane γ → Prop
  | creates {nodeName : String} {nodeId random : UInt64} {name address : SockaddrUn}
      (hbound : IPCNode.bindName name (dataPath random) = some address)
      (hfree : s.target address = none) :
      Happens (.create nodeName nodeId random name)
        { s with
          nodes := s.nodes ++
            [{ node := IPCNode.create nodeId nodeName (dataPath random), address := address }] }
  | goes {i : Nat} {n n' : DataNode γ} {event : NodeEvent γ} (hn : s.nodes[i]? = some n)
      (hgoes : n.Goes codec event n') :
      Happens (.node i event) (s.put i n')
  | fails {i : Nat} {n : DataNode γ} {datagram : Datagram} {rest : List Datagram}
      (hn : s.nodes[i]? = some n) (hsending : n.sending = datagram :: rest)
      (hnobody : s.target datagram.address = none) :
      Happens (.node i .send) (s.put i (n.tried datagram rest none))
  | sends {i j : Nat} {n receiver : DataNode γ} {datagram : Datagram} {rest : List Datagram}
      (hn : s.nodes[i]? = some n) (hsending : n.sending = datagram :: rest)
      (hfound : s.target datagram.address = some j)
      (hreceiver : (s.put i (n.tried datagram rest (some j))).nodes[j]? = some receiver)
      (hroom : receiver.queue.length < limit) :
      Happens (.node i .send)
        ((s.put i (n.tried datagram rest (some j))).put j
          (receiver.enqueue { sender := i, blob := datagram.blob }))

variable {codec limit s} {s' : DataPlane γ}

/-- A step of the system is one of these: a new node, what a node does on its own, or a call of
`sendto` that fails or finds a queue with room. -/
theorem happens_of_step {event : DataEvent γ} (h : s.step codec limit event = some s') :
    Happens codec limit s event s' := by
  cases event with
  | create nodeName nodeId random name =>
      obtain ⟨address, hbound, h⟩ := Option.bind_eq_some_iff.mp h
      simp only [Option.ite_none_right_eq_some, Option.some.injEq] at h
      obtain ⟨hfree, rfl⟩ := h
      exact .creates hbound hfree
  | node i event =>
      obtain ⟨n, hn, h⟩ := Option.bind_eq_some_iff.mp h
      by_cases hsend : event = .send
      · subst hsend
        simp only [send] at h
        split at h
        case h_1 => cases h
        case h_2 datagram rest hsending =>
          split at h
          case h_1 hnobody =>
            obtain rfl := Option.some.inj h
            exact .fails hn hsending hnobody
          case h_2 j hfound =>
            obtain ⟨receiver, hreceiver, h⟩ := Option.bind_eq_some_iff.mp h
            simp only [Option.ite_none_left_eq_some, Option.some.injEq, not_le] at h
            obtain ⟨hroom, rfl⟩ := h
            exact .sends hn hsending hfound hreceiver hroom
      · have hact : (n.act codec event).map (s.put i) = some s' := by
          cases event with
          | send => exact absurd rfl hsend
          | _ => exact h
        obtain ⟨n', hn', rfl⟩ := Option.map_eq_some_iff.mp hact
        exact .goes hn (DataNode.goes_of_act hn')

/-- The nodes when one of them changes. -/
theorem nodes_put {i : Nat} {n : DataNode γ} (hn : s.nodes[i]? = some n) (n' : DataNode γ)
    (j : Nat) : (s.put i n').nodes[j]? = if j = i then some n' else s.nodes[j]? :=
  getElem?_set_part hn n' j

/-- The node behind an address is there and is bound to it. -/
theorem target_eq_some {address : SockaddrUn} {j : Nat} (h : s.target address = some j) :
    ∃ n, s.nodes[j]? = some n ∧ n.isOpen = true ∧ n.address = address := by
  obtain ⟨hlt, hfound, _⟩ := List.findIdx?_eq_some_iff_getElem.mp h
  rw [Bool.and_eq_true, beq_iff_eq] at hfound
  exact ⟨_, List.getElem?_eq_getElem hlt, hfound⟩

/-- What a step makes of one node.  A property of a single node survives any step of the
system if it survives what the node does, a `sendto` of its own and a datagram that is
queued at it. -/
theorem node_step {P : DataNode γ → Prop}
    (hgoes : ∀ n n' event, P n → DataNode.Goes codec n event n' → P n')
    (htried : ∀ n datagram rest found, P n → n.sending = datagram :: rest →
      P (n.tried datagram rest found))
    (henqueue : ∀ n packet, P n → n.isOpen = true → P (n.enqueue packet)) {event : DataEvent γ}
    {k : Nat} {m : DataNode γ} (hm : s.nodes[k]? = some m) (h : P m)
    (hstep : s.step codec limit event = some s') : ∃ m', s'.nodes[k]? = some m' ∧ P m' := by
  have hput : ∀ {t : DataPlane γ} {i : Nat} {n n' m : DataNode γ}, t.nodes[i]? = some n →
      (P n → P n') → t.nodes[k]? = some m → P m →
        ∃ m', (t.put i n').nodes[k]? = some m' ∧ P m' := by
    intro t i n n' m hn hn' hm h
    rw [nodes_put hn]
    split
    case isTrue heq =>
      obtain rfl := Option.some.inj (hn.symm.trans (heq ▸ hm))
      exact ⟨n', rfl, hn' h⟩
    case isFalse => exact ⟨m, hm, h⟩
  cases happens_of_step hstep with
  | creates _ _ =>
      have hlt := (List.getElem?_eq_some_iff.mp hm).1
      exact ⟨m, (List.getElem?_append_left hlt).trans hm, h⟩
  | goes hn hact => exact hput hn (fun h => hgoes _ _ _ h hact) hm h
  | fails hn hsending _ => exact hput hn (fun h => htried _ _ _ _ h hsending) hm h
  | @sends i j n receiver datagram rest hn hsending hfound hreceiver hroom =>
      have hsent : ∃ m₁, (s.put i (n.tried datagram rest (some j))).nodes[k]? = some m₁ ∧ P m₁ :=
        hput hn (fun h => htried _ _ _ _ h hsending) hm h
      obtain ⟨m₁, hm₁, h₁⟩ := hsent
      refine hput hreceiver (fun h => henqueue _ _ h ?_) hm₁ h₁
      obtain ⟨before, hbefore, hopen, _⟩ := target_eq_some hfound
      rw [nodes_put hn] at hreceiver
      split at hreceiver
      case isTrue heq =>
        obtain rfl := Option.some.inj hreceiver
        obtain rfl := Option.some.inj (hn.symm.trans (heq ▸ hbefore))
        exact hopen
      case isFalse =>
        obtain rfl := Option.some.inj (hreceiver.symm.trans hbefore)
        exact hopen

/-- The same of a whole run. -/
theorem node_exec {P : DataNode γ → Prop}
    (hgoes : ∀ n n' event, P n → DataNode.Goes codec n event n' → P n')
    (htried : ∀ n datagram rest found, P n → n.sending = datagram :: rest →
      P (n.tried datagram rest found))
    (henqueue : ∀ n packet, P n → n.isOpen = true → P (n.enqueue packet))
    {events : List (DataEvent γ)} {k : Nat} {m : DataNode γ} (hm : s.nodes[k]? = some m) (h : P m)
    (hrun : exec (step codec limit) s events = some s') : ∃ m', s'.nodes[k]? = some m' ∧ P m' :=
  exec_preserves (I := fun s => ∃ m, s.nodes[k]? = some m ∧ P m)
    (fun _ _ _ ⟨_, hm, h⟩ hstep => node_step hgoes htried henqueue hm h hstep) ⟨m, hm, h⟩ hrun

/-- What is true of every node on its own: it holds of a new one, and the node keeps it
whatever happens to it. -/
theorem forall_nodes_exec {P : DataNode γ → Prop}
    (hnew : ∀ node address, P { node := node, address := address })
    (hgoes : ∀ n n' event, P n → DataNode.Goes codec n event n' → P n')
    (htried : ∀ n datagram rest found, P n → n.sending = datagram :: rest →
      P (n.tried datagram rest found))
    (henqueue : ∀ n packet, P n → n.isOpen = true → P (n.enqueue packet))
    {events : List (DataEvent γ)} (h : ∀ n ∈ s.nodes, P n)
    (hrun : exec (step codec limit) s events = some s') : ∀ n ∈ s'.nodes, P n := by
  refine exec_preserves (I := fun s => ∀ n ∈ s.nodes, P n)
    (fun s event s' h hstep n' hmem => ?_) h hrun
  obtain ⟨k, hk⟩ := List.getElem?_of_mem hmem
  cases hbefore : s.nodes[k]? with
  | some n =>
      obtain ⟨m, hm, hP⟩ := node_step hgoes htried henqueue hbefore
        (h n (List.mem_of_getElem? hbefore)) hstep
      exact Option.some.inj (hm.symm.trans hk) ▸ hP
  | none =>
      have hold : s.nodes.length ≤ k := List.getElem?_eq_none_iff.mp hbefore
      have hlt := (List.getElem?_eq_some_iff.mp hk).1
      cases happens_of_step hstep with
      | creates _ _ =>
          rcases List.mem_append.mp hmem with hmem | hlast
          · exact h n' hmem
          · exact List.mem_singleton.mp hlast ▸ hnew _ _
      | goes _ _ =>
          rw [DataPlane.put, List.length_set] at hlt
          omega
      | fails _ _ _ =>
          rw [DataPlane.put, List.length_set] at hlt
          omega
      | sends _ _ _ _ _ =>
          rw [DataPlane.put, DataPlane.put, List.length_set, List.length_set] at hlt
          omega

end DataPlane

end Happens

/-! ## In order -/

/-- The datagram the main thread has in hand. -/
def Reader.packets {γ : Type} : Reader γ → List Arrival
  | .polling => []
  | .looking packet _ => [packet]
  | .calling packet _ => [packet]
  | .asking packet _ _ _ => [packet]
  | .answering packet _ => [packet]
  | .ended => []

/-- What a node has sent, of a list of datagrams. -/
def blobsFrom (i : Nat) (packets : List Arrival) : List (List UInt8) :=
  (packets.filter fun packet => packet.sender = i).map Arrival.blob

/-- What was sent in two parts. -/
theorem blobsFrom_append (i : Nat) (packets more : List Arrival) :
    blobsFrom i (packets ++ more) = blobsFrom i packets ++ blobsFrom i more := by
  rw [blobsFrom, List.filter_append, List.map_append]
  rfl

namespace DataNode

variable {γ : Type} {codec : MetadataCodec} {n n' : DataNode γ} {event : NodeEvent γ}

/-- All that a queue has taken: what the main thread is done with, has in hand and has yet
to read. -/
def arrived (n : DataNode γ) : List Arrival :=
  n.handled.map Prod.fst ++ (n.reader.packets ++ n.queue)

/-- What a node has sent to another. -/
def sentTo (n : DataNode γ) (j : Nat) : List (List UInt8) :=
  (n.sent.filter fun call => call.2 = some j).map fun call => call.1.blob

@[simp] theorem take_sent (packet : Arrival) : (n.take codec packet).sent = n.sent := by
  unfold take
  split <;> rfl

@[simp] theorem take_isOpen (packet : Arrival) : (n.take codec packet).isOpen = n.isOpen := by
  unfold take
  split <;> rfl

@[simp] theorem lookUp_sent (packet : Arrival) (msg : MetadataMessage) :
    (n.lookUp packet msg).sent = n.sent := by
  unfold lookUp
  split <;> rfl

@[simp] theorem lookUp_isOpen (packet : Arrival) (msg : MetadataMessage) :
    (n.lookUp packet msg).isOpen = n.isOpen := by
  unfold lookUp
  split <;> rfl

/-- A datagram that was dealt with has still arrived. -/
theorem done_arrived {packet : Arrival} (h : n.reader.packets = [packet])
    (call : Option (RawCall γ)) : (n.done packet call).arrived = n.arrived := by
  rw [arrived, arrived, h]
  simp [done, Reader.packets]

/-- Reading moves the first datagram of the queue to the main thread. -/
theorem take_arrived {packet : Arrival} {rest : List Arrival} (hreader : n.reader = .polling)
    (hqueue : n.queue = packet :: rest) :
    ({ n with queue := rest }.take codec packet).arrived = n.arrived := by
  unfold take
  split <;> simp [done, arrived, hreader, hqueue, Reader.packets]

/-- Looking the handlers up leaves the datagram in hand, or done with. -/
theorem lookUp_arrived {packet : Arrival} {msg : MetadataMessage}
    (hreader : n.reader = .looking packet msg) : (n.lookUp packet msg).arrived = n.arrived := by
  unfold lookUp
  split
  · exact done_arrived (by rw [hreader, Reader.packets]) none
  · simp [arrived, hreader, Reader.packets]

/-- What is queued has arrived last. -/
theorem enqueue_arrived (packet : Arrival) :
    (n.enqueue packet).arrived = n.arrived ++ [packet] := by
  simp [enqueue, arrived]

/-- Nothing is sent on the side; a `sendto` that fails is noted as one that nobody took. -/
theorem Goes.sent (h : n.Goes codec event n') :
    n'.sent = n.sent ∨ ∃ datagram, n'.sent = n.sent ++ [(datagram, none)] := by
  cases h with
  | @refuses datagram _ _ => exact .inr ⟨datagram, rfl⟩
  | reads => exact .inl (take_sent _)
  | looksUp => exact .inl (lookUp_sent _ _)
  | _ => exact .inl rfl

/-- Nothing comes, goes or changes place before the main thread is done with it. -/
theorem Goes.arrived (h : n.Goes codec event n') :
    (n'.isOpen = n.isOpen ∧ n'.arrived = n.arrived) ∨
      n'.isOpen = false ∧ n'.arrived ⊆ n.arrived := by
  cases h with
  | reads hreader hqueue => exact .inl ⟨by simp, take_arrived hreader hqueue⟩
  | looksUp hreader _ => exact .inl ⟨by simp, lookUp_arrived hreader⟩
  | asks hreader => exact .inl ⟨rfl, by simp [DataNode.arrived, hreader, Reader.packets]⟩
  | answers hreader _ _ =>
      exact .inl ⟨rfl, by simp [DataNode.arrived, DataNode.publish, hreader, Reader.packets]⟩
  | resumes hreader _ => exact .inl ⟨rfl, by simp [DataNode.arrived, hreader, Reader.packets]⟩
  | finishes hreader => exact .inl ⟨rfl, done_arrived (by rw [hreader, Reader.packets]) _⟩
  | stops hreader _ => exact .inl ⟨rfl, by simp [DataNode.arrived, hreader, Reader.packets]⟩
  | departs _ =>
      refine .inr ⟨rfl, fun packet hmem => List.mem_append_left _ ?_⟩
      simpa [DataNode.arrived, Reader.packets] using hmem
  | _ => exact .inl ⟨rfl, rfl⟩

end DataNode

namespace DataPlane

variable {γ : Type} {codec : MetadataCodec} {limit : Nat} {s s' : DataPlane γ}

/-- What the queue of an open node has taken from another is what that has sent to it. -/
structure Ordered (s : DataPlane γ) : Prop where
  known : ∀ n ∈ s.nodes, ∀ call ∈ n.sent, ∀ j, call.2 = some j → j < s.nodes.length
  senders : ∀ n ∈ s.nodes, ∀ packet ∈ n.arrived, packet.sender < s.nodes.length
  inOrder : ∀ i j n receiver, s.nodes[i]? = some n → s.nodes[j]? = some receiver →
    receiver.isOpen = true → blobsFrom i receiver.arrived = n.sentTo j

/-- Nobody has sent anything to a new node, nor it to anybody. -/
theorem Ordered.creates (h : s.Ordered) (node : IPCNode) (address : SockaddrUn) :
    Ordered { s with
      nodes := s.nodes ++ [({ node := node, address := address } : DataNode γ)] } := by
  have hlookup : ∀ j, (s.nodes ++ [({ node := node, address := address } : DataNode γ)])[j]? =
      if j = s.nodes.length then some { node := node, address := address } else s.nodes[j]? := by
    intro j
    grind
  have hall : ∀ n ∈ s.nodes ++ [({ node := node, address := address } : DataNode γ)],
      n ∈ s.nodes ∨ n = { node := node, address := address } := by
    intro n hmem
    exact (List.mem_append.mp hmem).imp id List.mem_singleton.mp
  constructor
  case known =>
    intro n hmem call hcall j hj
    rw [List.length_append]
    rcases hall n hmem with hold | rfl
    · exact Nat.lt_add_right _ (h.known n hold call hcall j hj)
    · cases hcall
  case senders =>
    intro n hmem packet hpacket
    rw [List.length_append]
    rcases hall n hmem with hold | rfl
    · exact Nat.lt_add_right _ (h.senders n hold packet hpacket)
    · simp [DataNode.arrived, Reader.packets] at hpacket
  case inOrder =>
    intro i j n receiver hn hreceiver hopen
    rw [hlookup] at hn hreceiver
    split at hreceiver
    case isTrue hlast =>
      obtain rfl := Option.some.inj hreceiver
      -- nobody has sent to a node that was not there
      have hnone : n.sentTo j = [] := by
        rw [DataNode.sentTo, List.map_eq_nil_iff, List.filter_eq_nil_iff]
        intro call hcall
        split at hn
        · obtain rfl := Option.some.inj hn
          cases hcall
        · rw [decide_eq_true_eq]
          intro hto
          have hlt := h.known n (List.mem_of_getElem? hn) call hcall j hto
          omega
      rw [hnone]
      rfl
    case isFalse =>
      split at hn
      case isTrue hlast =>
        obtain rfl := Option.some.inj hn
        have hnone : blobsFrom i receiver.arrived = [] := by
          rw [blobsFrom, List.map_eq_nil_iff, List.filter_eq_nil_iff]
          intro packet hpacket
          have hlt := h.senders receiver (List.mem_of_getElem? hreceiver) packet hpacket
          rw [decide_eq_true_eq]
          omega
        rw [hnone]
        rfl
      case isFalse => exact h.inOrder i j n receiver hn hreceiver hopen

/-- A node changes without a call of `sendto` that somebody takes.  What it has sent and what has
arrived at it stay, unless it goes. -/
theorem Ordered.put (h : s.Ordered) {i : Nat} {n n' : DataNode γ} (hn : s.nodes[i]? = some n)
    (hsent : ∀ j, n'.sentTo j = n.sentTo j)
    (hknown : ∀ call ∈ n'.sent, call ∈ n.sent ∨ call.2 = none)
    (harrived : (n'.isOpen = n.isOpen ∧ n'.arrived = n.arrived) ∨
      n'.isOpen = false ∧ n'.arrived ⊆ n.arrived) : (s.put i n').Ordered := by
  have hmem : n ∈ s.nodes := List.mem_of_getElem? hn
  have hlength : (s.put i n').nodes.length = s.nodes.length := List.length_set
  have hall : ∀ m ∈ (s.put i n').nodes, m ∈ s.nodes ∨ m = n' :=
    fun m hm => List.mem_or_eq_of_mem_set hm
  constructor
  case known =>
    intro m hm call hcall j hj
    rw [hlength]
    rcases hall m hm with hold | rfl
    · exact h.known m hold call hcall j hj
    · rcases hknown call hcall with hbefore | hnone
      · exact h.known n hmem call hbefore j hj
      · rw [hnone] at hj
        cases hj
  case senders =>
    intro m hm packet hpacket
    rw [hlength]
    rcases hall m hm with hold | rfl
    · exact h.senders m hold packet hpacket
    · rcases harrived with ⟨_, hsame⟩ | ⟨_, hsubset⟩
      · exact h.senders n hmem packet (hsame ▸ hpacket)
      · exact h.senders n hmem packet (hsubset hpacket)
  case inOrder =>
    intro k j sender receiver hsender hreceiver hopen
    rw [nodes_put hn] at hsender hreceiver
    have hfrom : ∃ before, s.nodes[k]? = some before ∧ sender.sentTo j = before.sentTo j := by
      split at hsender
      case isTrue heq =>
        obtain rfl := Option.some.inj hsender
        exact ⟨n, heq ▸ hn, hsent j⟩
      case isFalse => exact ⟨sender, hsender, rfl⟩
    obtain ⟨before, hbefore, hsame⟩ := hfrom
    rw [hsame]
    split at hreceiver
    case isTrue heq =>
      obtain rfl := Option.some.inj hreceiver
      rcases harrived with ⟨hopen', hkept⟩ | ⟨hclosed, _⟩
      · rw [hkept]
        exact h.inOrder k j before n hbefore (heq ▸ hn) (hopen' ▸ hopen)
      · rw [hclosed] at hopen
        cases hopen
    case isFalse => exact h.inOrder k j before receiver hbefore hreceiver hopen

/-- What a call of `sendto` makes of the nodes: the one that sends has one more call behind
it, and the one that is sent to, which may be the same, one more datagram. -/
theorem lookup_sends {i j k : Nat} {n receiver m : DataNode γ} {datagram : Datagram}
    {rest : List Datagram} {packet : Arrival} (hn : s.nodes[i]? = some n)
    (hreceiver : (s.put i (n.tried datagram rest (some j))).nodes[j]? = some receiver)
    (hm : ((s.put i (n.tried datagram rest (some j))).put j (receiver.enqueue packet)).nodes[k]? =
      some m) :
    ∃ before, s.nodes[k]? = some before ∧ m.isOpen = before.isOpen ∧
      m.sent = before.sent ++ (if k = i then [(datagram, some j)] else []) ∧
      m.arrived = before.arrived ++ if k = j then [packet] else [] := by
  -- the same for the node that sends and the node that receives, which may be one
  have hafter : ∀ {k : Nat} {m : DataNode γ},
      (s.put i (n.tried datagram rest (some j))).nodes[k]? = some m →
      ∃ before, s.nodes[k]? = some before ∧ m.isOpen = before.isOpen ∧
        m.sent = before.sent ++ (if k = i then [(datagram, some j)] else []) ∧
        m.arrived = before.arrived := by
    intro k m hm
    rw [nodes_put hn] at hm
    split at hm
    case isTrue heq =>
      obtain rfl := Option.some.inj hm
      exact ⟨n, heq ▸ hn, rfl, by rw [if_pos heq]; rfl, rfl⟩
    case isFalse hne => exact ⟨m, hm, rfl, by rw [if_neg hne, List.append_nil], rfl⟩
  rw [nodes_put hreceiver] at hm
  split at hm
  case isTrue heq =>
    obtain rfl := Option.some.inj hm
    obtain ⟨before, hbefore, hopen, hsent, harrived⟩ := hafter hreceiver
    refine ⟨before, heq ▸ hbefore, hopen, ?_, ?_⟩
    · rw [heq]
      exact hsent
    · rw [if_pos heq, DataNode.enqueue_arrived, harrived]
  case isFalse hne =>
    obtain ⟨before, hbefore, hopen, hsent, harrived⟩ := hafter hm
    exact ⟨before, hbefore, hopen, hsent, by rw [if_neg hne, List.append_nil, harrived]⟩

/-- The datagram comes last on both sides: in what the sender has sent to this node, and in the
queue of that node. -/
theorem Ordered.sends (h : s.Ordered) {i j : Nat} {n receiver : DataNode γ} {datagram : Datagram}
    {rest : List Datagram} (hn : s.nodes[i]? = some n)
    (hreceiver : (s.put i (n.tried datagram rest (some j))).nodes[j]? = some receiver) :
    ((s.put i (n.tried datagram rest (some j))).put j
      (receiver.enqueue { sender := i, blob := datagram.blob })).Ordered := by
  generalize hs' : (s.put i (n.tried datagram rest (some j))).put j
    (receiver.enqueue { sender := i, blob := datagram.blob }) = s'
  have hlength : s'.nodes.length = s.nodes.length := by
    rw [← hs', DataPlane.put, DataPlane.put, List.length_set, List.length_set]
  have hlookup : ∀ {k : Nat} {m : DataNode γ}, s'.nodes[k]? = some m →
      ∃ before, s.nodes[k]? = some before ∧ m.isOpen = before.isOpen ∧
        m.sent = before.sent ++ (if k = i then [(datagram, some j)] else []) ∧
        m.arrived = before.arrived ++
          if k = j then [({ sender := i, blob := datagram.blob } : Arrival)] else [] := by
    intro k m hm
    rw [← hs'] at hm
    exact lookup_sends hn hreceiver hm
  have hi : i < s.nodes.length := (List.getElem?_eq_some_iff.mp hn).1
  have hj : j < s.nodes.length := by
    have hlt := (List.getElem?_eq_some_iff.mp hreceiver).1
    rwa [DataPlane.put, List.length_set] at hlt
  constructor
  case known =>
    intro m hm call hcall l hl
    obtain ⟨k, hk⟩ := List.getElem?_of_mem hm
    obtain ⟨before, hbefore, _, hsent, _⟩ := hlookup hk
    rw [hlength]
    rw [hsent] at hcall
    rcases List.mem_append.mp hcall with hold | hnew
    · exact h.known before (List.mem_of_getElem? hbefore) call hold l hl
    · split at hnew
      · obtain rfl := List.mem_singleton.mp hnew
        exact Option.some.inj hl ▸ hj
      · cases hnew
  case senders =>
    intro m hm packet hpacket
    obtain ⟨k, hk⟩ := List.getElem?_of_mem hm
    obtain ⟨before, hbefore, _, _, harrived⟩ := hlookup hk
    rw [hlength]
    rw [harrived] at hpacket
    rcases List.mem_append.mp hpacket with hold | hnew
    · exact h.senders before (List.mem_of_getElem? hbefore) packet hold
    · split at hnew
      · obtain rfl := List.mem_singleton.mp hnew
        exact hi
      · cases hnew
  case inOrder =>
    intro k l sender receiver' hsender hreceiver' hopen
    obtain ⟨before, hbefore, _, hsent, _⟩ := hlookup hsender
    obtain ⟨before', hbefore', hopen', _, harrived⟩ := hlookup hreceiver'
    have hold := h.inOrder k l before before' hbefore hbefore' (hopen' ▸ hopen)
    rw [harrived, blobsFrom_append, hold, DataNode.sentTo, DataNode.sentTo, hsent,
      List.filter_append, List.map_append, blobsFrom]
    congr 1
    by_cases hk : k = i
    · by_cases hl : l = j
      · simp [hk, hl]
      · simp [hk, hl, Ne.symm hl]
    · by_cases hl : l = j
      · simp [hk, hl, Ne.symm hk]
      · simp [hk, hl]

/-- The order is kept by every step; only a `sendto` that somebody takes concerns two nodes at
once. -/
theorem Ordered.step (h : s.Ordered) {event : DataEvent γ}
    (hstep : s.step codec limit event = some s') :
    s'.Ordered := by
  cases happens_of_step hstep with
  | creates _ _ => exact h.creates _ _
  | goes hn hgoes =>
      refine h.put hn (fun j => ?_) (fun call hcall => ?_) hgoes.arrived
      · rcases hgoes.sent with hsent | ⟨datagram, hsent⟩ <;> simp [DataNode.sentTo, hsent]
      · rcases hgoes.sent with hsent | ⟨datagram, hsent⟩
        · exact .inl (hsent ▸ hcall)
        · rw [hsent] at hcall
          exact (List.mem_append.mp hcall).imp id fun hnew => by rw [List.mem_singleton.mp hnew]
  | fails hn hsending hnobody =>
      refine h.put hn (fun j => ?_) (fun call hcall => ?_) (.inl ⟨rfl, rfl⟩)
      · simp [DataNode.sentTo, DataNode.tried]
      · exact (List.mem_append.mp hcall).imp id fun hnew => by rw [List.mem_singleton.mp hnew]
  | sends hn hsending hfound hreceiver hroom => exact h.sends hn hreceiver

/-- Every state of a run has the order. -/
theorem ordered_of_exec {events : List (DataEvent γ)}
    (hrun : exec (step codec limit) {} events = some s) : s.Ordered := by
  have hstart : ({} : DataPlane γ).Ordered :=
    { known := fun n hmem => by cases hmem
      senders := fun n hmem => by cases hmem
      inOrder := fun i j n receiver hn => by simp at hn }
  exact exec_preserves (fun _ _ _ h hstep => h.step hstep) hstart hrun

/-- Every datagram of a `Publish` has been sent or is still to be sent. -/
theorem published_of_exec {events : List (DataEvent γ)}
    (hrun : exec (step codec limit) {} events = some s) :
    ∀ n ∈ s.nodes, n.isOpen = true → n.published = n.sent.map Prod.fst ++ n.sending := by
  refine forall_nodes_exec ?_ ?_ ?_ ?_ (fun n hmem => by cases hmem) hrun
  · exact fun _ _ _ => rfl
  · intro n n' event h hgoes hopen
    cases hgoes with
    | publishes _ hfree _ =>
        have hbefore := h hopen
        rw [hfree.1, List.append_nil] at hbefore
        simp only [DataNode.publish, hbefore]
    | answers _ hfree _ =>
        have hbefore := h hopen
        rw [hfree.1, List.append_nil] at hbefore
        simp only [DataNode.publish, hbefore]
    | refuses hsending =>
        have hbefore := h hopen
        simp only [DataNode.tried, hbefore, hsending, List.map_append, List.map_singleton,
          List.append_assoc, List.singleton_append]
    | reads _ _ =>
        rw [DataNode.take_isOpen] at hopen
        unfold DataNode.take
        split <;> exact h hopen
    | looksUp _ _ =>
        rw [DataNode.lookUp_isOpen] at hopen
        unfold DataNode.lookUp
        split <;> exact h hopen
    | departs _ => cases hopen
    | _ => exact h hopen
  · intro n datagram rest found h hsending hopen
    have hbefore := h hopen
    simp only [DataNode.tried, hbefore, hsending, List.map_append, List.map_singleton,
      List.append_assoc, List.singleton_append]
  · exact fun n _ h _ hopen => h hopen

/-- **Exactly once and in order.**  In every state that any number of nodes reach, whatever
they publish, whichever calls of `sendto` fail and whoever comes and goes: of a node that is
still there, what its calls of `Publish` were to send is what it has tried to send and what
it has still to send, and what the queue of another that is still there has taken of it is,
datagram for datagram and in the same order, what the other is done with, has in hand or has
yet to read. -/
theorem in_order {events : List (DataEvent γ)} (hrun : exec (step codec limit) {} events = some s)
    {i j : Nat} {n receiver : DataNode γ} (hn : s.nodes[i]? = some n)
    (hreceiver : s.nodes[j]? = some receiver) (hopen : receiver.isOpen = true) :
    (n.isOpen = true → n.published = n.sent.map Prod.fst ++ n.sending) ∧
      n.sentTo j = blobsFrom i (receiver.handled.map Prod.fst) ++
        blobsFrom i (receiver.reader.packets ++ receiver.queue) := by
  refine ⟨published_of_exec hrun n (List.mem_of_getElem? hn), ?_⟩
  rw [← (ordered_of_exec hrun).inOrder i j n receiver hn hreceiver hopen]
  exact blobsFrom_append ..

/-- Two nodes, of which the first knows that the second is subscribed to a topic. -/
def acquainted : List (DataEvent Nat) :=
  [.create "a" 1 7 zeroStack, .create "b" 2 8 zeroStack,
    .node 0 (.update
      { seq := 1, op := .nodeChange { id := 2, op := .join, address := dataPath 8 } }),
    .node 0 (.update
      { seq := 2, op := .topicChange { nodeId := 2, op := .subscribe, name := "t" } }),
    .node 1 (.subscribe "t" 5)]

/-- It publishes twice; the second has the first datagram in hand. -/
def publishesTwice : List (DataEvent Nat) :=
  [.node 0 (.publish [2] "t" [9]), .node 0 .send, .node 0 (.publish [2] "t" [10]),
    .node 1 .read, .node 1 .lookUp, .node 0 .send]

/-- What is to be seen of that run. -/
theorem exec_publishesTwice :
    ∃ s n receiver, exec (step wireMetadata 1) {} (acquainted ++ publishesTwice) = some s ∧
      s.nodes[0]? = some n ∧ s.nodes[1]? = some receiver ∧ receiver.isOpen = true := by
  have hends : ((exec (step wireMetadata 1) {} (acquainted ++ publishesTwice)).bind fun s =>
      s.nodes[0]?.bind fun _ => s.nodes[1]?.map DataNode.isOpen) = some true := by
    decide +kernel
  obtain ⟨s, hrun, hends⟩ := Option.bind_eq_some_iff.mp hends
  obtain ⟨n, hn, hends⟩ := Option.bind_eq_some_iff.mp hends
  obtain ⟨receiver, hreceiver, hopen⟩ := Option.map_eq_some_iff.mp hends
  exact ⟨s, n, receiver, hrun, hn, hreceiver, hopen⟩

/-- The second node has taken the two datagrams that the first has sent, in this order. -/
theorem in_order_publishesTwice :
    ∃ s n receiver, exec (step wireMetadata 1) {} (acquainted ++ publishesTwice) = some s ∧
      s.nodes[0]? = some n ∧ s.nodes[1]? = some receiver ∧
      n.sentTo 1 = blobsFrom 0 (receiver.handled.map Prod.fst) ++
        blobsFrom 0 (receiver.reader.packets ++ receiver.queue) := by
  obtain ⟨s, n, receiver, hrun, hn, hreceiver, hopen⟩ := exec_publishesTwice
  exact ⟨s, n, receiver, hrun, hn, hreceiver, (in_order hrun hn hreceiver hopen).2⟩

/-! ## From `Publish` to the callback -/

/-- The payload that a datagram has under a topic, if it has one for its reader. -/
def payload (codec : MetadataCodec) (topic : String) (blob : List UInt8) : Option (List UInt8) :=
  match codec.parse (blob.take uint16Max) with
  | none => none
  | some msg => if msg.topic = topic ∧ msg.inlined ≠ [] then some msg.inlined else none

/-- What the callback of a topic was called with. -/
def calledWith (codec : MetadataCodec) (topic : String) (entry : Arrival × Option (RawCall γ)) :
    Option (List UInt8) :=
  match entry.1.parsed codec, entry.2 with
  | some msg, some call => if msg.topic = topic then some call.data else none
  | _, _ => none

/-- The payload of a datagram that has been parsed. -/
theorem payload_of_parsed {topic : String} {packet : Arrival} {msg : MetadataMessage}
    (h : packet.parsed codec = some msg) :
    payload codec topic packet.blob =
      if msg.topic = topic ∧ msg.inlined ≠ [] then some msg.inlined else none := by
  rw [Arrival.parsed] at h
  rw [payload, h]

end DataPlane

/-- A message of a topic with something in it that fits into the buffer of the reader. -/
def MetadataCodec.delivers (codec : MetadataCodec) (topic : String) (msg : MetadataMessage) :
    Bool :=
  msg.topic = topic ∧ msg.inlined ≠ [] ∧ (codec.serialize msg).length ≤ uint16Max

/-- A message has its payload for the reader exactly when it fits into the buffer: one that
was cut is read without, if it is read at all. -/
theorem DataPlane.payload_serialize {codec : MetadataCodec} (hcodec : codec.Lawful)
    (topic : String) (msg : MetadataMessage) :
    payload codec topic (codec.serialize msg) =
      if codec.delivers topic msg then some msg.inlined else none := by
  by_cases hfits : (codec.serialize msg).length ≤ uint16Max
  · rw [payload, List.take_of_length_le hfits, hcodec.parse_serialize]
    simp [MetadataCodec.delivers, hfits]
  · have hlost : payload codec topic (codec.serialize msg) = none := by
      unfold payload
      split
      case h_1 => rfl
      case h_2 msg' hparse =>
        have hshort :
            ((codec.serialize msg).take uint16Max).length < (codec.serialize msg).length := by
          rw [List.length_take]
          omega
        have hempty := hcodec.inlined_of_cut msg msg' _ (List.take_prefix ..) hshort hparse
        exact if_neg fun h => h.2 hempty
    rw [hlost, if_neg]
    simp [MetadataCodec.delivers, hfits]

/-- The same of a list of messages. -/
theorem DataPlane.filterMap_payload {codec : MetadataCodec} (hcodec : codec.Lawful)
    (topic : String) (messages : List MetadataMessage) :
    (messages.map codec.serialize).filterMap (payload codec topic) =
      (messages.filter (codec.delivers topic)).map MetadataMessage.inlined := by
  induction messages with
  | nil => rfl
  | cons msg messages ih =>
      rw [List.map_cons, List.filterMap_cons, payload_serialize hcodec, List.filter_cons]
      split <;> simp_all

namespace DataNode

open DataPlane

variable {γ : Type} {codec : MetadataCodec} {n n' : DataNode γ} {event : NodeEvent γ} {i : Nat}
  {topic : String} {before : List (Arrival × Option (RawCall γ))}

/-- What the callback of a topic was called with for the datagrams of a node. -/
def calledOn (codec : MetadataCodec) (n : DataNode γ) (i : Nat) (topic : String) :
    List (List UInt8) :=
  (n.handled.filter fun entry => entry.1.sender = i).filterMap (calledWith codec topic)

/-- What waits of a node under a topic. -/
def waiting (codec : MetadataCodec) (n : DataNode γ) (i : Nat) (topic : String) :
    List (List UInt8) :=
  (blobsFrom i (n.reader.packets ++ n.queue)).filterMap (payload codec topic)

/-- A call of a callback passes on what was read. -/
def Passes (codec : MetadataCodec) (packet : Arrival) (call : RawCall γ) : Prop :=
  ∃ msg, packet.parsed codec = some msg ∧ call.data = msg.inlined ∧ msg.inlined ≠ []

/-- What the main thread has in hand is what it has read. -/
def Consults (codec : MetadataCodec) (n : DataNode γ) : Prop :=
  match n.reader with
  | .polling => True
  | .looking packet msg => packet.parsed codec = some msg
  | .calling packet call => Passes codec packet call
  | .asking packet call _ _ => Passes codec packet call
  | .answering packet call => Passes codec packet call
  | .ended => True

/-- The topic is subscribed to, and since `before` each datagram has led to a call if it has
a payload under it. -/
structure Serves (codec : MetadataCodec) (n : DataNode γ) (topic : String)
    (before : List (Arrival × Option (RawCall γ))) : Prop where
  subscribed : topic ∈ n.mSubscriptions
  consults : n.Consults codec
  called : ∃ later, n.handled = before ++ later ∧
    ∀ entry ∈ later, calledWith codec topic entry = payload codec topic entry.1.blob

/-- Handlers are called with a payload. -/
theorem consult_data {subscriptions : UnorderedMap String (IPCHandlers γ)} {msg : MetadataMessage}
    {call : RawCall γ} (h : consult subscriptions msg = some call) :
    call.data = msg.inlined ∧ msg.inlined ≠ [] := by
  unfold consult at h
  split at h
  · cases h
  · simp only [Option.ite_none_right_eq_some, Option.some.injEq] at h
    obtain ⟨hinlined, rfl⟩ := h
    exact ⟨rfl, hinlined⟩

/-- The main thread goes on with what it has read: the call it has in hand is what `OnData` makes
of the packet. -/
theorem Goes.consults (h : n.Consults codec) (hgoes : n.Goes codec event n') :
    n'.Consults codec := by
  cases hgoes with
  | @reads packet _ _ _ =>
      unfold take
      split
      · exact trivial
      · rename_i msg hparsed
        exact hparsed
  | @looksUp packet msg hreader _ =>
      rw [Consults, hreader] at h
      unfold lookUp
      split
      · exact trivial
      · rename_i call hcall
        exact ⟨msg, h, consult_data hcall⟩
  | asks hreader =>
      rw [Consults, hreader] at h
      exact h
  | answers hreader _ _ =>
      rw [Consults, hreader] at h
      exact h
  | resumes hreader _ =>
      rw [Consults, hreader] at h
      exact h
  | finishes _ => exact trivial
  | stops _ _ => exact trivial
  | departs _ => exact trivial
  | _ => exact h

/-- The main thread is done with another datagram, and has called back exactly if it has a payload
for the topic. -/
theorem Serves.done (h : n.Serves codec topic before) {packet : Arrival}
    {call : Option (RawCall γ)}
    (hcall : calledWith codec topic (packet, call) = payload codec topic packet.blob) :
    (n.done packet call).Serves codec topic before where
  subscribed := h.subscribed
  consults := trivial
  called := by
    obtain ⟨later, hhandled, hlater⟩ := h.called
    refine ⟨later ++ [(packet, call)], ?_, fun entry hmem => ?_⟩
    · rw [DataNode.done, hhandled, List.append_assoc]
    · rcases List.mem_append.mp hmem with hold | hnew
      · exact hlater entry hold
      · rw [List.mem_singleton.mp hnew]
        exact hcall

/-- Once a topic is subscribed to it stays so, and each datagram that is dealt with has led to
a call exactly when it has a payload under it. -/
theorem Goes.serves (h : n.Serves codec topic before) (hgoes : n.Goes codec event n') :
    n'.Serves codec topic before := by
  have hconsults := hgoes.consults h.consults
  cases hgoes with
  | @reads packet rest hreader _ =>
      have hrest : ({ n with queue := rest } : DataNode γ).Serves codec topic before :=
        { h with }
      unfold take at hconsults ⊢
      cases hparsed : packet.parsed codec with
      | none =>
          refine hrest.done ?_
          rw [Arrival.parsed] at hparsed
          simp [calledWith, payload, Arrival.parsed, hparsed]
      | some msg => exact { hrest with consults := hparsed }
  | @looksUp packet msg hreader _ =>
      have hparsed : packet.parsed codec = some msg := by
        have hconsults := h.consults
        rwa [Consults, hreader] at hconsults
      unfold lookUp at hconsults ⊢
      cases hcall : consult n.mSubscriptions msg with
      | none =>
          simp only [hcall] at hconsults ⊢
          refine h.done ?_
          rw [payload_of_parsed hparsed, if_neg]
          · simp [calledWith]
          · -- the handlers of the topic are there, so there was nothing to pass on
            rintro ⟨rfl, hinlined⟩
            obtain ⟨handlers, hhandlers⟩ := Finmap.mem_iff.mp h.subscribed
            simp [consult, hhandlers, hinlined] at hcall
      | some call =>
          simp only [hcall] at hconsults ⊢
          exact { h with consults := hconsults }
  | @finishes packet call hreader =>
      have hin := h.consults
      rw [Consults, hreader] at hin
      obtain ⟨msg, hparsed, hdata, hinlined⟩ := hin
      refine h.done ?_
      rw [payload_of_parsed hparsed]
      simp [calledWith, hparsed, hdata, hinlined]
  | subscribes _ _ =>
      exact { h with
        subscribed := Finmap.mem_insert.mpr (.inr h.subscribed)
        consults := hconsults }
  | publishes _ _ _ => exact { h with consults := hconsults }
  | refuses _ => exact { h with consults := hconsults }
  | asks _ => exact { h with consults := hconsults }
  | answers _ _ _ => exact { h with consults := hconsults }
  | resumes _ _ => exact { h with consults := hconsults }
  | stops _ _ => exact { h with consults := hconsults }
  | updates _ _ _ => exact { h with consults := hconsults }
  | departs _ => exact { h with consults := hconsults }

/-- Each datagram is a message that was serialised. -/
structure Serialises (codec : MetadataCodec) (n : DataNode γ) : Prop where
  sending : ∀ datagram ∈ n.sending, ∃ msg : MetadataMessage, datagram.blob = codec.serialize msg
  sent : ∀ call ∈ n.sent, ∃ msg : MetadataMessage, call.1.blob = codec.serialize msg

/-- The datagrams of a `Publish` are. -/
theorem Serialises.publish (h : n.Serialises codec) (order : List UInt64) (topic : String)
    (data : List UInt8) :
    (n.publish (n.node.publish codec.serialize order topic data)).Serialises codec where
  sending := fun _ hmem => ⟨_, IPCNode.blob_of_mem_publish hmem⟩
  sent := h.sent

/-- So are those that a node has tried to send. -/
theorem Serialises.tried (h : n.Serialises codec) {datagram : Datagram} {rest : List Datagram}
    {found : Option Nat} (hsending : n.sending = datagram :: rest) :
    (n.tried datagram rest found).Serialises codec where
  sending := fun other hmem => h.sending other (hsending ▸ List.mem_cons_of_mem _ hmem)
  sent := by
    intro call hcall
    rcases List.mem_append.mp hcall with hold | hnew
    · exact h.sent call hold
    · rw [List.mem_singleton.mp hnew]
      exact h.sending datagram (hsending ▸ List.mem_cons_self)

/-- A node makes no datagram in another way than by serialising a message in `Publish`. -/
theorem Goes.serialises (h : n.Serialises codec) (hgoes : n.Goes codec event n') :
    n'.Serialises codec := by
  cases hgoes with
  | publishes _ _ _ => exact h.publish _ _ _
  | answers _ _ _ => exact { h.publish _ _ _ with }
  | refuses hsending => exact h.tried hsending
  | reads _ _ =>
      unfold take
      split <;> exact { h with }
  | looksUp _ _ =>
      unfold lookUp
      split <;> exact { h with }
  | departs _ => exact { h with sending := fun _ hmem => by cases hmem }
  | _ => exact { h with }

/-- What has been sent to a node is a list of messages. -/
theorem Serialises.messages (h : n.Serialises codec) (j : Nat) :
    ∃ messages : List MetadataMessage, n.sentTo j = messages.map codec.serialize := by
  have hall : n.sentTo j ∈ Set.range (List.map codec.serialize) := by
    rw [Set.range_list_map]
    intro blob hmem
    obtain ⟨call, hcall, rfl⟩ := List.mem_map.mp hmem
    obtain ⟨msg, hmsg⟩ := h.sent call (List.mem_filter.mp hcall).1
    exact ⟨msg, hmsg.symm⟩
  obtain ⟨messages, hmessages⟩ := hall
  exact ⟨messages, hmessages.symm⟩

/-- Where each datagram has led to the call it should, the calls are the payloads. -/
theorem filterMap_calledWith (i : Nat) {topic : String}
    {later : List (Arrival × Option (RawCall γ))}
    (hlater : ∀ entry ∈ later, calledWith codec topic entry = payload codec topic entry.1.blob) :
    (later.filter fun entry => entry.1.sender = i).filterMap (calledWith codec topic) =
      (blobsFrom i (later.map Prod.fst)).filterMap (payload codec topic) := by
  rw [blobsFrom, List.filter_map, List.map_map, List.filterMap_map]
  refine List.filterMap_congr fun entry hmem => ?_
  exact hlater entry (List.mem_filter.mp hmem).1

end DataNode

namespace DataPlane

variable {γ : Type} {codec : MetadataCodec} {limit : Nat} {s₁ s₂ : DataPlane γ}
  {before events : List (DataEvent γ)}

/-- In every state the main threads have in hand what they have read. -/
theorem consults_of_exec {s : DataPlane γ} (hrun : exec (step codec limit) {} events = some s) :
    ∀ n ∈ s.nodes, n.Consults codec :=
  forall_nodes_exec (P := DataNode.Consults codec) (fun _ _ => trivial)
    (fun _ _ _ h hgoes => hgoes.consults h) (fun _ _ _ _ h _ => h) (fun _ _ h _ => h)
    (fun n hmem => by cases hmem) hrun

/-- In every state the datagrams are messages that were serialised. -/
theorem serialises_of_exec {s : DataPlane γ} (hrun : exec (step codec limit) {} events = some s) :
    ∀ n ∈ s.nodes, n.Serialises codec := by
  refine forall_nodes_exec (P := DataNode.Serialises codec) ?_
    (fun _ _ _ h hgoes => hgoes.serialises h) (fun _ _ _ _ h hsending => h.tried hsending)
    (fun _ _ h _ => { h with }) (fun n hmem => by cases hmem) hrun
  exact fun _ _ => ⟨fun _ hmem => (List.not_mem_nil hmem).elim,
    fun _ hmem => (List.not_mem_nil hmem).elim⟩

/-- From a state in which a topic is subscribed to, the datagrams that are dealt with lead to
the calls they should. -/
theorem serves_of_exec {j : Nat} {topic : String} {r₁ r : DataNode γ}
    (hbefore : exec (step codec limit) {} before = some s₁) (hr₁ : s₁.nodes[j]? = some r₁)
    (hsubscribed : topic ∈ r₁.mSubscriptions) (hrun : exec (step codec limit) s₁ events = some s₂)
    (hr : s₂.nodes[j]? = some r) : r.Serves codec topic r₁.handled := by
  have hstart : r₁.Serves codec topic r₁.handled :=
    { subscribed := hsubscribed
      consults := consults_of_exec hbefore r₁ (List.mem_of_getElem? hr₁)
      called := ⟨[], (List.append_nil _).symm, fun _ hmem => by cases hmem⟩ }
  obtain ⟨r', hr', hserves⟩ := node_exec (P := fun n => n.Serves codec topic r₁.handled)
    (fun _ _ _ h hgoes => hgoes.serves h) (fun _ _ _ _ h _ => { h with })
    (fun _ _ h _ => { h with }) hr₁ hstart hrun
  obtain rfl := Option.some.inj (hr.symm.trans hr')
  exact hserves

end DataPlane

end IpcPubsub
