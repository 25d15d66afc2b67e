import IpcPubsub.RankedLocks

/-!
# The mutexes of a node

What the functions of `lib/IPCNode.cc`, `lib/TopologyManager.cc` and
`lib/UDSClient.cc` do with `IPCNode::mMtx`, `TopologyManager::mMtx` and the
`mMtx` of the manager's clients.  Which locks are taken depends on tests of
data that other threads change, so a function has the outcome of these tests as
arguments: the `mClient` that `Send` finds, the callback that `ApplyUpdate`
makes, whether a datagram can be parsed.

A `UDSClient` gives its mutex back before it calls `send` or `poll`, and a raw
callback of the user runs after `OnData` has given back the node's; what the
user calls from there is another operation of the thread.  `Send` clears
`mClient` after a failed send, but the client lives on in the local `client` of
`MainLoop`, so its destructor, which takes the client's mutex and waits for its
thread, runs with no mutex held.
-/

open GuardedRuns RankedLocks

namespace IpcPubsub

namespace LockDiscipline

/-- A mutex of one node. -/
inductive Mutex
  /-- `TopologyManager::mMtx`. -/
  | manager
  /-- `IPCNode::mMtx`. -/
  | node
  /-- `UDSClient::mMtx` of one of the clients. -/
  | client (c : Nat)
  deriving DecidableEq

/-- The manager's mutex comes before the others; no thread holds two of these. -/
def Mutex.rank : Mutex → Nat
  | .manager => 0
  | .node => 1
  | .client _ => 1

/-! ## UDSClient -/

def clientSend (c : Nat) : List (LockAction Mutex) := locked (.client c) []

def clientShutdown (c : Nat) : List (LockAction Mutex) := locked (.client c) []

def clientWait (c : Nat) : List (LockAction Mutex) := locked (.client c) []

/-- The end of `UDSClient::MainLoop`, which closes the descriptors. -/
def clientMainLoop (c : Nat) : List (LockAction Mutex) := locked (.client c) []

def clientDestructor (c : Nat) : List (LockAction Mutex) := clientShutdown c ++ clientWait c

/-! ## IPCNode, as its manager calls it -/

/-- The callbacks of `TopologyManager`. -/
inductive Callback
  | onJoin
  | onLeave
  | onAnnounce
  | onRetract
  | onSubscribe
  | onUnsubscribe
  deriving DecidableEq

def Callback.locks : Callback → List (LockAction Mutex)
  | .onJoin => locked .node []
  | .onLeave => locked .node []
  | .onAnnounce => []
  | .onRetract => []
  | .onSubscribe => locked .node []
  | .onUnsubscribe => locked .node []

/-! ## TopologyManager -/

/-- `TopologyManager::Send`, which finds `mClient` to be `client`. -/
def send (client : Option Nat) : List (LockAction Mutex) :=
  locked .manager (client.elim [] clientSend)

/-- `TopologyManager::ApplyUpdate`, which makes at most one callback. -/
def applyUpdate (callback : Option Callback) : List (LockAction Mutex) :=
  locked .manager (callback.elim [] Callback.locks)

/-- `TopologyManager::IntroduceOurselves`, with a number of messages. -/
def introduceOurselves (client messages : Nat) : List (LockAction Mutex) :=
  locked .manager ((List.range messages).flatMap fun _ => clientSend client)

/-- `TopologyManager::Unsubscribe`: it takes the mutex and calls `Send`. -/
def managerUnsubscribe (client : Option Nat) : List (LockAction Mutex) :=
  locked .manager (send client)

/-- What a thread of a node runs from a state in which it holds no mutex. -/
inductive Operation
  /-- `IPCNode::Announce`. -/
  | announce (client : Option Nat)
  | publish
  /-- `IPCNode::Subscribe`: the manager's, then the table of handlers. -/
  | subscribe (client : Option Nat)
  | unsubscribe (client : Option Nat)
  | retract (client : Option Nat)
  | onData (parsed : Bool)
  | applyUpdate (callback : Option Callback)
  | introduceOurselves (client messages : Nat)
  /-- `TopologyManager::MainLoop` sets `mClient` and takes `mBacklog` over. -/
  | takeBacklog
  /-- `TopologyManager::MainLoop` sends the backlog, one `Send` for a message. -/
  | flush (clients : List (Option Nat))
  | clientWait (c : Nat)
  | clientMainLoop (c : Nat)
  | clientDestructor (c : Nat)
  deriving DecidableEq

def Operation.locks : Operation → List (LockAction Mutex)
  | .announce client => send client
  | .publish => locked .node []
  | .subscribe client => send client ++ locked .node []
  | .unsubscribe client => managerUnsubscribe client
  | .retract client => send client
  | .onData parsed => if parsed then locked .node [] else []
  | .applyUpdate callback => LockDiscipline.applyUpdate callback
  | .introduceOurselves client messages => LockDiscipline.introduceOurselves client messages
  | .takeBacklog => locked .manager []
  | .flush clients => clients.flatMap send
  | .clientWait c => LockDiscipline.clientWait c
  | .clientMainLoop c => LockDiscipline.clientMainLoop c
  | .clientDestructor c => LockDiscipline.clientDestructor c

/-! ## The order of acquisition -/

section Order

variable {held : Mutex → Prop} {c : Nat} {client : Option Nat}

/-- A client's mutex is taken with nothing else held, or the manager's. -/
theorem balanced_client (hheld : ∀ m, held m → m.rank = 0) :
    Balanced Mutex.rank held (locked (.client c) []) := by
  apply Balanced.locked
  · intro m hm
    rw [hheld m hm]
    exact Nat.zero_lt_one
  · exact balanced_nil

/-- So is the node's. -/
theorem balanced_node (hheld : ∀ m, held m → m.rank = 0) :
    Balanced Mutex.rank held (locked .node []) := by
  apply Balanced.locked
  · intro m hm
    rw [hheld m hm]
    exact Nat.zero_lt_one
  · exact balanced_nil

/-- The mutex of the manager comes first. -/
theorem rank_of_manager {m : Mutex} (h : m = .manager ∨ False) : m.rank = 0 := by
  obtain rfl | hfalse := h
  · rfl
  · exact hfalse.elim

/-- What the manager does with its mutex held. -/
theorem balanced_manager {part : List (LockAction Mutex)}
    (h : Balanced Mutex.rank (fun m => m = .manager ∨ False) part) :
    Balanced Mutex.rank (fun _ => False) (locked .manager part) :=
  Balanced.locked nofun h

/-- A `Send` of a client locks that client and nothing else. -/
theorem balanced_send : Balanced Mutex.rank (fun _ => False) (send client) := by
  apply balanced_manager
  cases client with
  | none => exact balanced_nil
  | some c => exact balanced_client fun m => rank_of_manager

/-- A callback runs under the lock of the manager, and only locks what is above it. -/
theorem balanced_callback (callback : Callback) :
    Balanced Mutex.rank (fun m => m = .manager ∨ False) callback.locks := by
  cases callback with
  | onAnnounce => exact balanced_nil
  | onRetract => exact balanced_nil
  | onJoin => exact balanced_node fun m => rank_of_manager
  | onLeave => exact balanced_node fun m => rank_of_manager
  | onSubscribe => exact balanced_node fun m => rank_of_manager
  | onUnsubscribe => exact balanced_node fun m => rank_of_manager

/-- Every operation but one takes its mutexes in the order of the rank. -/
theorem Operation.balanced (op : Operation) (hop : ∀ client, op ≠ .unsubscribe client) :
    Balanced Mutex.rank (fun _ => False) op.locks := by
  cases op with
  | announce client => exact balanced_send
  | publish => exact balanced_node nofun
  | subscribe client => exact balanced_send.append (balanced_node nofun)
  | unsubscribe client => exact absurd rfl (hop client)
  | retract client => exact balanced_send
  | onData parsed =>
      cases parsed with
      | false => exact balanced_nil
      | true => exact balanced_node nofun
  | applyUpdate callback =>
      apply balanced_manager
      cases callback with
      | none => exact balanced_nil
      | some callback => exact balanced_callback callback
  | introduceOurselves client messages =>
      apply balanced_manager
      exact balanced_flatMap fun _ => balanced_client fun m => rank_of_manager
  | takeBacklog => exact balanced_manager balanced_nil
  | flush clients => exact balanced_flatMap fun _ => balanced_send
  | clientWait c => exact balanced_client nofun
  | clientMainLoop c => exact balanced_client nofun
  | clientDestructor c => exact (balanced_client nofun).append (balanced_client nofun)

/-- `Unsubscribe` takes the manager's mutex, and `Send` takes it again. -/
theorem reenters_unsubscribe : Reenters (Operation.unsubscribe client).locks :=
  ⟨.manager, _, rfl⟩

end Order

/-! ## Runs -/

section Runs

variable {T : Type*} [DecidableEq T]

/-- A thread takes the mutex in `TopologyManager::Unsubscribe`. -/
abbrev EntersUnsubscribe (s : LockState T Mutex) (event : LockEvent T Operation) : Prop :=
  Enters Operation.locks (fun op => ∃ client, op = .unsubscribe client) s event

/-- **The mutexes of a node.**  No thread waits for a mutex it holds and no
threads wait for each other in a circle, in any state of a run, exactly when no
thread of the run gets as far as to take the mutex in `Unsubscribe`. -/
theorem lock_discipline_iff {events : List (LockEvent T Operation)} {s' : LockState T Mutex}
    (hrun : exec (step Operation.locks) LockState.idle events = some s') :
    Throughout (step Operation.locks) (fun s : LockState T Mutex => ¬ Deadlocked s)
        LockState.idle events ↔
      Along (step Operation.locks) (fun s event => ¬ EntersUnsubscribe s event)
        LockState.idle events := by
  apply deadlock_free_iff Mutex.rank
  · intro op ⟨client, hop⟩
    rw [hop]
    exact reenters_unsubscribe
  · intro op
    by_cases hop : ∃ client, op = .unsubscribe client
    · exact .inr hop
    · exact .inl (op.balanced fun client h => hop ⟨client, h⟩).follows
  · exact hrun

/-- A subscriber, a publisher, the thread of a client and `MainLoop`, which
meet at the mutexes of the manager and of the node. -/
def fourThreads : List (LockEvent Nat Operation) :=
  [.start 0 (.subscribe (some 0)), .start 1 .publish,
    .start 2 (.applyUpdate (some .onSubscribe)), .start 3 (.flush [some 0]),
    .act 2, .act 1, .act 1, .act 2, .act 2, .act 2,
    .act 3, .act 3, .act 3, .act 3, .act 0, .act 0]

/-- None of the four calls `Unsubscribe`, and they never wait for each other. -/
theorem lock_discipline_fourThreads :
    Throughout (step Operation.locks) (fun s : LockState Nat Mutex => ¬ Deadlocked s)
      LockState.idle fourThreads := by
  obtain ⟨s', hrun⟩ := Option.isSome_iff_exists.mp (show
    (exec (step Operation.locks) (LockState.idle : LockState Nat Mutex) fourThreads).isSome by
      decide +kernel)
  refine (lock_discipline_iff hrun).mpr (along_not_enters Mutex.rank ?_ ?_)
  · intro op ⟨client, hop⟩
    rw [hop]
    exact reenters_unsubscribe
  · intro t op hstart
    apply (op.balanced ?_).follows
    intro client hop
    subst hop
    simp [fourThreads] at hstart

/-- `IPCNode::Unsubscribe`, called by one thread while the others do nothing. -/
theorem deadlocked_unsubscribe :
    ∃ s', exec (step Operation.locks) (LockState.idle : LockState Nat Mutex)
      [.start 0 (.unsubscribe none), .act 0] = some s' ∧ WaitsFor s' 0 0 :=
  ⟨_, rfl, .manager, _, rfl, rfl⟩

end Runs

end LockDiscipline

end IpcPubsub
