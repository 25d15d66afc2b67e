import IpcPubsub.SettlingRuns

/-!
# Who runs the hub

Every manager of a group runs the same `MainLoop`: it connects to whatever listens on
the announce path, and when that fails or the connection ends it starts a server of
its own, which comes up only where the path is free.  Nothing else decides who runs
the hub.

The managers of a group are modelled together, one action of one `MainLoop` at a time.
A server comes up in three steps, `bind`, `listen` and the start of its thread, and
a connection is refused between the first two.  The local `server` of `MainLoop` is
replaced once the new one has been constructed, which is when the old one goes, and
with it the connections it had.

What a connection carries is left out, and so are the public calls.  A manager may
start at any moment, be shut down, or die; its connection may fail; so may each of
the system calls with which it creates a client or a server, and the `poll` or `accept` in
the loop of its server, which then ends.

A server that ends closes its listening socket first and its connections after that.  A
socket counts as closed from the first moment on, when the path is free; from then on the
managers connected to it may notice, and may have another hub bound before they do.
A connection that nobody has accepted waits in the backlog, and where the backlog is full
`connect` waits.
-/

namespace IpcPubsub

open GuardedRuns

/-- How far `UDSServer::Create` has got with a socket, and what became of it. -/
inductive HubPhase
  | bound
  | listening
  /-- The thread of the server runs. -/
  | serving
  /-- `Create` has returned without closing it. -/
  | orphaned
  | closed
  deriving DecidableEq

/-- A socket that was bound to the announce path. -/
structure HubSocket where
  /-- The manager that made it. -/
  owner : Nat
  phase : HubPhase := .bound
  deriving DecidableEq

/-- Where a `MainLoop` is.  Sockets are named by the order in which they were bound. -/
inductive LoopPlace
  /-- At the head of the loop. -/
  | top
  /-- In `UDSClient::Create`. -/
  | creating
  /-- From the connection to the end of `Wait`. -/
  | connected (hub : Nat)
  /-- Before the second test of `mShutdown`. -/
  | checking
  /-- In `UDSServer::Create`, before each of its system calls. -/
  | binding
  | listening (hub : Nat)
  | starting (hub : Nat)
  /-- Before the new server is assigned; its socket if it has one. -/
  | replacing (new : Option Nat)
  /-- Out of the loop, with `server` still there. -/
  | leaving
  | returned
  deriving DecidableEq

structure MainLoop where
  mShutdown : Bool := false
  /-- The socket of the local `server`, as long as the loop of that runs. -/
  server : Option Nat := none
  pc : LoopPlace := .top
  deriving DecidableEq

structure Election where
  managers : List MainLoop := []
  hubs : List HubSocket := []
  /-- How many connections to the last socket nobody has accepted. -/
  waiting : Nat := 0
  deriving DecidableEq

inductive MainLoopAction
  /-- The next step that asks the kernel nothing. -/
  | advance
  | connect (hub : Nat)
  | refused
  /-- `UDSClient::Create` fails although something listens. -/
  | createFails
  /-- It fails after `connect`, and does not close the connection. -/
  | eventFdFails (hub : Nat)
  /-- The hub has closed the connection. -/
  | hangUp
  /-- The connection ends on the side of the manager. -/
  | breaks
  | bind
  | addressInUse
  /-- `socket` or `bind` fails although the path is free. -/
  | bindFails
  | listen
  | listenFails
  /-- `eventfd` succeeds, and the thread is started. -/
  | serve
  | eventFails
  /-- `poll` or `accept` fails in the loop of its server. -/
  | serverEnds
  /-- The destructor sets `mShutdown`. -/
  | shutdown
  /-- The process ends. -/
  | crash
  deriving DecidableEq

inductive ElectionEvent
  | start
  | act (manager : Nat) (action : MainLoopAction)
  deriving DecidableEq

namespace Election

/-- What became of a socket; one that was never bound is as good as closed. -/
def phase (s : Election) (hub : Nat) : HubPhase :=
  (s.hubs[hub]?.map HubSocket.phase).getD .closed

/-- Nothing is bound to the announce path. -/
def Free (s : Election) : Prop := ∀ hub ∈ s.hubs, hub.phase = .closed

instance (s : Election) : Decidable s.Free :=
  inferInstanceAs (Decidable (∀ hub ∈ s.hubs, hub.phase = .closed))

/-- `connect` to the announce path reaches the socket. -/
def Accepts (s : Election) (hub : Nat) : Prop :=
  s.phase hub ≠ .closed ∧ s.phase hub ≠ .bound

instance (s : Election) (hub : Nat) : Decidable (s.Accepts hub) :=
  inferInstanceAs (Decidable (_ ∧ _))

/-- The backlog of `listen(sockFd, 10)`, which holds one connection more. -/
def backlog : Nat := 10

/-- `connect` to the socket does not have to wait. -/
def HasRoom (s : Election) (hub : Nat) : Prop := s.phase hub = .serving ∨ s.waiting ≤ backlog

instance (s : Election) (hub : Nat) : Decidable (s.HasRoom hub) :=
  inferInstanceAs (Decidable (_ ∨ _))

/-- `connect` to the announce path is refused. -/
def Refuses (s : Election) : Prop := ∀ hub < s.hubs.length, ¬ s.Accepts hub

instance (s : Election) : Decidable s.Refuses :=
  inferInstanceAs (Decidable (∀ hub < s.hubs.length, ¬ s.Accepts hub))

def put (s : Election) (i : Nat) (m : MainLoop) : Election :=
  { s with managers := s.managers.set i m }

def setPhase (s : Election) (hub : Nat) (phase : HubPhase) : Election :=
  { s with hubs := s.hubs.modify hub fun h => { h with phase := phase } }

/-- The destructor of a server: its thread closes the socket. -/
def close (s : Election) : Option Nat → Election
  | none => s
  | some hub => s.setPhase hub .closed

/-- A server accepts what waits and what comes; a socket that nobody serves keeps it. -/
def afterConnect (s : Election) (hub : Nat) : Nat :=
  if s.phase hub = .serving then s.waiting else s.waiting + 1

/-- The kernel closes what a process had open. -/
def closeOwned (s : Election) (i : Nat) : Election :=
  { s with hubs := s.hubs.map fun h => if h.owner = i then { h with phase := .closed } else h }

/-- One action of the `MainLoop` `m` of manager `i`. -/
def act (s : Election) (i : Nat) (m : MainLoop) : MainLoopAction → Option Election
  | .advance =>
      match m.pc with
      | .top => some (s.put i { m with pc := if m.mShutdown then .leaving else .creating })
      | .checking => some (s.put i { m with pc := if m.mShutdown then .leaving else .binding })
      | .replacing new => some ((s.close m.server).put i { m with server := new, pc := .top })
      | .leaving => some ((s.close m.server).put i { m with server := none, pc := .returned })
      | _ => none
  | .connect hub =>
      if m.pc = .creating ∧ s.Accepts hub ∧ s.HasRoom hub then
        some { s.put i { m with pc := .connected hub } with waiting := s.afterConnect hub }
      else none
  | .refused =>
      if m.pc = .creating ∧ s.Refuses then some (s.put i { m with pc := .checking }) else none
  | .createFails =>
      if m.pc = .creating then some (s.put i { m with pc := .checking }) else none
  | .eventFdFails hub =>
      if m.pc = .creating ∧ s.Accepts hub ∧ s.HasRoom hub then
        some { s.put i { m with pc := .checking } with waiting := s.afterConnect hub }
      else none
  | .hangUp =>
      match m.pc with
      | .connected hub =>
          if s.phase hub = .closed then some (s.put i { m with pc := .checking }) else none
      | _ => none
  | .breaks =>
      match m.pc with
      | .connected _ => some (s.put i { m with pc := .checking })
      | _ => none
  | .bind =>
      if m.pc = .binding ∧ s.Free then
        some { s.put i { m with pc := .listening s.hubs.length } with
          hubs := s.hubs ++ [{ owner := i }], waiting := 0 }
      else none
  | .addressInUse =>
      if m.pc = .binding ∧ ¬ s.Free then some (s.put i { m with pc := .replacing none }) else none
  | .bindFails =>
      if m.pc = .binding then some (s.put i { m with pc := .replacing none }) else none
  | .listen =>
      match m.pc with
      | .listening hub => some ((s.setPhase hub .listening).put i { m with pc := .starting hub })
      | _ => none
  | .listenFails =>
      match m.pc with
      | .listening hub => some ((s.setPhase hub .closed).put i { m with pc := .replacing none })
      | _ => none
  | .serve =>
      match m.pc with
      | .starting hub =>
          some { (s.setPhase hub .serving).put i { m with pc := .replacing (some hub) } with
            waiting := 0 }
      | _ => none
  | .eventFails =>
      match m.pc with
      | .starting hub => some ((s.setPhase hub .orphaned).put i { m with pc := .replacing none })
      | _ => none
  | .serverEnds =>
      match m.pc, m.server with
      | .replacing (some hub), _ =>
          some ((s.setPhase hub .closed).put i { m with pc := .replacing none })
      | _, some hub => some ((s.setPhase hub .closed).put i { m with server := none })
      | _, none => none
  | .shutdown => some (s.put i { m with mShutdown := true })
  | .crash => some ((s.closeOwned i).put i { m with server := none, pc := .returned })

def step (s : Election) : ElectionEvent → Option Election
  | .start => some { s with managers := s.managers ++ [{}] }
  | .act i action => s.managers[i]?.bind fun m => s.act i m action

/-! ## What an action does -/

/-- The actions that only move one `MainLoop` on. -/
inductive Goes (s : Election) (m : MainLoop) : MainLoopAction → LoopPlace → Prop
  | leaves (hpc : m.pc = .top ∨ m.pc = .checking) (hshutdown : m.mShutdown = true) :
      Goes s m .advance .leaving
  | creates (hpc : m.pc = .top) (hshutdown : m.mShutdown = false) : Goes s m .advance .creating
  | serves (hpc : m.pc = .checking) (hshutdown : m.mShutdown = false) :
      Goes s m .advance .binding
  | connects {hub : Nat} (hpc : m.pc = .creating) (haccepts : s.Accepts hub) :
      Goes s m (.connect hub) (.connected hub)
  | refused (hpc : m.pc = .creating) (hrefuses : s.Refuses) : Goes s m .refused .checking
  | createFails (hpc : m.pc = .creating) : Goes s m .createFails .checking
  | eventFdFails {hub : Nat} (hpc : m.pc = .creating) : Goes s m (.eventFdFails hub) .checking
  | hangsUp {hub : Nat} (hpc : m.pc = .connected hub) (hclosed : s.phase hub = .closed) :
      Goes s m .hangUp .checking
  | breaks {hub : Nat} (hpc : m.pc = .connected hub) : Goes s m .breaks .checking
  | addressInUse (hpc : m.pc = .binding) (htaken : ¬ s.Free) :
      Goes s m .addressInUse (.replacing none)
  | bindFails (hpc : m.pc = .binding) : Goes s m .bindFails (.replacing none)

/-- The actions that give a socket another phase. -/
inductive Turns (m : MainLoop) : MainLoopAction → Nat → HubPhase → LoopPlace → Prop
  | listens {hub : Nat} (hpc : m.pc = .listening hub) :
      Turns m .listen hub .listening (.starting hub)
  | listenFails {hub : Nat} (hpc : m.pc = .listening hub) :
      Turns m .listenFails hub .closed (.replacing none)
  | serves {hub : Nat} (hpc : m.pc = .starting hub) :
      Turns m .serve hub .serving (.replacing (some hub))
  | eventFails {hub : Nat} (hpc : m.pc = .starting hub) :
      Turns m .eventFails hub .orphaned (.replacing none)
  | ends {hub : Nat} (hpc : m.pc = .replacing (some hub)) :
      Turns m .serverEnds hub .closed (.replacing none)

/-- What an action makes of the state; how many connections wait does not matter to the others. -/
inductive Acts (s : Election) (i : Nat) (m : MainLoop) : MainLoopAction → Election → Prop
  | goes {action : MainLoopAction} {pc : LoopPlace} {waiting : Nat} (hgoes : Goes s m action pc) :
      Acts s i m action { s.put i { m with pc := pc } with waiting := waiting }
  | turns {action : MainLoopAction} {hub : Nat} {phase : HubPhase} {pc : LoopPlace} {waiting : Nat}
      (hturns : Turns m action hub phase pc) :
      Acts s i m action
        { (s.setPhase hub phase).put i { m with pc := pc } with waiting := waiting }
  | binds (hpc : m.pc = .binding) (hfree : s.Free) :
      Acts s i m .bind { s.put i { m with pc := .listening s.hubs.length } with
        hubs := s.hubs ++ [{ owner := i }], waiting := 0 }
  | ends {hub : Nat} (hserver : m.server = some hub) (hpc : ∀ new, m.pc ≠ .replacing (some new)) :
      Acts s i m .serverEnds ((s.setPhase hub .closed).put i { m with server := none })
  | replaces {new : Option Nat} (hpc : m.pc = .replacing new) :
      Acts s i m .advance ((s.close m.server).put i { m with server := new, pc := .top })
  | returns (hpc : m.pc = .leaving) :
      Acts s i m .advance ((s.close m.server).put i { m with server := none, pc := .returned })
  | shutdown : Acts s i m .shutdown (s.put i { m with mShutdown := true })
  | crash : Acts s i m .crash ((s.closeOwned i).put i { m with server := none, pc := .returned })

/-- An action that can be taken is one of these, and so what a proof has to look at. -/
theorem acts_of_act {s s' : Election} {i : Nat} {m : MainLoop} {action : MainLoopAction}
    (h : s.act i m action = some s') : Acts s i m action s' := by
  cases action with
  | advance =>
      simp only [act] at h
      split at h
      case h_1 hpc =>
        split at h
        case isTrue hshutdown => cases h; exact .goes (.leaves (.inl hpc) hshutdown)
        case isFalse hshutdown => cases h; exact .goes (.creates hpc (by simpa using hshutdown))
      case h_2 hpc =>
        split at h
        case isTrue hshutdown => cases h; exact .goes (.leaves (.inr hpc) hshutdown)
        case isFalse hshutdown => cases h; exact .goes (.serves hpc (by simpa using hshutdown))
      case h_3 new hpc => cases h; exact .replaces hpc
      case h_4 hpc => cases h; exact .returns hpc
      case h_5 => cases h
  | connect hub =>
      simp only [act, Option.ite_none_right_eq_some, Option.some.injEq] at h
      obtain ⟨⟨hpc, haccepts, _⟩, rfl⟩ := h
      exact .goes (.connects hpc haccepts)
  | refused =>
      simp only [act, Option.ite_none_right_eq_some, Option.some.injEq] at h
      obtain ⟨⟨hpc, hrefuses⟩, rfl⟩ := h
      exact .goes (.refused hpc hrefuses)
  | createFails =>
      simp only [act, Option.ite_none_right_eq_some, Option.some.injEq] at h
      obtain ⟨hpc, rfl⟩ := h
      exact .goes (.createFails hpc)
  | eventFdFails hub =>
      simp only [act, Option.ite_none_right_eq_some, Option.some.injEq] at h
      obtain ⟨⟨hpc, _⟩, rfl⟩ := h
      exact .goes (.eventFdFails hpc)
  | hangUp =>
      simp only [act] at h
      split at h
      case h_1 hub hpc =>
        obtain ⟨hclosed, hs⟩ := Option.ite_none_right_eq_some.mp h
        cases hs
        exact .goes (.hangsUp hpc hclosed)
      case h_2 => cases h
  | breaks =>
      simp only [act] at h
      split at h
      case h_1 hub hpc => cases h; exact .goes (.breaks hpc)
      case h_2 => cases h
  | bind =>
      simp only [act, Option.ite_none_right_eq_some, Option.some.injEq] at h
      obtain ⟨⟨hpc, hfree⟩, rfl⟩ := h
      exact .binds hpc hfree
  | addressInUse =>
      simp only [act, Option.ite_none_right_eq_some, Option.some.injEq] at h
      obtain ⟨⟨hpc, htaken⟩, rfl⟩ := h
      exact .goes (.addressInUse hpc htaken)
  | bindFails =>
      simp only [act, Option.ite_none_right_eq_some, Option.some.injEq] at h
      obtain ⟨hpc, rfl⟩ := h
      exact .goes (.bindFails hpc)
  | listen =>
      simp only [act] at h
      split at h
      case h_1 hub hpc => cases h; exact .turns (.listens hpc)
      case h_2 => cases h
  | listenFails =>
      simp only [act] at h
      split at h
      case h_1 hub hpc => cases h; exact .turns (.listenFails hpc)
      case h_2 => cases h
  | serve =>
      simp only [act] at h
      split at h
      case h_1 hub hpc => cases h; exact .turns (.serves hpc)
      case h_2 => cases h
  | eventFails =>
      simp only [act] at h
      split at h
      case h_1 hub hpc => cases h; exact .turns (.eventFails hpc)
      case h_2 => cases h
  | serverEnds =>
      simp only [act] at h
      split at h
      case h_1 hub hpc => cases h; exact .turns (.ends hpc)
      case h_2 hub hserver hpc => cases h; exact .ends hserver fun new => hpc new
      case h_3 => cases h
  | shutdown => cases h; exact .shutdown
  | crash => cases h; exact .crash

/-- A step is the start of a manager or an action of one. -/
theorem step_cases {s s' : Election} {event : ElectionEvent} (h : s.step event = some s') :
    (event = .start ∧ s' = { s with managers := s.managers ++ [{}] }) ∨
      ∃ i action m, event = .act i action ∧ s.managers[i]? = some m ∧ Acts s i m action s' := by
  cases event with
  | start =>
      cases h
      exact .inl ⟨rfl, rfl⟩
  | act i action =>
      obtain ⟨m, hm, hact⟩ := Option.bind_eq_some_iff.mp h
      exact .inr ⟨i, action, m, rfl, hm, acts_of_act hact⟩

/-! ## The parts of a state -/

section Parts

variable {s : Election} {i j hub hub' : Nat} {m m' : MainLoop} {phase : HubPhase}

@[simp] theorem phase_put : (s.put i m).phase hub = s.phase hub := rfl

@[simp] theorem hubs_put : (s.put i m).hubs = s.hubs := rfl

@[simp] theorem managers_setPhase : (s.setPhase hub phase).managers = s.managers := rfl

@[simp] theorem managers_closeOwned : (s.closeOwned i).managers = s.managers := rfl

@[simp] theorem managers_close (server : Option Nat) :
    (s.close server).managers = s.managers := by
  cases server <;> rfl

/-- The manager that acts, and the others. -/
theorem managers_put (hm : s.managers[i]? = some m) (m' : MainLoop) (j : Nat) :
    (s.put i m').managers[j]? = if j = i then some m' else s.managers[j]? :=
  getElem?_set_part hm m' j

/-- The phase of a socket that was bound. -/
theorem phase_eq_of_getElem? {h : HubSocket} (hhub : s.hubs[hub]? = some h) :
    s.phase hub = h.phase := by
  simp [Election.phase, hhub]

/-- A socket that is not closed was bound. -/
theorem exists_of_phase_ne (h : s.phase hub ≠ .closed) :
    ∃ socket, s.hubs[hub]? = some socket ∧ socket.phase = s.phase hub := by
  cases hhub : s.hubs[hub]? with
  | none => simp [Election.phase, hhub] at h
  | some socket => exact ⟨socket, rfl, (phase_eq_of_getElem? hhub).symm⟩

/-- The path is free exactly when every socket is closed. -/
theorem free_iff : s.Free ↔ ∀ hub, s.phase hub = .closed := by
  constructor
  · intro hfree hub
    by_contra hopen
    obtain ⟨socket, hsocket, hphase⟩ := exists_of_phase_ne hopen
    exact hopen (hphase ▸ hfree socket (List.mem_of_getElem? hsocket))
  · intro hclosed socket hmem
    obtain ⟨hub, hhub⟩ := List.getElem?_of_mem hmem
    rw [← phase_eq_of_getElem? hhub]
    exact hclosed hub

/-- `connect` is refused exactly when no socket accepts. -/
theorem refuses_iff : s.Refuses ↔ ∀ hub, ¬ s.Accepts hub := by
  constructor
  · intro h hub haccepts
    obtain ⟨socket, hsocket, _⟩ := exists_of_phase_ne haccepts.1
    exact h hub (List.getElem?_eq_some_iff.mp hsocket).1 haccepts
  · exact fun h hub _ => h hub

/-- The sockets when one of them gets another phase. -/
theorem hubs_setPhase (hub' : Nat) :
    (s.setPhase hub phase).hubs[hub']? =
      s.hubs[hub']?.map fun h => if hub' = hub then { h with phase := phase } else h := by
  rw [setPhase, List.getElem?_modify]
  split <;> simp_all [eq_comm]

/-- The phases when one socket gets another: only that socket's own, and only if it was ever
bound. -/
theorem phase_setPhase (hub' : Nat) :
    (s.setPhase hub phase).phase hub' =
      if hub' = hub ∧ hub < s.hubs.length then phase else s.phase hub' := by
  rw [Election.phase, hubs_setPhase]
  cases hhub : s.hubs[hub']? with
  | none =>
      have hlength : s.hubs.length ≤ hub' := List.getElem?_eq_none_iff.mp hhub
      rw [if_neg (by omega)]
      simp [Election.phase, hhub]
  | some h =>
      have hlength : hub' < s.hubs.length := (List.getElem?_eq_some_iff.mp hhub).1
      by_cases heq : hub' = hub
      · rw [if_pos ⟨heq, heq ▸ hlength⟩]
        simp [heq]
      · simp [Election.phase, hhub, heq]

/-- The sockets when a process ends. -/
theorem hubs_closeOwned (hub' : Nat) :
    (s.closeOwned i).hubs[hub']? =
      s.hubs[hub']?.map fun h => if h.owner = i then { h with phase := .closed } else h := by
  rw [closeOwned, List.getElem?_map]

end Parts

end Election

/-! ## The invariant -/

/-- The phase of a socket that a `MainLoop` has in hand. -/
def MainLoop.Holds (m : MainLoop) (hub : Nat) : HubPhase → Prop
  | .bound => m.pc = .listening hub
  | .listening => m.pc = .starting hub
  | .serving => m.pc = .replacing (some hub) ∨ m.server = some hub
  | _ => False

/-- What is in somebody's hand is not closed. -/
theorem MainLoop.Holds.phase_ne {m : MainLoop} {hub : Nat} {phase : HubPhase}
    (h : m.Holds hub phase) : phase ≠ .closed := by
  rintro rfl
  exact h

/-- A manager has its server in hand. -/
theorem MainLoop.holds_server {m : MainLoop} {hub : Nat} (h : m.server = some hub) :
    m.Holds hub .serving := .inr h

namespace Election

/-- What is true at any moment of any run. -/
structure Valid (s : Election) : Prop where
  /-- At most one socket is bound to the announce path. -/
  one : ∀ hub hub', s.phase hub ≠ .closed → s.phase hub' ≠ .closed → hub = hub'
  /-- The manager that bound it has it, unless it was forgotten. -/
  held : ∀ (hub : Nat) (socket : HubSocket), s.hubs[hub]? = some socket →
    socket.phase ≠ .closed →
    socket.phase = .orphaned ∨
      ∃ m, s.managers[socket.owner]? = some m ∧ m.Holds hub socket.phase
  /-- What a manager has in hand is its own, and as far as it takes it to be. -/
  holds : ∀ (i : Nat) (m : MainLoop) (hub : Nat) (phase : HubPhase),
    s.managers[i]? = some m → m.Holds hub phase →
    s.hubs[hub]? = some { owner := i, phase := phase }
  reached : ∀ (i : Nat) (m : MainLoop) (hub : Nat), s.managers[i]? = some m →
    m.pc = .connected hub →
    hub < s.hubs.length ∧ s.phase hub ≠ .bound ∧ ∀ own, m.server = some own → own = hub
  /-- The server that is replaced is not the new one. -/
  replaced : ∀ (i : Nat) (m : MainLoop) (hub : Nat), s.managers[i]? = some m →
    m.pc = .replacing (some hub) → m.server = none
  returned : ∀ (i : Nat) (m : MainLoop), s.managers[i]? = some m → m.pc = .returned →
    m.server = none

section Invariant

variable {s s' : Election} {i j hub hub' : Nat} {m m' : MainLoop} {phase phase' : HubPhase}
  {action : MainLoopAction} {pc : LoopPlace}

/-- Before any manager has started. -/
theorem valid_empty : Valid {} where
  one := by simp [Election.phase]
  held := by simp
  holds := by simp
  reached := by simp
  replaced := by simp
  returned := by simp

/-- What a manager has in hand is open. -/
theorem Valid.phase_of_holds (h : s.Valid) (hm : s.managers[i]? = some m)
    (hholds : m.Holds hub phase) : s.phase hub = phase :=
  phase_eq_of_getElem? (h.holds i m hub phase hm hholds)

/-- All that is in anybody's hand is one socket. -/
theorem Valid.alone (h : s.Valid) (hm : s.managers[i]? = some m) (hholds : m.Holds hub phase)
    (hm' : s.managers[j]? = some m') (hholds' : m'.Holds hub' phase') :
    j = i ∧ hub' = hub ∧ phase' = phase := by
  have hopen : s.phase hub ≠ .closed := h.phase_of_holds hm hholds ▸ hholds.phase_ne
  have hopen' : s.phase hub' ≠ .closed := h.phase_of_holds hm' hholds' ▸ hholds'.phase_ne
  obtain rfl : hub' = hub := h.one hub' hub hopen' hopen
  have hown := h.holds i m hub' phase hm hholds
  have hown' := h.holds j m' hub' phase' hm' hholds'
  simp_all

/-- Where somebody has a socket in hand, the path is not free. -/
theorem Valid.not_free_of_holds (h : s.Valid) (hm : s.managers[i]? = some m)
    (hholds : m.Holds hub phase) : ¬ s.Free := fun hfree =>
  hholds.phase_ne (h.phase_of_holds hm hholds ▸ free_iff.mp hfree hub)

/-- Where a socket was forgotten, no manager has a server. -/
theorem Valid.server_of_orphaned (h : s.Valid) (horphaned : s.phase hub = .orphaned)
    (hm : s.managers[i]? = some m) : m.server = none := by
  cases hserver : m.server with
  | none => rfl
  | some own =>
      have hserving : s.phase own = .serving := h.phase_of_holds hm (MainLoop.holds_server hserver)
      have hsame : own = hub := h.one own hub (by simp [hserving]) (by simp [horphaned])
      rw [hsame, horphaned] at hserving
      cases hserving

/-- A `MainLoop` that has the same in hand as before, at another place.  What is left to check is
what its place says of the hub it has reached and of its server. -/
theorem Valid.put (h : s.Valid) (hm : s.managers[i]? = some m)
    (hholds : ∀ hub phase, m'.Holds hub phase ↔ m.Holds hub phase)
    (hreached : ∀ hub, m'.pc = .connected hub →
      hub < s.hubs.length ∧ s.phase hub ≠ .bound ∧ ∀ own, m'.server = some own → own = hub)
    (hreplaced : ∀ hub, m'.pc = .replacing (some hub) → m'.server = none)
    (hreturned : m'.pc = .returned → m'.server = none) : (s.put i m').Valid where
  one := h.one
  held := by
    intro hub socket hsocket hopen
    rcases h.held hub socket hsocket hopen with horphan | ⟨owner, howner, hown⟩
    · exact .inl horphan
    · right
      rw [managers_put hm]
      split
      case isTrue heq =>
        obtain rfl : m = owner := by rw [heq, hm] at howner; exact Option.some.inj howner
        exact ⟨m', rfl, (hholds _ _).mpr hown⟩
      case isFalse => exact ⟨owner, howner, hown⟩
  holds := by
    intro j other hub phase hj hother
    rw [managers_put hm] at hj
    split at hj
    case isTrue heq =>
      cases hj
      exact heq ▸ h.holds i m hub phase hm ((hholds _ _).mp hother)
    case isFalse => exact h.holds j other hub phase hj hother
  reached := by
    intro j other hub hj hpc
    rw [managers_put hm] at hj
    split at hj
    case isTrue => cases hj; exact hreached hub hpc
    case isFalse => exact h.reached j other hub hj hpc
  replaced := by
    intro j other hub hj hpc
    rw [managers_put hm] at hj
    split at hj
    case isTrue => cases hj; exact hreplaced hub hpc
    case isFalse => exact h.replaced j other hub hj hpc
  returned := by
    intro j other hj hpc
    rw [managers_put hm] at hj
    split at hj
    case isTrue => cases hj; exact hreturned hpc
    case isFalse => exact h.returned j other hj hpc

/-- A `MainLoop` that moves on keeps what it has in hand. -/
theorem Goes.holds_iff (h : Goes s m action pc) :
    ({ m with pc := pc } : MainLoop).Holds hub phase ↔ m.Holds hub phase := by
  cases h with
  | leaves hpc => rcases hpc with hpc | hpc <;> cases phase <;> simp [MainLoop.Holds, hpc]
  | _ => cases phase <;> simp [MainLoop.Holds, *]

/-- The invariant is kept where one `MainLoop` moves on: it has no other socket in hand than
before, and a hub it has reached was accepting. -/
theorem Goes.valid (h : s.Valid) (hm : s.managers[i]? = some m) (hgoes : Goes s m action pc) :
    (s.put i { m with pc := pc }).Valid := by
  apply h.put hm fun hub phase => hgoes.holds_iff
  · intro hub hpc
    cases hgoes with
    | connects _ haccepts =>
        cases hpc
        obtain ⟨socket, hsocket, _⟩ := exists_of_phase_ne haccepts.1
        refine ⟨(List.getElem?_eq_some_iff.mp hsocket).1, haccepts.2, fun own hown => ?_⟩
        have hserving : s.phase own = .serving := h.phase_of_holds hm (.inr hown)
        exact h.one own hub (by simp [hserving]) haccepts.1
    | _ => cases hpc
  · intro hub hpc
    cases hgoes <;> cases hpc
  · intro hpc
    cases hgoes <;> cases hpc

/-- A `MainLoop` that gives the socket it has in hand another phase. -/
theorem Valid.turn (h : s.Valid) (hm : s.managers[i]? = some m) (hbefore : m.Holds hub phase)
    (hbound : phase' ≠ .bound)
    (hafter : ∀ hub' p, m'.Holds hub' p → hub' = hub ∧ p = phase')
    (hkept : phase' ≠ .closed → phase' = .orphaned ∨ m'.Holds hub phase')
    (hreached : ∀ hub', m'.pc = .connected hub' → m.pc = .connected hub' ∧ m'.server = none)
    (hreplaced : ∀ hub', m'.pc = .replacing (some hub') → m'.server = none)
    (hreturned : m'.pc = .returned → m'.server = none) :
    ((s.setPhase hub phase').put i m').Valid := by
  have hopen : s.phase hub ≠ .closed := h.phase_of_holds hm hbefore ▸ hbefore.phase_ne
  have hsocket : s.hubs[hub]? = some { owner := i, phase := phase } :=
    h.holds i m hub phase hm hbefore
  have hlength : hub < s.hubs.length := (List.getElem?_eq_some_iff.mp hsocket).1
  have hm₁ : (s.setPhase hub phase').managers[i]? = some m := hm
  -- every other socket is closed, before and after
  have hother : ∀ hub', hub' ≠ hub → s.phase hub' = .closed := by
    intro hub' hne
    by_contra hopen'
    exact hne (h.one hub' hub hopen' hopen)
  have hall : ∀ hub', (s.setPhase hub phase').phase hub' ≠ .closed → hub' = hub := by
    intro hub' hopen'
    by_contra hne
    rw [phase_setPhase, if_neg (by tauto)] at hopen'
    exact hopen' (hother hub' hne)
  have hself : (s.setPhase hub phase').hubs[hub]? = some { owner := i, phase := phase' } := by
    rw [hubs_setPhase, hsocket]
    simp
  exact
    { one := fun hub₁ hub₂ h₁ h₂ => (hall hub₁ h₁).trans (hall hub₂ h₂).symm
      held := by
        intro hub' socket hsocket' hopen'
        obtain rfl : hub' = hub := by
          apply hall hub'
          rw [← phase_put (i := i) (m := m'), phase_eq_of_getElem? hsocket']
          exact hopen'
        obtain rfl : { owner := i, phase := phase' } = socket :=
          Option.some.inj (hself.symm.trans hsocket')
        rcases hkept hopen' with horphan | hholds
        · exact .inl horphan
        · refine .inr ⟨m', ?_, hholds⟩
          rw [managers_put hm₁, if_pos rfl]
      holds := by
        intro j other hub' p hj hother'
        rw [managers_put hm₁] at hj
        split at hj
        case isTrue heq =>
          cases hj
          obtain ⟨rfl, rfl⟩ := hafter hub' p hother'
          exact heq ▸ hself
        case isFalse hne => exact absurd (h.alone hm hbefore hj hother').1 hne
      reached := by
        intro j other hub' hj hpc
        -- a connection that was there before
        have hold : ∀ {k : Nat} {before : MainLoop}, s.managers[k]? = some before →
            before.pc = .connected hub' →
              hub' < ((s.setPhase hub phase').put i m').hubs.length ∧
                ((s.setPhase hub phase').put i m').phase hub' ≠ .bound := by
          intro k before hk hbeforePc
          obtain ⟨hlength', hnot, _⟩ := h.reached k before hub' hk hbeforePc
          refine ⟨by simpa [setPhase] using hlength', ?_⟩
          rw [phase_put, phase_setPhase]
          split
          · exact hbound
          · exact hnot
        rw [managers_put hm₁] at hj
        split at hj
        case isTrue =>
          cases hj
          obtain ⟨hpc', hnone⟩ := hreached hub' hpc
          obtain ⟨hlength', hnot⟩ := hold hm hpc'
          exact ⟨hlength', hnot, by simp [hnone]⟩
        case isFalse =>
          obtain ⟨hlength', hnot⟩ := hold hj hpc
          exact ⟨hlength', hnot, (h.reached j other hub' hj hpc).2.2⟩
      replaced := by
        intro j other hub' hj hpc
        rw [managers_put hm₁] at hj
        split at hj
        case isTrue => cases hj; exact hreplaced hub' hpc
        case isFalse => exact h.replaced j other hub' hj hpc
      returned := by
        intro j other hj hpc
        rw [managers_put hm₁] at hj
        split at hj
        case isTrue => cases hj; exact hreturned hpc
        case isFalse => exact h.returned j other hj hpc }

/-- While it creates a server, a `MainLoop` has none. -/
theorem Valid.server_eq_none (h : s.Valid) (hm : s.managers[i]? = some m)
    (hholds : m.Holds hub phase) (hphase : phase ≠ .serving) : m.server = none := by
  cases hserver : m.server with
  | none => rfl
  | some own =>
      have hserving : m.Holds own .serving := .inr hserver
      exact absurd (h.alone hm hserving hm hholds).2.2 hphase

/-- The invariant is kept where a socket gets another phase.  Nobody else has that socket in hand,
and the one who has moves on with it. -/
theorem Turns.valid (h : s.Valid) (hm : s.managers[i]? = some m)
    (hturns : Turns m action hub phase pc) :
    ((s.setPhase hub phase).put i { m with pc := pc }).Valid := by
  cases hturns with
  | listens hpc =>
      have hbefore : m.Holds hub .bound := hpc
      have hserver := h.server_eq_none hm hbefore (by simp)
      apply h.turn hm hbefore
      · simp
      · intro hub' p hafter
        cases p <;> simp_all [MainLoop.Holds]
      · exact fun _ => .inr rfl
      all_goals simp
  | listenFails hpc =>
      have hbefore : m.Holds hub .bound := hpc
      have hserver := h.server_eq_none hm hbefore (by simp)
      apply h.turn hm hbefore
      · simp
      · intro hub' p hafter
        cases p <;> simp_all [MainLoop.Holds]
      all_goals simp
  | serves hpc =>
      have hbefore : m.Holds hub .listening := hpc
      have hserver := h.server_eq_none hm hbefore (by simp)
      apply h.turn hm hbefore
      · simp
      · intro hub' p hafter
        cases p <;> simp_all [MainLoop.Holds]
      · exact fun _ => .inr (.inl rfl)
      · simp
      · exact fun _ _ => hserver
      · simp
  | eventFails hpc =>
      have hbefore : m.Holds hub .listening := hpc
      have hserver := h.server_eq_none hm hbefore (by simp)
      apply h.turn hm hbefore
      · simp
      · intro hub' p hafter
        cases p <;> simp_all [MainLoop.Holds]
      · exact fun _ => .inl rfl
      all_goals simp
  | ends hpc =>
      have hserver := h.replaced i m hub hm hpc
      have hbefore : m.Holds hub .serving := .inl hpc
      apply h.turn hm hbefore
      · simp
      · intro hub' p hafter
        cases p <;> simp_all [MainLoop.Holds]
      all_goals simp

/-- The loop of the server of a manager ends.  Its socket is closed, and those connected to it
find out later. -/
theorem Valid.ends (h : s.Valid) (hm : s.managers[i]? = some m) (hserver : m.server = some hub)
    (hpc : ∀ new, m.pc ≠ .replacing (some new)) :
    ((s.setPhase hub .closed).put i { m with server := none }).Valid := by
  have hholds : m.Holds hub .serving := MainLoop.holds_server hserver
  apply h.turn hm hholds
  · simp
  · intro hub' p hafter
    -- it has nothing else in hand
    have hbefore : m.Holds hub' p := by
      cases p <;> simp_all [MainLoop.Holds]
    obtain ⟨_, _, hp⟩ := h.alone hm hholds hm hbefore
    subst hp
    exact absurd (hafter.resolve_right (by simp)) (hpc hub')
  · simp
  · exact fun hub' hconnected => ⟨hconnected, rfl⟩
  · exact fun _ _ => rfl
  · exact fun _ => rfl

/-- A `MainLoop` that lets go of all it has, its server included. -/
theorem Valid.release (h : s.Valid) (hm : s.managers[i]? = some m)
    (hbefore : ∀ hub phase, m.Holds hub phase → m.server = some hub ∧ phase = .serving)
    (hserver : m'.server = none) (hafter : ∀ hub phase, ¬ m'.Holds hub phase)
    (hreached : ∀ hub, m'.pc ≠ .connected hub) : ((s.close m.server).put i m').Valid := by
  cases hown : m.server with
  | none =>
      apply h.put hm
      · intro hub phase
        refine iff_of_false (hafter hub phase) fun hholds => ?_
        have hsome := (hbefore hub phase hholds).1
        rw [hown] at hsome
        cases hsome
      · exact fun hub hpc => absurd hpc (hreached hub)
      · exact fun _ _ => hserver
      · exact fun _ => hserver
  | some own =>
      apply h.turn hm (MainLoop.holds_server hown)
      · simp
      · exact fun hub phase hholds => absurd hholds (hafter hub phase)
      · simp
      · exact fun hub hconnected => absurd hconnected (hreached hub)
      · exact fun _ _ => hserver
      · exact fun _ => hserver

/-- The path is free, and one manager binds a socket to it. -/
theorem Valid.binds (h : s.Valid) (hm : s.managers[i]? = some m) (hfree : s.Free) :
    Valid { s.put i { m with pc := .listening s.hubs.length } with
      hubs := s.hubs ++ [{ owner := i }], waiting := 0 } := by
  -- nobody has anything in hand yet
  have hnone : ∀ {j : Nat} {other : MainLoop} {hub : Nat} {phase : HubPhase},
      s.managers[j]? = some other → ¬ other.Holds hub phase := fun hj hholds =>
    h.not_free_of_holds hj hholds hfree
  have hserver : m.server = none := by
    cases hown : m.server with
    | none => rfl
    | some own => exact absurd (MainLoop.holds_server hown) (hnone hm)
  have hlookup : ∀ hub, (s.hubs ++ [({ owner := i } : HubSocket)])[hub]? =
      if hub = s.hubs.length then some { owner := i } else s.hubs[hub]? := by
    intro hub
    grind
  have hphase : ∀ hub, Election.phase { s.put i { m with pc := .listening s.hubs.length } with
      hubs := s.hubs ++ [{ owner := i }], waiting := 0 } hub =
        if hub = s.hubs.length then .bound else .closed := by
    intro hub
    simp only [Election.phase, hlookup]
    split
    · rfl
    · exact free_iff.mp hfree hub
  exact
    { one := by
        intro hub hub' hopen hopen'
        rw [hphase] at hopen hopen'
        grind
      held := by
        intro hub socket hsocket hopen
        rw [hlookup] at hsocket
        split at hsocket
        case isTrue heq =>
          cases hsocket
          subst heq
          refine .inr ⟨{ m with pc := .listening s.hubs.length }, ?_, rfl⟩
          exact (managers_put hm _ i).trans (if_pos rfl)
        case isFalse =>
          exact absurd (hfree socket (List.mem_of_getElem? hsocket)) hopen
      holds := by
        intro j other hub phase hj hother
        have hj' := (managers_put hm _ j).symm.trans hj
        split at hj'
        case isTrue heq =>
          cases hj'
          rw [hlookup]
          cases phase <;> simp_all [MainLoop.Holds]
        case isFalse => exact absurd hother (hnone hj')
      reached := by
        intro j other hub hj hpc'
        have hj' := (managers_put hm _ j).symm.trans hj
        split at hj'
        case isTrue => cases hj'; cases hpc'
        case isFalse =>
          obtain ⟨hlength, _, hown⟩ := h.reached j other hub hj' hpc'
          refine ⟨by simp; omega, ?_, hown⟩
          rw [hphase, if_neg (by omega)]
          simp
      replaced := by
        intro j other hub hj hpc'
        have hj' := (managers_put hm _ j).symm.trans hj
        split at hj'
        case isTrue => cases hj'; cases hpc'
        case isFalse => exact h.replaced j other hub hj' hpc'
      returned := by
        intro j other hj hpc'
        have hj' := (managers_put hm _ j).symm.trans hj
        split at hj'
        case isTrue => cases hj'; cases hpc'
        case isFalse => exact h.returned j other hj' hpc' }

/-- The phase of a socket after its owner's process has ended. -/
theorem phase_closeOwned (h : (s.closeOwned i).phase hub ≠ .closed) :
    (s.closeOwned i).phase hub = s.phase hub := by
  obtain ⟨socket, hsocket, hphase⟩ := exists_of_phase_ne h
  rw [hubs_closeOwned] at hsocket
  obtain ⟨before, hbefore, rfl⟩ := Option.map_eq_some_iff.mp hsocket
  rw [← hphase, phase_eq_of_getElem? hbefore]
  split
  case isTrue howner =>
    rw [if_pos howner] at hphase
    exact absurd hphase.symm h
  case isFalse => rfl

/-- The process of a manager ends, and the kernel closes its socket. -/
theorem Valid.crash (h : s.Valid) (hm : s.managers[i]? = some m) :
    ((s.closeOwned i).put i { m with server := none, pc := .returned }).Valid := by
  have hm₁ : (s.closeOwned i).managers[i]? = some m := hm
  exact
    { one := by
        intro hub hub' hopen hopen'
        rw [phase_put] at hopen hopen'
        exact h.one hub hub' (phase_closeOwned hopen ▸ hopen) (phase_closeOwned hopen' ▸ hopen')
      held := by
        intro hub socket hsocket hopen
        rw [hubs_put, hubs_closeOwned] at hsocket
        obtain ⟨before, hbefore, rfl⟩ := Option.map_eq_some_iff.mp hsocket
        split at hopen
        case isTrue => exact absurd rfl hopen
        case isFalse howner =>
          rw [if_neg howner, managers_put hm₁, if_neg howner]
          exact h.held hub before hbefore hopen
      holds := by
        intro j other hub phase hj hother
        rw [managers_put hm₁] at hj
        split at hj
        case isTrue =>
          cases hj
          cases phase <;> simp_all [MainLoop.Holds]
        case isFalse hne =>
          rw [hubs_put, hubs_closeOwned, h.holds j other hub phase hj hother]
          simp [hne]
      reached := by
        intro j other hub hj hpc
        rw [managers_put hm₁] at hj
        split at hj
        case isTrue => cases hj; cases hpc
        case isFalse =>
          obtain ⟨hlength, hnot, hown⟩ := h.reached j other hub hj hpc
          refine ⟨by simpa [closeOwned] using hlength, ?_, hown⟩
          intro hbound
          rw [phase_put] at hbound
          have hopen : (s.closeOwned i).phase hub ≠ .closed := by simp [hbound]
          exact hnot (phase_closeOwned hopen ▸ hbound)
      replaced := by
        intro j other hub hj hpc
        rw [managers_put hm₁] at hj
        split at hj
        case isTrue => cases hj; cases hpc
        case isFalse => exact h.replaced j other hub hj hpc
      returned := by
        intro j other hj hpc
        rw [managers_put hm₁] at hj
        split at hj
        case isTrue => cases hj; rfl
        case isFalse => exact h.returned j other hj hpc }

/-- **The invariant is kept** by every action, the end of a process and the end of a server
included. -/
theorem Acts.valid (h : s.Valid) (hm : s.managers[i]? = some m) (hacts : Acts s i m action s') :
    s'.Valid := by
  cases hacts with
  | goes hgoes => exact { hgoes.valid h hm with }
  | turns hturns => exact { hturns.valid h hm with }
  | binds hpc hfree => exact h.binds hm hfree
  | ends hserver hpc => exact h.ends hm hserver hpc
  | @replaces new hpc =>
      cases new with
      | some hub =>
          -- the server before is none, so that nothing is closed
          have hserver := h.replaced i m hub hm hpc
          rw [hserver]
          apply h.put hm
          · intro hub' phase
            cases phase <;> simp [MainLoop.Holds, hpc, hserver]
          all_goals simp
      | none =>
          apply h.release hm
          · intro hub phase hholds
            cases phase <;> simp_all [MainLoop.Holds]
          · rfl
          · intro hub phase hholds
            cases phase <;> simp_all [MainLoop.Holds]
          · simp
  | returns hpc =>
      apply h.release hm
      · intro hub phase hholds
        cases phase <;> simp_all [MainLoop.Holds]
      · rfl
      · intro hub phase hholds
        cases phase <;> simp_all [MainLoop.Holds]
      · simp
  | shutdown =>
      apply h.put hm
      · intro hub phase
        cases phase <;> simp [MainLoop.Holds]
      · exact fun hub hpc => h.reached i m hub hm hpc
      · exact fun hub hpc => h.replaced i m hub hm hpc
      · exact fun hpc => h.returned i m hm hpc
  | crash => exact h.crash hm

/-- A manager that has just started has nothing in hand, and nobody has the number it gets. -/
theorem Valid.start (h : s.Valid) : Valid { s with managers := s.managers ++ [{}] } := by
  have hlookup : ∀ j, (s.managers ++ [({} : MainLoop)])[j]? =
      if j = s.managers.length then some {} else s.managers[j]? := by
    intro j
    grind
  exact
    { one := h.one
      held := by
        intro hub socket hsocket hopen
        rcases h.held hub socket hsocket hopen with horphan | ⟨m, hm, hholds⟩
        · exact .inl horphan
        · refine .inr ⟨m, ?_, hholds⟩
          exact List.getElem?_append_left (List.getElem?_eq_some_iff.mp hm).1 ▸ hm
      holds := by
        intro j other hub phase hj hother
        rw [hlookup] at hj
        split at hj
        case isTrue =>
          cases hj
          cases phase <;> simp_all [MainLoop.Holds]
        case isFalse => exact h.holds j other hub phase hj hother
      reached := by
        intro j other hub hj hpc
        rw [hlookup] at hj
        split at hj
        case isTrue => cases hj; cases hpc
        case isFalse => exact h.reached j other hub hj hpc
      replaced := by
        intro j other hub hj hpc
        rw [hlookup] at hj
        split at hj
        case isTrue => cases hj; cases hpc
        case isFalse => exact h.replaced j other hub hj hpc
      returned := by
        intro j other hj hpc
        rw [hlookup] at hj
        split at hj
        case isTrue => cases hj; cases hpc
        case isFalse => exact h.returned j other hj hpc }

/-- And by every step. -/
theorem Valid.step {event : ElectionEvent} (h : s.Valid) (hstep : s.step event = some s') :
    s'.Valid := by
  rcases step_cases hstep with ⟨_, rfl⟩ | ⟨i, action, m, _, hm, hacts⟩
  · exact h.start
  · exact hacts.valid h hm

/-- Every state of a run is valid. -/
theorem valid_of_exec {events : List ElectionEvent} (hs : exec Election.step {} events = some s) :
    s.Valid :=
  exec_preserves (fun _ _ _ h hstep => h.step hstep) valid_empty hs

end Invariant

/-- Two managers start; the first comes to run the hub, and both connect to it. -/
def twoElect : List ElectionEvent :=
  [.start, .start, .act 0 .advance, .act 0 .refused, .act 0 .advance, .act 0 .bind, .act 0 .listen,
    .act 0 .serve, .act 0 .advance, .act 0 .advance, .act 0 (.connect 0), .act 1 .advance,
    .act 1 (.connect 0)]

def twoElected : Election where
  managers := [{ server := some 0, pc := .connected 0 }, { pc := .connected 0 }]
  hubs := [{ owner := 0, phase := .serving }]

example : exec step {} twoElect = some twoElected := by decide +kernel

end Election

end IpcPubsub
