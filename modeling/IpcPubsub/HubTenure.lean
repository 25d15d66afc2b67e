import IpcPubsub.Election

/-!
# How long a hub lasts

The ways in which a group changes its hub, other than by the death of a process or the end
of the hub's own loop.

A manager that loses the connection to the hub it runs constructs another server
before it lets go of the first.  The address is in use, so the new one does not come up,
and then the first goes (`closed_before_creating`): one broken connection costs everyone the hub.

A manager that is shut down waits for its connection to end, and the hub ends no
connection.  The manager that runs the hub waits for itself, and while it does the
others wait for it (`connected_forever`).

A socket that listens but could not be given its shutdown event is not closed.  Nobody
accepts a connection to it, and no hub comes up until the process that made it ends
(`orphaned_forever`).
-/

namespace IpcPubsub

open GuardedRuns

namespace Election

section Steps

variable {s s' : Election} {i j hub : Nat} {m m' : MainLoop} {phase : HubPhase}
  {action : MainLoopAction} {socket : HubSocket} {event : ElectionEvent}

/-- A server that goes leaves the sockets of others alone. -/
theorem hubs_close_of_ne {server : Option Nat} (hne : server ≠ some hub) :
    (s.close server).hubs[hub]? = s.hubs[hub]? := by
  cases server with
  | none => rfl
  | some own =>
      have hne' : hub ≠ own := fun heq => hne (heq ▸ rfl)
      rw [close, hubs_setPhase]
      simp [hne']

/-- What becomes of a socket in one action: it stays as it is, unless the manager that acts has
it in hand or dies with it. -/
theorem Acts.hubs (hacts : Acts s i m action s') (hsocket : s.hubs[hub]? = some socket) :
    s'.hubs[hub]? = some socket ∨ (∃ phase, m.Holds hub phase) ∨
      action = .crash ∧ socket.owner = i ∧
        s'.hubs[hub]? = some { socket with phase := .closed } := by
  have hlength : hub < s.hubs.length := (List.getElem?_eq_some_iff.mp hsocket).1
  cases hacts with
  | goes hgoes => exact .inl hsocket
  | @turns _ hub' phase pc _ hturns =>
      by_cases heq : hub = hub'
      · right; left
        cases hturns with
        | listens hpc => exact ⟨.bound, heq ▸ hpc⟩
        | listenFails hpc => exact ⟨.bound, heq ▸ hpc⟩
        | serves hpc => exact ⟨.listening, heq ▸ hpc⟩
        | eventFails hpc => exact ⟨.listening, heq ▸ hpc⟩
        | ends hpc => exact ⟨.serving, heq ▸ .inl hpc⟩
      · left
        rw [hubs_put, hubs_setPhase, hsocket]
        simp [heq]
  | binds hpc hfree =>
      left
      exact (List.getElem?_append_left hlength).trans hsocket
  | @ends own hserver hpc =>
      by_cases heq : hub = own
      · exact .inr (.inl ⟨.serving, heq ▸ MainLoop.holds_server hserver⟩)
      · left
        rw [hubs_put, hubs_setPhase, hsocket]
        simp [heq]
  | replaces hpc =>
      by_cases hserver : m.server = some hub
      · exact .inr (.inl ⟨.serving, MainLoop.holds_server hserver⟩)
      · exact .inl ((hubs_close_of_ne hserver).trans hsocket)
  | returns hpc =>
      by_cases hserver : m.server = some hub
      · exact .inr (.inl ⟨.serving, MainLoop.holds_server hserver⟩)
      · exact .inl ((hubs_close_of_ne hserver).trans hsocket)
  | shutdown => exact .inl hsocket
  | crash =>
      rw [hubs_put, hubs_closeOwned, hsocket]
      by_cases howner : socket.owner = i
      · right; right
        simp [howner]
      · left
        simp [howner]

/-- A closed socket stays closed. -/
theorem Valid.closed_step (h : s.Valid) (hstep : s.step event = some s')
    (hsocket : s.hubs[hub]? = some socket) (hclosed : socket.phase = .closed) :
    s'.hubs[hub]? = some socket := by
  rcases step_cases hstep with ⟨_, rfl⟩ | ⟨i, action, m, _, hm, hacts⟩
  · exact hsocket
  · rcases hacts.hubs hsocket with hsame | ⟨phase, hholds⟩ | ⟨_, _, hafter⟩
    · exact hsame
    · have hphase := h.phase_of_holds hm hholds
      rw [phase_eq_of_getElem? hsocket, hclosed] at hphase
      exact absurd hphase.symm hholds.phase_ne
    · rw [hafter, ← hclosed]

/-- What a manager is after the action of another: the same.  They meet only in the sockets. -/
theorem Acts.managers_ne (hm : s.managers[i]? = some m) (hacts : Acts s i m action s')
    (hne : j ≠ i) : s'.managers[j]? = s.managers[j]? := by
  have hput : ∀ (t : Election) (m' : MainLoop), t.managers = s.managers →
      (t.put i m').managers[j]? = s.managers[j]? := by
    intro t m' ht
    rw [managers_put (ht ▸ hm) m' j, if_neg hne, ht]
  cases hacts with
  | goes hgoes => exact hput s _ rfl
  | turns hturns => exact hput _ _ rfl
  | binds hpc hfree => exact hput s _ rfl
  | ends hserver hpc => exact hput _ _ rfl
  | replaces hpc => exact hput _ _ (managers_close _)
  | returns hpc => exact hput _ _ (managers_close _)
  | shutdown => exact hput s _ rfl
  | crash => exact hput _ _ rfl

/-- A manager that is there before a step and has not taken it. -/
theorem getElem?_start (hm : s.managers[i]? = some m) :
    (s.managers ++ [({} : MainLoop)])[i]? = some m := by
  rw [List.getElem?_append_left (List.getElem?_eq_some_iff.mp hm).1, hm]

/-! ## The hub of a manager that has lost its connection -/

/-- The hub has closed, or the manager that runs it is on the way to let go of it. -/
def GoingDown (s : Election) (i hub : Nat) : Prop :=
  (∃ socket, s.hubs[hub]? = some socket ∧ socket.phase = .closed) ∨
    ∃ m, s.managers[i]? = some m ∧ m.server = some hub ∧
      (m.pc = .checking ∨ m.pc = .binding ∨ m.pc = .replacing none ∨ m.pc = .leaving)

/-- The server goes with its manager, when another takes its place, or when its loop ends. -/
theorem GoingDown.closes (h : s.Valid) (hm : s.managers[i]? = some m)
    (hserver : m.server = some hub) (m' : MainLoop) :
    ((s.setPhase hub .closed).put i m').GoingDown i hub := by
  have hsocket := h.holds i m hub .serving hm (MainLoop.holds_server hserver)
  refine .inl ⟨{ owner := i, phase := .closed }, ?_, rfl⟩
  rw [hubs_put, hubs_setPhase, hsocket]
  simp

/-- An action of the manager that runs the hub: it goes on towards the end of the hub. -/
theorem GoingDown.acts (h : s.Valid) (hm : s.managers[i]? = some m) (hserver : m.server = some hub)
    (hpc : m.pc = .checking ∨ m.pc = .binding ∨ m.pc = .replacing none ∨ m.pc = .leaving)
    (hacts : Acts s i m action s') : s'.GoingDown i hub := by
  have hholds : m.Holds hub .serving := MainLoop.holds_server hserver
  cases hacts with
  | goes hgoes =>
      refine .inr ⟨_, (managers_put hm _ i).trans (if_pos rfl), hserver, ?_⟩
      cases hgoes <;> simp_all
  | turns hturns => cases hturns <;> simp_all
  | binds _ hfree => exact absurd hfree (h.not_free_of_holds hm hholds)
  | @ends own hown _ =>
      obtain rfl : own = hub := Option.some.inj (hown.symm.trans hserver)
      exact GoingDown.closes h hm hserver _
  | replaces _ =>
      rw [hserver]
      exact GoingDown.closes h hm hserver _
  | returns _ =>
      rw [hserver]
      exact GoingDown.closes h hm hserver _
  | shutdown => exact .inr ⟨_, (managers_put hm _ i).trans (if_pos rfl), hserver, hpc⟩
  | crash =>
      have hsocket := h.holds i m hub .serving hm hholds
      refine .inl ⟨{ owner := i, phase := .closed }, ?_, rfl⟩
      rw [hubs_put, hubs_closeOwned, hsocket]
      simp

/-- Nobody else can keep the hub, and nothing opens it again. -/
theorem GoingDown.step (h : s.Valid) (hdown : s.GoingDown i hub) (hstep : s.step event = some s') :
    s'.GoingDown i hub := by
  rcases hdown with ⟨socket, hsocket, hclosed⟩ | ⟨m, hm, hserver, hpc⟩
  · exact .inl ⟨socket, h.closed_step hstep hsocket hclosed, hclosed⟩
  · rcases step_cases hstep with ⟨_, rfl⟩ | ⟨j, action, mj, _, hmj, hacts⟩
    · exact .inr ⟨m, getElem?_start hm, hserver, hpc⟩
    · by_cases heq : i = j
      · subst heq
        obtain rfl : m = mj := Option.some.inj (hm.symm.trans hmj)
        exact GoingDown.acts h hm hserver hpc hacts
      · exact .inr ⟨m, (hacts.managers_ne hmj heq).trans hm, hserver, hpc⟩

end Steps

/-- **A hub does not survive its manager's reconnection.**  Once a manager is past its
connection and still has a server, then in whatever happens next, the hub of that server
has closed by the time the manager tries to connect again. -/
theorem closed_before_creating {before events : List ElectionEvent} {s s' : Election} {i hub : Nat}
    {m m' : MainLoop} (hbefore : exec step {} before = some s) (hm : s.managers[i]? = some m)
    (hserver : m.server = some hub) (hpc : m.pc = .checking) (hs : exec step s events = some s')
    (hm' : s'.managers[i]? = some m') (hpc' : m'.pc = .creating) : s'.phase hub = .closed := by
  have hafter : s'.Valid ∧ s'.GoingDown i hub :=
    exec_preserves (I := fun s => s.Valid ∧ s.GoingDown i hub)
      (fun _ _ _ h hstep => ⟨h.1.step hstep, h.2.step h.1 hstep⟩)
      ⟨valid_of_exec hbefore, .inr ⟨m, hm, hserver, .inl hpc⟩⟩ hs
  rcases hafter.2 with ⟨socket, hsocket, hclosed⟩ | ⟨m₁, hm₁, _, hpc₁⟩
  · rw [phase_eq_of_getElem? hsocket, hclosed]
  · obtain rfl : m₁ = m' := Option.some.inj (hm₁.symm.trans hm')
    rw [hpc'] at hpc₁
    simp at hpc₁

/-- The first of two managers loses its connection and comes back; by then its hub has been
closed, and the other one is still connected to it. -/
theorem closed_before_creating_two :
    Election.phase
      { managers := [{ pc := .creating }, { pc := .connected 0 }]
        hubs := [{ owner := 0, phase := .closed }] } 0 = .closed :=
  closed_before_creating (i := 0)
    (show exec step {} (twoElect ++ [.act 0 .breaks]) =
      some { twoElected with
        managers := [{ server := some 0, pc := .checking }, { pc := .connected 0 }] } by
      decide +kernel)
    rfl rfl rfl
    (show exec step
      { twoElected with
        managers := [{ server := some 0, pc := .checking }, { pc := .connected 0 }] }
      [.act 0 .advance, .act 0 .addressInUse, .act 0 .advance, .act 0 .advance] = some
        { managers := [{ pc := .creating }, { pc := .connected 0 }]
          hubs := [{ owner := 0, phase := .closed }] } by decide +kernel)
    rfl rfl

/-! ## The managers that wait for a hub -/

/-- The manager runs the hub and is connected to it. -/
def Tenured (s : Election) (i hub : Nat) : Prop :=
  ∃ m, s.managers[i]? = some m ∧ m.server = some hub ∧ m.pc = .connected hub

/-- The manager waits for its connection to the hub to end. -/
def Waits (s : Election) (j hub : Nat) : Prop :=
  ∃ m, s.managers[j]? = some m ∧ m.pc = .connected hub

end Election

/-- The connection of the manager does not break, and its process does not end. -/
def ElectionEvent.Spares (event : ElectionEvent) (i : Nat) : Prop :=
  event ≠ .act i .breaks ∧ event ≠ .act i .crash

namespace Election

section Waiting

variable {s s' : Election} {i j hub : Nat} {m : MainLoop} {action : MainLoopAction}
  {event : ElectionEvent}

/-- A manager whose connection is open can only be told to shut down, or lose its server. -/
theorem Acts.of_connected (hm : s.managers[i]? = some m) (hacts : Acts s i m action s')
    (hpc : m.pc = .connected hub) (hopen : s.phase hub ≠ .closed)
    (hspares : (ElectionEvent.act i action).Spares i) :
    ∃ m', s'.managers[i]? = some m' ∧ m'.pc = .connected hub ∧
      (action ≠ .serverEnds → m'.server = m.server) := by
  cases hacts with
  | goes hgoes =>
      cases hgoes with
      | leaves hpc' _ => simp [hpc] at hpc'
      | @hangsUp hub' hpc' hclosed =>
          obtain rfl : hub = hub' := by simpa [hpc] using hpc'
          exact absurd hclosed hopen
      | breaks hpc' => exact absurd rfl hspares.1
      | _ => simp_all
  | turns hturns => cases hturns <;> simp_all
  | binds hpc' _ => simp [hpc] at hpc'
  | ends hserver _ =>
      exact ⟨_, (managers_put hm _ i).trans (if_pos rfl), hpc, fun hne => absurd rfl hne⟩
  | replaces hpc' => simp [hpc] at hpc'
  | returns hpc' => simp [hpc] at hpc'
  | shutdown => exact ⟨_, (managers_put hm _ i).trans (if_pos rfl), hpc, fun _ => rfl⟩
  | crash => exact absurd rfl hspares.2

/-- A hub is up as long as its manager has it. -/
theorem Tenured.open (h : s.Valid) (htenured : s.Tenured i hub) : s.phase hub = .serving := by
  obtain ⟨m, hm, hserver, _⟩ := htenured
  exact h.phase_of_holds hm (MainLoop.holds_server hserver)

/-- The manager that runs the hub waits for itself: only its own connection, its own loop or
its own death ends that. -/
theorem Tenured.step (h : s.Valid) (htenured : s.Tenured i hub) (hspares : event.Spares i)
    (hserves : event ≠ .act i .serverEnds) (hstep : s.step event = some s') :
    s'.Tenured i hub := by
  have hopen : s.phase hub ≠ .closed := by simp [htenured.open h]
  obtain ⟨m, hm, hserver, hpc⟩ := htenured
  rcases step_cases hstep with ⟨_, rfl⟩ | ⟨k, action, mk, rfl, hmk, hacts⟩
  · exact ⟨m, getElem?_start hm, hserver, hpc⟩
  · by_cases heq : i = k
    · subst heq
      obtain rfl : m = mk := Option.some.inj (hm.symm.trans hmk)
      obtain ⟨m', hm', hpc', hkept⟩ := hacts.of_connected hm hpc hopen hspares
      exact ⟨m', hm', (hkept fun hends => hserves (hends ▸ rfl)).trans hserver, hpc'⟩
    · exact ⟨m, (hacts.managers_ne hmk heq).trans hm, hserver, hpc⟩

/-- And so does everyone else, as long as the hub is up. -/
theorem Waits.step (hwaits : s.Waits j hub) (hopen : s.phase hub ≠ .closed)
    (hspares : event.Spares j) (hstep : s.step event = some s') : s'.Waits j hub := by
  obtain ⟨m, hm, hpc⟩ := hwaits
  rcases step_cases hstep with ⟨_, rfl⟩ | ⟨k, action, mk, rfl, hmk, hacts⟩
  · exact ⟨m, getElem?_start hm, hpc⟩
  · by_cases heq : j = k
    · subst heq
      obtain rfl : m = mk := Option.some.inj (hm.symm.trans hmk)
      obtain ⟨m', hm', hpc', _⟩ := hacts.of_connected hm hpc hopen hspares
      exact ⟨m', hm', hpc'⟩
    · exact ⟨m, (hacts.managers_ne hmk heq).trans hm, hpc⟩

end Waiting

/-- **Nobody leaves a hub whose manager is connected to it.**  As long as neither its own
connection nor that of the manager that runs the hub breaks, neither process ends, and the loop
of the hub does not fail, a manager waits for its connection to end, whoever is shut down,
itself included, and whatever else happens. -/
theorem connected_forever {before events : List ElectionEvent} {s s' : Election} {i j hub : Nat}
    (hbefore : exec step {} before = some s) (htenured : s.Tenured i hub) (hwaits : s.Waits j hub)
    (hevents : ∀ event ∈ events,
      event.Spares i ∧ event.Spares j ∧ event ≠ .act i .serverEnds)
    (hs : exec step s events = some s') : s'.Waits j hub ∧ s'.phase hub = .serving := by
  have hafter : s'.Valid ∧ s'.Tenured i hub ∧ s'.Waits j hub :=
    exec_invariant (I := fun s => s.Valid ∧ s.Tenured i hub ∧ s.Waits j hub)
      (P := fun _ event => event.Spares i ∧ event.Spares j ∧ event ≠ .act i .serverEnds)
      (fun s event s' ⟨h, htenured, hwaits⟩ hspares hstep =>
        have hopen : s.phase hub ≠ .closed := by simp [htenured.open h]
        ⟨h.step hstep, htenured.step h hspares.1 hspares.2.2 hstep,
          hwaits.step hopen hspares.2.1 hstep⟩)
      ⟨valid_of_exec hbefore, htenured, hwaits⟩ (along_of_forall hevents) hs
  exact ⟨hafter.2.2, hafter.2.1.open hafter.1⟩

def twoShutDown : Election :=
  { twoElected with
    managers := [{ mShutdown := true, server := some 0, pc := .connected 0 },
      { mShutdown := true, pc := .connected 0 }] }

/-- Both managers are shut down, and both go on waiting. -/
theorem connected_forever_two : twoShutDown.Waits 1 0 ∧ twoShutDown.phase 0 = .serving :=
  connected_forever (i := 0) (show exec step {} twoElect = some twoElected by decide +kernel)
    ⟨_, rfl, rfl, rfl⟩ ⟨_, rfl, rfl⟩ (by simp [ElectionEvent.Spares])
    (show exec step twoElected [.act 0 .shutdown, .act 1 .shutdown] = some twoShutDown by
      decide +kernel)

/-! ## A socket that was forgotten -/

/-- A socket that was forgotten is in nobody's hand, so that only the end of its process closes
it. -/
theorem Valid.orphaned_step {s s' : Election} {hub owner : Nat} {event : ElectionEvent}
    (h : s.Valid) (hsocket : s.hubs[hub]? = some { owner := owner, phase := .orphaned })
    (hevent : event ≠ .act owner .crash) (hstep : s.step event = some s') :
    s'.hubs[hub]? = some { owner := owner, phase := .orphaned } := by
  rcases step_cases hstep with ⟨_, rfl⟩ | ⟨i, action, m, rfl, hm, hacts⟩
  · exact hsocket
  · rcases hacts.hubs hsocket with hsame | ⟨phase, hholds⟩ | ⟨rfl, rfl, _⟩
    · exact hsame
    · -- nobody has it in hand
      have hphase := h.phase_of_holds hm hholds
      rw [phase_eq_of_getElem? hsocket] at hphase
      rw [← hphase] at hholds
      exact absurd hholds id
    · exact absurd rfl hevent

/-- **A forgotten socket is in the way for good.**  When `UDSServer::Create` has returned
without closing a socket that listens, then until the process that made it ends, the socket
keeps the announce path, no other is bound to it, and no manager runs a hub. -/
theorem orphaned_forever {before events : List ElectionEvent} {s s' : Election} {hub owner : Nat}
    (hbefore : exec step {} before = some s)
    (hsocket : s.hubs[hub]? = some { owner := owner, phase := .orphaned })
    (hevents : ∀ event ∈ events, event ≠ .act owner .crash) (hs : exec step s events = some s') :
    s'.phase hub = .orphaned ∧ (∀ hub', hub' ≠ hub → s'.phase hub' = .closed) ∧
      ∀ m ∈ s'.managers, m.server = none := by
  have hafter := exec_invariant
    (I := fun s => s.Valid ∧ s.hubs[hub]? = some { owner := owner, phase := .orphaned })
    (P := fun _ event => event ≠ .act owner .crash)
    (fun _ _ _ h hevent hstep => ⟨h.1.step hstep, h.1.orphaned_step h.2 hevent hstep⟩)
    ⟨valid_of_exec hbefore, hsocket⟩ (along_of_forall hevents) hs
  obtain ⟨hvalid, hsocket'⟩ := hafter
  have hphase : s'.phase hub = .orphaned := phase_eq_of_getElem? hsocket'
  refine ⟨hphase, ?_, ?_⟩
  · intro hub' hne
    by_contra hopen
    exact hne (hvalid.one hub' hub hopen (by simp [hphase]))
  · intro m hmem
    obtain ⟨j, hm⟩ := List.getElem?_of_mem hmem
    exact hvalid.server_of_orphaned hphase hm

def connectedToOrphan : Election where
  managers := [{ pc := .connected 0 }]
  hubs := [{ owner := 0, phase := .orphaned }]
  waiting := 1

/-- A manager connects to a socket of its own that nobody serves. -/
theorem orphaned_forever_one :
    connectedToOrphan.phase 0 = .orphaned ∧
      (∀ hub', hub' ≠ 0 → connectedToOrphan.phase hub' = .closed) ∧
      ∀ m ∈ connectedToOrphan.managers, m.server = none :=
  orphaned_forever
    (show exec step {} [.start, .act 0 .advance, .act 0 .refused, .act 0 .advance, .act 0 .bind,
        .act 0 .listen, .act 0 .eventFails] =
      some
        { managers := [{ pc := .replacing none }]
          hubs := [{ owner := 0, phase := .orphaned }] } by decide +kernel)
    rfl
    (show ∀ event ∈ ([.act 0 .advance, .act 0 .advance, .act 0 (.connect 0)] :
      List ElectionEvent), event ≠ .act 0 .crash by simp)
    (by decide +kernel)

end Election

end IpcPubsub
