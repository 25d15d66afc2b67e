import IpcPubsub.SocketServer

/-!
# Who closes the accepted sockets

`UDSServer::MainLoop` owns the descriptors that `accept` returns.  It closes those
in `mClients` when it has left its loop, and a scope guard does the same when it
returns.  A descriptor leaves `mClients` in one other place: when the client has
hung up, and there nothing closes it.

So the loop owns every accepted descriptor as long as it works through no client
that `poll` has reported as hung up.  With the first such client it has a
descriptor that is open and in no table; no later action closes it.
-/

namespace IpcPubsub

open GuardedRuns

/-- The client that the loop has begun to drop. -/
def LoopPoint.leaving : LoopPoint → Option Fd
  | .reading fd true _ => some fd
  | .disconnecting fd _ => some fd
  | .erasing fd _ => some fd
  | _ => none

namespace UDSServer

/-- The scope guard `onRet`: the same loop over `mClients` once more. -/
def onRet (s : UDSServer) (order : List Fd) : UDSServer := s.closeAll order

/-- At the start of an iteration the open descriptors are those in `mClients`;
when `MainLoop` has returned, and the scope guard has run, each one it accepted
was closed once, and no other. -/
structure OwnsAccepted (s : UDSServer) : Prop where
  top : s.pc = .top → ∀ fd, s.IsOpen fd ↔ fd ∈ s.mClients
  returned : s.pc = .returned → ∀ order, order.Nodup → order.toFinset = s.mClients →
    ∀ fd, (s.onRet order).closed.count fd = if fd ∈ s.accepted then 1 else 0

/-- The client that the loop turns to has not hung up, as far as `poll` has
reported. -/
def ServesConnected (s : UDSServer) : LoopEvent → Prop
  | .advance =>
      match s.pc with
      | .serving ((_, revents) :: _) => revents.pollhup = false
      | _ => True
  | _ => True

instance (s : UDSServer) (event : LoopEvent) : Decidable (s.ServesConnected event) := by
  unfold ServesConnected
  split
  · split <;> infer_instance
  · infer_instance

variable {parse : List UInt8 → TopologyMessage} {s s' : UDSServer} {event : LoopEvent} {fd : Fd}

/-! ## One action -/

/-- What an action does to the descriptors. -/
inductive Turn (s : UDSServer) : LoopEvent → UDSServer → Prop
  /-- It opens and closes none, and begins to drop no client. -/
  | moves {event : LoopEvent} {s' : UDSServer} (haccepted : s'.accepted = s.accepted)
      (hclosed : s'.closed = s.closed) (hclients : s'.mClients = s.mClients)
      (hleaving : s'.pc.leaving = s.pc.leaving) (hpc : s'.pc = .returned ↔ s.pc = .returned)
      (hguard : s.ServesConnected event) : Turn s event s'
  /-- It turns to a client that has hung up. -/
  | drops {fd : Fd} {revents : Revents} {ready : List (Fd × Revents)} {pc : LoopPoint}
      (hpc : s.pc = .serving ((fd, revents) :: ready)) (hhup : revents.pollhup = true)
      (hleaving : pc.leaving = some fd) : Turn s .advance { s with pc := pc }
  | accepts {fd : Fd} {ready : List (Fd × Revents)} (hpc : s.pc = .accepting ready)
      (hfree : ¬ s.IsOpen fd) :
      Turn s (.accept (some fd)) { s with
        mClients := insert fd s.mClients
        accepted := s.accepted ++ [fd]
        pc := .connecting fd ready }
  | erases {fd : Fd} {ready : List (Fd × Revents)} (hpc : s.pc = .erasing fd ready) :
      Turn s .advance { s with mClients := s.mClients.erase fd, pc := .serving ready }
  | closes {order : List Fd} (hpc : s.pc = .closing) (hnodup : order.Nodup)
      (horder : order.toFinset = s.mClients) : Turn s (.close order) (s.closeAll order)

/-- After the read a client leaves exactly when `poll` has reported its hang-up. -/
theorem leaving_afterRead (hup : Bool) (ready : List (Fd × Revents)) :
    (afterRead fd hup ready).leaving = if hup then some fd else none := by
  cases hup <;> rfl

/-- And so does one that is about to be read. -/
theorem leaving_reading (hup : Bool) (ready : List (Fd × Revents)) :
    (LoopPoint.reading fd hup ready).leaving = if hup then some fd else none := by
  cases hup <;> rfl

/-- The loop goes on with the other clients, or comes back to `poll`. -/
theorem afterRead_ne_returned (hup : Bool) (ready : List (Fd × Revents)) :
    afterRead fd hup ready ≠ .returned := by
  cases hup <;> simp [afterRead]

/-- The loop turns to the next client of the snapshot. -/
theorem turn_serving {revents : Revents} {ready : List (Fd × Revents)}
    (hpc : s.pc = .serving ((fd, revents) :: ready)) :
    Turn s .advance { s with
      pc :=
        if revents.pollin then .reading fd revents.pollhup ready
        else afterRead fd revents.pollhup ready } := by
  have hleaving : (if revents.pollin then LoopPoint.reading fd revents.pollhup ready
      else afterRead fd revents.pollhup ready).leaving =
        if revents.pollhup then some fd else none := by
    split
    · exact leaving_reading revents.pollhup ready
    · exact leaving_afterRead revents.pollhup ready
  cases hhup : revents.pollhup with
  | true =>
      rw [hhup] at hleaving
      exact .drops hpc hhup hleaving
  | false =>
      rw [hhup] at hleaving
      refine .moves rfl rfl rfl ?_ ?_ ?_
      · rw [hpc]
        exact hleaving
      · cases revents.pollin <;> simp [hpc, afterRead]
      · simpa [ServesConnected, hpc] using hhup

/-- A step of the loop that asks the kernel nothing, sorted by what it does with the sockets. -/
theorem turn_advance (halive : s'.pc ≠ .aborted) (hstep : s.advance = some s') :
    Turn s .advance s' := by
  unfold advance at hstep
  split at hstep
  · rename_i fd ready hpc
    obtain rfl := Option.some.inj hstep
    exact .moves rfl rfl rfl (by rw [hpc]; rfl) (by simp [hpc]) (by simp [ServesConnected, hpc])
  · rename_i hpc
    obtain rfl := Option.some.inj hstep
    exact .moves rfl rfl rfl (by rw [hpc]; rfl) (by simp [hpc]) (by simp [ServesConnected, hpc])
  · rename_i fd revents ready hpc
    obtain rfl := Option.some.inj hstep
    exact turn_serving hpc
  · rename_i fd ready hpc
    split at hstep
    · obtain rfl := Option.some.inj hstep
      exact absurd rfl halive
    · obtain rfl := Option.some.inj hstep
      exact .moves rfl rfl rfl (by rw [hpc]; rfl) (by simp [hpc]) (by simp [ServesConnected, hpc])
  · rename_i fd ready hpc
    obtain rfl := Option.some.inj hstep
    exact .erases hpc
  · cases hstep

/-- A `read` moves the loop on and leaves the sockets as they are. -/
theorem turn_read {result : Option (List UInt8)} {random : UInt64} (halive : s'.pc ≠ .aborted)
    (hstep : s.step parse (.read result random) = some s') :
    Turn s (.read result random) s' := by
  simp only [step] at hstep
  split at hstep
  · rename_i fd hup ready hpc
    have hleaving : (afterRead fd hup ready).leaving = s.pc.leaving := by
      rw [hpc, leaving_afterRead, leaving_reading]
    have hreturned : afterRead fd hup ready = .returned ↔ s.pc = .returned := by
      simp [hpc, afterRead_ne_returned]
    split at hstep
    · obtain rfl := Option.some.inj hstep
      exact .moves rfl rfl rfl hleaving hreturned trivial
    · obtain rfl := Option.some.inj hstep
      exact .moves rfl rfl rfl hleaving hreturned trivial
    · obtain rfl := Option.some.inj hstep
      unfold receive at halive ⊢
      split
      · rename_i hnone
        rw [hnone] at halive
        exact absurd rfl halive
      · exact .moves rfl rfl rfl hleaving hreturned trivial
  · cases hstep

/-- What `poll` reports decides where the loop goes; the sockets stay as they are. -/
theorem turn_poll {result : Option PollResult} (hstep : s.step parse (.poll result) = some s') :
    Turn s (.poll result) s' := by
  simp only [step] at hstep
  split at hstep
  · rename_i hpc
    obtain rfl := Option.some.inj hstep
    exact .moves rfl rfl rfl (by rw [hpc]; rfl) (by simp [hpc]) trivial
  · rename_i hpc
    split at hstep
    · cases hstep
    · split at hstep
      · obtain rfl := Option.some.inj hstep
        exact .moves rfl rfl rfl (by rw [hpc]; rfl) (by simp [hpc]) trivial
      · split at hstep
        · obtain rfl := Option.some.inj hstep
          exact .moves rfl rfl rfl (by rw [hpc]; rfl) (by simp [hpc]) trivial
        · obtain rfl := Option.some.inj hstep
          exact .moves rfl rfl rfl (by rw [hpc]; rfl) (by simp [hpc]) trivial
  · cases hstep

/-- **Every action** that does not abort the process is one of these: it opens, keeps or takes a
descriptor in one of the few ways that matter here. -/
theorem turn_of_step (halive : s'.pc ≠ .aborted) (hstep : s.step parse event = some s') :
    Turn s event s' := by
  cases event with
  | snapshot order =>
      simp only [step] at hstep
      split at hstep
      · rename_i horder
        obtain rfl := Option.some.inj hstep
        exact .moves rfl rfl rfl (by rw [horder.1]; rfl) (by simp [horder.1]) trivial
      · cases hstep
  | poll result => exact turn_poll hstep
  | accept fd =>
      simp only [step] at hstep
      split at hstep
      · rename_i hpc
        obtain rfl := Option.some.inj hstep
        exact .moves rfl rfl rfl (by rw [hpc]; rfl) (by simp [hpc]) trivial
      · rename_i ready fd hpc
        split at hstep
        · cases hstep
        · rename_i hfree
          obtain rfl := Option.some.inj hstep
          exact .accepts hpc hfree
      · cases hstep
  | read result random => exact turn_read halive hstep
  | advance => exact turn_advance halive hstep
  | close order =>
      simp only [step] at hstep
      split at hstep
      · rename_i hclosing
        obtain rfl := Option.some.inj hstep
        exact .closes hclosing.1 hclosing.2.1 hclosing.2.2
      · cases hstep
  | purge order =>
      simp only [step] at hstep
      split at hstep
      · obtain rfl := Option.some.inj hstep
        exact .moves rfl rfl rfl rfl Iff.rfl trivial
      · cases hstep

/-! ## A loop that owns what it accepted -/

/-- No client is being dropped, and none was. -/
structure Tidy (s : UDSServer) : Prop where
  agrees : s.Agrees
  staying : s.pc.leaving = none
  held : s.pc ≠ .returned → ∀ fd ∈ s.accepted, fd ∈ s.mClients
  once : s.accepted.Nodup
  returned : s.pc = .returned →
    s.mClients = ∅ ∧ ∀ fd, s.closed.count fd = if fd ∈ s.accepted then 1 else 0

/-- A server that has just been created has accepted nothing. -/
theorem start_tidy (digest : List TopologyMessage) : (start digest).Tidy where
  agrees := start_agrees digest
  staying := rfl
  held := fun _ fd hfd => by cases hfd
  once := List.nodup_nil
  returned := fun hpc => by cases hpc

/-- What a tidy server has accepted it has among its clients as long as its loop runs, and has
closed once when the loop has returned. -/
theorem Tidy.ownsAccepted (h : s.Tidy) : s.OwnsAccepted where
  top := fun hpc fd => by
    have hrunning : s.pc ≠ .returned := by simp [hpc]
    unfold IsOpen
    rw [h.agrees.closed hrunning, List.count_nil, List.count_pos_iff]
    exact ⟨h.held hrunning fd, h.agrees.accepted fd⟩
  returned := fun hpc order _ horder fd => by
    obtain ⟨hempty, hcount⟩ := h.returned hpc
    -- the scope guard finds the set empty
    have hnone : order = [] := by
      rw [hempty, List.toFinset_eq_empty_iff] at horder
      exact horder
    rw [onRet, hnone, closeAll, List.append_nil, hcount fd]

/-- **One action** among clients that have not hung up: what was accepted is in the table of the
server, or has been closed. -/
theorem Tidy.step (h : s.Tidy) (hguard : s.ServesConnected event)
    (hstep : s.step parse event = some s') : s'.Tidy := by
  have hagrees : s'.Agrees := h.agrees.step hstep
  cases turn_of_step hagrees.assertions hstep with
  | moves haccepted hclosed hclients hleaving hpc _ =>
      refine ⟨hagrees, hleaving.trans h.staying, ?_, haccepted ▸ h.once, ?_⟩
      · rw [haccepted, hclients]
        exact fun hrunning => h.held fun hreturned => hrunning (hpc.mpr hreturned)
      · rw [haccepted, hclients, hclosed]
        exact fun hreturned => h.returned (hpc.mp hreturned)
  | drops hpc hhup _ =>
      simp only [ServesConnected, hpc, hhup] at hguard
      cases hguard
  | @accepts fd ready hpc hfree =>
      have hrunning : s.pc ≠ .returned := by simp [hpc]
      have hnew := h.agrees.not_mem_accepted hrunning hfree
      refine ⟨hagrees, rfl, ?_, ?_, fun hreturned => by cases hreturned⟩
      · intro _ fd' hfd'
        rcases List.mem_append.mp hfd' with hfd' | hfd'
        · exact Finset.mem_insert_of_mem (h.held hrunning fd' hfd')
        · rw [List.mem_singleton.mp hfd']
          exact Finset.mem_insert_self fd s.mClients
      · simpa using h.once.concat hnew
  | @erases fd ready hpc =>
      have hstaying := h.staying
      rw [hpc] at hstaying
      cases hstaying
  | @closes order hpc hnodup horder =>
      have hrunning : s.pc ≠ .returned := by simp [hpc]
      refine ⟨hagrees, rfl, fun hreturned => absurd rfl hreturned, h.once, fun _ => ⟨rfl, ?_⟩⟩
      intro fd
      have hmem : fd ∈ order ↔ fd ∈ s.accepted := by
        rw [← List.mem_toFinset, horder]
        exact ⟨h.agrees.accepted fd, h.held hrunning fd⟩
      show (s.closed ++ order).count fd = if fd ∈ s.accepted then 1 else 0
      rw [h.agrees.closed hrunning, List.nil_append, hnodup.count]
      simp only [hmem]

/-! ## A lost descriptor -/

/-- The descriptor is open, and in no table or about to be taken from it. -/
structure Loses (s : UDSServer) (fd : Fd) : Prop where
  agrees : s.Agrees
  accepted : fd ∈ s.accepted
  unclosed : fd ∉ s.closed
  lost : s.pc.leaving = some fd ∨ fd ∉ s.mClients

/-- A socket that is lost is among the clients only as long as it is leaving. -/
theorem Loses.not_mem (h : s.Loses fd) (hpc : s.pc.leaving = none) : fd ∉ s.mClients := by
  refine h.lost.resolve_left fun hleaving => ?_
  rw [hpc] at hleaving
  cases hleaving

/-- But nobody has closed it. -/
theorem Loses.isOpen (h : s.Loses fd) : s.IsOpen fd := by
  unfold IsOpen
  rw [List.count_eq_zero.mpr h.unclosed]
  exact List.count_pos_iff.mpr h.accepted

/-- **A client that has hung up** takes its descriptor with it: the loop forgets it where it
should close it. -/
theorem Tidy.loses (h : s.Tidy) (hguard : ¬ s.ServesConnected event)
    (hstep : s.step parse event = some s') : ∃ fd, s'.Loses fd := by
  have hagrees : s'.Agrees := h.agrees.step hstep
  cases turn_of_step hagrees.assertions hstep with
  | moves _ _ _ _ _ hserves => exact absurd hserves hguard
  | @drops fd revents ready pc hpc hhup hleaving =>
      have hrunning : s.pc ≠ .returned := by simp [hpc]
      have hpending : fd ∈ s.hub.mClients :=
        h.agrees.pending fd (by rw [hpc]; exact List.mem_cons_self)
      have hmem : fd ∈ s.mClients := ((h.agrees.known hrunning fd).mp hpending).1
      refine ⟨fd, hagrees, h.agrees.accepted fd hmem, ?_, Or.inl hleaving⟩
      show fd ∉ s.closed
      rw [h.agrees.closed hrunning]
      exact List.not_mem_nil
  | accepts _ _ => exact absurd trivial hguard
  | erases hpc => exact absurd (by simp [ServesConnected, hpc]) hguard
  | closes _ _ _ => exact absurd trivial hguard

/-- **No action** closes a lost descriptor, for the loop closes only what it finds in its table. -/
theorem Loses.step (h : s.Loses fd) (hstep : s.step parse event = some s') : s'.Loses fd := by
  have hagrees : s'.Agrees := h.agrees.step hstep
  cases turn_of_step hagrees.assertions hstep with
  | moves haccepted hclosed hclients hleaving _ _ =>
      refine ⟨hagrees, haccepted ▸ h.accepted, hclosed ▸ h.unclosed, ?_⟩
      rw [hleaving, hclients]
      exact h.lost
  | drops hpc _ _ =>
      exact ⟨hagrees, h.accepted, h.unclosed, Or.inr (h.not_mem (by rw [hpc]; rfl))⟩
  | @accepts fd' ready hpc hfree =>
      have hnot : fd ∉ s.mClients := h.not_mem (by rw [hpc]; rfl)
      have hne : fd ≠ fd' := by
        rintro rfl
        exact hfree h.isOpen
      refine ⟨hagrees, List.mem_append_left _ h.accepted, h.unclosed, Or.inr ?_⟩
      exact fun hmem => (Finset.mem_insert.mp hmem).elim hne hnot
  | @erases fd' ready hpc =>
      refine ⟨hagrees, h.accepted, h.unclosed, Or.inr ?_⟩
      rcases h.lost with hleaving | hnot
      · rw [hpc] at hleaving
        obtain rfl : fd' = fd := Option.some.inj hleaving
        exact Finset.notMem_erase fd' s.mClients
      · exact fun hmem => hnot (Finset.mem_of_mem_erase hmem)
  | @closes order hpc _ horder =>
      have hnot : fd ∉ s.mClients := h.not_mem (by rw [hpc]; rfl)
      have hunlisted : fd ∉ order := by
        rw [← List.mem_toFinset, horder]
        exact hnot
      refine ⟨hagrees, h.accepted, ?_, Or.inr (Finset.notMem_empty fd)⟩
      exact fun hmem => (List.mem_append.mp hmem).elim h.unclosed hunlisted

/-- Where the loop can be seen, it does not own a lost descriptor. -/
theorem Loses.not_ownsAccepted (h : s.Loses fd) (hpc : s.pc = .top ∨ s.pc = .returned) :
    ¬ s.OwnsAccepted := by
  intro howns
  rcases hpc with hpc | hpc
  · exact h.not_mem (by rw [hpc]; rfl) ((howns.top hpc fd).mp h.isOpen)
  · have hnot : fd ∉ s.mClients := h.not_mem (by rw [hpc]; rfl)
    have hcount := howns.returned hpc s.mClients.toList (Finset.nodup_toList _)
      (Finset.toList_toFinset _) fd
    rw [if_pos h.accepted, onRet, closeAll, List.count_append,
      List.count_eq_zero.mpr h.unclosed,
      List.count_eq_zero.mpr fun hmem => hnot (Finset.mem_toList.mp hmem)] at hcount
    cases hcount

/-- **Accepted sockets, exactly.**  As long as no client that the loop turns to
has hung up, it owns what it accepted and closes each descriptor once.  And if it
does so up to the start of an iteration or to its return, no such client came. -/
theorem ownsAccepted_iff {digest : List TopologyMessage} {events : List LoopEvent}
    (hrun : exec (step parse) (start digest) events = some s) :
    (Along (step parse) ServesConnected (start digest) events →
      Throughout (step parse) OwnsAccepted (start digest) events) ∧
    (s.pc = .top ∨ s.pc = .returned →
      Throughout (step parse) OwnsAccepted (start digest) events →
        Along (step parse) ServesConnected (start digest) events) := by
  constructor
  · exact throughout_of_invariant (fun _ _ _ h hguard hstep => h.step hguard hstep)
      (fun _ h => h.ownsAccepted) (start_tidy digest)
  · intro hpc howns
    refine along_of_escape (T := fun s => ∃ fd, s.Loses fd)
      (fun _ _ _ h hguard hstep => Tidy.step h hguard hstep)
      (fun _ _ _ h hguard hstep => Tidy.loses h hguard hstep)
      (fun _ _ _ ⟨fd, h⟩ hstep => ⟨fd, h.step hstep⟩) (start_tidy digest) hrun ?_
    rintro ⟨fd, h⟩
    exact h.not_ownsAccepted hpc (howns.last hrun)

/-- Client 7 is accepted. -/
def acceptsSeven : List LoopEvent :=
  [.snapshot [], .poll (some { listen := true }), .accept (some 7), .advance, .advance]

/-- It sends a packet, and the server is shut down. -/
def packetAndShutdown : List LoopEvent :=
  acceptsSeven ++
  [.snapshot [7], .poll (some { clients := [{ pollin := true }] }), .advance,
    .read (some [1]) 77, .advance, .snapshot [7],
    .poll (some { shutdown := true, clients := [{}] }), .close [7]]

/-- It hangs up, and the server is shut down. -/
def hangUpAndShutdown : List LoopEvent :=
  acceptsSeven ++
  [.snapshot [7], .poll (some { clients := [{ pollin := true, pollhup := true }] }), .advance,
    .read (some []) 77, .advance, .advance, .advance, .snapshot [],
    .poll (some { shutdown := true }), .close []]

/-- A client sends a packet, and the server is shut down. -/
theorem ownsAccepted_iff_packetAndShutdown :
    Throughout (step fun _ => {}) OwnsAccepted (start []) packetAndShutdown := by
  obtain ⟨s, hrun⟩ := Option.isSome_iff_exists.mp
    (show (exec (step fun _ => {}) (start []) packetAndShutdown).isSome by decide +kernel)
  exact (ownsAccepted_iff hrun).1 (by decide +kernel)

/-- Nothing closes the socket of a client that has hung up. -/
theorem hangUpAndShutdown_leaks :
    ¬ Throughout (step fun _ => {}) OwnsAccepted (start []) hangUpAndShutdown := by
  intro howns
  obtain ⟨s, hrun⟩ := Option.isSome_iff_exists.mp
    (show (exec (step fun _ => {}) (start []) hangUpAndShutdown).isSome by decide +kernel)
  have hfinal : ∀ s ∈ exec (step fun _ => {}) (start []) hangUpAndShutdown,
      s.pc = .returned ∧ s.mClients = ∅ ∧ s.accepted = [7] ∧ s.closed = [] := by
    decide +kernel
  obtain ⟨hpc, hempty, haccepted, hclosed⟩ := hfinal s hrun
  have hcount := (howns.last hrun).returned hpc [] List.nodup_nil (by rw [hempty]; rfl) 7
  rw [onRet, closeAll, hclosed, haccepted] at hcount
  simp at hcount

end UDSServer

end IpcPubsub
