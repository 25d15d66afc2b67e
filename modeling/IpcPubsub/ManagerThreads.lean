import IpcPubsub.GuardedRuns
import IpcPubsub.Messages

/-!
# The threads of a manager

The part of `lib/TopologyManager.cc` that shares `mClient` and `mBacklog`
between threads: `MainLoop`, `Send` as the public calls and the flush of the
backlog run it, and the destructor.

`Send` holds `mMtx` from its test of `mClient` to the end of the call of
`UDSClient::Send`, so one thread at a time is between the two (`sending`); any
number of threads may be waiting to get there.  The writes of `mClient` by
`MainLoop` and by the destructor take no lock and may come at any moment.  So
may what happens to a client by itself: the hub closes its socket, or its own
thread ends.  Whether a send succeeds is up to the kernel.

A client is shared by `mClient` and the local `client` of `MainLoop`.  When
neither refers to it any more its destructor runs, which signals its shutdown
event.
-/

namespace IpcPubsub

/-- A message of a public call, with the number of the call. -/
structure Request where
  number : Nat
  msg : TopologyMessage
  deriving DecidableEq

/-- A `UDSClient`. -/
structure UDSClient where
  /-- The hub has closed the socket. -/
  hubClosed : Bool := false
  /-- The shutdown event has been signalled. -/
  signalled : Bool := false
  /-- The requests that `Send` was handed and that it sent. -/
  sent : List Request := []
  deriving DecidableEq

/-- Which thread is in `TopologyManager::Send`. -/
inductive Sender
  | user
  | mainLoop
  deriving DecidableEq

/-- Where `TopologyManager::MainLoop` is.  Clients are named by the order in
which they were created; the first argument is the local `client`. -/
inductive MainPoint
  /-- At the head of the loop. -/
  | top
  /-- In `UDSClient::Create`. -/
  | creating
  | introducing (client : Nat)
  /-- Before the critical section. -/
  | publishing (client : Nat)
  /-- In the loop over the local `backlog`, with what is left of it. -/
  | flushing (client : Nat) (backlog : List Request)
  /-- Before `mClient->Wait()` is evaluated. -/
  | evaluating (client : Nat)
  /-- In `Wait` on the client `mClient` referred to. -/
  | waiting (client waitedOn : Nat)
  /-- Before `mClient = nullptr`. -/
  | clearing (client : Nat)
  /-- Before the second test of `mShutdown`. -/
  | checking (client : Option Nat)
  /-- Starting a server, and sleeping. -/
  | serving (client : Option Nat)
  | done
  deriving DecidableEq

/-- The local `client`. -/
def MainPoint.client : MainPoint → Option Nat
  | .introducing c => some c
  | .publishing c => some c
  | .flushing c _ => some c
  | .evaluating c => some c
  | .waiting c _ => some c
  | .clearing c => some c
  | .checking c => c
  | .serving c => c
  | _ => none

/-- What is left of the local `backlog`. -/
def MainPoint.backlog : MainPoint → List Request
  | .flushing _ backlog => backlog
  | _ => []

/-- A null pointer is dereferenced. -/
inductive Crash
  | waitOnNull
  | sendOnNull
  deriving DecidableEq

structure ManagerThreads where
  mShutdown : Bool := false
  mClient : Option Nat := none
  mBacklog : List Request := []
  /-- Every client that was created, in order. -/
  clients : List UDSClient := []
  pc : MainPoint := .top
  /-- The thread in `Send` that has found `mClient` set, and its message. -/
  sending : Option (Sender × Request) := none
  /-- The number of public calls made. -/
  calls : Nat := 0
  /-- The destructor waits for `MainLoop` to end. -/
  joining : Bool := false
  crash : Option Crash := none
  deriving DecidableEq

inductive ThreadEvent
  /-- A public call gets the lock in `Send` and tests `mClient`. -/
  | call (msg : TopologyMessage)
  /-- The thread in `Send` calls `mClient->Send`. -/
  | transmit (ok : Bool)
  /-- `MainLoop` takes its next step. -/
  | advance
  /-- `UDSClient::Create` returns, with a client or not. -/
  | create (connected : Bool)
  /-- `Wait` returns, because of the shutdown event or a failed `poll`. -/
  | waitReturns (failed : Bool)
  /-- The destructor sets `mShutdown`. -/
  | destroy
  /-- The destructor clears `mClient`. -/
  | destroyClear
  | hubCloses (client : Nat)
  /-- The thread of a client ends. -/
  | clientEnds (client : Nat)
  deriving DecidableEq

namespace ManagerThreads

/-- The locked part of `Send` up to the test of `mClient`. -/
def beginSend (s : ManagerThreads) (sender : Sender) (request : Request) : ManagerThreads :=
  match s.mClient with
  | none => { s with mBacklog := s.mBacklog ++ [request] }
  | some _ => { s with sending := some (sender, request) }

/-- The rest of `Send`. -/
def endSend (s : ManagerThreads) (request : Request) (ok : Bool) : ManagerThreads :=
  match s.mClient with
  | none => { s with crash := some .sendOnNull }
  | some c =>
      if ok then
        { s with
          clients := s.clients.modify c fun client =>
            { client with sent := client.sent ++ [request] }
          sending := none }
      else
        { s with
          mClient := none
          mBacklog := s.mBacklog ++ [request]
          sending := none }

/-- The next step of `MainLoop`, where it does not wait for an answer. -/
def advance (s : ManagerThreads) : Option ManagerThreads :=
  match s.pc with
  | .top => some { s with pc := if s.mShutdown then .done else .creating }
  | .introducing c =>
      if s.sending.isSome then none else some { s with pc := .publishing c }
  | .publishing c =>
      if s.sending.isSome then none
      else some { s with
        mClient := some c
        mBacklog := []
        pc := .flushing c s.mBacklog }
  | .flushing c (request :: backlog) =>
      if s.sending.isSome then none
      else some { s.beginSend .mainLoop request with pc := .flushing c backlog }
  | .flushing c [] =>
      -- the last `Send` of the loop must have returned
      if s.sending.map Prod.fst = some .mainLoop then none
      else some { s with pc := .evaluating c }
  | .evaluating c =>
      match s.mClient with
      | none => some { s with crash := some .waitOnNull }
      | some waitedOn => some { s with pc := .waiting c waitedOn }
  | .clearing c => some { s with mClient := none, pc := .checking (some c) }
  | .checking c => some { s with pc := if s.mShutdown then .done else .serving c }
  | .serving _ => some { s with pc := .top }
  | _ => none

/-- What an event does, but for the destructor of a client. -/
def act (s : ManagerThreads) : ThreadEvent → Option ManagerThreads
  | .call msg =>
      if s.sending.isSome then none
      else some { s.beginSend .user { number := s.calls, msg := msg } with calls := s.calls + 1 }
  | .transmit ok => s.sending.map fun sending => s.endSend sending.2 ok
  | .advance => s.advance
  | .create connected =>
      if s.pc ≠ .creating then none
      else if connected then
        some { s with clients := s.clients ++ [{}], pc := .introducing s.clients.length }
      else some { s with pc := .checking none }
  | .waitReturns failed =>
      match s.pc with
      | .waiting c waitedOn =>
          if failed ∨ (s.clients[waitedOn]?).any UDSClient.signalled then
            some { s with pc := .clearing c }
          else none
      | _ => none
  | .destroy => if s.mShutdown then none else some { s with mShutdown := true }
  | .destroyClear =>
      if s.mShutdown ∧ ¬ s.joining then
        some { s with mClient := none, joining := true }
      else none
  | .hubCloses c => some { s with
      clients := s.clients.modify c fun client => { client with hubClosed := true } }
  | .clientEnds c => some { s with
      clients := s.clients.modify c fun client => { client with signalled := true } }

/-- The destructor of every client that nothing refers to any more. -/
def collect (s : ManagerThreads) : ManagerThreads :=
  { s with
    clients := s.clients.mapIdx fun c client =>
      if s.mClient = some c ∨ s.pc.client = some c then client
      else { client with signalled := true } }

/-- One event; nothing happens after a crash. -/
def step (s : ManagerThreads) (event : ThreadEvent) : Option ManagerThreads :=
  if s.crash.isSome then none else (s.act event).map collect

/-! ## What an event can do -/

section Acts

variable (s : ManagerThreads)

/-- The steps of `MainLoop` that move it on and change nothing else. -/
inductive Moves : ThreadEvent → MainPoint → Prop
  | head (hpc : s.pc = .top) : Moves .advance (if s.mShutdown then .done else .creating)
  | introduced {c : Nat} (hpc : s.pc = .introducing c) (hfree : s.sending = none) :
      Moves .advance (.publishing c)
  | flushed {c : Nat} (hpc : s.pc = .flushing c [])
      (hreturned : s.sending.map Prod.fst ≠ some .mainLoop) : Moves .advance (.evaluating c)
  | waits {c waitedOn : Nat} (hpc : s.pc = .evaluating c) (hclient : s.mClient = some waitedOn) :
      Moves .advance (.waiting c waitedOn)
  | returns {c waitedOn : Nat} {failed : Bool} (hpc : s.pc = .waiting c waitedOn) :
      Moves (.waitReturns failed) (.clearing c)
  | checks {c : Option Nat} (hpc : s.pc = .checking c) :
      Moves .advance (if s.mShutdown then .done else .serving c)
  | serves {c : Option Nat} (hpc : s.pc = .serving c) : Moves .advance .top
  | unconnected (hpc : s.pc = .creating) : Moves (.create false) (.checking none)

/-- Everything an event can do, but for the destructor of a client. -/
inductive Acts : ThreadEvent → ManagerThreads → Prop
  | moves {event : ThreadEvent} {pc : MainPoint} (hmoves : Moves s event pc) :
      Acts event { s with pc := pc }
  /-- A call without a client. -/
  | callWaits {msg : TopologyMessage} (hfree : s.sending = none) (hnull : s.mClient = none) :
      Acts (.call msg) { s with
        mBacklog := s.mBacklog ++ [{ number := s.calls, msg := msg }]
        calls := s.calls + 1 }
  | callBegins {msg : TopologyMessage} {c : Nat} (hfree : s.sending = none)
      (hclient : s.mClient = some c) :
      Acts (.call msg) { s with
        sending := some (.user, { number := s.calls, msg := msg })
        calls := s.calls + 1 }
  | sends {sender : Sender} {request : Request} {c : Nat}
      (hsending : s.sending = some (sender, request)) (hclient : s.mClient = some c) :
      Acts (.transmit true) { s with
        clients := s.clients.modify c fun client =>
          { client with sent := client.sent ++ [request] }
        sending := none }
  | fails {sender : Sender} {request : Request} {c : Nat}
      (hsending : s.sending = some (sender, request)) (hclient : s.mClient = some c) :
      Acts (.transmit false) { s with
        mClient := none
        mBacklog := s.mBacklog ++ [request]
        sending := none }
  /-- `mClient` was cleared under the thread in `Send`. -/
  | sendCrashes {sender : Sender} {request : Request} {ok : Bool}
      (hsending : s.sending = some (sender, request)) (hnull : s.mClient = none) :
      Acts (.transmit ok) { s with crash := some .sendOnNull }
  | creates (hpc : s.pc = .creating) :
      Acts (.create true) { s with
        clients := s.clients ++ [{}]
        pc := .introducing s.clients.length }
  | publishes {c : Nat} (hpc : s.pc = .publishing c) (hfree : s.sending = none) :
      Acts .advance { s with
        mClient := some c
        mBacklog := []
        pc := .flushing c s.mBacklog }
  /-- The flush without a client. -/
  | flushWaits {c : Nat} {request : Request} {backlog : List Request}
      (hpc : s.pc = .flushing c (request :: backlog)) (hfree : s.sending = none)
      (hnull : s.mClient = none) :
      Acts .advance { s with
        mBacklog := s.mBacklog ++ [request]
        pc := .flushing c backlog }
  | flushBegins {c d : Nat} {request : Request} {backlog : List Request}
      (hpc : s.pc = .flushing c (request :: backlog)) (hfree : s.sending = none)
      (hclient : s.mClient = some d) :
      Acts .advance { s with
        sending := some (.mainLoop, request)
        pc := .flushing c backlog }
  | waitCrashes {c : Nat} (hpc : s.pc = .evaluating c) (hnull : s.mClient = none) :
      Acts .advance { s with crash := some .waitOnNull }
  | clears {c : Nat} (hpc : s.pc = .clearing c) :
      Acts .advance { s with mClient := none, pc := .checking (some c) }
  | destroy : Acts .destroy { s with mShutdown := true }
  | destroyClear :
      Acts .destroyClear { s with mClient := none, joining := true }
  | hubCloses {c : Nat} :
      Acts (.hubCloses c) { s with
        clients := s.clients.modify c fun client => { client with hubClosed := true } }
  | clientEnds {c : Nat} :
      Acts (.clientEnds c) { s with
        clients := s.clients.modify c fun client => { client with signalled := true } }

variable {s} {s' : ManagerThreads} {event : ThreadEvent}

/-- What the next step of `MainLoop` can do, by the point it has come to. -/
theorem acts_of_advance (h : s.advance = some s') : Acts s .advance s' := by
  unfold advance at h
  split at h
  · rename_i hpc
    obtain rfl := Option.some.inj h
    exact .moves (.head hpc)
  · rename_i c hpc
    split at h
    · cases h
    · rename_i hfree
      obtain rfl := Option.some.inj h
      exact .moves (.introduced hpc (by simpa using hfree))
  · rename_i c hpc
    split at h
    · cases h
    · rename_i hfree
      obtain rfl := Option.some.inj h
      exact .publishes hpc (by simpa using hfree)
  · rename_i c request backlog hpc
    split at h
    · cases h
    · rename_i hfree
      obtain rfl := Option.some.inj h
      have hnone : s.sending = none := by simpa using hfree
      unfold beginSend
      split
      · rename_i hnull
        exact .flushWaits hpc hnone hnull
      · rename_i d hclient
        exact .flushBegins hpc hnone hclient
  · rename_i c hpc
    split at h
    · cases h
    · rename_i hreturned
      obtain rfl := Option.some.inj h
      exact .moves (.flushed hpc hreturned)
  · rename_i c hpc
    split at h
    · rename_i hnull
      obtain rfl := Option.some.inj h
      exact .waitCrashes hpc hnull
    · rename_i waitedOn hclient
      obtain rfl := Option.some.inj h
      exact .moves (.waits hpc hclient)
  · rename_i c hpc
    obtain rfl := Option.some.inj h
    exact .clears hpc
  · rename_i c hpc
    obtain rfl := Option.some.inj h
    exact .moves (.checks hpc)
  · rename_i c hpc
    obtain rfl := Option.some.inj h
    exact .moves (.serves hpc)
  · cases h

/-- **What an event can do,** one case for each line of the three threads that matters. -/
theorem act_cases (h : s.act event = some s') : Acts s event s' := by
  cases event with
  | call msg =>
      simp only [act] at h
      split at h
      · cases h
      · rename_i hfree
        obtain rfl := Option.some.inj h
        have hnone : s.sending = none := by simpa using hfree
        unfold beginSend
        split
        · rename_i hnull
          exact .callWaits hnone hnull
        · rename_i c hclient
          exact .callBegins hnone hclient
  | transmit ok =>
      simp only [act, Option.map_eq_some_iff] at h
      obtain ⟨⟨sender, request⟩, hsending, rfl⟩ := h
      unfold endSend
      split
      · rename_i hnull
        exact .sendCrashes hsending hnull
      · rename_i c hclient
        cases ok with
        | true => exact .sends hsending hclient
        | false => exact .fails hsending hclient
  | advance => exact acts_of_advance h
  | create connected =>
      simp only [act] at h
      split at h
      · cases h
      · rename_i hpc
        have hcreating : s.pc = .creating := not_not.mp hpc
        cases connected with
        | true =>
            obtain rfl := Option.some.inj h
            exact .creates hcreating
        | false =>
            obtain rfl := Option.some.inj h
            exact .moves (.unconnected hcreating)
  | waitReturns failed =>
      simp only [act] at h
      split at h
      · rename_i c waitedOn hpc
        split at h
        · obtain rfl := Option.some.inj h
          exact .moves (.returns hpc)
        · cases h
      · cases h
  | destroy =>
      simp only [act] at h
      split at h
      · cases h
      · obtain rfl := Option.some.inj h
        exact .destroy
  | destroyClear =>
      simp only [act] at h
      split at h
      · obtain rfl := Option.some.inj h
        exact .destroyClear
      · cases h
  | hubCloses c =>
      obtain rfl := Option.some.inj h
      exact .hubCloses
  | clientEnds c =>
      obtain rfl := Option.some.inj h
      exact .clientEnds

/-- A step is one of these acts and the destructors it leads to, and there is none after a
crash. -/
theorem step_cases (h : s.step event = some s') :
    s.crash = none ∧ ∃ acted, Acts s event acted ∧ s' = acted.collect := by
  unfold step at h
  split at h
  · cases h
  · rename_i hcrash
    obtain ⟨acted, hacted, rfl⟩ := Option.map_eq_some_iff.mp h
    exact ⟨by simpa using hcrash, acted, act_cases hacted, rfl⟩

end Acts

/-! ## Who refers to a client -/

section Shared

/-- The client that `MainLoop` has published and has not cleared yet. -/
def published : MainPoint → Option Nat
  | .flushing c _ => some c
  | .evaluating c => some c
  | .waiting c _ => some c
  | .clearing c => some c
  | _ => none

/-- The client that is published is the local `client` of `MainLoop`. -/
theorem client_of_published {pc : MainPoint} {c : Nat} (h : published pc = some c) :
    pc.client = some c := by
  cases pc <;> simp_all [published, MainPoint.client]

/-- The clients in use exist, and `mClient` is only ever the local `client` of
`MainLoop`. -/
structure Shared (s : ManagerThreads) : Prop where
  created : ∀ c, s.pc.client = some c → c < s.clients.length
  shared : ∀ c, s.mClient = some c → published s.pc = some c
  waitedOn : ∀ c d, s.pc = .waiting c d → d = c

variable {s s' : ManagerThreads} {event : ThreadEvent}

/-- In the beginning there are no clients. -/
theorem start_shared : Shared {} where
  created := nofun
  shared := nofun
  waitedOn := nofun

/-- The number of clients, `mClient` and the place of `MainLoop` decide. -/
theorem Shared.congr (h : s.Shared) (hclients : s'.clients.length = s.clients.length)
    (hclient : ∀ c, s'.mClient = some c → s.mClient = some c) (hpc : s'.pc = s.pc) :
    s'.Shared where
  created := fun c hc => by
    rw [hclients]
    exact h.created c (hpc ▸ hc)
  shared := fun c hc => by
    rw [hpc]
    exact h.shared c (hclient c hc)
  waitedOn := fun c d hc => h.waitedOn c d (hpc ▸ hc)

/-- A step of `MainLoop` that only moves it on keeps its `client`, or lets go of it when it is
no longer published. -/
theorem Shared.moves {pc : MainPoint} (h : s.Shared) (hmoves : Moves s event pc) :
    ({ s with pc := pc } : ManagerThreads).Shared := by
  have hnone : published s.pc = none → ∀ c, s.mClient ≠ some c := by
    intro hpc c hc
    rw [h.shared c hc] at hpc
    cases hpc
  have hcreated := h.created
  cases hmoves with
  | head hpc =>
      have hnull := hnone (by simp [hpc, published])
      constructor
      · intro c hc
        split at hc <;> cases hc
      · exact fun c hc => absurd hc (hnull c)
      · intro c d hc
        simp only at hc
        split at hc <;> cases hc
  | introduced hpc hfree =>
      have hnull := hnone (by simp [hpc, published])
      rw [hpc] at hcreated
      exact ⟨hcreated, fun c hc => absurd hc (hnull c), nofun⟩
  | flushed hpc hreturned =>
      have hshared := h.shared
      rw [hpc] at hcreated hshared
      exact ⟨hcreated, hshared, nofun⟩
  | waits hpc hclient =>
      have hshared := h.shared
      rw [hpc] at hcreated hshared
      refine ⟨hcreated, hshared, fun c d hc => ?_⟩
      cases hc
      exact (Option.some.inj (hshared _ hclient)).symm
  | returns hpc =>
      have hshared := h.shared
      rw [hpc] at hcreated hshared
      exact ⟨hcreated, hshared, nofun⟩
  | checks hpc =>
      have hnull := hnone (by simp [hpc, published])
      rw [hpc] at hcreated
      constructor
      · intro c hc
        simp only at hc
        split at hc
        · cases hc
        · exact hcreated c hc
      · exact fun c hc => absurd hc (hnull c)
      · intro c d hc
        simp only at hc
        split at hc <;> cases hc
  | serves hpc =>
      have hnull := hnone (by simp [hpc, published])
      exact ⟨nofun, fun c hc => absurd hc (hnull c), nofun⟩
  | unconnected hpc =>
      have hnull := hnone (by simp [hpc, published])
      exact ⟨nofun, fun c hc => absurd hc (hnull c), nofun⟩

/-- Every act keeps `mClient` null or the `client` of `MainLoop`: nobody else sets it. -/
theorem Shared.acts (h : s.Shared) (hacts : Acts s event s') : s'.Shared := by
  cases hacts with
  | moves hmoves => exact h.moves hmoves
  | callWaits _ _ => exact h.congr rfl (fun _ hc => hc) rfl
  | callBegins _ _ => exact h.congr rfl (fun _ hc => hc) rfl
  | sends _ _ => exact h.congr (List.length_modify _ _ _) (fun _ hc => hc) rfl
  | fails _ _ => exact h.congr rfl nofun rfl
  | sendCrashes _ _ => exact h.congr rfl (fun _ hc => hc) rfl
  | waitCrashes _ _ => exact h.congr rfl (fun _ hc => hc) rfl
  | destroy => exact h.congr rfl (fun _ hc => hc) rfl
  | destroyClear => exact h.congr rfl nofun rfl
  | hubCloses => exact h.congr (List.length_modify _ _ _) (fun _ hc => hc) rfl
  | clientEnds => exact h.congr (List.length_modify _ _ _) (fun _ hc => hc) rfl
  | creates hpc =>
      constructor
      · intro c hc
        obtain rfl : s.clients.length = c := Option.some.inj hc
        simp
      · intro c hc
        have hshared := h.shared c hc
        simp [hpc, published] at hshared
      · exact nofun
  | publishes hpc hfree =>
      have hcreated := h.created
      rw [hpc] at hcreated
      exact ⟨hcreated, fun c hc => hc, nofun⟩
  | flushWaits hpc hfree hnull =>
      have hcreated := h.created
      rw [hpc] at hcreated
      refine ⟨hcreated, fun c hc => ?_, nofun⟩
      cases hnull.symm.trans hc
  | flushBegins hpc hfree hclient =>
      have hcreated := h.created
      have hshared := h.shared
      rw [hpc] at hcreated hshared
      exact ⟨hcreated, hshared, nofun⟩
  | clears hpc =>
      have hcreated := h.created
      rw [hpc] at hcreated
      exact ⟨hcreated, nofun, nofun⟩

/-- And the destructor of a client leaves the references as they are. -/
theorem Shared.step (h : s.Shared) (hstep : s.step event = some s') : s'.Shared := by
  obtain ⟨_, acted, hacts, rfl⟩ := step_cases hstep
  exact (h.acts hacts).congr (by simp [collect]) (fun _ hc => hc) rfl

end Shared

end ManagerThreads

end IpcPubsub
