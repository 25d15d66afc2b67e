import IpcPubsub.ManagerThreads

/-!
# The life of a client

`MainLoop` publishes its client in `mClient`, sends the backlog, and waits on
`mClient` until the connection ends.  A failed `Send` on any thread and the
destructor clear `mClient` in the meantime.

Before the wait this leaves `MainLoop` with a null pointer
(`wait_on_client_iff`).  During the wait it leaves `MainLoop` parked: its local
`client` keeps the object alive, so that clearing `mClient` destroys nothing and
signals nothing (`never_parked_iff`).
-/

namespace IpcPubsub

open GuardedRuns

namespace ManagerThreads

/-- `MainLoop` is about to evaluate `mClient->Wait()`. -/
def evaluates : MainPoint → Bool
  | .evaluating _ => true
  | _ => false

/-- The client on which `MainLoop` is blocked in `Wait`. -/
def waitedOn : MainPoint → Option Nat
  | .waiting _ c => some c
  | _ => none

/-! ## Up to the wait -/

/-- `mClient` is not null when `mClient->Wait()` is evaluated. -/
def EvaluatesClient (s : ManagerThreads) : ThreadEvent → Prop
  | .advance => evaluates s.pc = true → s.mClient ≠ none
  | _ => True

/-- `MainLoop` is about to set `mClient`. -/
def isPublishing : MainPoint → Bool
  | .publishing _ => true
  | _ => false

/-- `MainLoop` sets `mClient`. -/
def SetsClient (s : ManagerThreads) : ThreadEvent → Prop
  | .advance => isPublishing s.pc = true
  | _ => False

/-- A `Send` fails, or the destructor clears `mClient`. -/
def ClearsClient (s : ManagerThreads) : ThreadEvent → Prop
  | .transmit ok => ok = false ∧ s.mClient ≠ none
  | .destroyClear => True
  | _ => False

/-- Whenever `mClient->Wait()` is evaluated in a run, no send has failed since `MainLoop` set
`mClient`, and the destructor has not cleared it. -/
def Uncleared (events : List ThreadEvent) : Prop :=
  ∀ before after s, events = before ++ .advance :: after → exec step {} before = some s →
    evaluates s.pc = true → ¬ Since step ClearsClient SetsClient {} before

instance (s : ManagerThreads) : DecidablePred s.EvaluatesClient
  | .advance => inferInstanceAs (Decidable (evaluates s.pc = true → s.mClient ≠ none))
  | .call _ => isTrue trivial
  | .transmit _ => isTrue trivial
  | .create _ => isTrue trivial
  | .waitReturns _ => isTrue trivial
  | .destroy => isTrue trivial
  | .destroyClear => isTrue trivial
  | .hubCloses _ => isTrue trivial
  | .clientEnds _ => isTrue trivial

section Evaluate

variable {s s' : ManagerThreads} {event : ThreadEvent}

/-- A client that is published after a step of `MainLoop` was so before. -/
theorem Moves.published {pc : MainPoint} (h : Moves s event pc)
    (hafter : (ManagerThreads.published pc).isSome) : (ManagerThreads.published s.pc).isSome := by
  cases h with
  | head hpc => split at hafter <;> cases hafter
  | checks hpc => split at hafter <;> cases hafter
  | introduced _ _ => cases hafter
  | serves _ => cases hafter
  | unconnected _ => cases hafter
  | flushed hpc _ => rw [hpc]; rfl
  | waits hpc _ => rw [hpc]; rfl
  | returns hpc => rw [hpc]; rfl

/-- What one event makes of `mClient` while `MainLoop` has a client published: a failed send
and the destructor clear it, and only `MainLoop` sets it, when it publishes the client. -/
theorem Acts.mClient_iff (hacts : Acts s event s')
    (hafter : (ManagerThreads.published s'.pc).isSome) :
    ((ManagerThreads.published s.pc).isSome ∨ s.SetsClient event) ∧
      (s'.mClient = none ↔ s.ClearsClient event ∨ s.mClient = none ∧ ¬ s.SetsClient event) := by
  cases hacts with
  | moves hmoves =>
      refine ⟨.inl (hmoves.published hafter), ?_⟩
      cases hmoves <;> simp [ClearsClient, SetsClient, isPublishing, *]
  | callWaits _ _ => exact ⟨.inl hafter, by simp [ClearsClient, SetsClient]⟩
  | callBegins _ _ => exact ⟨.inl hafter, by simp [ClearsClient, SetsClient]⟩
  | sends _ _ => exact ⟨.inl hafter, by simp [ClearsClient, SetsClient]⟩
  | fails _ hclient => exact ⟨.inl hafter, by simp [ClearsClient, hclient]⟩
  | sendCrashes _ hnull => exact ⟨.inl hafter, by simp [ClearsClient, SetsClient, hnull]⟩
  | creates _ => exact nomatch hafter
  | clears _ => exact nomatch hafter
  | publishes hpc _ =>
      have hsets : s.SetsClient .advance := by simp [SetsClient, isPublishing, hpc]
      exact ⟨.inr hsets, by simp [ClearsClient, hsets]⟩
  | flushWaits hpc _ _ =>
      exact ⟨.inl (by rw [hpc]; rfl), by simp [ClearsClient, SetsClient, isPublishing, hpc]⟩
  | flushBegins hpc _ _ =>
      exact ⟨.inl (by rw [hpc]; rfl), by simp [ClearsClient, SetsClient, isPublishing, hpc]⟩
  | waitCrashes hpc _ =>
      exact ⟨.inl hafter, by simp [ClearsClient, SetsClient, isPublishing, hpc]⟩
  | destroy => exact ⟨.inl hafter, by simp [ClearsClient, SetsClient]⟩
  | destroyClear => exact ⟨.inl hafter, by simp [ClearsClient]⟩
  | hubCloses => exact ⟨.inl hafter, by simp [ClearsClient, SetsClient]⟩
  | clientEnds => exact ⟨.inl hafter, by simp [ClearsClient, SetsClient]⟩

/-- While `MainLoop` has a client published, `mClient` is null exactly when it was cleared
since. -/
theorem mClient_eq_none_iff {events : List ThreadEvent} (hs : exec step {} events = some s)
    (hpublished : (published s.pc).isSome) :
    s.mClient = none ↔ Since step ClearsClient SetsClient {} events := by
  refine register_iff_since (D := fun s => (published s.pc).isSome)
    (F := fun s => s.mClient = none) ?_ (by simp [published]) hs hpublished
  intro s event s' hstep hafter
  obtain ⟨_, acted, hacts, rfl⟩ := step_cases hstep
  exact hacts.mClient_iff hafter

/-- The point at which it evaluates `mClient->Wait()` is one of these. -/
theorem published_of_evaluates {pc : MainPoint} (h : evaluates pc = true) :
    (published pc).isSome := by
  cases pc <;> simp_all [evaluates, published]

end Evaluate

/-- **The client that is waited on.**  In every run `mClient` is set whenever
`MainLoop` evaluates `mClient->Wait()` exactly when, whenever it does, no send
has failed since it set `mClient` and the destructor has not cleared it. -/
theorem wait_on_client_iff (events : List ThreadEvent) :
    Along step EvaluatesClient {} events ↔ Uncleared events := by
  rw [along_iff_split]
  constructor
  · intro h before after s heq hs hevaluates hcleared
    have hset : s.mClient ≠ none := h before .advance after s heq hs hevaluates
    exact hset ((mClient_eq_none_iff hs (published_of_evaluates hevaluates)).mpr hcleared)
  · intro h before event after s heq hs
    cases event with
    | advance =>
        intro hevaluates hnull
        refine h before after s heq hs hevaluates ?_
        exact (mClient_eq_none_iff hs (published_of_evaluates hevaluates)).mp hnull
    | _ => trivial

/-- A public call fails to send between the flush and the wait. -/
def failsBeforeWait : List ThreadEvent :=
  [.advance, .create true, .advance, .advance,
    .call { op := .topicChange { name := "topic", nodeId := 5, op := .announce } },
    .transmit false, .advance, .advance]

/-- `MainLoop` waits on a null pointer. -/
theorem not_evaluatesClient_failsBeforeWait :
    (exec step {} failsBeforeWait).isSome ∧ ¬ Along step EvaluatesClient {} failsBeforeWait := by
  decide +kernel

/-! ## In the wait -/

/-- Something will end the wait on a client: its shutdown event is signalled, or
the hub has closed its socket. -/
def Woken (s : ManagerThreads) (c : Nat) : Prop :=
  ∃ client ∈ s.clients[c]?, client.signalled = true ∨ client.hubClosed = true

instance (s : ManagerThreads) (c : Nat) : Decidable (s.Woken c) :=
  inferInstanceAs (Decidable (∃ client ∈ s.clients[c]?, _ ∨ _))

/-- `MainLoop` is not blocked on a client that `mClient` does not refer to any
more, unless something will end the wait. -/
def NeverParked (s : ManagerThreads) : Prop :=
  ∀ c ∈ waitedOn s.pc, s.mClient = some c ∨ s.Woken c

instance : DecidablePred NeverParked := fun s =>
  inferInstanceAs (Decidable (∀ c ∈ waitedOn s.pc, s.mClient = some c ∨ s.Woken c))

/-- A failed send and the destructor clear `mClient` under a waiting `MainLoop`
only when something will end the wait. -/
def ClearsWoken (s : ManagerThreads) : ThreadEvent → Prop
  | .transmit ok => ok = false → s.mClient ≠ none → ∀ c ∈ waitedOn s.pc, s.Woken c
  | .destroyClear => s.mClient ≠ none → ∀ c ∈ waitedOn s.pc, s.Woken c
  | _ => True

instance (s : ManagerThreads) : DecidablePred s.ClearsWoken
  | .transmit ok => inferInstanceAs (Decidable
      (ok = false → s.mClient ≠ none → ∀ c ∈ waitedOn s.pc, s.Woken c))
  | .destroyClear => inferInstanceAs (Decidable
      (s.mClient ≠ none → ∀ c ∈ waitedOn s.pc, s.Woken c))
  | .call _ => isTrue trivial
  | .advance => isTrue trivial
  | .create _ => isTrue trivial
  | .waitReturns _ => isTrue trivial
  | .destroy => isTrue trivial
  | .hubCloses _ => isTrue trivial
  | .clientEnds _ => isTrue trivial

section Wait

variable {s s' : ManagerThreads} {event : ThreadEvent} {c : Nat}

/-- What has been signalled or closed stays so. -/
theorem Woken.modify (h : s.Woken c) {d : Nat} {f : UDSClient → UDSClient}
    (hclients : s'.clients = s.clients.modify d f)
    (hf : ∀ client, client.signalled = true ∨ client.hubClosed = true →
      (f client).signalled = true ∨ (f client).hubClosed = true) : s'.Woken c := by
  obtain ⟨client, hclient, hwoken⟩ := h
  unfold Woken
  rw [hclients, List.getElem?_modify]
  rw [Option.mem_def] at hclient
  rw [hclient]
  by_cases hdc : d = c
  · exact ⟨f client, by simp [hdc], hf client hwoken⟩
  · exact ⟨client, by simp [hdc], hwoken⟩

/-- The destructors that come after an act signal more clients and none less. -/
theorem Woken.collect (h : s.Woken c) : s.collect.Woken c := by
  obtain ⟨client, hclient, hwoken⟩ := h
  rw [Option.mem_def] at hclient
  unfold Woken ManagerThreads.collect
  simp only [List.getElem?_mapIdx, hclient, Option.map_some, Option.mem_def, Option.some.injEq,
    exists_eq_left']
  split
  · exact hwoken
  · exact Or.inl rfl

/-- **No client dies while `MainLoop` waits on it:** `Wait` runs on the client that the local
`shared_ptr` keeps alive. -/
theorem woken_of_collect (hshared : s.Shared) (hwaits : waitedOn s.pc = some c)
    (h : s.collect.Woken c) : s.Woken c := by
  obtain ⟨client, hclient, hwoken⟩ := h
  have hlocal : s.pc.client = some c := by
    cases hpc : s.pc with
    | waiting c' d =>
        obtain rfl : d = c := by simpa [hpc, waitedOn] using hwaits
        rw [hshared.waitedOn c' d hpc]
        rfl
    | _ => simp [hpc, waitedOn] at hwaits
  unfold ManagerThreads.collect at hclient
  rw [Option.mem_def, List.getElem?_mapIdx, Option.map_eq_some_iff] at hclient
  obtain ⟨client₀, hclient₀, heq⟩ := hclient
  rw [if_pos (Or.inr hlocal)] at heq
  exact ⟨client, heq ▸ hclient₀, hwoken⟩

/-- `MainLoop` starts to wait on the client that `mClient` refers to. -/
theorem Moves.waitedOn {pc : MainPoint} (h : Moves s event pc)
    (hwaits : ManagerThreads.waitedOn pc = some c) : s.mClient = some c := by
  cases h with
  | head hpc => split at hwaits <;> cases hwaits
  | checks hpc => split at hwaits <;> cases hwaits
  | waits hpc hclient =>
      obtain rfl := Option.some.inj hwaits
      exact hclient
  | _ => cases hwaits

/-- **Every guarded event** leaves `MainLoop` something to wait for: `mClient` still refers to the
client it waits on, or something will wake it. -/
theorem NeverParked.acts (h : s.NeverParked) (hguard : s.ClearsWoken event)
    (hacts : Acts s event s') : s'.NeverParked := by
  cases hacts with
  | moves hmoves => exact fun c hc => Or.inl (hmoves.waitedOn hc)
  | fails hsending hclient =>
      exact fun c hc => Or.inr (hguard rfl (by simp [hclient]) c hc)
  | destroyClear =>
      intro c hc
      refine Or.inr ?_
      rcases h c hc with hclient | hwoken
      · exact hguard (by simp [hclient]) c hc
      · exact hwoken
  | sends hsending hclient =>
      exact fun c hc => (h c hc).imp_right fun hwoken =>
        hwoken.modify rfl fun _ hclient => hclient
  | hubCloses =>
      exact fun c hc => (h c hc).imp_right fun hwoken => hwoken.modify rfl fun _ _ => Or.inr rfl
  | clientEnds =>
      exact fun c hc => (h c hc).imp_right fun hwoken => hwoken.modify rfl fun _ _ => Or.inl rfl
  | creates hpc => exact nofun
  | publishes hpc hfree => exact nofun
  | flushWaits hpc hfree hnull => exact nofun
  | flushBegins hpc hfree hclient => exact nofun
  | clears hpc => exact nofun
  | _ => exact h

/-- The same for a step, which adds the destructors. -/
theorem NeverParked.step (h : s.NeverParked) (hguard : s.ClearsWoken event)
    (hstep : s.step event = some s') : s'.NeverParked := by
  obtain ⟨_, acted, hacts, rfl⟩ := step_cases hstep
  exact fun c hc => (h.acts hguard hacts c hc).imp_right Woken.collect

/-- **Every other event** leaves it parked: it clears `mClient` while `MainLoop` waits on a client
that nothing will wake. -/
theorem not_neverParked (hshared : s.Shared) (hguard : ¬ s.ClearsWoken event)
    (hstep : s.step event = some s') : ¬ s'.NeverParked := by
  obtain ⟨_, acted, hacts, rfl⟩ := step_cases hstep
  intro hnever
  have hshared' : acted.Shared := hshared.acts hacts
  have hparked : acted.mClient = none → ∀ c ∈ waitedOn acted.pc, acted.Woken c := by
    intro hnull c hc
    rcases hnever c hc with hclient | hwoken
    · cases hnull.symm.trans hclient
    · exact woken_of_collect hshared' hc hwoken
  cases hacts with
  | fails hsending hclient => exact hguard fun _ _ c hc => hparked rfl c hc
  | destroyClear => exact hguard fun _ c hc => hparked rfl c hc
  | sends _ _ => exact hguard nofun
  | sendCrashes _ hnull => exact hguard fun _ hclient => absurd hnull hclient
  | moves hmoves => cases hmoves <;> exact hguard trivial
  | _ => exact hguard trivial

end Wait

/-- **`MainLoop` is never left parked on an abandoned client** at any moment of a
run, exactly when `mClient` is cleared under a waiting `MainLoop` only after the
client's shutdown event was signalled or the hub has closed its socket. -/
theorem never_parked_iff {events : List ThreadEvent} {s : ManagerThreads}
    (hrun : exec step {} events = some s) :
    Throughout step NeverParked {} events ↔ Along step ClearsWoken {} events := by
  refine throughout_iff_along (D := fun _ _ => True) (I := fun s => s.NeverParked ∧ s.Shared)
    (fun s h => h.1) ?_ ?_ ⟨nofun, start_shared⟩ (along_true _ _) hrun
  · exact fun s event s' h _ hguard hstep => ⟨h.1.step hguard hstep, h.2.step hstep⟩
  · exact fun s event s' h _ hguard hstep => not_neverParked h.2 hguard hstep

/-- The manager is destroyed while `MainLoop` waits; the hub is well. -/
def destroyedInWait : List ThreadEvent :=
  [.advance, .create true, .advance, .advance, .advance, .advance, .destroy, .destroyClear]

/-- Nothing ends the wait, and the destructor waits for `MainLoop`. -/
theorem parked_destroyedInWait :
    (exec step {} destroyedInWait).isSome ∧ ¬ Throughout step NeverParked {} destroyedInWait := by
  decide +kernel

/-- The hub closes the socket before the manager is destroyed. -/
def hubClosesFirst : List ThreadEvent :=
  [.advance, .create true, .advance, .advance, .advance, .advance, .hubCloses 0, .clientEnds 0,
    .destroy, .destroyClear, .waitReturns false, .advance, .advance]

/-- The hub has closed the connection when the send fails, so that `MainLoop` wakes up. -/
theorem never_parked_iff_hubClosesFirst : Throughout step NeverParked {} hubClosesFirst := by
  obtain ⟨s, hrun⟩ := Option.isSome_iff_exists.mp
    (show (exec step {} hubClosesFirst).isSome by decide +kernel)
  exact (never_parked_iff hrun).mpr (by decide +kernel)

end ManagerThreads

end IpcPubsub
