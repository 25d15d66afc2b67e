import IpcPubsub.CursorLog
import IpcPubsub.ManagerThreads

/-!
# The order of the public calls

A public call without a client leaves its message in `mBacklog`.  Once
`MainLoop` has a client it takes the backlog over and sends it, one lock at a
time, while the public calls already see the client.  What has been sent on a
connection, then what `MainLoop` still has to send, then `mBacklog` should hold
the messages in the order of the calls.

Two things break it.  A call that sends at once while something is still waiting
overtakes it; and the flush, when it finds no client or its send fails, puts a
message behind others that were made after it.  `call_order_iff` shows that
these are the only ways.
-/

namespace IpcPubsub

open GuardedRuns CursorLog

namespace ManagerThreads

/-- What is still to be sent: the local `backlog`, then `mBacklog`. -/
def waiting (s : ManagerThreads) : List Request :=
  s.pc.backlog ++ s.mBacklog

/-- What has been sent on a connection. -/
def sentOn (s : ManagerThreads) (c : Nat) : List Request :=
  ((s.clients[c]?).map UDSClient.sent).getD []

/-- On every connection, what was sent and what is waiting stand in the order of
the calls. -/
def InCallOrder (s : ManagerThreads) : Prop :=
  ∀ c, Increasing Request.number (s.sentOn c ++ s.waiting)

/-- A call does not send while something is waiting, and the flush does not put
a message back behind others, neither after a failed send nor without a client. -/
def KeepsOrder (s : ManagerThreads) : ThreadEvent → Prop
  | .transmit ok => ∀ sending ∈ s.sending, s.mClient ≠ none →
      (sending.1 = .user ↔ ok = true) → s.waiting = []
  | .advance => s.mClient = none → s.pc.backlog ≠ [] → s.pc.backlog.tail ++ s.mBacklog = []
  | _ => True

instance (s : ManagerThreads) : DecidablePred s.KeepsOrder
  | .transmit ok => inferInstanceAs (Decidable (∀ sending ∈ s.sending, s.mClient ≠ none →
      (sending.1 = .user ↔ ok = true) → s.waiting = []))
  | .advance => inferInstanceAs (Decidable (s.mClient = none → s.pc.backlog ≠ [] →
      s.pc.backlog.tail ++ s.mBacklog = []))
  | .call _ => isTrue trivial
  | .create _ => isTrue trivial
  | .waitReturns _ => isTrue trivial
  | .destroy => isTrue trivial
  | .destroyClear => isTrue trivial
  | .hubCloses _ => isTrue trivial
  | .clientEnds _ => isTrue trivial

/-- The message that the flush is sending, then what is waiting. -/
def pending (s : ManagerThreads) : List Request :=
  match s.sending with
  | some (.mainLoop, request) => request :: s.waiting
  | _ => s.waiting

/-- Every message recorded so far has a smaller number. -/
def bound (s : ManagerThreads) : Nat :=
  match s.sending with
  | some (.user, request) => request.number
  | _ => s.calls

/-- Messages in the order of their numbers, below a bound. -/
def Lined (requests : List Request) (bound : Nat) : Prop :=
  Increasing Request.number requests ∧ ∀ request ∈ requests, request.number < bound

section Lined

variable {requests : List Request} {bound bound' : Nat}

/-- Requests in line below a bound are so below a later one. -/
theorem Lined.mono (h : Lined requests bound) (hle : bound ≤ bound') : Lined requests bound' :=
  ⟨h.1, fun request hmem => lt_of_lt_of_le (h.2 request hmem) hle⟩

/-- Some of the requests, in the same order. -/
theorem Lined.sublist {fewer : List Request} (h : Lined requests bound)
    (hsub : fewer.Sublist requests) : Lined fewer bound :=
  ⟨List.Pairwise.sublist hsub h.1, fun request hmem => h.2 request (hsub.subset hmem)⟩

/-- The next message goes to the end, for its number is the bound of those before it. -/
theorem Lined.concat {request : Request} (h : Lined requests request.number) :
    Lined (requests ++ [request]) (request.number + 1) := by
  constructor
  · refine List.pairwise_append.mpr ⟨h.1, List.pairwise_singleton _ _, ?_⟩
    intro earlier hearlier later hlater
    obtain rfl := List.mem_singleton.mp hlater
    exact h.2 earlier hearlier
  · intro request' hmem
    rcases List.mem_append.mp hmem with hmem | hmem
    · have hlt := h.2 request' hmem
      omega
    · obtain rfl := List.mem_singleton.mp hmem
      omega

end Lined

/-- What `InCallOrder` needs to be kept: the message in the hands of the flush
comes before what is waiting, and that in the hands of a call after everything. -/
structure Ordered (s : ManagerThreads) : Prop where
  lined : ∀ c, Lined (s.sentOn c ++ s.pending) s.bound
  latest : ∀ request, s.sending = some (.user, request) → request.number < s.calls

section Ordered

variable {s s' : ManagerThreads} {event : ThreadEvent} {d : Nat}

/-- Before the first call nothing waits and nothing was sent. -/
theorem start_ordered : Ordered {} where
  lined := fun _ => ⟨List.Pairwise.nil, nofun⟩
  latest := nofun

/-- The invariant says more than the property: the requests that were sent are in line with
those that still wait. -/
theorem Ordered.inCallOrder (h : s.Ordered) : s.InCallOrder := by
  intro c
  refine List.Pairwise.sublist ?_ (h.lined c).1
  refine (List.Sublist.refl _).append ?_
  unfold pending
  split
  · exact List.sublist_cons_self _ _
  · exact List.Sublist.refl _

/-- The destructor of a client does not change what was sent on it. -/
@[simp] theorem sentOn_collect (c : Nat) : s.collect.sentOn c = s.sentOn c := by
  unfold sentOn collect
  rw [List.getElem?_mapIdx, Option.map_map]
  congr 2
  funext client
  simp only [Function.comp_apply]
  split <;> rfl

/-- Only what was sent, what waits and the request in hand matter for the order. -/
theorem Ordered.congr (h : s.Ordered) (hsent : ∀ c, s'.sentOn c = s.sentOn c)
    (hwaiting : s'.waiting = s.waiting) (hsending : s'.sending = s.sending)
    (hcalls : s'.calls = s.calls) : s'.Ordered where
  lined := fun c => by
    have hpending : s'.pending = s.pending := by
      unfold pending
      rw [hsending, hwaiting]
    have hbound : s'.bound = s.bound := by
      unfold bound
      rw [hsending, hcalls]
    rw [hsent, hpending, hbound]
    exact h.lined c
  latest := fun request hrequest => by
    rw [hcalls]
    exact h.latest request (hsending ▸ hrequest)

/-- A change of a client that leaves what was sent. -/
theorem sentOn_modify {f : UDSClient → UDSClient} (hclients : s'.clients = s.clients.modify d f)
    (hf : ∀ client, (f client).sent = client.sent) (c : Nat) : s'.sentOn c = s.sentOn c := by
  unfold sentOn
  rw [hclients, List.getElem?_modify]
  cases s.clients[c]? with
  | none => rfl
  | some client => by_cases hcd : d = c <;> simp [hcd, hf]

/-- What has been sent after a send. -/
theorem sentOn_sends {request : Request} (hclients : s'.clients = s.clients.modify d
      fun client => { client with sent := client.sent ++ [request] }) (c : Nat) :
    s'.sentOn c = s.sentOn c ++ if c = d ∧ d < s.clients.length then [request] else [] := by
  unfold sentOn
  rw [hclients, List.getElem?_modify]
  by_cases hcd : d = c
  · subst hcd
    by_cases hlength : d < s.clients.length
    · simp [hlength]
    · simp [hlength]
  · simp [hcd, Ne.symm hcd]

/-- Nothing was sent on a new client. -/
theorem sentOn_creates (hclients : s'.clients = s.clients ++ [({} : UDSClient)]) (c : Nat) :
    s'.sentOn c = s.sentOn c := by
  unfold sentOn
  rw [hclients]
  rcases Nat.lt_trichotomy c s.clients.length with hlt | heq | hgt
  · rw [List.getElem?_append_left hlt]
  · subst heq
    simp
  · rw [List.getElem?_eq_none (by simp; omega), List.getElem?_eq_none (by omega)]

/-- While `MainLoop` moves on without touching anything else, it has no backlog in hand. -/
theorem Moves.backlog {pc : MainPoint} (h : Moves s event pc) :
    pc.backlog = [] ∧ s.pc.backlog = [] := by
  cases h with
  | head hpc => rw [hpc]; split <;> exact ⟨rfl, rfl⟩
  | checks hpc => rw [hpc]; split <;> exact ⟨rfl, rfl⟩
  | introduced hpc _ => rw [hpc]; exact ⟨rfl, rfl⟩
  | flushed hpc _ => rw [hpc]; exact ⟨rfl, rfl⟩
  | waits hpc _ => rw [hpc]; exact ⟨rfl, rfl⟩
  | returns hpc => rw [hpc]; exact ⟨rfl, rfl⟩
  | serves hpc => rw [hpc]; exact ⟨rfl, rfl⟩
  | unconnected hpc => rw [hpc]; exact ⟨rfl, rfl⟩

/-- The message of a call goes to the end of what is waiting. -/
theorem Ordered.lined_user (h : s.Ordered) {request : Request}
    (hsending : s.sending = some (.user, request)) (c : Nat) :
    Lined (s.sentOn c ++ s.waiting ++ [request]) s.calls := by
  have hlined := h.lined c
  simp only [pending, bound, hsending] at hlined
  exact hlined.concat.mono (h.latest request hsending)

/-- **A successful send.**  The message joins those sent on the client, and nothing that was
called before it is left behind. -/
theorem Ordered.sends (h : s.Ordered) {sender : Sender} {request : Request}
    (hsending : s.sending = some (sender, request)) (hclient : s.mClient = some d)
    (hguard : s.KeepsOrder (.transmit true)) :
    ({ s with
        clients := s.clients.modify d fun client =>
          { client with sent := client.sent ++ [request] }
        sending := none } : ManagerThreads).Ordered := by
  constructor
  · intro c
    rw [sentOn_sends rfl c]
    cases sender with
    | user =>
        have hnone : s.waiting = [] := by simpa [KeepsOrder, hsending, hclient] using hguard
        have hlined := h.lined_user hsending c
        rw [hnone, List.append_nil] at hlined
        refine hlined.sublist ?_
        simp only [pending, waiting] at hnone ⊢
        rw [hnone, List.append_nil]
        split
        · exact List.Sublist.refl _
        · simp
    | mainLoop =>
        have hlined := h.lined c
        simp only [pending, bound, hsending] at hlined
        refine hlined.sublist ?_
        rw [List.append_assoc]
        refine (List.Sublist.refl _).append ?_
        split
        · exact List.Sublist.refl _
        · exact List.sublist_cons_self _ _
  · nofun

/-- **A failed send.**  The message goes to the end of the backlog, and there is no client any
more to send on. -/
theorem Ordered.fails (h : s.Ordered) {sender : Sender} {request : Request}
    (hsending : s.sending = some (sender, request)) (hclient : s.mClient = some d)
    (hguard : s.KeepsOrder (.transmit false)) :
    ({ s with
        mClient := none
        mBacklog := s.mBacklog ++ [request]
        sending := none } : ManagerThreads).Ordered := by
  constructor
  · intro c
    cases sender with
    | user =>
        have hlined := h.lined_user hsending c
        simpa [pending, waiting, sentOn, bound] using hlined
    | mainLoop =>
        have hnone : s.waiting = [] := by simpa [KeepsOrder, hsending, hclient] using hguard
        have hlined := h.lined c
        simp only [pending, bound, hsending, hnone] at hlined
        have hboth : s.pc.backlog = [] ∧ s.mBacklog = [] := List.append_eq_nil_iff.mp hnone
        simpa [pending, waiting, sentOn, bound, hboth] using hlined
  · nofun

/-- **Every guarded event** keeps the order: the messages that were sent come first, then those
that wait, each in the order of the calls. -/
theorem Ordered.acts (h : s.Ordered) (hguard : s.KeepsOrder event) (hacts : Acts s event s') :
    s'.Ordered := by
  have hfree : s.sending = none → s.pending = s.waiting ∧ s.bound = s.calls := by
    intro hfree
    simp [pending, bound, hfree]
  cases hacts with
  | moves hmoves =>
      obtain ⟨hafter, hbefore⟩ := hmoves.backlog
      exact h.congr (fun _ => rfl) (by simp [waiting, hafter, hbefore]) rfl rfl
  | @callWaits msg hfree' hnull =>
      have hpending : s.pc.backlog ++ s.mBacklog = s.pending := (hfree hfree').1.symm
      refine ⟨fun c => ?_, fun request hrequest => ?_⟩
      · have hlined := h.lined c
        rw [(hfree hfree').2] at hlined
        have hnext := @Lined.concat _ { number := s.calls, msg := msg } hlined
        simpa [pending, waiting, sentOn, bound, hfree', ← hpending] using hnext
      · simp [hfree'] at hrequest
  | callBegins hfree' hclient =>
      refine ⟨fun c => ?_, fun request hrequest => ?_⟩
      · have hlined := h.lined c
        rw [(hfree hfree').1, (hfree hfree').2] at hlined
        exact hlined
      · have hnumber : request.number = s.calls := by
          simp only [Option.some.injEq, Prod.mk.injEq, true_and] at hrequest
          rw [← hrequest]
        simp [hnumber]
  | sends hsending hclient => exact h.sends hsending hclient hguard
  | fails hsending hclient => exact h.fails hsending hclient hguard
  | sendCrashes hsending hnull => exact h.congr (fun _ => rfl) rfl rfl rfl
  | creates hpc =>
      exact h.congr (fun c => sentOn_creates rfl c) (by simp [waiting, hpc, MainPoint.backlog])
        rfl rfl
  | publishes hpc hfree' =>
      exact h.congr (fun _ => rfl) (by simp [waiting, hpc, MainPoint.backlog]) rfl rfl
  | @flushWaits c request backlog hpc hfree' hnull =>
      have hlast : backlog ++ s.mBacklog = [] := by
        simpa [KeepsOrder, hpc, hnull, MainPoint.backlog] using hguard
      obtain ⟨hrest, hbacklog⟩ := List.append_eq_nil_iff.mp hlast
      exact h.congr (fun _ => rfl)
        (by simp [waiting, hpc, hrest, hbacklog, MainPoint.backlog]) rfl rfl
  | flushBegins hpc hfree' hclient =>
      refine ⟨fun c => ?_, nofun⟩
      have hlined := h.lined c
      rw [(hfree hfree').1, (hfree hfree').2] at hlined
      simpa [pending, waiting, sentOn, bound, hpc, MainPoint.backlog] using hlined
  | waitCrashes hpc hnull => exact h.congr (fun _ => rfl) rfl rfl rfl
  | clears hpc =>
      exact h.congr (fun _ => rfl) (by simp [waiting, hpc, MainPoint.backlog]) rfl rfl
  | destroy => exact h.congr (fun _ => rfl) rfl rfl rfl
  | destroyClear => exact h.congr (fun _ => rfl) rfl rfl rfl
  | hubCloses =>
      refine h.congr (fun c => ?_) rfl rfl rfl
      exact sentOn_modify (f := fun client => { client with hubClosed := true }) rfl
        (fun _ => rfl) c
  | clientEnds =>
      refine h.congr (fun c => ?_) rfl rfl rfl
      exact sentOn_modify (f := fun client => { client with signalled := true }) rfl
        (fun _ => rfl) c

/-- The destructors that come after an action change nothing of this. -/
theorem Ordered.step (h : s.Ordered) (hguard : s.KeepsOrder event)
    (hstep : s.step event = some s') : s'.Ordered := by
  obtain ⟨_, acted, hacts, rfl⟩ := step_cases hstep
  exact (h.acts hguard hacts).congr (fun c => sentOn_collect c) rfl rfl rfl

/-- A call that sends while something is waiting overtakes it: its number is larger than that of a
message that was not sent. -/
theorem Ordered.overtakes (h : s.Ordered) {request : Request} {clients : List UDSClient}
    (hsending : s.sending = some (.user, request)) (hwaiting : s.waiting ≠ [])
    (hlength : d < s.clients.length)
    (hclients : clients = s.clients.modify d fun client =>
      { client with sent := client.sent ++ [request] }) :
    ¬ ({ s with clients := clients, sending := none } : ManagerThreads).InCallOrder := by
  intro horder
  obtain ⟨other, hother⟩ := List.exists_mem_of_ne_nil _ hwaiting
  have hsent := horder d
  rw [sentOn_sends hclients d, if_pos ⟨rfl, hlength⟩, List.append_assoc] at hsent
  have htail := (List.pairwise_append.mp hsent).2.1
  have hgt := (List.pairwise_cons.mp htail).1 other hother
  have hlt := (h.lined d).2 other (by simp [pending, hsending, hother])
  simp only [bound, hsending] at hlt
  omega

/-- The flush puts its message behind others that were called later, since `push_back` knows only
the end of the backlog. -/
theorem Ordered.falls_behind (h : s.Ordered) {request : Request} {others : List Request}
    (hpending : s.pending = request :: others) (hothers : others ≠ [])
    (hwaiting : s'.waiting = others ++ [request]) : ¬ s'.InCallOrder := by
  intro horder
  obtain ⟨other, hother⟩ := List.exists_mem_of_ne_nil others hothers
  have hlined := (h.lined 0).1
  rw [hpending] at hlined
  have hlater := (List.pairwise_cons.mp (List.pairwise_append.mp hlined).2.1).1 other hother
  have hsent := horder 0
  rw [hwaiting] at hsent
  have htail := (List.pairwise_append.mp hsent).2.1
  have hearlier := (List.pairwise_append.mp htail).2.2 other hother request List.mem_cons_self
  omega

/-- **Every other event** breaks the order at once, by overtaking what waits or by falling behind
it. -/
theorem Ordered.not_inCallOrder (h : s.Ordered) (hshared : s.Shared)
    (hguard : ¬ s.KeepsOrder event) (hacts : Acts s event s') : ¬ s'.InCallOrder := by
  intro horder
  cases hacts with
  | @sends sender request d hsending hclient =>
      cases sender with
      | mainLoop => simp [KeepsOrder, hsending, hclient] at hguard
      | user =>
          have hwaiting : s.waiting ≠ [] := by simpa [KeepsOrder, hsending, hclient] using hguard
          have hlength : d < s.clients.length :=
            hshared.created d (client_of_published (hshared.shared d hclient))
          exact h.overtakes hsending hwaiting hlength rfl horder
  | @fails sender request d hsending hclient =>
      cases sender with
      | user => simp [KeepsOrder, hsending, hclient] at hguard
      | mainLoop =>
          have hwaiting : s.waiting ≠ [] := by simpa [KeepsOrder, hsending, hclient] using hguard
          have hpending : s.pending = request :: s.waiting := by simp [pending, hsending]
          exact h.falls_behind hpending hwaiting (by simp [waiting]) horder
  | @flushWaits c request backlog hpc hfree hnull =>
      have hwaiting : backlog ++ s.mBacklog ≠ [] := by
        simpa [KeepsOrder, hpc, hnull, MainPoint.backlog] using hguard
      have hpending : s.pending = request :: (backlog ++ s.mBacklog) := by
        simp [pending, hfree, waiting, hpc, MainPoint.backlog]
      exact h.falls_behind hpending hwaiting (by simp [waiting, MainPoint.backlog]) horder
  | moves hmoves =>
      apply hguard
      cases hmoves with
      | unconnected _ => trivial
      | returns _ => trivial
      | head hpc => simp [KeepsOrder, hpc, MainPoint.backlog]
      | introduced hpc _ => simp [KeepsOrder, hpc, MainPoint.backlog]
      | flushed hpc _ => simp [KeepsOrder, hpc, MainPoint.backlog]
      | waits hpc _ => simp [KeepsOrder, hpc, MainPoint.backlog]
      | checks hpc => simp [KeepsOrder, hpc, MainPoint.backlog]
      | serves hpc => simp [KeepsOrder, hpc, MainPoint.backlog]
  | sendCrashes hsending hnull =>
      cases hwho : s.sending <;> simp_all [KeepsOrder]
  | publishes hpc _ => simp [KeepsOrder, hpc, MainPoint.backlog] at hguard
  | flushBegins hpc _ hclient => simp [KeepsOrder, hpc, hclient] at hguard
  | waitCrashes hpc _ => simp [KeepsOrder, hpc, MainPoint.backlog] at hguard
  | clears hpc => simp [KeepsOrder, hpc, MainPoint.backlog] at hguard
  | _ => exact hguard trivial

end Ordered

/-! ## Runs -/

/-- **The order of the calls** is kept at every moment of a run, on every
connection, exactly when no call sends while something is waiting and the flush
puts no message back behind others. -/
theorem call_order_iff {events : List ThreadEvent} {s : ManagerThreads}
    (hrun : exec step {} events = some s) :
    Throughout step InCallOrder {} events ↔ Along step KeepsOrder {} events := by
  refine throughout_iff_along (D := fun _ _ => True) (I := fun s => s.Ordered ∧ s.Shared)
    (fun s h => h.1.inCallOrder) ?_ ?_ ⟨start_ordered, start_shared⟩
    (along_true _ _) hrun
  · intro s event s' h _ hguard hstep
    exact ⟨h.1.step hguard hstep, h.2.step hstep⟩
  · intro s event s' h _ hguard hstep horder
    obtain ⟨_, acted, hacts, rfl⟩ := step_cases hstep
    apply h.1.not_inCallOrder h.2 hguard hacts
    intro c
    have hsent := horder c
    rwa [sentOn_collect] at hsent

/-- The message of `Announce` or `Retract` for a topic of node 5. -/
def topicRequest (op : TopicOperation) : TopologyMessage where
  op := .topicChange { name := "topic", nodeId := 5, op := op }

/-- A topic is announced before there is a client, and retracted after `MainLoop`
has taken the backlog over. -/
def retractsDuringFlush : List ThreadEvent :=
  [.call (topicRequest .announce), .advance, .create true, .advance, .advance,
    .call (topicRequest .retract), .transmit true]

/-- The retraction is sent, the announcement still has to be. -/
theorem not_inCallOrder_retractsDuringFlush :
    ∃ s, exec step {} retractsDuringFlush = some s ∧ ¬ s.InCallOrder := by
  obtain ⟨s, hrun⟩ := Option.isSome_iff_exists.mp
    (show (exec step {} retractsDuringFlush).isSome by decide +kernel)
  have hswapped : ∀ s ∈ exec step {} retractsDuringFlush,
      ¬ Increasing Request.number (s.sentOn 0 ++ s.waiting) := by
    decide +kernel
  exact ⟨s, hrun, fun horder => hswapped s hrun (horder 0)⟩

/-- The topic is retracted when the backlog has been sent. -/
def retractsAfterFlush : List ThreadEvent :=
  [.call (topicRequest .announce), .advance, .create true, .advance, .advance, .advance,
    .transmit true, .advance, .advance, .call (topicRequest .retract), .transmit true]

/-- Announced before the connection and retracted after the flush: in the order of the calls. -/
theorem call_order_iff_retractsAfterFlush :
    Throughout step InCallOrder {} retractsAfterFlush := by
  obtain ⟨s, hrun⟩ := Option.isSome_iff_exists.mp
    (show (exec step {} retractsAfterFlush).isSome by decide +kernel)
  exact (call_order_iff hrun).mpr (by decide +kernel)

end ManagerThreads

end IpcPubsub
