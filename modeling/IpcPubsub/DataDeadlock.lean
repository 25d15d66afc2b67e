import IpcPubsub.DataPlane

/-!
# Nodes that wait for each other

`Publish` waits inside of `sendto` where the queue of the receiver is full, with the node's
`mMtx`.  What would make room is the main thread of the receiver, and that needs the `mMtx`
of its own node for every datagram, or is in a `Publish` itself when a callback has called
one.  So a node waits for another, which may wait for a third in the same way, and it may
be its own receiver.

Left to themselves the threads come to rest (`datagrams_settle`): either every datagram has
been dealt with, or a `Publish` waits for a node whose `MainLoop` has returned, or there are
nodes that wait for each other.  Those wait for good (`deadlocked_forever`), and a node that
publishes to a topic it is subscribed to itself is enough (`exists_deadlocked`).
-/

namespace IpcPubsub

open FiniteMap GuardedRuns

/-- What the threads do by themselves, once `Publish` has been called.  A callback that calls
`Publish` brings new work, so the call is none of it. -/
def NodeEvent.Internal {γ : Type} : NodeEvent γ → Prop
  | .send => True
  | .read => True
  | .lookUp => True
  | .answer _ => True
  | .resume => True
  | .finish => True
  | _ => False

def DataEvent.Internal {γ : Type} : DataEvent γ → Prop
  | .create .. => False
  | .node _ event => event.Internal

/-- The main thread waits for `mMtx` or is about to, or it has it and sends. -/
def Reader.isHeld {γ : Type} : Reader γ → Bool
  | .looking _ _ => true
  | .asking _ _ _ _ => true
  | .answering _ _ => true
  | _ => false

namespace DataNode

variable {γ : Type} {codec : MetadataCodec}

/-- How often the main thread has still to move, with what it will have to send. -/
def weight (n : DataNode γ) : Nat :=
  match n.reader with
  | .polling => 0
  | .looking _ _ => 2
  | .calling _ _ => 1
  | .asking _ _ _ _ => 4 * n.node.mNodeById.keys.card + 3
  | .answering _ _ => 2
  | .ended => 0

/-- A datagram in a queue takes three more moves, and one to get there. -/
def work (n : DataNode γ) : Nat := 4 * n.sending.length + 3 * n.queue.length + n.weight

/-- A `Publish` has `mMtx`, and the main thread waits for it or is in that `Publish`. -/
structure Stuck (n : DataNode γ) : Prop where
  sending : n.sending ≠ []
  held : n.reader.isHeld = true

/-- A `Publish` sends no more datagrams than the table has entries. -/
theorem Lists.length_publish_le {n : DataNode γ} {order : List UInt64} (h : n.Lists order)
    (serialize : MetadataMessage → List UInt8) (topic : String) (data : List UInt8) :
    (n.node.publish serialize order topic data).length ≤ n.node.mNodeById.keys.card := by
  rw [← h.2, List.toFinset_card_of_nodup h.1]
  exact List.length_filterMap_le ..

/-- Each move of a thread brings the work that is left down. -/
theorem Goes.work {n n' : DataNode γ} {event : NodeEvent γ} (h : n.Goes codec event n')
    (hevent : event.Internal) : n'.work < n.work := by
  cases h with
  | @reads packet rest hreader hqueue =>
      simp only [DataNode.work, weight, hreader, hqueue, List.length_cons]
      unfold DataNode.take
      split <;> simp only [DataNode.done] <;> omega
  | @looksUp packet msg hreader _ =>
      simp only [DataNode.work, weight, hreader]
      unfold DataNode.lookUp
      split <;> simp only [DataNode.done] <;> omega
  | @answers packet call order topic data hreader hfree horder =>
      have hlength := horder.length_publish_le codec.serialize topic data
      simp only [DataNode.work, weight, hreader, hfree.1, DataNode.publish, List.length_nil]
      omega
  | resumes hreader hsent =>
      simp only [DataNode.work, weight, hreader]
      omega
  | finishes hreader =>
      simp only [DataNode.work, weight, hreader, DataNode.done]
      omega
  | publishes _ _ _ => exact hevent.elim
  | refuses _ => exact hevent.elim
  | asks _ => exact hevent.elim
  | stops _ _ => exact hevent.elim
  | subscribes _ _ => exact hevent.elim
  | updates _ _ _ => exact hevent.elim
  | departs _ => exact hevent.elim

end DataNode

namespace DataPlane

variable {γ : Type}

def work (s : DataPlane γ) : Nat := (s.nodes.map DataNode.work).sum

/-- Every datagram has been dealt with, unless it is at a node whose `MainLoop` has returned. -/
def Quiet (s : DataPlane γ) : Prop :=
  ∀ n ∈ s.nodes, n.sending = [] ∧ (n.reader = .ended ∨ n.reader = .polling ∧ n.queue = [])

/-- The threads can do nothing by themselves. -/
def AtRest (codec : MetadataCodec) (limit : Nat) (s : DataPlane γ) : Prop :=
  ∀ event : DataEvent γ, event.Internal → s.step codec limit event = none

/-- A `Publish` waits for the queue of a node whose `MainLoop` has returned. -/
def Abandoned (limit : Nat) (s : DataPlane γ) : Prop :=
  ∃ n ∈ s.nodes, ∃ datagram rest j r, n.sending = datagram :: rest ∧
    s.target datagram.address = some j ∧ s.nodes[j]? = some r ∧ limit ≤ r.queue.length ∧
      r.reader = .ended

/-- A node that is stuck waits for the queue of another. -/
def Waits (limit : Nat) (s : DataPlane γ) (i j : Nat) : Prop :=
  ∃ n r datagram rest, s.nodes[i]? = some n ∧ n.Stuck ∧ n.sending = datagram :: rest ∧
    s.target datagram.address = some j ∧ s.nodes[j]? = some r ∧ limit ≤ r.queue.length

/-- Nodes that wait for each other. -/
structure Deadlocked (limit : Nat) (s : DataPlane γ) (members : Set Nat) : Prop where
  nonempty : members.Nonempty
  waits : ∀ i ∈ members, ∃ j ∈ members, s.Waits limit i j

/-! ## The threads come to rest -/

section Rest

variable {codec : MetadataCodec} {limit : Nat} {s s' : DataPlane γ} {event : DataEvent γ}

/-- The work that is left when one node changes. -/
theorem work_put {i : Nat} {n : DataNode γ} (hn : s.nodes[i]? = some n) (n' : DataNode γ) :
    (s.put i n').work + n.work = s.work + n'.work :=
  sum_map_set DataNode.work n' hn

/-- Each move brings the work of the system down: a datagram that is sent is one fewer to send,
and one more to read. -/
theorem work_step (hevent : event.Internal) (hstep : s.step codec limit event = some s') :
    s'.work < s.work := by
  cases happens_of_step hstep with
  | creates _ _ => exact hevent.elim
  | @goes i n n' event hn hgoes =>
      have hless := hgoes.work hevent
      have hput := work_put hn n'
      omega
  | @fails i n datagram rest hn hsending _ =>
      have hput := work_put hn (n.tried datagram rest none)
      simp only [DataNode.work, DataNode.weight, DataNode.tried, hsending, List.length_cons] at hput
      simp only [DataNode.tried]
      omega
  | @sends i j n receiver datagram rest hn hsending _ hreceiver _ =>
      have htried := work_put hn (n.tried datagram rest (some j))
      have hqueued := work_put hreceiver (receiver.enqueue { sender := i, blob := datagram.blob })
      simp only [DataNode.work, DataNode.weight, DataNode.tried, DataNode.enqueue, hsending,
        List.length_cons, List.length_append, List.length_nil] at htried hqueued ⊢
      omega

/-- So a run of such moves is no longer than the work it does. -/
theorem length_le_of_internal {events : List (DataEvent γ)}
    (hevents : ∀ event ∈ events, event.Internal)
    (hrun : exec (step codec limit) s events = some s') :
    events.length + s'.work ≤ s.work := by
  have hrank : ∀ (s : DataPlane γ) event s', True → DataEvent.Internal event →
      s.step codec limit event = some s' → work s' + 1 ≤ work s + if False then 0 else 0 :=
    fun _ _ _ _ hevent hstep => work_step hevent hstep
  have hbound := length_le_of_rank (fun _ _ _ _ _ _ => trivial) hrank trivial
    (along_of_forall hevents) hrun
  omega

/-- A `Publish` that cannot go on waits for a full queue, for an address that nobody has would
make it fail instead. -/
theorem AtRest.send (h : AtRest codec limit s) {i : Nat} {n : DataNode γ} {datagram : Datagram}
    {rest : List Datagram} (hn : s.nodes[i]? = some n) (hsending : n.sending = datagram :: rest) :
    ∃ j r, s.target datagram.address = some j ∧ s.nodes[j]? = some r ∧
      limit ≤ r.queue.length := by
  have hblocked : s.send limit i n = none := by
    have hstep := h (.node i .send) trivial
    rwa [DataPlane.step, hn] at hstep
  simp only [DataPlane.send, hsending] at hblocked
  cases htarget : s.target datagram.address with
  | none =>
      rw [htarget] at hblocked
      cases hblocked
  | some j =>
      obtain ⟨r, hr, _, _⟩ := target_eq_some htarget
      refine ⟨j, r, rfl, hr, ?_⟩
      by_contra hroom
      simp only [htarget, nodes_put hn] at hblocked
      by_cases hself : j = i
      · subst hself
        obtain rfl := Option.some.inj (hn.symm.trans hr)
        simp [DataNode.tried, hroom] at hblocked
      · simp [hself, hr, hroom] at hblocked

/-- A main thread that cannot go on waits for `mMtx`, is in a `Publish` that waits, has nothing
to read, or is not there any more. -/
theorem AtRest.reader (h : AtRest codec limit s) {i : Nat} {n : DataNode γ}
    (hn : s.nodes[i]? = some n) :
    n.Stuck ∨ n.reader = .ended ∨ n.reader = .polling ∧ n.queue = [] := by
  have hact : ∀ event : NodeEvent γ, event.Internal → event ≠ .send →
      n.act codec event = none := by
    intro event hevent hsend
    have hstep := h (.node i event) hevent
    cases event with
    | send => exact absurd rfl hsend
    | _ =>
        simp only [DataPlane.step, hn, Option.bind_some, Option.map_eq_none_iff] at hstep
        exact hstep
  cases hreader : n.reader with
  | polling =>
      have hread := hact .read trivial (by simp)
      cases hqueue : n.queue with
      | nil => exact .inr (.inr ⟨rfl, rfl⟩)
      | cons packet rest => simp [DataNode.act, hreader, hqueue] at hread
  | looking packet msg =>
      have hlookUp := hact .lookUp trivial (by simp)
      refine .inl ⟨fun hfree => ?_, by rw [hreader, Reader.isHeld]⟩
      simp [DataNode.act, DataNode.Free, hreader, hfree, Reader.isAnswering] at hlookUp
  | calling packet call =>
      have hfinish := hact .finish trivial (by simp)
      simp [DataNode.act, hreader] at hfinish
  | asking packet call topic data =>
      have hlists : n.Lists n.node.mNodeById.keys.toList :=
        ⟨Finset.nodup_toList _, Finset.toList_toFinset _⟩
      have hanswer := hact (.answer n.node.mNodeById.keys.toList) trivial (by simp)
      refine .inl ⟨fun hfree => ?_, by rw [hreader, Reader.isHeld]⟩
      simp [DataNode.act, DataNode.Free, hreader, hfree, hlists, Reader.isAnswering] at hanswer
  | answering packet call =>
      have hresume := hact .resume trivial (by simp)
      refine .inl ⟨fun hfree => ?_, by rw [hreader, Reader.isHeld]⟩
      simp [DataNode.act, hreader, hfree] at hresume
  | ended => exact .inr (.inl rfl)

/-- The node that is waited for is stuck itself, or its `MainLoop` has returned. -/
theorem AtRest.waits (h : AtRest codec limit s) (hlimit : 0 < limit) {i : Nat} {n : DataNode γ}
    (hn : s.nodes[i]? = some n) (hsending : n.sending ≠ []) :
    s.Abandoned limit ∨ ∃ j r datagram rest, n.sending = datagram :: rest ∧
      s.target datagram.address = some j ∧ s.nodes[j]? = some r ∧ limit ≤ r.queue.length ∧
        r.Stuck := by
  obtain ⟨datagram, rest, hnext⟩ := List.exists_cons_of_ne_nil hsending
  obtain ⟨j, r, htarget, hr, hfull⟩ := h.send hn hnext
  rcases h.reader hr with hstuck | hended | ⟨_, hempty⟩
  · exact .inr ⟨j, r, datagram, rest, hnext, htarget, hr, hfull, hstuck⟩
  · exact .inl ⟨n, List.mem_of_getElem? hn, datagram, rest, j, r, hnext, htarget, hr, hfull,
      hended⟩
  · rw [hempty, List.length_nil] at hfull
    omega

/-- The nodes that are stuck. -/
def stuck (s : DataPlane γ) : Set Nat := fun i => ∃ n, s.nodes[i]? = some n ∧ n.Stuck

/-- Where the threads can rest.  A waiting `Publish` looks at a full queue, whose main thread has
ended or waits for the lock that another `Publish` has. -/
theorem AtRest.cases (h : AtRest codec limit s) (hlimit : 0 < limit) :
    s.Quiet ∨ s.Abandoned limit ∨ Deadlocked limit s s.stuck := by
  by_cases habandoned : s.Abandoned limit
  · exact .inr (.inl habandoned)
  have hwaits : ∀ i ∈ s.stuck, ∃ j ∈ s.stuck, s.Waits limit i j := by
    rintro i ⟨n, hn, hstuck⟩
    obtain ⟨j, r, datagram, rest, hnext, htarget, hr, hfull, hr'⟩ :=
      (h.waits hlimit hn hstuck.sending).resolve_left habandoned
    exact ⟨j, ⟨r, hr, hr'⟩, n, r, datagram, rest, hn, hstuck, hnext, htarget, hr, hfull⟩
  by_cases hnone : s.stuck.Nonempty
  · exact .inr (.inr ⟨hnone, hwaits⟩)
  · refine .inl fun n hmem => ?_
    obtain ⟨i, hn⟩ := List.getElem?_of_mem hmem
    refine ⟨?_, (h.reader hn).resolve_left fun hstuck => hnone ⟨i, n, hn, hstuck⟩⟩
    by_contra hsending
    obtain ⟨j, r, _, _, _, _, hr, _, hr'⟩ :=
      (h.waits hlimit hn hsending).resolve_left habandoned
    exact hnone ⟨j, r, hr, hr'⟩

end Rest

end DataPlane

/-! ## They wait for good -/

/-- Handlers that do not lock do not touch the node. -/
theorem IPCNode.foldlM_handle {node : IPCNode} {calls : List Callback}
    (h : ∀ call ∈ calls, call.TakesLock = false) : calls.foldlM handle node = some node := by
  induction calls with
  | nil => rfl
  | cons call calls ih =>
      have hcall : node.handle call = some node := by
        cases call with
        | onAnnounce change => rfl
        | onRetract change => rfl
        | _ => cases h _ List.mem_cons_self
      rw [List.foldlM_cons, hcall]
      exact ih fun call' hmem => h call' (List.mem_cons_of_mem _ hmem)

namespace DataNode

variable {γ : Type} {codec : MetadataCodec} {n n' n'' : DataNode γ}

/-- A node stays as it is, but for datagrams that come in and what its manager knows. -/
structure Kept (n n' : DataNode γ) : Prop where
  isOpen : n'.isOpen = n.isOpen
  address : n'.address = n.address
  mNodeById : n'.node.mNodeById = n.node.mNodeById
  mSubscriptions : n'.mSubscriptions = n.mSubscriptions
  published : n'.published = n.published
  sending : n'.sending = n.sending
  sent : n'.sent = n.sent
  reader : n'.reader = n.reader
  handled : n'.handled = n.handled
  queue : n.queue <+: n'.queue

/-- Nothing has happened. -/
theorem Kept.refl (n : DataNode γ) : n.Kept n :=
  ⟨rfl, rfl, rfl, rfl, rfl, rfl, rfl, rfl, rfl, List.prefix_rfl⟩

/-- Two stretches of time, one after the other. -/
theorem Kept.trans (h : n.Kept n') (h' : n'.Kept n'') : n.Kept n'' where
  isOpen := h'.isOpen.trans h.isOpen
  address := h'.address.trans h.address
  mNodeById := h'.mNodeById.trans h.mNodeById
  mSubscriptions := h'.mSubscriptions.trans h.mSubscriptions
  published := h'.published.trans h.published
  sending := h'.sending.trans h.sending
  sent := h'.sent.trans h.sent
  reader := h'.reader.trans h.reader
  handled := h'.handled.trans h.handled
  queue := h.queue.trans h'.queue

/-- A datagram more in its queue is nothing that a waiting node does. -/
theorem Kept.enqueue (n : DataNode γ) (packet : Arrival) : n.Kept (n.enqueue packet) :=
  { Kept.refl n with queue := List.prefix_append .. }

/-- A node that is stuck and kept is stuck. -/
theorem Kept.stuck (h : n.Kept n') (hstuck : n.Stuck) : n'.Stuck where
  sending := h.sending ▸ hstuck.sending
  held := h.reader ▸ hstuck.held

/-- All that a node that is stuck can do by itself is to hear of announcements, unless it goes
or its `sendto` fails. -/
theorem Goes.kept (h : n.Stuck) {event : NodeEvent γ} (hgoes : n.Goes codec event n')
    (hstays : event ≠ .depart) (hwaits : event ≠ .refuse) : n.Kept n' := by
  have hbusy : ¬ n.Free := fun hfree => h.sending hfree.1
  have hheld := h.held
  cases hgoes with
  | publishes _ hfree _ => exact absurd hfree hbusy
  | refuses _ => exact absurd rfl hwaits
  | reads hreader _ =>
      rw [hreader] at hheld
      cases hheld
  | looksUp _ hfree => exact absurd hfree hbusy
  | asks hreader =>
      rw [hreader] at hheld
      cases hheld
  | answers _ hfree _ => exact absurd hfree hbusy
  | resumes _ hsent => exact absurd hsent h.sending
  | finishes hreader =>
      rw [hreader] at hheld
      cases hheld
  | stops hreader _ =>
      rw [hreader] at hheld
      cases hheld
  | subscribes _ hfree => exact absurd hfree hbusy
  | updates _ hlock hnode =>
      have hsilent := hlock.resolve_left hbusy
      rw [IPCNode.applyUpdate, IPCNode.foldlM_handle hsilent] at hnode
      obtain rfl := Option.some.inj hnode
      exact { Kept.refl n with }
  | departs _ => exact absurd rfl hstays

end DataNode

namespace DataPlane

section Forever

variable {γ : Type} {codec : MetadataCodec} {limit : Nat} {s s' : DataPlane γ} {event : DataEvent γ}

/-- No node takes the address of another, or comes back: an address is bound once, when the node
is created. -/
theorem address_step {k : Nat} {m m' : DataNode γ} (hm : s.nodes[k]? = some m)
    (hstep : s.step codec limit event = some s') (hm' : s'.nodes[k]? = some m') :
    m'.address = m.address ∧ (m'.isOpen = true → m.isOpen = true) := by
  have hgoes : ∀ (n n' : DataNode γ) (event : NodeEvent γ),
      (n.address = m.address ∧ (n.isOpen = true → m.isOpen = true)) → n.Goes codec event n' →
        n'.address = m.address ∧ (n'.isOpen = true → m.isOpen = true) := by
    intro n n' event h hgoes
    cases hgoes with
    | reads _ _ =>
        unfold DataNode.take
        split <;> exact h
    | looksUp _ _ =>
        unfold DataNode.lookUp
        split <;> exact h
    | departs _ => exact ⟨h.1, fun hopen => by cases hopen⟩
    | _ => exact h
  obtain ⟨after, hafter, hkept⟩ := node_step
    (P := fun n => n.address = m.address ∧ (n.isOpen = true → m.isOpen = true)) hgoes
    (fun _ _ _ _ h _ => h) (fun _ _ h _ => h) hm ⟨rfl, id⟩ hstep
  obtain rfl := Option.some.inj (hm'.symm.trans hafter)
  exact hkept

/-- The node behind an address stays the same as long as it is there, since `bind` refuses a
second one. -/
theorem target_step {address : SockaddrUn} {j : Nat} {r r' : DataNode γ}
    (htarget : s.target address = some j) (hr : s.nodes[j]? = some r)
    (hstep : s.step codec limit event = some s') (hr' : s'.nodes[j]? = some r')
    (hkept : r.Kept r') :
    s'.target address = some j := by
  obtain ⟨hlt, hfound, hbefore⟩ := List.findIdx?_eq_some_iff_getElem.mp htarget
  obtain ⟨hlt', hget'⟩ := List.getElem?_eq_some_iff.mp hr'
  obtain ⟨_, hget⟩ := List.getElem?_eq_some_iff.mp hr
  refine List.findIdx?_eq_some_iff_getElem.mpr ⟨hlt', ?_, fun k hk => ?_⟩
  · rw [hget']
    rw [hget] at hfound
    rw [hkept.isOpen, hkept.address]
    exact hfound
  · have hk' : k < s'.nodes.length := hk.trans hlt'
    have hk₀ : k < s.nodes.length := hk.trans hlt
    obtain ⟨haddress, hopen⟩ := address_step (List.getElem?_eq_getElem hk₀) hstep
      (List.getElem?_eq_getElem hk')
    have hother := hbefore k hk
    rw [haddress]
    grind

/-- A node that waits is not changed by any event, unless it goes or its `sendto` fails. -/
theorem Waits.kept {i j : Nat} (h : s.Waits limit i j)
    (hstays : event ≠ .node i .depart ∧ event ≠ .node i .refuse)
    (hstep : s.step codec limit event = some s') {n : DataNode γ} (hn : s.nodes[i]? = some n) :
    ∃ n', s'.nodes[i]? = some n' ∧ n.Kept n' := by
  obtain ⟨_, r, datagram, rest, hn₀, hstuck, hnext, htarget, hr, hfull⟩ := h
  obtain rfl := Option.some.inj (hn.symm.trans hn₀)
  cases happens_of_step hstep with
  | creates _ _ =>
      have hlt := (List.getElem?_eq_some_iff.mp hn).1
      exact ⟨n, (List.getElem?_append_left hlt).trans hn, .refl n⟩
  | @goes k m m' event hm hgoes =>
      rw [nodes_put hm]
      split
      case isTrue heq =>
        obtain rfl := Option.some.inj (hn.symm.trans (heq ▸ hm))
        exact ⟨m', rfl, hgoes.kept hstuck (fun hdepart => hstays.1 (by rw [hdepart, heq]))
          fun hrefuse => hstays.2 (by rw [hrefuse, heq])⟩
      case isFalse => exact ⟨n, hn, .refl n⟩
  | @fails k m other _ hm hsending hnobody =>
      rw [nodes_put hm]
      split
      case isTrue heq =>
        obtain rfl := Option.some.inj (hn.symm.trans (heq ▸ hm))
        obtain ⟨rfl, _⟩ := List.cons.inj (hnext.symm.trans hsending)
        rw [htarget] at hnobody
        cases hnobody
      case isFalse => exact ⟨n, hn, .refl n⟩
  | @sends k l m receiver other rest' hm hsending hfound hreceiver hroom =>
      have hne : i ≠ k := by
        rintro rfl
        obtain rfl := Option.some.inj (hn.symm.trans hm)
        obtain ⟨rfl, _⟩ := List.cons.inj (hnext.symm.trans hsending)
        obtain rfl := Option.some.inj (htarget.symm.trans hfound)
        -- the queue it sends to was full
        rw [nodes_put hm] at hreceiver
        split at hreceiver
        case isTrue heq =>
          obtain rfl := Option.some.inj hreceiver
          obtain rfl := Option.some.inj (hr.symm.trans (heq ▸ hm))
          exact absurd hroom (not_lt.mpr hfull)
        case isFalse =>
          obtain rfl := Option.some.inj (hr.symm.trans hreceiver)
          exact absurd hroom (not_lt.mpr hfull)
      have hsame : (s.put k (m.tried other rest' (some l))).nodes[i]? = some n := by
        rw [nodes_put hm, if_neg hne]
        exact hn
      rw [nodes_put hreceiver]
      split
      case isTrue heq =>
        rw [heq] at hsame
        obtain rfl := Option.some.inj (hsame.symm.trans hreceiver)
        exact ⟨_, rfl, .enqueue n _⟩
      case isFalse => exact ⟨n, hsame, .refl n⟩

variable {members : Set Nat}

/-- The nodes go on waiting for each other: none of them can move, and what the others do takes
nothing out of their queues. -/
theorem Deadlocked.step (h : Deadlocked limit s members)
    (hstays : ∀ i ∈ members, event ≠ .node i .depart ∧ event ≠ .node i .refuse)
    (hstep : s.step codec limit event = some s') :
    Deadlocked limit s' members where
  nonempty := h.nonempty
  waits := by
    intro i hi
    obtain ⟨j, hj, hwaits⟩ := h.waits i hi
    obtain ⟨_, _, hwaits'⟩ := h.waits j hj
    obtain ⟨n, r, datagram, rest, hn, hstuck, hnext, htarget, hr, hfull⟩ := hwaits
    obtain ⟨n', hn', hkept⟩ :=
      Waits.kept ⟨n, r, datagram, rest, hn, hstuck, hnext, htarget, hr, hfull⟩ (hstays i hi)
        hstep hn
    obtain ⟨r', hr', hkept'⟩ := hwaits'.kept (hstays j hj) hstep hr
    exact ⟨j, hj, n', r', datagram, rest, hn', hkept.stuck hstuck, hkept.sending.trans hnext,
      target_step htarget hr hstep hr' hkept', hr', hfull.trans hkept'.queue.length_le⟩

/-- **A deadlock is for good.**  As long as none of the nodes that wait for each other goes and
none of their calls of `sendto`, which wait, is made to fail, then, whatever all the others do
and whatever they themselves are asked to do, they go on waiting: they send nothing, make no
call of a callback, take in neither a call of `Publish` nor of `Subscribe`, and their routing
tables stay as they are. -/
theorem deadlocked_forever (h : Deadlocked limit s members) {events : List (DataEvent γ)}
    (hstay : ∀ event ∈ events, ∀ i ∈ members,
      event ≠ .node i .depart ∧ event ≠ .node i .refuse)
    (hrun : exec (step codec limit) s events = some s') :
    Deadlocked limit s' members ∧ ∀ i ∈ members, ∀ n, s.nodes[i]? = some n →
      ∃ n', s'.nodes[i]? = some n' ∧ n.Kept n' := by
  refine exec_invariant
    (P := fun _ event => ∀ i ∈ members, event ≠ .node i .depart ∧ event ≠ .node i .refuse)
    (I := fun s' => Deadlocked limit s' members ∧ ∀ i ∈ members, ∀ n, s.nodes[i]? = some n →
      ∃ n', s'.nodes[i]? = some n' ∧ n.Kept n')
    ?_ ⟨h, fun i _ n hn => ⟨n, hn, .refl n⟩⟩ (along_of_forall hstay) hrun
  rintro t event t' ⟨hdead, hall⟩ hstays hstep
  refine ⟨hdead.step hstays hstep, fun i hi n hn => ?_⟩
  obtain ⟨n', hn', hkept⟩ := hall i hi n hn
  obtain ⟨_, _, hwaits⟩ := hdead.waits i hi
  obtain ⟨n'', hn'', hkept'⟩ := hwaits.kept (hstays i hi) hstep hn'
  exact ⟨n'', hn'', hkept.trans hkept'⟩

end Forever

/-! ## One node is enough -/

section Itself

variable {codec : MetadataCodec} {limit : Nat}


/-- What a node does without a datagram. -/
def Plain {γ : Type} : DataEvent γ → Prop
  | .create .. => True
  | .node _ (.subscribe _ _) => True
  | .node _ (.update _) => True
  | _ => False

instance {γ : Type} : DecidablePred (Plain (γ := γ))
  | .create .. => isTrue trivial
  | .node _ (.subscribe _ _) => isTrue trivial
  | .node _ (.update _) => isTrue trivial
  | .node _ (.publish ..) => isFalse id
  | .node _ .send => isFalse id
  | .node _ .refuse => isFalse id
  | .node _ .read => isFalse id
  | .node _ .lookUp => isFalse id
  | .node _ (.ask ..) => isFalse id
  | .node _ (.answer _) => isFalse id
  | .node _ .resume => isFalse id
  | .node _ .finish => isFalse id
  | .node _ .stop => isFalse id
  | .node _ .depart => isFalse id

/-- It is the same with every encoding and every size of the queues. -/
theorem exec_plain {γ : Type} {codec' : MetadataCodec} {limit' : Nat} {s : DataPlane γ}
    {events : List (DataEvent γ)} (hplain : ∀ event ∈ events, Plain event) :
    exec (step codec limit) s events = exec (step codec' limit') s events := by
  have hstep : ∀ (s : DataPlane γ) (event : DataEvent γ), Plain event →
      s.step codec limit event = s.step codec' limit' event := by
    intro s event hevent
    match event, hevent with
    | .create .., _ => rfl
    | .node _ (.subscribe _ _), _ => rfl
    | .node _ (.update _), _ => rfl
  induction events generalizing s with
  | nil => rfl
  | cons event events ih =>
      rw [exec_cons, exec_cons, hstep s event (hplain event List.mem_cons_self)]
      exact Option.bind_congr fun s' _ => ih fun other hmem =>
        hplain other (List.mem_cons_of_mem _ hmem)

/-- A node joins and subscribes to a topic, and hears of both. -/
def joinsAndSubscribes : List (DataEvent Nat) :=
  [.create "a" 1 7 zeroStack,
    .node 0 (.update
      { seq := 1, op := .nodeChange { id := 1, op := .join, address := dataPath 7 } }),
    .node 0 (.update
      { seq := 2, op := .topicChange { nodeId := 1, op := .subscribe, name := "t" } }),
    .node 0 (.subscribe "t" 5)]

/-- A node that knows itself only, as a subscriber, and has nothing to send. -/
def KnowsItself (n : DataNode Nat) : Prop :=
  n.isOpen = true ∧ n.Free ∧ n.Lists [1] ∧
    (n.node.publish (fun _ => []) [1] "t" [9]).map Datagram.address = [n.address]

instance : DecidablePred KnowsItself := fun _ => inferInstanceAs (Decidable (_ ∧ _))

/-- Where datagrams go does not depend on the encoding. -/
theorem address_publish (node : IPCNode) (serialize serialize' : MetadataMessage → List UInt8)
    (order : List UInt64) (topic : String) (data : List UInt8) :
    (node.publish serialize order topic data).map Datagram.address =
      (node.publish serialize' order topic data).map Datagram.address := by
  rw [IPCNode.publish, IPCNode.publish, List.map_filterMap, List.map_filterMap]
  refine List.filterMap_congr fun id _ => ?_
  unfold IPCNode.publishTo
  split
  · rfl
  · split
    · rfl
    · split <;> rfl

/-- It publishes. -/
theorem KnowsItself.publishes {n : DataNode Nat} (h : KnowsItself n) (codec : MetadataCodec)
    (limit : Nat) :
    ∃ datagram, datagram.address = n.address ∧
      datagram.blob = codec.serialize { topic := "t", inlined := [9] } ∧
      step codec limit { nodes := [n] } (.node 0 (.publish [1] "t" [9])) =
        some { nodes := [n.publish [datagram]] } := by
  obtain ⟨hopen, hfree, horder, haddress⟩ := h
  rw [address_publish _ _ codec.serialize] at haddress
  obtain ⟨datagram, hpublish, haddress'⟩ := List.map_eq_singleton_iff.mp haddress
  refine ⟨datagram, haddress', ?_, ?_⟩
  · exact IPCNode.blob_of_mem_publish (hpublish ▸ List.mem_singleton_self datagram)
  · simp [DataPlane.step, DataNode.act, DataPlane.put, hopen, hfree, horder, hpublish]

/-- A node that is alone finds itself. -/
theorem target_self {n : DataNode Nat} {address : SockaddrUn} (hopen : n.isOpen = true)
    (haddress : address = n.address) : target { nodes := [n] } address = some 0 := by
  simp [target, hopen, haddress]

/-- It publishes and sends while its queue has room, and the datagram comes last in its own queue. -/
theorem KnowsItself.sends {n : DataNode Nat} (h : KnowsItself n) (codec : MetadataCodec)
    (hroom : n.queue.length < limit) :
    ∃ n' packet, exec (step codec limit) { nodes := [n] }
          [.node 0 (.publish [1] "t" [9]), .node 0 .send] = some { nodes := [n'] } ∧
      KnowsItself n' ∧ n'.reader = n.reader ∧ n'.queue = n.queue ++ [packet] ∧
      packet.blob = codec.serialize { topic := "t", inlined := [9] } := by
  obtain ⟨datagram, haddress, hblob, hpublishes⟩ := h.publishes codec limit
  obtain ⟨hopen, hfree, horder, hself⟩ := h
  have htarget : target { nodes := [n.publish [datagram]] } datagram.address = some 0 :=
    target_self hopen haddress
  have hsends : step codec limit { nodes := [n.publish [datagram]] } (.node 0 .send) = some
      { nodes := [((n.publish [datagram]).tried datagram [] (some 0)).enqueue
          { sender := 0, blob := datagram.blob }] } := by
    have hsending : (n.publish [datagram]).sending = [datagram] := rfl
    have hqueue : ¬ limit ≤ n.queue.length := not_le.mpr hroom
    simp only [DataPlane.step, List.getElem?_cons_zero, Option.bind_some, DataPlane.send, hsending,
      htarget, DataPlane.put, List.set_cons_zero]
    exact if_neg hqueue
  refine ⟨((n.publish [datagram]).tried datagram [] (some 0)).enqueue
    { sender := 0, blob := datagram.blob }, { sender := 0, blob := datagram.blob }, ?_,
    ⟨hopen, ⟨rfl, hfree.2⟩, horder, hself⟩, rfl, rfl, hblob⟩
  rw [exec_cons, hpublishes, Option.bind_some, exec_cons, hsends]
  rfl

/-- Its main thread reads the first datagram and is on the way to the handlers. -/
theorem KnowsItself.reads (hcodec : codec.Lawful) {n : DataNode Nat} (h : KnowsItself n)
    (hreader : n.reader = .polling) {packet : Arrival} (hqueue : n.queue = [packet])
    (hblob : packet.blob = codec.serialize { topic := "t", inlined := [9] }) (limit : Nat) :
    ∃ n', step codec limit { nodes := [n] } (.node 0 .read) = some { nodes := [n'] } ∧
      KnowsItself n' ∧ n'.reader.isHeld = true ∧ n'.queue = [] := by
  obtain ⟨hopen, hfree, horder, hself⟩ := h
  have hfits := hcodec.length_serialize_le { topic := "t", inlined := [9] } (by decide) (by decide)
  have hparsed : packet.parsed codec = some { topic := "t", inlined := [9] } := by
    rw [Arrival.parsed, hblob, List.take_of_length_le (hfits.trans (by decide)),
      hcodec.parse_serialize]
  refine ⟨{ n with queue := [], reader := .looking packet { topic := "t", inlined := [9] } }, ?_,
    ⟨hopen, ⟨hfree.1, rfl⟩, horder, hself⟩, rfl, rfl⟩
  simp only [DataPlane.step, List.getElem?_cons_zero, Option.bind_some, DataNode.act, hreader,
    hqueue, DataNode.take, hparsed, Option.map_some, DataPlane.put, List.set_cons_zero]

/-- While the main thread is on its way to the lock, the queue fills, as far as one likes. -/
theorem KnowsItself.fills {k : Nat} {n : DataNode Nat} (h : KnowsItself n)
    (hroom : n.queue.length + k ≤ limit) :
    ∃ events n', exec (step codec limit) { nodes := [n] } events = some { nodes := [n'] } ∧
      KnowsItself n' ∧ n'.reader = n.reader ∧ n'.queue.length = n.queue.length + k := by
  induction k generalizing n with
  | zero => exact ⟨[], n, rfl, h, rfl, rfl⟩
  | succ k ih =>
      have hfirst : n.queue.length < limit := by omega
      obtain ⟨n₁, packet, hrun₁, h₁, hreader₁, hqueue₁, _⟩ := h.sends codec hfirst
      have hlength₁ : n₁.queue.length = n.queue.length + 1 := by simp [hqueue₁]
      obtain ⟨events, n', hrun, h', hreader, hlength⟩ := ih h₁ (by omega)
      refine ⟨[.node 0 (.publish [1] "t" [9]), .node 0 .send] ++ events, n', ?_, h',
        hreader.trans hreader₁, by omega⟩
      rw [exec_append, hrun₁]
      exact hrun

/-- A node whose next datagram is for its own full queue waits for itself. -/
theorem deadlocked_self {n : DataNode Nat} {datagram : Datagram} {rest : List Datagram}
    (hopen : n.isOpen = true) (hsending : n.sending = datagram :: rest)
    (haddress : datagram.address = n.address) (hheld : n.reader.isHeld = true)
    (hfull : limit ≤ n.queue.length) : Deadlocked limit { nodes := [n] } {0} where
  nonempty := ⟨0, rfl⟩
  waits := by
    intro i hi
    obtain rfl : i = 0 := hi
    have hstuck : n.Stuck := ⟨hsending ▸ List.cons_ne_nil _ _, hheld⟩
    exact ⟨0, rfl, n, n, datagram, rest, rfl, hstuck, hsending, target_self hopen haddress, rfl,
      hfull⟩

/-- After the start the node knows itself as a subscriber and has read nothing, whatever the codec
and the size of the queue. -/
theorem exec_joinsAndSubscribes (codec : MetadataCodec) (limit : Nat) :
    ∃ n, exec (step codec limit) {} joinsAndSubscribes = some { nodes := [n] } ∧
      KnowsItself n ∧ n.reader = .polling ∧ n.queue = [] := by
  have hrun : ((exec (step wireMetadata 1) {} joinsAndSubscribes).bind fun s =>
      s.nodes[0]?.map fun n => decide (s.nodes.length = 1) && decide (KnowsItself n) &&
        decide (n.reader = .polling) && n.queue.isEmpty) = some true := by
    decide +kernel
  obtain ⟨⟨nodes⟩, hexec, hrun⟩ := Option.bind_eq_some_iff.mp hrun
  obtain ⟨n, hn, hrun⟩ := Option.map_eq_some_iff.mp hrun
  simp only [Bool.and_eq_true, decide_eq_true_eq, List.isEmpty_iff] at hrun
  obtain ⟨⟨⟨hlength, hknows⟩, hreader⟩, hqueue⟩ := hrun
  obtain ⟨m, rfl⟩ := List.length_eq_one_iff.mp hlength
  obtain rfl : m = n := Option.some.inj hn
  refine ⟨m, ?_, hknows, hreader, hqueue⟩
  rw [← hexec]
  exact exec_plain (by decide)

/-- It publishes, sends and reads the datagram, and publishes and sends again; then it publishes
once more, and its queue has no room. -/
def hearsItself : List (DataEvent Nat) :=
  joinsAndSubscribes ++ [.node 0 (.publish [1] "t" [9]), .node 0 .send, .node 0 .read,
    .node 0 (.publish [1] "t" [9]), .node 0 .send, .node 0 (.publish [1] "t" [9])]

/-- Another node comes and goes, and the first goes on waiting for itself. -/
theorem deadlocked_forever_hearsItself :
    ∃ s s' : DataPlane Nat, Deadlocked 1 s {0} ∧
      exec (step wireMetadata 1) s [.create "b" 2 8 zeroStack, .node 1 .depart] = some s' ∧
      Deadlocked 1 s' {0} := by
  have hends : ((exec (step wireMetadata 1) {} hearsItself).bind fun s =>
      s.nodes[0]?.map fun n => decide (s.nodes.length = 1) && n.isOpen &&
        decide (n.sending.map Datagram.address = [n.address]) && n.reader.isHeld &&
        decide (1 ≤ n.queue.length)) = some true := by
    decide +kernel
  have hgoesOn : (exec (step wireMetadata 1) {}
      (hearsItself ++ [.create "b" 2 8 zeroStack, .node 1 .depart])).isSome := by
    decide +kernel
  obtain ⟨⟨nodes⟩, hrun, hends⟩ := Option.bind_eq_some_iff.mp hends
  obtain ⟨n, hn, hends⟩ := Option.map_eq_some_iff.mp hends
  simp only [Bool.and_eq_true, decide_eq_true_eq] at hends
  obtain ⟨⟨⟨⟨hlength, hopen⟩, hsending⟩, hheld⟩, hfull⟩ := hends
  obtain ⟨m, rfl⟩ := List.length_eq_one_iff.mp hlength
  obtain rfl : m = n := Option.some.inj hn
  obtain ⟨datagram, hnext, haddress⟩ := List.map_eq_singleton_iff.mp hsending
  have hdead := deadlocked_self hopen hnext haddress hheld hfull
  rw [exec_append, hrun, Option.bind_some] at hgoesOn
  obtain ⟨s', hs'⟩ := Option.isSome_iff_exists.mp hgoesOn
  exact ⟨_, s', hdead, hs', (deadlocked_forever hdead (by simp) hs').1⟩

/-- **One node is enough.**  `codec` is protobuf's.  However many datagrams a socket queues, a
node that is subscribed to a topic and publishes to it while its main thread is on the way
to the handlers comes to wait for itself. -/
theorem exists_deadlocked (codec : MetadataCodec) (hcodec : codec.Lawful) (hlimit : 0 < limit) :
    ∃ (events : List (DataEvent Nat)) (s : DataPlane Nat),
      exec (step codec limit) {} events = some s ∧ s.nodes.length = 1 ∧
        Deadlocked limit s {0} := by
  obtain ⟨n, hstart, hknows, hpolling, hempty⟩ := exec_joinsAndSubscribes codec limit
  have hroom : n.queue.length < limit := by
    rw [hempty]
    exact hlimit
  obtain ⟨n₁, packet, hsends, hknows₁, hreader₁, hqueue₁, hblob⟩ := hknows.sends codec hroom
  rw [hempty, List.nil_append] at hqueue₁
  obtain ⟨n₂, hreads, hknows₂, hheld₂, hqueue₂⟩ :=
    hknows₁.reads hcodec (hreader₁.trans hpolling) hqueue₁ hblob limit
  have hroom₂ : n₂.queue.length + limit ≤ limit := by rw [hqueue₂, List.length_nil, Nat.zero_add]
  obtain ⟨events, n₃, hfills, hknows₃, hreader₃, hlength₃⟩ := hknows₂.fills hroom₂
  have hfull : limit ≤ n₃.queue.length := by omega
  have hheld₃ : n₃.reader.isHeld = true := hreader₃ ▸ hheld₂
  obtain ⟨datagram, haddress, _, hpublishes⟩ := hknows₃.publishes codec limit
  have hdead : Deadlocked limit { nodes := [n₃.publish [datagram]] } {0} :=
    deadlocked_self hknows₃.1 rfl haddress hheld₃ hfull
  refine ⟨joinsAndSubscribes ++ ([.node 0 (.publish [1] "t" [9]), .node 0 .send] ++
    .node 0 .read :: (events ++ [.node 0 (.publish [1] "t" [9])])), _, ?_, rfl, hdead⟩
  rw [exec_append, hstart, Option.bind_some, exec_append, hsends, Option.bind_some, exec_cons,
    hreads, Option.bind_some, exec_append, hfills, Option.bind_some, exec_cons, hpublishes]
  rfl

/-- A queue of ten datagrams. -/
theorem exists_deadlocked_ten :
    ∃ (events : List (DataEvent Nat)) (s : DataPlane Nat),
      exec (step wireMetadata 10) {} events = some s ∧ s.nodes.length = 1 ∧
        Deadlocked 10 s {0} :=
  exists_deadlocked wireMetadata wireMetadata_lawful (by decide)

end Itself

end DataPlane

end IpcPubsub
