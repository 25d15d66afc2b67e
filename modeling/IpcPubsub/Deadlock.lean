import IpcPubsub.Backpressure

/-!
# When the hub waits for a manager

What becomes of the hub and its managers when nobody asks anything of them any more.

Their threads come to rest, and there are three ways in which they can be at rest
(`settles`).  Either every packet has been taken in at both ends, but for those that wait
at a manager whose `Unsubscribe` hangs.  Or the hub waits for a manager that waits for the
hub: the hub writes to a full socket, the thread that should empty it waits for `mMtx`, and
the thread that holds `mMtx` sends to a full socket that the hub should empty.  Or it is an
`Unsubscribe` that holds `mMtx`.

The second is for good, for the hub and all of its connections, as long as that manager
does not go (`wedged_forever`).  Without a call of `Unsubscribe` it takes a manager with more
to send than finds room and a hub with more for that manager than finds room
(`quiet_of_few`), and that is what a manager with a long history and a hub that was started
from one have for each other, however large the sockets are (`exists_wedged`).
-/

namespace IpcPubsub

open GuardedRuns FiniteMap

/-- What the threads of the hub and of the managers do by themselves. -/
def PacketEvent.Internal : PacketEvent → Prop
  | .enter _ | .write => True
  | .peer _ .send | .peer _ .read | .peer _ .apply => True
  | .peer _ (.accept _) | .peer _ (.receive _) | .peer _ .hangUp => True
  | _ => False

namespace Backpressure

/-- All that was sent and written has been taken in, and every manager that has gone has
been given up.  A manager whose `Unsubscribe` hangs has read one packet at most, and the
others wait in its socket. -/
structure Quiet (s : Backpressure) : Prop where
  main : s.main = .polling
  writing : s.writing = []
  sending : ∀ p ∈ s.peers, p.sending = [] ∧ p.toHub = []
  reading : ∀ p ∈ s.peers,
    (p.hung = false → p.reading = none) ∧ (p.reading = none → p.fromHub = [])
  hubEnd : ∀ p ∈ s.peers, p.hubEnd ≠ .backlog ∧ (p.isOpen = false → ∀ fd, p.hubEnd ≠ .accepted fd)

/-- The hub writes to a full socket, and the thread that should read from it waits for the
thread that sends to the hub through another. -/
structure Wedged (b : BlockingSocket) (s : Backpressure) (i : Nat) (p : Peer) : Prop where
  writes : s.writing.head?.map Prod.fst = some i
  busy : s.main ≠ .polling
  peer : s.peers[i]? = some p
  isOpen : p.isOpen = true
  fromHub : b.full p.fromHub = true
  reading : p.reading ≠ none
  sending : p.sending ≠ []
  toHub : b.full p.toHub = true

/-- The hub writes to a full socket, and the thread that should read from it waits for a call
of `Unsubscribe`. -/
structure Hung (b : BlockingSocket) (s : Backpressure) (i : Nat) (p : Peer) : Prop where
  writes : s.writing.head?.map Prod.fst = some i
  peer : s.peers[i]? = some p
  isOpen : p.isOpen = true
  fromHub : b.full p.fromHub = true
  reading : p.reading ≠ none
  hung : p.hung = true

/-- No thread can go on. -/
def AtRest (b : BlockingSocket) (s : Backpressure) : Prop :=
  ∀ event : PacketEvent, event.Internal → s.step b event = none

/-- A socket that takes one packet at a time. -/
def onePacket : BlockingSocket where
  full packets := decide (1 ≤ packets.length)
  room := 1
  room_pos := Nat.one_pos
  room_le := fun _ hfull => of_decide_eq_true hfull
  limit := 1
  full_of_le := fun _ hlimit => decide_eq_true hlimit

section Rest

variable {b : BlockingSocket} {s s' : Backpressure} {i : Nat} {p p' : Peer}

/-- An empty socket takes a packet. -/
theorem not_full_nil (b : BlockingSocket) : b.full [] = false := by
  cases hfull : b.full [] with
  | false => rfl
  | true =>
      have hroom := b.room_le [] hfull
      have hpos := b.room_pos
      simp only [List.length_nil] at hroom
      omega

/-- In a full one is something to read. -/
theorem ne_nil_of_full {packets : List TopologyMessage} (hfull : b.full packets = true) :
    packets ≠ [] := by
  rintro rfl
  rw [not_full_nil] at hfull
  cases hfull

/-- At rest nothing happens at a connection by itself. -/
theorem AtRest.goes (h : AtRest b s) (hp : s.peers[i]? = some p) (event : PeerEvent)
    {main : HubThread} (hinternal : (PacketEvent.peer i event).Internal) :
    ¬ Goes b s p event p' main := by
  intro hgoes
  have hstep := step_iff.mpr (Happens.goes hp hgoes)
  rw [h _ hinternal] at hstep
  cases hstep

/-- A descriptor that no connection has. -/
theorem exists_fresh (s : Backpressure) : ∃ fd : Fd, ∀ q ∈ s.peers, q.hubEnd.fd ≠ some fd := by
  obtain ⟨fd, hfd⟩ := Infinite.exists_notMem_finset
    (s.peers.filterMap fun q => q.hubEnd.fd).toFinset
  refine ⟨fd, fun q hq hqfd => hfd ?_⟩
  exact List.mem_toFinset.mpr (List.mem_filterMap.mpr ⟨q, hq, hqfd⟩)

/-- At rest a manager whose socket to the hub is not full has nothing to send. -/
theorem AtRest.sending (h : AtRest b s) (hp : s.peers[i]? = some p)
    (hroom : b.full p.toHub = false) : p.sending = [] := by
  cases hsending : p.sending with
  | nil => rfl
  | cons msg rest => exact absurd (.sends hsending hroom) (h.goes hp .send trivial)

/-- At rest what was read waits for a thread that has `mMtx`. -/
theorem AtRest.reading (h : AtRest b s) (hp : s.peers[i]? = some p) (hfree : p.Free) :
    p.reading = none := by
  cases hreading : p.reading with
  | none => rfl
  | some msg => exact absurd (.applies hreading hfree) (h.goes hp .apply trivial)

/-- At rest a thread that can read has nothing to read. -/
theorem AtRest.fromHub (h : AtRest b s) (hp : s.peers[i]? = some p) (hreading : p.reading = none) :
    p.fromHub = [] := by
  cases hfrom : p.fromHub with
  | nil => rfl
  | cons msg rest => exact absurd (.reads hreading hfrom) (h.goes hp .read trivial)

/-- At rest in the middle of a call, the next write is to a full socket, and the manager at its
other end has read a packet that it cannot apply. -/
theorem Valid.writes_to (h : s.Valid) (hrest : AtRest b s) {msg : TopologyMessage}
    {rest : List (Nat × TopologyMessage)} (hwriting : s.writing = (i, msg) :: rest) :
    ∃ p, s.peers[i]? = some p ∧ p.hubEnd ≠ .backlog ∧ p.isOpen = true ∧
      b.full p.fromHub = true ∧ p.reading ≠ none := by
  obtain ⟨p, hp, hback⟩ := h.writing (i, msg) (by simp [hwriting])
  have hwrite := hrest .write trivial
  have hopen : p.isOpen = true := by
    by_contra hclosed
    have hfails := step_iff.mpr (Happens.fails (b := b) hwriting hp (by simpa using hclosed))
    rw [hwrite] at hfails
    cases hfails
  have hfrom : b.full p.fromHub = true := by
    by_contra hroom
    have hwrites := step_iff.mpr (Happens.writes (b := b) hwriting hp hopen (by simpa using hroom))
    rw [hwrite] at hwrites
    cases hwrites
  have hreading : p.reading ≠ none := fun hnone =>
    ne_nil_of_full hfrom (hrest.fromHub hp hnone)
  exact ⟨p, hp, hback, hopen, hfrom, hreading⟩

/-- At rest the main thread of the hub does not poll while packets stand before it. -/
theorem Valid.busy (h : s.Valid) (hrest : AtRest b s) (hp : s.peers[i]? = some p)
    (hback : p.hubEnd ≠ .backlog) (hopen : p.isOpen = true) (hpackets : p.toHub ≠ []) :
    s.main ≠ .polling := by
  intro hmain
  obtain ⟨first, others, htoHub⟩ := List.exists_cons_of_ne_nil hpackets
  cases hend : p.hubEnd with
  | backlog => exact hback hend
  | accepted fd =>
      by_cases hid : first.nodeId = 0
      · exact hrest.goes hp (.receive 0) trivial (.ignores hmain hend htoHub hid)
      · exact hrest.goes hp (.receive 0) trivial (.receives hmain hend htoHub hid)
  | dropped fd =>
      rw [(h.dropped p (List.mem_of_getElem? hp) fd hend).1] at hopen
      cases hopen

/-- So the hub waits for a manager that waits for it, or for one whose `Unsubscribe` hangs. -/
theorem Valid.wedged (h : s.Valid) (hrest : AtRest b s) {msg : TopologyMessage}
    {rest : List (Nat × TopologyMessage)} (hwriting : s.writing = (i, msg) :: rest) :
    ∃ p, Wedged b s i p ∨ Hung b s i p := by
  obtain ⟨p, hp, hback, hopen, hfrom, hreading⟩ := h.writes_to hrest hwriting
  refine ⟨p, ?_⟩
  cases hhung : p.hung with
  | true => exact .inr ⟨by simp [hwriting], hp, hopen, hfrom, hreading, hhung⟩
  | false =>
      have hsending : p.sending ≠ [] := fun hidle => hreading (hrest.reading hp ⟨hidle, hhung⟩)
      have hto : b.full p.toHub = true := by
        by_contra hroom
        exact hsending (hrest.sending hp (by simpa using hroom))
      have hbusy : s.main ≠ .polling := h.busy hrest hp hback hopen (ne_nil_of_full hto)
      exact .inl ⟨by simp [hwriting], hbusy, hp, hopen, hfrom, hreading, hsending, hto⟩

/-- At rest in no call, everything has been taken in: a thread with something left to send or read
could go on, but for a manager that hangs. -/
theorem Valid.quiet (h : s.Valid) (hrest : AtRest b s) (hwriting : s.writing = []) : s.Quiet := by
  have hmain : s.main = .polling := by
    cases hmain : s.main with
    | polling => rfl
    | inside => exact absurd hwriting (h.inside hmain)
    | entering op =>
        obtain ⟨o, hop⟩ := exists_perform (h.entering op hmain)
        have henter := step_iff.mpr (Happens.enters (b := b) hmain hwriting (List.Perm.refl _) hop)
        rw [hrest (.enter (List.range s.peers.length)) trivial] at henter
        cases henter
  have hall : ∀ p ∈ s.peers, (p.sending = [] ∧ p.toHub = []) ∧
      ((p.hung = false → p.reading = none) ∧ (p.reading = none → p.fromHub = [])) ∧
      p.hubEnd ≠ .backlog ∧ (p.isOpen = false → ∀ fd, p.hubEnd ≠ .accepted fd) := by
    intro p hmem
    obtain ⟨i, hp⟩ := List.getElem?_of_mem hmem
    have hback : p.hubEnd ≠ .backlog := by
      intro hwaits
      obtain ⟨fd, hfresh⟩ := s.exists_fresh
      exact hrest.goes hp (.accept fd) trivial (.accepts hmain hwaits hfresh)
    have hto : p.toHub = [] := by
      cases hend : p.hubEnd with
      | backlog => exact absurd hend hback
      | dropped fd => exact (h.dropped p hmem fd hend).2
      | accepted fd =>
          by_contra hpackets
          have hopen : p.isOpen = true := by
            by_contra hclosed
            exact hrest.goes hp .hangUp trivial (.hangsUp hmain hend (by simpa using hclosed))
          exact h.busy hrest hp hback hopen hpackets hmain
    have hsending := hrest.sending hp (hto ▸ not_full_nil b)
    refine ⟨⟨hsending, hto⟩, ⟨fun hhung => hrest.reading hp ⟨hsending, hhung⟩, hrest.fromHub hp⟩,
      hback, fun hclosed fd hfd => ?_⟩
    exact hrest.goes hp .hangUp trivial (.hangsUp hmain hfd hclosed)
  exact
    { main := hmain
      writing := hwriting
      sending := fun p hp => (hall p hp).1
      reading := fun p hp => (hall p hp).2.1
      hubEnd := fun p hp => (hall p hp).2.2 }

/-- When everything has been taken in, no thread can go on: there is nothing to send, to read or
to apply, and no connection to accept. -/
theorem Quiet.atRest (h : s.Quiet) : AtRest b s := by
  intro event hinternal
  by_contra hsome
  obtain ⟨s', hs'⟩ := Option.ne_none_iff_exists'.mp hsome
  cases step_iff.mp hs' with
  | connects => cases hinternal
  | purges => cases hinternal
  | enters hmain =>
      rw [h.main] at hmain
      cases hmain
  | writes hwriting =>
      rw [h.writing] at hwriting
      cases hwriting
  | fails hwriting =>
      rw [h.writing] at hwriting
      cases hwriting
  | @goes i event q q' main hq hgoes =>
      have hmem : q ∈ s.peers := List.mem_of_getElem? hq
      obtain ⟨hsending, hto⟩ := h.sending q hmem
      obtain ⟨hfree, hfrom⟩ := h.reading q hmem
      obtain ⟨hback, hgone⟩ := h.hubEnd q hmem
      cases hgoes with
      | introduces => cases hinternal
      | requests => cases hinternal
      | unsubscribes => cases hinternal
      | departs => cases hinternal
      | sends hmsg => simp [hsending] at hmsg
      | reads hreading hmsg => simp [hfrom hreading] at hmsg
      | applies hmsg hq' => simp [hfree hq'.2] at hmsg
      | accepts _ hwaits => exact hback hwaits
      | receives _ _ hmsg => simp [hto] at hmsg
      | ignores _ _ hmsg => simp [hto] at hmsg
      | hangsUp _ hfd hclosed => exact hgone hclosed _ hfd

/-- Where the threads can rest. -/
theorem Valid.rest_cases (h : s.Valid) (hrest : AtRest b s) :
    s.Quiet ∨ (∃ i p, Wedged b s i p) ∨ ∃ i p, Hung b s i p := by
  cases hwriting : s.writing with
  | nil => exact .inl (h.quiet hrest hwriting)
  | cons w rest =>
      obtain ⟨p, hwedged | hhung⟩ := h.wedged hrest hwriting
      · exact .inr (.inl ⟨w.1, p, hwedged⟩)
      · exact .inr (.inr ⟨w.1, p, hhung⟩)

end Rest

/-! ## The threads come to rest -/

/-- What is still to be done about a connection on the way to a call of the hub. -/
def demand (p : Peer) : Nat :=
  3 * p.sending.length + 2 * p.toHub.length +
    match p.hubEnd with
    | .backlog => 4
    | .accepted _ => 2
    | .dropped _ => 0

/-- What is still to be done about what the hub has written to it. -/
def supply (p : Peer) : Nat := 2 * p.fromHub.length + p.reading.toList.length

/-- Whether the main thread is about to make a call. -/
def pending : HubThread → Nat
  | .entering _ => 1
  | _ => 0

/-- The calls that are still to come, counted by what leads to them. -/
def demands (s : Backpressure) : Nat := (s.peers.map demand).sum + pending s.main

/-- The packets that are still to be applied, counted by the steps they take. -/
def supplies (s : Backpressure) : Nat :=
  (s.peers.map supply).sum + 3 * s.writing.length

/-- Fewer calls to come, or as many and less to do about those that were made. -/
def Lower (s' s : Backpressure) : Prop :=
  Prod.Lex (· < ·) (· < ·) (s'.demands, s'.supplies) (s.demands, s.supplies)

/-- Neither of the two counts can go down for ever, and the first does not go up again. -/
theorem lower_wf : WellFounded Lower :=
  InvImage.wf (fun s : Backpressure => (s.demands, s.supplies))
    (WellFounded.prod_lex Nat.lt_wfRel.wf Nat.lt_wfRel.wf)

/-- What it means to lower them: the first count, or the second while the first stays. -/
theorem lower_iff {s s' : Backpressure} :
    Lower s' s ↔ s'.demands < s.demands ∨ s'.demands = s.demands ∧ s'.supplies < s.supplies :=
  Prod.lex_def

section Settle

variable {b : BlockingSocket} {s s' : Backpressure} {i : Nat} {p p' : Peer} {event : PeerEvent}
  {main : HubThread}

/-- The calls to come when one connection moves on. -/
theorem demands_put (hp : s.peers[i]? = some p) (hpeers : s'.peers = s.peers.set i p') :
    s'.demands + demand p + pending s.main = s.demands + demand p' + pending s'.main := by
  have hsum := sum_map_set demand p' hp
  rw [demands, demands, hpeers]
  omega

/-- The packets to apply when one connection moves on. -/
theorem supplies_put (hp : s.peers[i]? = some p) (hpeers : s'.peers = s.peers.set i p') :
    s'.supplies + supply p + 3 * s.writing.length =
      s.supplies + supply p' + 3 * s'.writing.length := by
  have hsum := sum_map_set supply p' hp
  rw [supplies, supplies, hpeers]
  omega

/-- What happens at a connection by itself leaves less to do: it sends, reads, applies, accepts or
drops, and makes nothing new. -/
theorem Goes.lower (hp : s.peers[i]? = some p) (hgoes : Goes b s p event p' main)
    (hinternal : (PacketEvent.peer i event).Internal) (hpeers : s'.peers = s.peers.set i p')
    (hmain : s'.main = main) (hwriting : s'.writing = s.writing) : Lower s' s := by
  have hdemands := demands_put hp hpeers
  have hsupplies := supplies_put hp hpeers
  rw [hmain] at hdemands
  rw [hwriting] at hsupplies
  rw [lower_iff]
  cases hgoes with
  | introduces => cases hinternal
  | requests => cases hinternal
  | unsubscribes => cases hinternal
  | departs => cases hinternal
  | sends hsending hroom =>
      simp only [demand, hsending, List.length_append, List.length_cons, List.length_nil]
        at hdemands
      omega
  | reads hreading hfrom =>
      simp only [demand] at hdemands
      simp only [supply, hreading, hfrom, Option.toList_none, Option.toList_some, List.length_cons,
        List.length_nil] at hsupplies
      omega
  | applies hreading hidle =>
      simp only [demand] at hdemands
      simp only [supply, hreading, Option.toList_none, Option.toList_some, List.length_cons,
        List.length_nil] at hsupplies
      omega
  | accepts hpolling hwaits hfresh =>
      simp only [demand, hpolling, hwaits, pending] at hdemands
      omega
  | receives hpolling hfd hto hid =>
      simp only [demand, hpolling, hto, pending, List.length_cons] at hdemands
      omega
  | ignores hpolling hfd hto hid =>
      simp only [demand, hto, List.length_cons] at hdemands
      omega
  | hangsUp hpolling hfd hclosed =>
      simp only [demand, hpolling, hfd, pending, List.length_nil] at hdemands
      omega

/-- A write starts and ends no call that is still to come. -/
theorem pending_afterWrite (main : HubThread) (rest : List (Nat × TopologyMessage)) :
    pending (afterWrite main rest) = pending main := by
  unfold afterWrite
  split
  case isTrue h => simp [h.2, pending]
  case isFalse => rfl

/-- What the threads do by themselves leaves less to do.  A call of the hub may write many
packets, but it takes one in, which counts for more. -/
theorem step_lower {event : PacketEvent} (hinternal : event.Internal)
    (hstep : s.step b event = some s') : Lower s' s := by
  cases step_iff.mp hstep with
  | connects => cases hinternal
  | purges => cases hinternal
  | goes hp hgoes => exact hgoes.lower hp hinternal rfl rfl rfl
  | @enters op order o hmain hfree horder hop =>
      have hsame : ((s.begin o order).peers.map demand).sum = (s.peers.map demand).sum := by
        rw [Backpressure.begin, List.map_map]
        rfl
      rw [lower_iff, demands, demands, hsame, hmain]
      left
      split <;> simp [pending]
  | @writes i msg rest p hwriting hp hopen hroom =>
      generalize hs' : put { s with writing := rest, main := afterWrite s.main rest } i
        { p with fromHub := p.fromHub ++ [msg] } = s'
      have hpeers : s'.peers = s.peers.set i { p with fromHub := p.fromHub ++ [msg] } := by
        rw [← hs', put]
      have hdemands := demands_put hp hpeers
      have hsupplies := supplies_put hp hpeers
      rw [show s'.main = afterWrite s.main rest by rw [← hs', put], pending_afterWrite] at hdemands
      rw [show s'.writing = rest by rw [← hs', put], hwriting] at hsupplies
      simp only [demand] at hdemands
      simp only [supply, List.length_append, List.length_cons, List.length_nil] at hsupplies
      rw [lower_iff]
      omega
  | @fails i msg rest p hwriting hp hclosed =>
      refine lower_iff.mpr (.inr ⟨?_, ?_⟩)
      · rw [demands, demands, pending_afterWrite]
      · rw [supplies, supplies, hwriting]
        show (s.peers.map supply).sum + 3 * rest.length <
          (s.peers.map supply).sum + 3 * (rest.length + 1)
        omega

end Settle

/-- A manager of one publication connects and introduces itself. -/
def introduces : List PacketEvent :=
  [.connect { mNodeId := 5 }, .peer 0 (.introduce [{ name := "t", mime := "m" }] [])]

def introduced : Backpressure where
  hub := .create []
  peers :=
    [{  manager := { mNodeId := 5 }
        introduced := true
        sending := [TopologyManager.joinMessage { mNodeId := 5 }]
        offered := 1 }]

/-- Nothing has been done by the hub, nor been read by it. -/
structure Frozen (s s' : Backpressure) : Prop where
  hub : s'.hub = s.hub
  main : s'.main = s.main
  writing : s'.writing = s.writing
  toHub : ∀ (j : Nat) (q : Peer), s.peers[j]? = some q →
    ∃ q', s'.peers[j]? = some q' ∧ q.toHub <+: q'.toHub

section Wedge

variable {b : BlockingSocket} {s s' : Backpressure} {i : Nat} {p : Peer}

/-- Where nothing happens, nothing is done. -/
theorem Frozen.refl (s : Backpressure) : Frozen s s where
  hub := rfl
  main := rfl
  writing := rfl
  toHub := fun _ q hq => ⟨q, hq, List.prefix_rfl⟩

/-- The same over two parts of a run. -/
theorem Frozen.trans {s₁ : Backpressure} (h : Frozen s s₁) (h' : Frozen s₁ s') : Frozen s s' where
  hub := h'.hub.trans h.hub
  main := h'.main.trans h.main
  writing := h'.writing.trans h.writing
  toHub := by
    intro j q hq
    obtain ⟨q₁, hq₁, hprefix⟩ := h.toHub j q hq
    obtain ⟨q', hq', hprefix'⟩ := h'.toHub j q₁ hq₁
    exact ⟨q', hq', hprefix.trans hprefix'⟩

/-- No event at a connection gets the main thread on. -/
theorem Goes.of_busy {q q' : Peer} {event : PeerEvent} {main : HubThread}
    (hgoes : Goes b s q event q' main) (hbusy : s.main ≠ .polling) :
    main = s.main ∧ q.toHub <+: q'.toHub := by
  cases hgoes with
  | accepts hmain => exact absurd hmain hbusy
  | receives hmain => exact absurd hmain hbusy
  | ignores hmain => exact absurd hmain hbusy
  | hangsUp hmain => exact absurd hmain hbusy
  | sends => exact ⟨rfl, List.prefix_append _ _⟩
  | _ => exact ⟨rfl, List.prefix_rfl⟩

/-- The manager that the hub waits for can only go: its threads wait for the lock and for the
socket. -/
theorem Wedged.depart (h : Wedged b s i p) {event : PeerEvent} {p' : Peer} {main : HubThread}
    (hgoes : Goes b s p event p' main) : event = .depart := by
  cases hgoes with
  | departs => rfl
  | introduces _ _ hfree => exact absurd hfree.1 h.sending
  | requests _ _ hfree _ => exact absurd hfree.1 h.sending
  | unsubscribes _ hfree => exact absurd hfree.1 h.sending
  | sends _ hroom =>
      rw [h.toHub] at hroom
      cases hroom
  | reads hreading => exact absurd hreading h.reading
  | applies _ hfree => exact absurd hfree.1 h.sending
  | accepts hmain => exact absurd hmain h.busy
  | receives hmain => exact absurd hmain h.busy
  | ignores hmain => exact absurd hmain h.busy
  | hangsUp hmain => exact absurd hmain h.busy

/-- Unless that manager goes, no event changes the hub or takes a packet from a socket to it. -/
theorem Wedged.step {event : PacketEvent} (h : Wedged b s i p) (hevent : event ≠ .peer i .depart)
    (hstep : s.step b event = some s') : Wedged b s' i p ∧ Frozen s s' := by
  have hwriting : ∃ msg rest, s.writing = (i, msg) :: rest := by
    have hhead := h.writes
    cases hw : s.writing with
    | nil => simp [hw] at hhead
    | cons w rest =>
        obtain ⟨k, msg⟩ := w
        obtain rfl : k = i := by simpa [hw] using hhead
        exact ⟨msg, rest, rfl⟩
  obtain ⟨msg, rest, hwriting⟩ := hwriting
  cases step_iff.mp hstep with
  | connects =>
      have hlookup : ∀ {j : Nat} {q : Peer}, s.peers[j]? = some q →
          ∀ q', (s.peers ++ [q'])[j]? = some q :=
        fun hq q' => (List.getElem?_append_left (List.getElem?_eq_some_iff.mp hq).1).trans hq
      exact
        ⟨{ h with peer := hlookup h.peer _ },
          { Frozen.refl s with toHub := fun j q hq => ⟨q, hlookup hq _, List.prefix_rfl⟩ }⟩
  | @goes k event q q' main hq hgoes =>
      obtain ⟨rfl, hprefix⟩ := hgoes.of_busy h.busy
      have hne : i ≠ k := by
        rintro rfl
        obtain rfl : p = q := Option.some.inj (h.peer.symm.trans hq)
        exact hevent (congrArg (PacketEvent.peer i) (h.depart hgoes))
      refine ⟨{ h with peer := ((peers_put hq q' i).trans (if_neg hne)).trans h.peer },
        { Frozen.refl s with toHub := fun j r hr => ?_ }⟩
      by_cases heq : j = k
      · subst heq
        obtain rfl : q = r := Option.some.inj (hq.symm.trans hr)
        exact ⟨q', (peers_put hq q' j).trans (if_pos rfl), hprefix⟩
      · exact ⟨r, ((peers_put hq q' j).trans (if_neg heq)).trans hr, List.prefix_rfl⟩
  | enters _ hfree =>
      rw [hwriting] at hfree
      cases hfree
  | purges hfree =>
      rw [hwriting] at hfree
      cases hfree
  | writes hwriting' hq _ hroom =>
      rw [hwriting] at hwriting'
      cases hwriting'
      obtain rfl := Option.some.inj (h.peer.symm.trans hq)
      rw [h.fromHub] at hroom
      cases hroom
  | fails hwriting' hq hclosed =>
      rw [hwriting] at hwriting'
      cases hwriting'
      obtain rfl := Option.some.inj (h.peer.symm.trans hq)
      rw [h.isOpen] at hclosed
      cases hclosed

end Wedge

/-- **The hub waits for good.**  Once the hub waits for a manager that waits for the hub,
then as long as that manager does not go, whatever else happens, the hub makes no call
and reads no packet any more, of any connection. -/
theorem wedged_forever {b : BlockingSocket} {s s' : Backpressure} {i : Nat} {p : Peer}
    {events : List PacketEvent} (hwedged : Wedged b s i p)
    (hevents : ∀ event ∈ events, event ≠ .peer i .depart)
    (hs : exec (step b) s events = some s') : Wedged b s' i p ∧ Frozen s s' := by
  have hafter := exec_invariant (I := fun t => Wedged b t i p ∧ Frozen s t)
    (P := fun _ event => event ≠ .peer i .depart)
    (fun t event t' h hevent hstep =>
      have hnext := h.1.step hevent hstep
      ⟨hnext.1, h.2.trans hnext.2⟩)
    ⟨hwedged, Frozen.refl s⟩ (along_of_forall hevents) hs
  exact hafter

/-- A manager connects and introduces itself, and the hub accepts it. -/
def meets (manager : TopologyManager) (pubs : List Publication) (subs : List String) :
    List PacketEvent :=
  [.connect manager, .peer 0 (.introduce pubs subs), .peer 0 (.accept 0)] ++ [.enter [0]]

/-- The digest of a hub of three nodes. -/
def threeJoins : List TopologyMessage :=
  [{ seq := 1, uid := 1, op := .nodeChange { id := 1, op := .join } },
    { seq := 2, uid := 2, op := .nodeChange { id := 2, op := .join } },
    { seq := 3, uid := 3, op := .nodeChange { id := 3, op := .join } }]

def rememberingManager : TopologyManager where
  mNodeId := 5
  mHistory := [{ seq := 1, uid := 1, op := .nodeChange { id := 1, op := .join } }]

/-- The hub has written two messages of three, and the manager has sent one of two. -/
def stuckPeer : Peer where
  manager := rememberingManager
  hubEnd := .accepted 0
  introduced := true
  sending := [rememberingManager.joinMessage]
  reading := some { seq := 1, uid := 1, op := .nodeChange { id := 1, op := .join } }
  toHub := [{ seq := 1, uid := 1, op := .nodeChange { id := 1, op := .join } }]
  fromHub := [{ seq := 2, uid := 2, op := .nodeChange { id := 2, op := .join } }]
  offered := 2
  due := 3

def stuck : Backpressure where
  hub := ((TopologyServer.create threeJoins).onConnect 0).server
  main := .inside
  writing := [(0, { seq := 3, uid := 3, op := .nodeChange { id := 3, op := .join } })]
  peers := [stuckPeer]

example : exec (step onePacket) (start threeJoins) (meets rememberingManager [] [] ++
    [.write, .peer 0 .read, .write, .peer 0 .send]) = some stuck := by decide +kernel

/-- Another manager connects and introduces itself. -/
def others : List PacketEvent :=
  [.connect { mNodeId := 6 }, .peer 1 (.introduce [] []), .peer 1 .send]

/-- What it has sent stays where it is. -/
def stuckLater : Backpressure :=
  { stuck with
    peers :=
      [stuckPeer,
        { manager := { mNodeId := 6 }
          introduced := true
          toHub := [TopologyManager.joinMessage { mNodeId := 6 }]
          offered := 1 }] }

/-- The hub of three nodes and a manager with a history. -/
theorem wedged_forever_stuck : Wedged onePacket stuckLater 0 stuckPeer ∧ Frozen stuck stuckLater :=
  wedged_forever
    ⟨rfl, by decide, rfl, rfl, rfl, by decide, by decide, rfl⟩
    (show ∀ event ∈ others, event ≠ .peer 0 .depart by simp [others])
    (by decide +kernel)

/-! ## What it takes -/

/-- The manager has not more to send in all than finds room and calls no `Unsubscribe`, or the
hub has not more for it than finds room, but for the packet it has read and the one that
waits. -/
def Few (b : BlockingSocket) (p : Peer) : Prop :=
  p.hung = false ∧ p.offered ≤ b.room ∨ p.due ≤ b.room + 1

instance (b : BlockingSocket) (p : Peer) : Decidable (Few b p) :=
  inferInstanceAs (Decidable (_ ∨ _))

/-- A hub that waits to write has more for the manager than finds room. -/
theorem Valid.room_lt_due {b : BlockingSocket} {s : Backpressure} {i : Nat} {p : Peer} (h : s.Valid)
    (hpeer : s.peers[i]? = some p) (hwrites : s.writing.head?.map Prod.fst = some i)
    (hfull : b.full p.fromHub = true) (hread : p.reading ≠ none) : b.room + 1 < p.due := by
  have hfrom := b.room_le _ hfull
  have hreading : p.reading.toList.length = 1 := by
    obtain ⟨msg, hmsg⟩ := Option.ne_none_iff_exists'.mp hread
    simp [hmsg]
  have hwriting : 0 < s.writing.countP (fun w => w.1 = i) := by
    cases hw : s.writing with
    | nil => simp [hw] at hwrites
    | cons w rest =>
        have hfirst : w.1 = i := by simpa [hw] using hwrites
        simp [hfirst]
  have hdue := h.due i p hpeer
  omega

/-- A manager that the hub waits for, and that waits for the hub, has much to send too. -/
theorem Wedged.not_few {b : BlockingSocket} {s : Backpressure} {i : Nat} {p : Peer} (h : s.Valid)
    (hwedged : Wedged b s i p) : ¬ Few b p := by
  have hdue := h.room_lt_due hwedged.peer hwedged.writes hwedged.fromHub hwedged.reading
  have hto := b.room_le _ hwedged.toHub
  have hsending : 0 < p.sending.length := List.length_pos_of_ne_nil hwedged.sending
  have hoffered := h.offered p (List.mem_of_getElem? hwedged.peer)
  rintro (⟨_, hfew⟩ | hfew) <;> omega

/-- One whose `Unsubscribe` hangs need not. -/
theorem Hung.not_few {b : BlockingSocket} {s : Backpressure} {i : Nat} {p : Peer} (h : s.Valid)
    (hhung : Hung b s i p) : ¬ Few b p := by
  have hdue := h.room_lt_due hhung.peer hhung.writes hhung.fromHub hhung.reading
  rintro (⟨hcalled, _⟩ | hfew)
  · rw [hhung.hung] at hcalled
    cases hcalled
  · omega

/-- The manager introduces itself and is told so. -/
def introducesQuietly : List PacketEvent :=
  introduces ++ [.peer 0 .send, .peer 0 (.accept 0), .enter [0], .peer 0 (.receive 7), .enter [0],
    .write, .peer 0 .read, .peer 0 .apply]

def introducedQuietly : Backpressure :=
  (exec (step onePacket) (start []) introducesQuietly).getD (start [])

/-- The only manager sends and reads and the hub writes, but for what the sockets take. -/
structure Filling (b : BlockingSocket) (offers writes : Nat) (s : Backpressure) (p : Peer) :
    Prop where
  peers : s.peers = [p]
  isOpen : p.isOpen = true
  inside : s.writing ≠ [] → s.main = .inside
  first : ∀ w ∈ s.writing, w.1 = 0
  offers : p.sending.length + p.toHub.length = offers
  writes : s.writing.length + p.fromHub.length + p.reading.toList.length = writes
  toHub : p.toHub.length ≤ b.limit
  fromHub : p.fromHub.length ≤ b.limit

/-- The events by which the sockets fill. -/
def Fills (event : PacketEvent) : Prop :=
  event = .peer 0 .send ∨ event = .peer 0 .read ∨ event = .write

section Fill

variable {b : BlockingSocket} {s s' : Backpressure} {p : Peer} {offers writes : Nat}

/-- A socket that takes another packet has fewer than it can take. -/
theorem length_lt_of_room {packets : List TopologyMessage} (hroom : b.full packets = false) :
    packets.length < b.limit := by
  by_contra hge
  rw [b.full_of_le packets (by omega)] at hroom
  cases hroom

/-- One more packet is sent, read or written.  What the manager and the hub have begun to send in
all stays what it was. -/
theorem Filling.step (h : Filling b offers writes s p) {event : PacketEvent} (hevent : Fills event)
    (hstep : s.step b event = some s') : ∃ p', Filling b offers writes s' p' := by
  have hoffers := h.offers
  have hwrites := h.writes
  have hfirst : ∀ {i : Nat} {q : Peer}, s.peers[i]? = some q → i = 0 ∧ q = p := by
    intro i q hq
    rw [h.peers] at hq
    cases i with
    | zero => exact ⟨rfl, (by simpa using hq.symm)⟩
    | succ i => simp at hq
  cases step_iff.mp hstep with
  | connects => rcases hevent with hevent | hevent | hevent <;> cases hevent
  | enters => rcases hevent with hevent | hevent | hevent <;> cases hevent
  | purges => rcases hevent with hevent | hevent | hevent <;> cases hevent
  | @goes i event q q' main hq hgoes =>
      obtain ⟨rfl, rfl⟩ := hfirst hq
      have hpeers : s.peers.set 0 q' = [q'] := by simp [h.peers]
      rcases hevent with hevent | hevent | hevent
      · cases hevent
        cases hgoes with
        | @sends msg rest hsending hroom =>
            have hlt := length_lt_of_room hroom
            rw [hsending, List.length_cons] at hoffers
            refine ⟨{ q with sending := rest, toHub := q.toHub ++ [msg] }, hpeers, h.isOpen,
              h.inside, h.first, ?_, h.writes, ?_, h.fromHub⟩
            · simp only [List.length_append, List.length_cons, List.length_nil]
              omega
            · simp only [List.length_append, List.length_cons, List.length_nil]
              omega
      · cases hevent
        cases hgoes with
        | @reads msg rest hreading hfrom =>
            have hlimit := h.fromHub
            rw [hreading, hfrom, List.length_cons, Option.toList_none, List.length_nil] at hwrites
            rw [hfrom, List.length_cons] at hlimit
            refine ⟨{ q with reading := some msg, fromHub := rest }, hpeers, h.isOpen,
              h.inside, h.first, h.offers, ?_, h.toHub, ?_⟩
            · show s.writing.length + rest.length + 1 = writes
              omega
            · show rest.length ≤ b.limit
              omega
      · cases hevent
  | @writes i msg rest q hwriting hq hopen hroom =>
      obtain ⟨rfl, rfl⟩ := hfirst hq
      have hlt := length_lt_of_room hroom
      have hinside := h.inside (by simp [hwriting])
      rw [hwriting, List.length_cons] at hwrites
      refine ⟨{ q with fromHub := q.fromHub ++ [msg] }, ?_, h.isOpen, ?_, ?_, h.offers, ?_, h.toHub,
        ?_⟩
      · simp [put, h.peers]
      · intro hrest
        have hrest' : rest ≠ [] := hrest
        simp [put, afterWrite, hrest', hinside]
      · exact fun w hw => h.first w (hwriting ▸ List.mem_cons_of_mem _ hw)
      · show rest.length + (q.fromHub ++ [msg]).length + q.reading.toList.length = writes
        simp only [List.length_append, List.length_cons, List.length_nil]
        omega
      · simp only [List.length_append, List.length_cons, List.length_nil]
        omega
  | fails _ hq hclosed =>
      obtain ⟨rfl, rfl⟩ := hfirst hq
      rw [h.isOpen] at hclosed
      cases hclosed

/-- When the sockets take no more, the hub and the manager wait for each other. -/
theorem Filling.wedged (h : Filling b offers writes s p) (hoffers : b.limit + 1 ≤ offers)
    (hwrites : b.limit + 2 ≤ writes) (hrest : ∀ event, Fills event → s.step b event = none) :
    Wedged b s 0 p := by
  have hp : s.peers[0]? = some p := by simp [h.peers]
  have hsum := h.offers
  have htotal := h.writes
  have hlimit := h.toHub
  have hlimit' := h.fromHub
  have hread : p.reading.toList.length ≤ 1 := by cases p.reading <;> simp
  have hsending : p.sending ≠ [] := by
    intro hidle
    rw [hidle, List.length_nil] at hsum
    omega
  have hto : b.full p.toHub = true := by
    by_contra hroom
    obtain ⟨msg, rest, hmsg⟩ := List.exists_cons_of_ne_nil hsending
    have hsends := step_iff.mpr (Happens.goes hp (Goes.sends (b := b) hmsg (by simpa using hroom)))
    rw [hrest _ (.inl rfl)] at hsends
    cases hsends
  have hwriting : s.writing ≠ [] := by
    intro hnone
    rw [hnone, List.length_nil] at htotal
    omega
  obtain ⟨w, rest, hw⟩ := List.exists_cons_of_ne_nil hwriting
  obtain ⟨i, msg⟩ := w
  obtain rfl : i = 0 := h.first (i, msg) (by simp [hw])
  have hfrom : b.full p.fromHub = true := by
    by_contra hroom
    have hwrite := step_iff.mpr
      (Happens.writes (b := b) hw hp h.isOpen (by simpa using hroom))
    rw [hrest _ (.inr (.inr rfl))] at hwrite
    cases hwrite
  have hreading : p.reading ≠ none := by
    intro hnone
    obtain ⟨first, others, hfirst⟩ := List.exists_cons_of_ne_nil (ne_nil_of_full hfrom)
    have hreads := step_iff.mpr (Happens.goes hp (Goes.reads (b := b) hnone hfirst))
    rw [hrest _ (.inr (.inl rfl))] at hreads
    cases hreads
  exact
    { writes := by simp [hw]
      busy := by simp [h.inside hwriting]
      peer := hp
      isOpen := h.isOpen
      fromHub := hfrom
      reading := hreading
      sending := hsending
      toHub := hto }

end Fill

/-- What the manager and the hub have for each other when they have met. -/
theorem exists_filling (b : BlockingSocket) (digest : List TopologyMessage)
    (manager : TopologyManager) (pubs : List Publication) (subs : List String) :
    ∃ s p, exec (step b) (start digest) (meets manager pubs subs) = some s ∧
      Filling b (manager.introduceOurselves pubs subs).length digest.length s p := by
  let msgs := manager.introduceOurselves pubs subs
  let p₀ : Peer :=
    { manager := manager
      hubEnd := .accepted 0
      introduced := true
      sending := msgs
      offered := 0 + msgs.length }
  let s₀ : Backpressure :=
    { start digest with main := .entering (.connect 0), peers := [p₀] }
  have harrives : exec (step b) (start digest)
      [.connect manager, .peer 0 (.introduce pubs subs), .peer 0 (.accept 0)] = some s₀ := by
    simp [exec, step, start, act, put, Peer.Free, HubEnd.fd, s₀, p₀, msgs]
  have hop : s₀.hub.perform (.connect 0) = some (s₀.hub.onConnect 0) := by
    rw [TopologyServer.perform, if_neg]
    exact fun hmem => Finmap.notMem_empty hmem
  have hwrites : s₀.writesOf (s₀.hub.onConnect 0) [0] = digest.map fun msg => (0, msg) := by
    simp [writesOf, writesTo, sentTo, HubEnd.fd, s₀, p₀, TopologyServer.onConnect, start,
      TopologyServer.create]
  have henter := step_iff.mpr
    (Happens.enters (b := b) (s := s₀) rfl rfl (List.Perm.refl [0]) hop)
  have hmeets : exec (step b) (start digest) (meets manager pubs subs) =
      step b s₀ (.enter [0]) := by
    rw [meets, exec_append, harrives, Option.bind_some, exec_cons]
    simp
  refine ⟨_, { p₀ with due := 0 + (sentTo (s₀.hub.onConnect 0) p₀).length }, hmeets.trans henter,
    ?_⟩
  exact
    { peers := rfl
      isOpen := rfl
      inside := fun hwriting => if_neg hwriting
      first := by
        intro w hw
        have hmem : w ∈ digest.map fun msg => (0, msg) := hwrites ▸ hw
        obtain ⟨msg, _, rfl⟩ := List.mem_map.mp hmem
        rfl
      offers := by simp [p₀, msgs]
      writes := by
        show (s₀.writesOf (s₀.hub.onConnect 0) [0]).length + 0 + 0 = digest.length
        simp only [hwrites, List.length_map, Nat.add_zero]
      toHub := Nat.zero_le _
      fromHub := Nat.zero_le _ }

/-- **One manager is enough.**  However much the sockets take, a hub that was started from a
longer digest and a manager with as long a history come to wait for each other when
the manager connects. -/
theorem exists_wedged (b : BlockingSocket) {digest : List TopologyMessage}
    {manager : TopologyManager} (pubs : List Publication) (subs : List String)
    (hdigest : b.limit + 2 ≤ digest.length) (hhistory : b.limit ≤ manager.mHistory.length) :
    ∃ events s p, (∀ event ∈ events, Fills event) ∧
      exec (step b) (start digest) (meets manager pubs subs ++ events) = some s ∧
      Wedged b s 0 p := by
  obtain ⟨s₁, p₁, hs₁, hfilling⟩ := exists_filling b digest manager pubs subs
  obtain ⟨events, s, halong, hs, ⟨p, hp⟩, hrest⟩ := exists_settles (step b)
    (I := fun s => ∃ p, Filling b (manager.introduceOurselves pubs subs).length digest.length s p)
    (E := fun _ event => Fills event) lower_wf
    (by
      rintro t event t' ⟨p, hp⟩ hevent hstep
      refine ⟨hp.step hevent hstep, step_lower ?_ hstep⟩
      rcases hevent with rfl | rfl | rfl <;> trivial)
    ⟨p₁, hfilling⟩
  have hoffers : b.limit + 1 ≤ (manager.introduceOurselves pubs subs).length := by
    simp only [TopologyManager.introduceOurselves, List.length_append, List.length_cons]
    omega
  refine ⟨events, s, p, forall_of_along halong hs, ?_, hp.wedged hoffers hdigest hrest⟩
  rw [exec_append, hs₁]
  exact hs

/-- Sockets that take one packet at a time. -/
theorem exists_wedged_threeJoins :
    ∃ events s p, (∀ event ∈ events, Fills event) ∧
      exec (step onePacket) (start threeJoins) (meets rememberingManager [] [] ++ events) = some s ∧
      Wedged onePacket s 0 p :=
  exists_wedged onePacket [] [] (show 3 ≤ threeJoins.length by decide)
    (show 1 ≤ rememberingManager.mHistory.length by decide)

end Backpressure

end IpcPubsub
