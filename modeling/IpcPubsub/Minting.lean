import IpcPubsub.Delivery
import IpcPubsub.Reconnect

/-!
# A hub that only mints

A hub that starts empty and whose clients re-send nothing but what it sent them
never accepts an old message: what it sent is never beyond its history
(`Minting.hit_ne_none`).  All it ever records it has minted itself, under 1, 2, 3
and so on.

What the hub minted then decides who is present for every client.  A node is
present to whoever has applied all that was sent exactly when it has a JOIN and
no LEAVE (`Minting.present_iff`), whatever was pruned in between.
-/

namespace IpcPubsub

open FiniteMap CursorLog WordOrder

/-- The call is about the connection. -/
def HubOp.Concerns (fd : Fd) : HubOp → Prop
  | .connect fd' => fd' = fd
  | .data fd' _ _ => fd' = fd
  | .disconnect fd' => fd' = fd
  | .purge _ => False

namespace TopologyServer

variable {s u : TopologyServer} {op : HubOp} {o : Outcome}
  {minted accepted : List TopologyMessage} {failed : List Assertion}

/-- The numbers that are used up by LEAVEs. -/
theorem mintLeaves_next {ids : List UInt64} (hwrap : s.mNextSeq.toNat + ids.length < 2 ^ 64) :
    (s.mintLeaves ids).1.mNextSeq.toNat = s.mNextSeq.toNat + ids.length := by
  induction ids generalizing s with
  | nil => rfl
  | cons id ids ih =>
      rw [List.length_cons] at hwrap ⊢
      have hone : (s.mint (leaveMessage id)).mNextSeq.toNat = s.mNextSeq.toNat + 1 :=
        toNat_add_one_of_lt (by omega)
      have hrest := @ih (s.mint (leaveMessage id)) (by omega)
      change ((s.mint (leaveMessage id)).mintLeaves ids).1.mNextSeq.toNat = _
      omega

/-- Minting moves the counter by one for each message. -/
theorem Updates.next (h : Updates s op u minted accepted failed) (haccepted : accepted = [])
    (hwrap : s.mNextSeq.toNat + minted.length < 2 ^ 64) :
    u.mNextSeq.toNat = s.mNextSeq.toNat + minted.length := by
  cases h with
  | redundant _ _ _ _ => rfl
  | held _ _ _ _ => rfl
  | newest _ _ _ _ => cases haccepted
  | novel _ _ _ _ => exact toNat_add_one_of_lt hwrap
  | disconnect _ => exact toNat_add_one_of_lt hwrap
  | purge _ _ =>
      rw [mintLeaves_length] at hwrap ⊢
      exact mintLeaves_next hwrap

/-- Messages are minted from the counter on, a packet one and the purge as many as it makes leave. -/
theorem Updates.minted_from (h : Updates s op u minted accepted failed) (hs : s.Ordered)
    (hwrap : s.mNextSeq.toNat + minted.length < 2 ^ 64) :
    ∀ msg ∈ minted, s.mNextSeq ≤ msg.seq := by
  intro msg hmem
  cases h with
  | redundant _ _ _ _ => cases hmem
  | held _ _ _ _ => cases hmem
  | newest _ _ _ _ => cases hmem
  | novel _ _ _ _ =>
      obtain rfl := List.mem_singleton.mp hmem
      exact le_refl _
  | disconnect _ =>
      obtain rfl := List.mem_singleton.mp hmem
      exact le_refl _
  | purge _ _ =>
      rw [mintLeaves_length] at hwrap
      exact (hs.mintLeaves hwrap).2.2 msg hmem

/-- What a call that accepts nothing mints, and how far the counter goes on by it. -/
theorem perform_numbers (h : s.Ordered) (hwrap : s.NoWrap op) (hop : s.perform op = some o)
    (haccepted : o.accepted = []) :
    o.server.mNextSeq.toNat = s.mNextSeq.toNat + o.minted.length ∧
      ∀ msg ∈ o.minted, s.mNextSeq ≤ msg.seq ∧ msg.seq < o.server.mNextSeq := by
  rcases perform_cases hop with ⟨fd, rfl, _, rfl⟩ | ⟨fd, msg, random, rfl, _, rfl⟩ |
    ⟨u, failed, hupdate, hserver, _, _⟩
  · exact ⟨rfl, fun msg hmem => by cases hmem⟩
  · exact ⟨rfl, fun msg hmem => by cases hmem⟩
  · have hbound := hwrap.2 o hop
    have hordered := (hupdate.ordered h hwrap.1 hbound).1
    rw [hserver, settle_mNextSeq]
    refine ⟨hupdate.next haccepted hbound, fun msg hmem => ⟨?_, ?_⟩⟩
    · exact hupdate.minted_from h hbound msg hmem
    · refine hordered.below msg ?_
      rw [hupdate.history]
      simp [hmem]

/-! ## What is remembered of a client -/

/-- Connections that a call is not about stay open. -/
theorem perform_open (h : s.perform op = some o) {fd : Fd} (hopen : fd ∈ s.mClients)
    (hstays : op ≠ .disconnect fd) : fd ∈ o.server.mClients := by
  obtain ⟨client, hclient⟩ := Finmap.mem_iff.mp hopen
  have hlookup : (s.staying op).lookup fd = some client := by
    cases op with
    | disconnect fd' =>
        have hne : fd ≠ fd' := fun heq => hstays (heq ▸ rfl)
        rw [staying, Finmap.lookup_erase_ne hne, hclient]
    | _ => exact hclient
  exact Finmap.mem_iff.mpr (perform_staying h hlookup)

/-- A call leaves what is remembered of the connections it is not about. -/
theorem perform_frame (h : s.perform op = some o) {fd : Fd} (hother : ¬ op.Concerns fd)
    {client' : Client} (hlookup : o.server.mClients.lookup fd = some client') :
    ∃ client, s.mClients.lookup fd = some client ∧ client'.nodeId = client.nodeId ∧
      client'.history = client.history := by
  rcases perform_cases h with ⟨fd', rfl, _, rfl⟩ | ⟨fd', msg, random, rfl, _, rfl⟩ |
    ⟨u, failed, hupdate, hserver, _, _⟩
  · simp only [onConnect, Finmap.lookup_insert_of_ne _ (Ne.symm hother)] at hlookup
    exact ⟨client', hlookup, rfl, rfl⟩
  · exact ⟨client', hlookup, rfl, rfl⟩
  · rw [hserver] at hlookup
    obtain ⟨updated, hupdated, hnode, hhistory⟩ := of_lookup_settle u hlookup
    refine ⟨updated, ?_, hnode, hhistory⟩
    generalize o.minted = minted at hupdate
    generalize o.accepted = accepted at hupdate
    cases hupdate with
    | disconnect _ => rwa [Finmap.lookup_erase_ne (Ne.symm hother)] at hupdated
    | purge _ _ => rwa [mintLeaves_mClients] at hupdated
    | _ => rwa [Finmap.lookup_insert_of_ne _ (Ne.symm hother)] at hupdated

section Data

variable {fd : Fd} {msg : TopologyMessage} {random : UInt64} {client client' : Client}

/-- A message that is not beyond the history is not taken up again. -/
theorem perform_old (h : s.perform (.data fd msg random) = some o)
    (hclient : s.mClients.lookup fd = some client) (hseq : msg.seq ≠ 0) (hhit : s.hit msg ≠ none)
    (hlookup : o.server.mClients.lookup fd = some client') :
    o.minted = [] ∧ o.accepted = [] ∧ client'.history = client.history := by
  rcases perform_cases h with ⟨fd', heq, _⟩ | ⟨fd', msg', random', _, _, rfl⟩ |
    ⟨u, failed, hupdate, hserver, _, _⟩
  · cases heq
  · obtain rfl := Option.some.inj (hclient.symm.trans hlookup)
    exact ⟨rfl, rfl, rfl⟩
  · rw [hserver] at hlookup
    obtain ⟨updated, hupdated, _, hhistory⟩ := of_lookup_settle u hlookup
    rw [hhistory]
    generalize o.minted = minted at hupdate ⊢
    generalize o.accepted = accepted at hupdate ⊢
    cases hupdate with
    | redundant _ _ hzero _ => exact absurd hzero hseq
    | novel _ _ hzero _ => exact absurd hzero hseq
    | newest _ _ _ hnone => exact absurd hnone hhit
    | held hfound _ _ _ =>
        obtain rfl := Option.some.inj (hclient.symm.trans hfound)
        rw [Finmap.lookup_insert] at hupdated
        exact ⟨rfl, rfl, by rw [← Option.some.inj hupdated]⟩

/-- A fresh message is minted unless its client has sent it before. -/
theorem perform_new (h : s.perform (.data fd msg random) = some o)
    (hclient : s.mClients.lookup fd = some client) (hseq : msg.seq = 0) (hid : msg.nodeId ≠ 0)
    (hlookup : o.server.mClients.lookup fd = some client') :
    o.accepted = [] ∧ client'.nodeId = msg.nodeId ∧
      (isRedundant msg client = true ∧ o.minted = [] ∨
        isRedundant msg client = false ∧
          o.minted = [{ msg with seq := s.mNextSeq, uid := random }]) := by
  rcases perform_cases h with ⟨fd', heq, _⟩ | ⟨fd', msg', random', heq, hzero, rfl⟩ |
    ⟨u, failed, hupdate, hserver, _, _⟩
  · cases heq
  · cases heq
    exact absurd hzero hid
  · rw [hserver] at hlookup
    obtain ⟨updated, hupdated, hnode, _⟩ := of_lookup_settle u hlookup
    rw [hnode]
    generalize o.minted = minted at hupdate ⊢
    generalize o.accepted = accepted at hupdate ⊢
    cases hupdate with
    | newest _ _ hne _ => exact absurd hseq hne
    | held _ _ hne _ => exact absurd hseq hne
    | redundant hfound _ _ hredundant =>
        obtain rfl := Option.some.inj (hclient.symm.trans hfound)
        rw [Finmap.lookup_insert] at hupdated
        exact ⟨rfl, by rw [← Option.some.inj hupdated], Or.inl ⟨hredundant, rfl⟩⟩
    | novel hfound _ _ hredundant =>
        obtain rfl := Option.some.inj (hclient.symm.trans hfound)
        rw [Finmap.lookup_insert] at hupdated
        exact ⟨rfl, by rw [← Option.some.inj hupdated], Or.inr ⟨hredundant, rfl⟩⟩

end Data

/-- A closing connection costs one LEAVE. -/
theorem perform_disconnect {fd : Fd} {client : Client}
    (h : s.perform (.disconnect fd) = some o) (hclient : s.mClients.lookup fd = some client) :
    o.accepted = [] ∧ o.minted = [{ leaveMessage client.nodeId with seq := s.mNextSeq }] := by
  simp only [perform, onDisconnect, hclient, Option.some.injEq] at h
  subst h
  exact ⟨rfl, rfl⟩

end TopologyServer

namespace Hub

open TopologyServer

/-- A hub that has recorded nothing but what it has minted. -/
structure Minting (hub : Hub) (minted : List TopologyMessage) : Prop where
  settled : hub.server.Settled
  current : hub.Current
  counter : hub.server.mNextSeq.toNat = 1 + minted.length
  increasing : Increasing TopologyMessage.seq minted
  below : ∀ msg ∈ minted, msg.seq < hub.server.mNextSeq
  seq_ne_zero : ∀ msg ∈ minted, msg.seq ≠ 0
  recorded : ∀ msg ∈ hub.server.mHistory, msg ∈ minted
  sent : ∀ {fd : Fd} {client : Client}, hub.server.mClients.lookup fd = some client →
    ∀ msg ∈ hub.sent fd, msg ∈ minted
  /-- No LEAVE is ever lost. -/
  leaves : ∀ {id : UInt64}, ∀ msg ∈ minted, msg.LeaveOf id → msg ∈ hub.server.mHistory
  /-- A JOIN is lost only on behalf of a LEAVE. -/
  joins : ∀ {id : UInt64}, ∀ msg ∈ minted, msg.JoinOf id →
    id ∉ leftNodes hub.server.mHistory → msg ∈ hub.server.mHistory

/-- A hub without a digest has minted nothing. -/
theorem start_minting : (start []).Minting [] where
  settled := create_settled
  current := start_current []
  counter := rfl
  increasing := List.Pairwise.nil
  below := fun msg hmem => by cases hmem
  seq_ne_zero := fun msg hmem => by cases hmem
  recorded := fun msg hmem => by cases hmem
  sent := fun hlookup => by simp [start, create] at hlookup
  leaves := fun msg hmem => by cases hmem
  joins := fun msg hmem => by cases hmem

variable {hub : Hub} {minted : List TopologyMessage} {op : HubOp} {o : Outcome}

/-- **A call that accepts nothing keeps the hub minting.**  What it has minted is numbered from 1
on, and of that the history keeps every LEAVE, and the JOINs of all that have not left. -/
theorem Minting.perform (h : hub.Minting minted) (hop : hub.server.perform op = some o)
    (haccepted : o.accepted = []) (hbelow : op.BelowMax)
    (hbound : (minted ++ o.minted).length < 2 ^ 64 - 1) :
    (hub.observe op o).Minting (minted ++ o.minted) := by
  rw [List.length_append] at hbound
  have hwrap : hub.server.NoWrap op := by
    refine ⟨hbelow, fun o' ho' => ?_⟩
    obtain rfl := Option.some.inj (hop.symm.trans ho')
    have := h.counter
    omega
  have hadded : o.added = o.minted := by rw [Outcome.added, haccepted, List.append_nil]
  have hincoming : hub.server.incoming op = o.minted := by rw [← perform_incoming hop, hadded]
  obtain ⟨hcounter, hnumbers⟩ := perform_numbers h.settled.ordered hwrap hop haccepted
  have hnew := (perform_ordered h.settled.ordered hwrap hop).2.1
  rw [hadded] at hnew
  have hleft := perform_leftNodes hop
  constructor
  case settled => exact h.settled.perform hwrap hop
  case current =>
    exact h.current.step (h.settled.reaches hwrap hop).1 (step_eq_some.mpr ⟨o, hop, rfl⟩)
  case counter =>
    change o.server.mNextSeq.toNat = _
    rw [hcounter, h.counter, List.length_append]
    omega
  case increasing =>
    refine List.pairwise_append.mpr ⟨h.increasing, hnew, ?_⟩
    intro old hold msg hmem
    exact lt_of_lt_of_le (h.below old hold) (hnumbers msg hmem).1
  case below =>
    intro msg hmem
    rcases List.mem_append.mp hmem with hold | hmem
    · have hle : hub.server.mNextSeq ≤ o.server.mNextSeq := by
        rw [UInt64.le_iff_toNat_le]
        omega
      exact lt_of_lt_of_le (h.below msg hold) hle
    · exact (hnumbers msg hmem).2
  case seq_ne_zero =>
    intro msg hmem
    rcases List.mem_append.mp hmem with hold | hmem
    · exact h.seq_ne_zero msg hold
    · have hpos := word_pos_iff.mpr h.settled.next_ne_zero
      exact word_pos_iff.mp (lt_of_lt_of_le hpos (hnumbers msg hmem).1)
  case recorded =>
    intro msg hmem
    rcases perform_mem hop hmem with hold | hmem
    · exact List.mem_append_left _ (h.recorded msg hold)
    · exact List.mem_append_right _ (hadded ▸ hmem)
  case sent =>
    intro fd client' hlookup msg hmem
    have hsplit : msg ∈ hub.server.mHistory ∨ msg ∈ o.added →
        msg ∈ minted ++ o.minted := by
      intro hmsg
      rcases hmsg with hold | hmsg
      · exact List.mem_append_left _ (h.recorded msg hold)
      · exact List.mem_append_right _ (hadded ▸ hmsg)
    rcases perform_client hop hlookup with ⟨rfl, _⟩ | ⟨client, hclient, hconnect, _⟩
    · simp only [observe, if_true, List.nil_append] at hmem
      exact hsplit (perform_sent hop hmem)
    · rcases mem_observe_sent hmem with hold | hmem
      · exact List.mem_append_left _ (h.sent (lookup_of_staying hclient) msg hold)
      · exact hsplit (perform_sent hop hmem)
  case leaves =>
    intro id msg hmem hleave
    have hwas : msg ∈ hub.server.mHistory ++ hub.server.incoming op := by
      rw [hincoming]
      rcases List.mem_append.mp hmem with hold | hmem
      · exact List.mem_append_left _ (h.leaves msg hold hleave)
      · exact List.mem_append_right _ hmem
    change msg ∈ o.server.mHistory
    rcases perform_mHistory hop with ⟨hnone, hhistory⟩ | hhistory
    · rw [hnone, List.append_nil] at hwas
      exact hhistory.symm ▸ hwas
    · exact hhistory.symm ▸ mem_pruneRemoved.mpr ⟨hwas, keeps_leave hleave⟩
  case joins =>
    intro id msg hmem hjoin hstays
    have hbefore : id ∉ leftNodes hub.server.mHistory := by
      intro hmem
      exact hstays (hleft ▸ Finset.mem_union_left _ hmem)
    refine perform_join_mem hop ?_ hjoin hstays
    rw [hincoming]
    rcases List.mem_append.mp hmem with hold | hmem
    · exact List.mem_append_left _ (h.joins msg hold hjoin hbefore)
    · exact List.mem_append_right _ hmem

section Present

variable {fd : Fd} {client : Client} {id : UInt64}

/-- What was sent is not beyond the history. -/
theorem Minting.hit_ne_none (h : hub.Minting minted)
    (hclient : hub.server.mClients.lookup fd = some client) {msg : TopologyMessage}
    (hmem : msg ∈ hub.sent fd) : hub.server.hit msg ≠ none := by
  intro hnone
  have hbeyond := (h.settled.ordered.hit_eq_none_iff msg).mp hnone
  have hmark := (h.current.upToDate hclient).le_mark msg hmem
  rcases h.settled.mark hclient with hzero | ⟨old, hold, hle⟩
  · have hpos := word_pos_iff.mpr (h.seq_ne_zero msg (h.sent hclient msg hmem))
    exact absurd (lt_of_lt_of_le hpos hmark) (by rw [hzero]; exact lt_irrefl 0)
  · exact absurd (hbeyond old hold) (not_lt.mpr (le_trans hmark hle))

/-- A connection is sent each minted message at most once. -/
theorem Minting.countP_sent_le (h : hub.Minting minted)
    (hclient : hub.server.mClients.lookup fd = some client) (p : TopologyMessage → Bool) :
    (hub.sent fd).countP p ≤ minted.countP p := by
  have hnodup := (h.current.upToDate hclient).increasing.nodup
  exact (List.subperm_of_subset hnodup (h.sent hclient)).countP_le p

/-- The nodes the hub has a LEAVE for. -/
theorem Minting.mem_leftNodes (h : hub.Minting minted) :
    id ∈ leftNodes hub.server.mHistory ↔ ∃ msg ∈ minted, msg.LeaveOf id := by
  rw [TopologyServer.mem_leftNodes]
  constructor
  · intro ⟨msg, hmem, hleave⟩
    exact ⟨msg, h.recorded msg hmem, hleave⟩
  · intro ⟨msg, hmem, hleave⟩
    exact ⟨msg, h.leaves msg hmem hleave, hleave⟩

/-- **Who is present.**  If its JOIN came before its LEAVE, a node is present
after all that was sent on a connection exactly when the hub minted a JOIN of it
and no LEAVE. -/
theorem Minting.present_iff (h : hub.Minting minted)
    (hclient : hub.server.mClients.lookup fd = some client)
    (horder : ∀ join ∈ minted, ∀ leave ∈ minted, join.JoinOf id → leave.LeaveOf id →
      join.seq < leave.seq) :
    (entryAfter id none (hub.sent fd)).isSome ↔
      (∃ msg ∈ minted, msg.JoinOf id) ∧ ¬ ∃ msg ∈ minted, msg.LeaveOf id := by
  have hupToDate := h.current.upToDate hclient
  by_cases hleft : ∃ msg ∈ minted, msg.LeaveOf id
  · -- the LEAVE has been sent, and no JOIN comes after it
    obtain ⟨leave, hminted, hleave⟩ := hleft
    have hsent := hupToDate.all_sent leave (h.leaves leave hminted hleave)
    obtain ⟨before, after, hsplit⟩ := List.append_of_mem hsent
    have hincreasing := hupToDate.increasing
    have hall := h.sent hclient
    rw [hsplit] at hincreasing hall ⊢
    have hafter : ∀ msg ∈ after, ¬ msg.JoinOf id := by
      intro msg hmem hjoin
      have hlater : leave.seq < msg.seq :=
        List.rel_of_pairwise_cons (List.pairwise_append.mp hincreasing).2.1 hmem
      exact lt_asymm hlater (horder msg (hall msg (by simp [hmem])) leave hminted hjoin hleave)
    rw [entryAfter_append, entryAfter_cons, stepNode_leave hleave, entryAfter_none hafter]
    exact iff_of_false (by simp) fun hboth => hboth.2 ⟨leave, hminted, hleave⟩
  · have hstay : ∀ msg ∈ hub.sent fd, ¬ msg.LeaveOf id :=
      fun msg hmem hleave => hleft ⟨msg, h.sent hclient msg hmem, hleave⟩
    by_cases hjoined : ∃ msg ∈ minted, msg.JoinOf id
    · obtain ⟨join, hminted, hjoin⟩ := hjoined
      have hkept := h.joins join hminted hjoin fun hmem => hleft (h.mem_leftNodes.mp hmem)
      have hsent := hupToDate.all_sent join hkept
      exact iff_of_true (entryAfter_isSome_of_join hsent hjoin hstay)
        ⟨⟨join, hminted, hjoin⟩, hleft⟩
    · have hnone : entryAfter id none (hub.sent fd) = none :=
        entryAfter_none fun msg hmem hjoin => hjoined ⟨msg, h.sent hclient msg hmem, hjoin⟩
      rw [hnone]
      exact iff_of_false (by simp) fun hboth => hjoined hboth.1

/-- What the purge takes for active has a JOIN and no LEAVE. -/
theorem Minting.of_active (h : hub.Minting minted)
    (hactive : id ∈ historicallyActive hub.server.mHistory) :
    (∃ msg ∈ minted, msg.JoinOf id) ∧ ¬ ∃ msg ∈ minted, msg.LeaveOf id := by
  obtain ⟨join, hmem, hjoin⟩ := exists_join_of_active hactive
  refine ⟨⟨join, h.recorded join hmem, hjoin⟩, fun hleft => ?_⟩
  have hpruned : join ∈ pruneRemoved hub.server.mHistory := by
    rw [h.settled.pruned]
    exact hmem
  exact not_joinOf_of_mem_pruneRemoved hpruned (h.mem_leftNodes.mpr hleft) hjoin

end Present

end Hub

end IpcPubsub
