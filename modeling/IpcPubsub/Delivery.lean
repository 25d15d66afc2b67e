import IpcPubsub.HistoryOrder

/-!
# Delivery by the hub

The hub keeps one number per connection, the last sequence number sent, and
`Broadcast` sends what lies beyond it.  So the history reaches every client
exactly once, in order, as long as what a call adds lies beyond everything the
open connections have been sent.

That is not guarded anywhere.  `AddOldMessage` compares a re-sent message with
the history, whose tail may have been pruned, and not with what was sent; and
`mNextSeq` wraps to zero.  `delivery_iff` says that these are the only ways to
lose a message: a run delivers everything exactly when each of its calls
`Reaches` the open connections.

A hub that starts without a digest reaches them as long as `mNextSeq` does not
wrap (`Settled.reaches`): what a call adds is numbered beyond the whole history,
and no client has been sent anything beyond its end.
-/

namespace IpcPubsub

open FiniteMap GuardedRuns CursorLog WordOrder

namespace TopologyServer

/-- What a call will add to the history that stays there and is new to it. -/
def fresh (s : TopologyServer) (op : HubOp) : List TopologyMessage :=
  (pruneRemoved (s.mHistory ++ s.incoming op)).filter fun msg => msg ∉ s.mHistory

/-- A connection is opened on a history in order; what any other call adds is in
order and beyond what every connection that stays open has been sent. -/
def Reaches (s : TopologyServer) : HubOp → Prop
  | .connect _ => Increasing TopologyMessage.seq s.mHistory
  | op => ∀ fd client, (s.staying op).lookup fd = some client →
      Increasing TopologyMessage.seq (s.fresh op) ∧
        ∀ msg ∈ s.fresh op, client.seq < msg.seq

variable {s u : TopologyServer} {op : HubOp} {o : Outcome}

/-- What is new in the history after a call: what came in and was kept, if it was not there
before. -/
theorem fresh_eq : s.fresh op =
    ((s.incoming op).filter (keeps (leftNodes (s.mHistory ++ s.incoming op)))).filter
      fun msg => msg ∉ s.mHistory := by
  have hold : (s.mHistory.filter (keeps (leftNodes (s.mHistory ++ s.incoming op)))).filter
      (fun msg => msg ∉ s.mHistory) = [] := by
    refine List.filter_eq_nil_iff.mpr fun msg hmem => ?_
    simpa using (List.mem_filter.mp hmem).1
  rw [fresh, pruneRemoved, List.filter_append, List.filter_append, hold, List.nil_append]

/-- What is new is part of what came in, in the same order. -/
theorem fresh_sublist : (s.fresh op).Sublist (s.incoming op) := by
  rw [fresh_eq]
  exact List.filter_sublist.trans List.filter_sublist

/-- Only the clients that stay have to be reached, and a call that connects one has nothing new. -/
theorem reaches_of_staying (hconnect : ∀ fd, op ≠ .connect fd)
    (h : ∀ fd client, (s.staying op).lookup fd = some client →
      Increasing TopologyMessage.seq (s.fresh op) ∧ ∀ msg ∈ s.fresh op, client.seq < msg.seq) :
    s.Reaches op := by
  cases op with
  | connect fd => exact absurd rfl (hconnect fd)
  | _ => exact h

/-- What `Reaches` says for a client that stays over an update of the history. -/
theorem Reaches.of_update {minted accepted : List TopologyMessage} {failed : List Assertion}
    (h : s.Reaches op) (hupdate : Updates s op u minted accepted failed) {fd : Fd}
    {client : Client} (hclient : (s.staying op).lookup fd = some client) :
    Increasing TopologyMessage.seq (s.fresh op) ∧ ∀ msg ∈ s.fresh op, client.seq < msg.seq := by
  cases op with
  | connect fd' => exact absurd rfl (hupdate.ne_connect fd')
  | _ => exact h fd client hclient

/-- A call that adds nothing reaches everyone. -/
theorem reaches_of_incoming_eq_nil (hconnect : ∀ fd, op ≠ .connect fd)
    (h : s.incoming op = []) : s.Reaches op := by
  have hfresh : s.fresh op = [] := List.sublist_nil.mp (h ▸ fresh_sublist)
  refine reaches_of_staying hconnect fun fd client _ => ?_
  rw [hfresh]
  exact ⟨List.Pairwise.nil, by simp⟩

/-- A new connection's mark is that of a message sent to it, if any was. -/
theorem sendHistory_mark (seq : UInt64) (history : List TopologyMessage) :
    (sendHistory seq history).1 = seq ∨
      ∃ msg ∈ history, (sendHistory seq history).1 ≤ msg.seq := by
  induction history generalizing seq with
  | nil => exact Or.inl rfl
  | cons first rest ih =>
      refine Or.inr ?_
      rcases ih first.seq with heq | ⟨msg, hmem, hle⟩
      · exact ⟨first, List.mem_cons_self, le_of_eq heq⟩
      · exact ⟨msg, List.mem_cons_of_mem _ hmem, hle⟩

/-- A new connection's mark after the history was sent in order: nothing in it is beyond the mark. -/
theorem le_sendHistory_mark {history : List TopologyMessage} {seq : UInt64}
    (hincreasing : Increasing TopologyMessage.seq history) :
    ∀ msg ∈ history, msg.seq ≤ (sendHistory seq history).1 := by
  induction history generalizing seq with
  | nil => exact fun msg hmem => by cases hmem
  | cons first rest ih =>
      intro msg hmem
      have hrest := @ih first.seq hincreasing.of_cons
      rcases List.mem_cons.mp hmem with rfl | hmem
      · cases rest with
        | nil => exact le_refl _
        | cons second rest =>
            have hlt := List.rel_of_pairwise_cons hincreasing List.mem_cons_self
            exact le_trans (le_of_lt hlt) (hrest second List.mem_cons_self)
      · exact hrest msg hmem

end TopologyServer

namespace Hub

open TopologyServer

/-- On every open connection each message of the history has been sent exactly
once, and what was sent is in strictly increasing order. -/
def Delivered (hub : Hub) : Prop :=
  ∀ fd ∈ hub.server.mClients.keys,
    (∀ msg ∈ hub.server.mHistory, (hub.sent fd).count msg = 1) ∧
      Increasing TopologyMessage.seq (hub.sent fd)

instance : DecidablePred Delivered := fun hub =>
  inferInstanceAs (Decidable (∀ fd ∈ hub.server.mClients.keys, _))

/-- Every open connection is up to date, and what it was sent is still in the
history or will never be kept there again. -/
structure Current (hub : Hub) : Prop where
  upToDate : ∀ {fd : Fd} {client : Client}, hub.server.mClients.lookup fd = some client →
    UpToDate TopologyMessage.seq hub.server.mHistory (hub.sent fd) client.seq
  gone : ∀ {fd : Fd} {client : Client}, hub.server.mClients.lookup fd = some client →
    ∀ msg ∈ hub.sent fd, msg ∈ hub.server.mHistory ∨
      keeps (leftNodes hub.server.mHistory) msg = false

/-- Nobody is connected to a hub that has just been started. -/
theorem start_current (digest : List TopologyMessage) : (start digest).Current where
  upToDate := fun h => by simp [start, create] at h
  gone := fun h => by simp [start, create] at h

/-- A client that is current has been sent every message of the history. -/
theorem Current.delivered {hub : Hub} (h : hub.Current) : hub.Delivered := by
  intro fd hfd
  obtain ⟨client, hclient⟩ := Finmap.mem_iff.mp (Finmap.mem_keys.mp hfd)
  exact ⟨fun msg hmem => (h.upToDate hclient).count_eq_one hmem, (h.upToDate hclient).increasing⟩

variable {hub hub' : Hub} {op : HubOp}

/-- What is pruned once does not come back. -/
theorem Current.no_return (h : hub.Current) {fd : Fd} {client : Client}
    (hclient : hub.server.mClients.lookup fd = some client) {more : List TopologyMessage}
    {msg : TopologyMessage} (hsent : msg ∈ hub.sent fd)
    (hmem : msg ∈ pruneRemoved (hub.server.mHistory ++ more)) : msg ∈ hub.server.mHistory := by
  rcases h.gone hclient msg hsent with hold | hgone
  · exact hold
  · have hkept := (mem_pruneRemoved.mp hmem).2
    rw [leftNodes_append] at hkept
    have := keeps_anti Finset.subset_union_left hkept
    rw [hgone] at this
    cases this

/-- What a call that reaches everyone sends on a connection that stays open. -/
theorem Current.sent_settled (h : hub.Current) (hreaches : hub.server.Reaches op)
    {u : TopologyServer} {minted accepted : List TopologyMessage} {failed : List Assertion}
    (hupdate : Updates hub.server op u minted accepted failed) {fd : Fd} {client : Client}
    (hclient : (hub.server.staying op).lookup fd = some client) :
    (catchUp TopologyMessage.seq client.seq (pruneRemoved u.mHistory)).1 =
      hub.server.fresh op := by
  obtain ⟨hincreasing, hpast⟩ := hreaches.of_update hupdate hclient
  rw [← (h.upToDate (lookup_of_staying hclient)).catchUp_new, hupdate.history, hupdate.incoming]
  exact catchUp_of_increasing hincreasing hpast

/-- A connection that stays open through an update is sent what it has to catch up
on. -/
theorem observe_staying {o : Outcome} {u : TopologyServer}
    {minted accepted : List TopologyMessage} {failed : List Assertion}
    (hupdate : Updates hub.server op u minted accepted failed)
    (hserver : o.server = (settle u).server) (hsent : o.sent = (settle u).sent) {fd : Fd}
    {client : Client} (hclient : (hub.server.staying op).lookup fd = some client) :
    fd ∈ (hub.observe op o).server.mClients.keys ∧
      (hub.observe op o).sent fd = hub.sent fd ++
        (catchUp TopologyMessage.seq client.seq (pruneRemoved u.mHistory)).1 := by
  obtain ⟨updated, hupdated, hseq⟩ := hupdate.exists_lookup hclient
  constructor
  · rw [Finmap.mem_keys]
    simp only [observe, hserver, mem_settle]
    exact Finmap.mem_iff.mpr ⟨updated, hupdated⟩
  · simp only [observe, if_neg (hupdate.ne_connect fd), hsent]
    rw [settle_sent, hupdated, ← hseq]

/-- Opening a connection on a history in order: it is sent all of it once, and is up to date from
then on. -/
theorem Current.connect (h : hub.Current) {fd : Fd}
    (hincreasing : Increasing TopologyMessage.seq hub.server.mHistory)
    (hfd : fd ∉ hub.server.mClients) :
    (hub.observe (.connect fd) (hub.server.onConnect fd)).Current := by
  have hsent : ∀ fd', (hub.observe (.connect fd) (hub.server.onConnect fd)).sent fd' =
      if fd' = fd then hub.server.mHistory else hub.sent fd' := by
    intro fd'
    by_cases hne : fd' = fd
    · simp [observe, onConnect, hne]
    · simp [observe, onConnect, hne, Ne.symm hne]
  constructor
  · intro fd' client' hlookup
    rcases of_lookup_onConnect hfd hlookup with ⟨rfl, rfl⟩ | ⟨hne, hold⟩
    · rw [hsent, if_pos rfl]
      exact UpToDate.fresh hincreasing fun msg hmem => le_sendHistory_mark hincreasing msg hmem
    · rw [hsent, if_neg hne]
      exact h.upToDate hold
  · intro fd' client' hlookup msg hmem
    rw [hsent] at hmem
    rcases of_lookup_onConnect hfd hlookup with ⟨rfl, _⟩ | ⟨hne, hold⟩
    · rw [if_pos rfl] at hmem
      exact Or.inl hmem
    · rw [if_neg hne] at hmem
      exact h.gone hold msg hmem

/-- **A call that reaches everyone keeps everyone up to date.** -/
theorem Current.step (h : hub.Current) (hreaches : hub.server.Reaches op)
    (hstep : hub.step op = some hub') : hub'.Current := by
  obtain ⟨o, hop, rfl⟩ := step_eq_some.mp hstep
  rcases perform_cases hop with ⟨fd, rfl, hfd, rfl⟩ | ⟨fd, msg, random, rfl, _, rfl⟩ |
    ⟨u, failed, hupdate, hserver, hsent, _⟩
  · exact h.connect hreaches hfd
  · constructor
    · intro fd' client hlookup
      simpa [observe] using h.upToDate hlookup
    · intro fd' client hlookup msg' hmem
      exact h.gone hlookup msg' (by simpa [observe] using hmem)
  · have hhistory : u.mHistory = hub.server.mHistory ++ hub.server.incoming op := by
      rw [hupdate.history, hupdate.incoming]
    have hrecord : ∀ fd, (hub.observe op o).sent fd = hub.sent fd ++ (settle u).sent fd := by
      intro fd
      simp [observe, hsent, hupdate.ne_connect fd]
    constructor
    · intro fd client' hlookup
      have hlookup' : (settle u).server.mClients.lookup fd = some client' := hserver ▸ hlookup
      obtain ⟨client, hclient, hseq, hsettled⟩ := hupdate.lookup_settled hlookup'
      obtain ⟨hincreasing, hpast⟩ := hreaches.of_update hupdate hclient
      have hold := h.upToDate (lookup_of_staying hclient)
      have hnew := hold.advance hincreasing hpast
      rw [hrecord, hsettled, hseq, hhistory]
      simpa [observe, hserver, hhistory] using hnew
    · intro fd client' hlookup msg hmem
      have hlookup' : (settle u).server.mClients.lookup fd = some client' := hserver ▸ hlookup
      obtain ⟨client, hclient, _, hsettled⟩ := hupdate.lookup_settled hlookup'
      rw [hrecord, hsettled] at hmem
      have hnow : (hub.observe op o).server.mHistory = pruneRemoved u.mHistory := by
        simp [observe, hserver]
      rw [hnow, leftNodes_pruneRemoved]
      rcases List.mem_append.mp hmem with hmem | hmem
      · by_cases hkept : keeps (leftNodes u.mHistory) msg = true
        · rcases h.gone (lookup_of_staying hclient) msg hmem with hold | hgone
          · refine Or.inl (mem_pruneRemoved.mpr ⟨?_, hkept⟩)
            rw [hhistory]
            exact List.mem_append_left _ hold
          · rw [hhistory, leftNodes_append] at hkept
            have := keeps_anti Finset.subset_union_left hkept
            rw [hgone] at this
            cases this
        · exact Or.inr (Bool.eq_false_iff.mpr hkept)
      · exact Or.inl (mem_catchUp hmem).1

/-- **A call that does not reach everyone loses a message**, or hands one over
out of order. -/
theorem Current.not_delivered (h : hub.Current) (hreaches : ¬ hub.server.Reaches op)
    (hstep : hub.step op = some hub') : ¬ hub'.Delivered := by
  intro hdelivered
  apply hreaches
  obtain ⟨o, hop, rfl⟩ := step_eq_some.mp hstep
  rcases perform_cases hop with ⟨fd, rfl, hfd, rfl⟩ | ⟨fd, msg, random, rfl, hid, rfl⟩ |
    ⟨u, failed, hupdate, hserver, hsent, _⟩
  · have hmem :
        fd ∈ (hub.observe (.connect fd) (hub.server.onConnect fd)).server.mClients.keys := by
      simp [observe, onConnect, Finmap.mem_keys]
    have hsent : Increasing TopologyMessage.seq hub.server.mHistory := by
      simpa [observe, onConnect] using (hdelivered fd hmem).2
    exact hsent
  · refine reaches_of_incoming_eq_nil (by simp) ?_
    rw [← perform_incoming hop]
    rfl
  · have hhistory : u.mHistory = hub.server.mHistory ++ hub.server.incoming op := by
      rw [hupdate.history, hupdate.incoming]
    refine reaches_of_staying (fun fd => hupdate.ne_connect fd) fun fd client hclient => ?_
    obtain ⟨hmem, hrecord⟩ := observe_staying hupdate hserver hsent hclient
    have hnow : (hub.observe op o).server.mHistory = pruneRemoved u.mHistory := by
      simp [observe, hserver]
    have hold := h.upToDate (lookup_of_staying hclient)
    have hall : ∀ msg ∈ pruneRemoved u.mHistory, msg ∈ hub.sent fd ++
        (catchUp TopologyMessage.seq client.seq (pruneRemoved u.mHistory)).1 := by
      intro msg hmsg
      have hcount := (hdelivered fd hmem).1 msg (by rw [hnow]; exact hmsg)
      rw [hrecord] at hcount
      exact List.count_pos_iff.mp (by omega)
    rw [hhistory] at hall
    refine hold.new_increasing ?_ ?_ hall
    · exact fun msg hsent hmsg => h.no_return (lookup_of_staying hclient) hsent hmsg
    · refine List.Nodup.sublist fresh_sublist ?_
      rw [← hupdate.incoming]
      exact hupdate.nodup

/-- **Exactly-once, in-order delivery.**  From any digest, a run of the hub
delivers its history at every state exactly when every call of the run reaches
the open connections. -/
theorem delivery_iff {digest : List TopologyMessage} {ops : List HubOp}
    (hrun : exec Hub.step (start digest) ops = some hub) :
    Throughout Hub.step Delivered (start digest) ops ↔
      Along Hub.step (fun hub op => hub.server.Reaches op) (start digest) ops := by
  have henv : Along Hub.step (fun _ _ => True) (start digest) ops :=
    along_true _ _
  refine throughout_iff_along (I := Current) (fun _ => Current.delivered) ?_ ?_
    (start_current digest) henv hrun
  · exact fun hub op hub' h _ hreaches hstep => h.step hreaches hstep
  · exact fun hub op hub' h _ hreaches hstep => h.not_delivered hreaches hstep

/-- What a hub was given that took over after node 5 had left and a third hub
had minted its next JOIN. -/
def leftAndBack : List TopologyMessage :=
  [{ seq := 1, op := .nodeChange { id := 5, op := .leave } },
    { seq := 2, uid := 12, op := .nodeChange { id := 5, op := .join, name := "five" } }]

/-- A second client re-sends the LEAVE, which prunes the JOIN behind it, and
then a JOIN that some other hub minted under the same number. -/
def resendBehindTail : List HubOp :=
  [.connect 3, .connect 4,
    .data 4 { seq := 1, op := .nodeChange { id := 5, op := .leave } } 0,
    .data 4 { seq := 2, uid := 9, op := .nodeChange { id := 7, op := .join, name := "seven" } } 0]

/-- The JOIN of node 7 is in the history and on no connection. -/
theorem not_delivered_resendBehindTail :
    Increasing TopologyMessage.seq leftAndBack ∧
      (leftAndBack.Forall fun msg => msg.seq ≠ 0 ∧ msg.seq ≠ maxWord) ∧
      resendBehindTail.Forall HubOp.BelowMax ∧
      (exec Hub.step (start leftAndBack) resendBehindTail).isSome ∧
      ¬ Throughout Hub.step Delivered (start leftAndBack) resendBehindTail := by
  decide +kernel

/-- Two clients, a JOIN each, and a hang-up. -/
def joinJoinHangUp : List HubOp :=
  [.connect 3, .data 3 { op := .nodeChange { id := 6, op := .join, name := "six" } } 51,
    .connect 4, .data 4 { op := .nodeChange { id := 7, op := .join, name := "seven" } } 52,
    .disconnect 3]

/-- Two more nodes join and the client of the first hangs up; each of these calls reaches the
clients that stay. -/
theorem delivery_iff_joinJoinHangUp :
    Along Hub.step (fun hub op => hub.server.Reaches op) (start leftAndBack) joinJoinHangUp := by
  have hrun : (exec Hub.step (start leftAndBack) joinJoinHangUp).isSome := by decide +kernel
  exact (delivery_iff (Option.some_get hrun).symm).mp (by decide +kernel)

end Hub

/-! ## A hub that started empty -/

namespace TopologyServer

variable {s u : TopologyServer} {op : HubOp} {o : Outcome}
  {minted accepted : List TopologyMessage} {failed : List Assertion}

/-- Nothing the call adds is in the history already. -/
def Novel (s : TopologyServer) (op : HubOp) : Prop :=
  ∀ msg ∈ s.incoming op, msg ∉ s.mHistory

/-- When all that comes in is novel, nothing has to be taken out of it again. -/
theorem Novel.fresh_eq (h : s.Novel op) : s.fresh op =
    (s.incoming op).filter (keeps (leftNodes (s.mHistory ++ s.incoming op))) := by
  rw [TopologyServer.fresh_eq, List.filter_eq_self]
  intro msg hmem
  simpa using h msg (List.mem_filter.mp hmem).1

/-- The history is in order and pruned, and no client has been sent anything
beyond its end. -/
structure Settled (s : TopologyServer) : Prop where
  increasing : Increasing TopologyMessage.seq s.mHistory
  below : ∀ msg ∈ s.mHistory, msg.seq < s.mNextSeq
  next_ne_zero : s.mNextSeq ≠ 0
  pruned : pruneRemoved s.mHistory = s.mHistory
  mark : ∀ {fd : Fd} {client : Client}, s.mClients.lookup fd = some client →
    client.seq = 0 ∨ ∃ msg ∈ s.mHistory, client.seq ≤ msg.seq

/-- A settled hub is an ordered one: its history grows by `seq` and stays below the next number. -/
theorem Settled.ordered (h : s.Settled) : s.Ordered where
  sorted := h.increasing.imp le_of_lt
  below := h.below

/-- A hub without a digest is settled, there being nothing to settle. -/
theorem create_settled : (create []).Settled where
  increasing := List.Pairwise.nil
  below := fun msg hmem => by cases hmem
  next_ne_zero := by decide
  pruned := rfl
  mark := fun h => by simp [create] at h

/-- What an update adds has a sequence number: one drawn from `mNextSeq`, which is not 0 before it
wraps around, or one that the packet came with. -/
theorem Updates.seq_ne_zero (h : Updates s op u minted accepted failed) (hs : s.Settled)
    (hwrap : s.mNextSeq.toNat + minted.length < 2 ^ 64) :
    ∀ msg ∈ minted ++ accepted, msg.seq ≠ 0 := by
  intro msg hmem
  cases h with
  | redundant _ _ _ _ => cases hmem
  | held _ _ _ _ => cases hmem
  | novel _ _ _ _ =>
      obtain rfl := List.mem_singleton.mp hmem
      exact hs.next_ne_zero
  | newest _ _ hseq _ =>
      obtain rfl := List.mem_singleton.mp hmem
      exact hseq
  | disconnect _ =>
      obtain rfl := List.mem_singleton.mp hmem
      exact hs.next_ne_zero
  | purge _ _ =>
      rw [mintLeaves_length] at hwrap
      rw [List.append_nil] at hmem
      have hfrom := (hs.ordered.mintLeaves hwrap).2.2 msg hmem
      exact word_pos_iff.mp (lt_of_lt_of_le (word_pos_iff.mpr hs.next_ne_zero) hfrom)

/-- An update that adds nothing leaves the counter. -/
theorem Updates.next_eq (h : Updates s op u minted accepted failed)
    (hnone : minted ++ accepted = []) : u.mNextSeq = s.mNextSeq := by
  cases h with
  | redundant _ _ _ _ => rfl
  | held _ _ _ _ => rfl
  | purge _ _ =>
      rw [List.append_nil, ← List.length_eq_zero_iff, mintLeaves_length,
        List.length_eq_zero_iff] at hnone
      rw [hnone]
      rfl
  | _ => simp at hnone

/-- **An update and what follows it keep the hub settled:** its history is in order and pruned,
below `mNextSeq`, and no client was sent anything beyond the end of it. -/
theorem Settled.update (h : s.Settled) (hupdate : Updates s op u minted accepted failed)
    (hdata : op.BelowMax) (hwrap : s.mNextSeq.toNat + minted.length < 2 ^ 64) :
    (settle u).server.Settled := by
  obtain ⟨hordered, hincreasing, hbeyond⟩ := hupdate.ordered h.ordered hdata hwrap
  have hhistory := hupdate.history
  refine ⟨?_, hordered.settle.below, ?_, pruneRemoved_pruneRemoved, ?_⟩
  · refine List.Pairwise.sublist pruneRemoved_sublist ?_
    rw [hhistory]
    exact List.pairwise_append.mpr ⟨h.increasing, hincreasing, hbeyond⟩
  · rw [settle_mNextSeq]
    rcases List.eq_nil_or_concat' (minted ++ accepted) with hnone | ⟨before, last, hlast⟩
    · rw [hupdate.next_eq hnone]
      exact h.next_ne_zero
    · have hmem : last ∈ u.mHistory := by simp [hhistory, hlast]
      exact word_pos_iff.mp (lt_of_le_of_lt (zero_le_word last.seq) (hordered.below last hmem))
  · intro fd client' hlookup
    obtain ⟨client, hclient, hseq, _⟩ := hupdate.lookup_settled hlookup
    rw [settle_mHistory, hseq]
    rcases catchUp_mark_eq TopologyMessage.seq client.seq (pruneRemoved u.mHistory) with
      hstay | ⟨msg, hmem, hkey⟩
    · rw [hstay]
      refine (h.mark (lookup_of_staying hclient)).imp_right ?_
      rintro ⟨msg, hmem, hle⟩
      by_cases hkept : keeps (leftNodes u.mHistory) msg = true
      · refine ⟨msg, mem_pruneRemoved.mpr ⟨?_, hkept⟩, hle⟩
        rw [hhistory]
        exact List.mem_append_left _ hmem
      · -- the message went on behalf of a LEAVE that is now behind it
        have hwas := pruneRemoved_eq_self_iff.mp h.pruned msg hmem
        obtain ⟨leave, hleave, id, hid⟩ : ∃ leave ∈ minted ++ accepted, ∃ id, leave.LeaveOf id := by
          by_contra hnone
          push Not at hnone
          rw [hhistory, leftNodes_append, leftNodes_eq_empty hnone, Finset.union_empty] at hkept
          exact hkept hwas
        refine ⟨leave, mem_pruneRemoved.mpr ⟨?_, keeps_leave hid⟩, ?_⟩
        · rw [hhistory]
          exact List.mem_append_right _ hleave
        · exact le_trans hle (le_of_lt (hbeyond msg hmem leave hleave))
    · exact Or.inr ⟨msg, (mem_catchUp hmem).1, le_of_eq hkey.symm⟩

/-- Opening a connection keeps the hub settled. -/
theorem Settled.connect (h : s.Settled) {fd : Fd} (hfd : fd ∉ s.mClients) :
    (s.onConnect fd).server.Settled := by
  refine ⟨h.increasing, h.below, h.next_ne_zero, h.pruned, ?_⟩
  intro fd' client hlookup
  rcases of_lookup_onConnect hfd hlookup with ⟨rfl, rfl⟩ | ⟨_, hold⟩
  · exact sendHistory_mark _ _
  · exact h.mark hold

/-- Every call keeps a hub settled, as long as the numbers do not wrap. -/
theorem Settled.perform (h : s.Settled) (hwrap : s.NoWrap op) (hop : s.perform op = some o) :
    o.server.Settled := by
  rcases perform_cases hop with ⟨fd, rfl, hfd, rfl⟩ | ⟨fd, msg, random, rfl, _, rfl⟩ |
    ⟨u, failed, hupdate, hserver, _, _⟩
  · exact h.connect hfd
  · exact h
  · rw [hserver]
    exact h.update hupdate hwrap.1 (hwrap.2 o hop)

/-- What a call adds is beyond the history of a settled hub and beyond
everything it has sent. -/
theorem Settled.incoming (h : s.Settled) (hwrap : s.NoWrap op) (hop : s.perform op = some o) :
    Increasing TopologyMessage.seq (s.incoming op) ∧
      (∀ old ∈ s.mHistory, ∀ msg ∈ s.incoming op, old.seq < msg.seq) ∧
      ∀ fd client, s.mClients.lookup fd = some client →
        ∀ msg ∈ s.incoming op, client.seq < msg.seq := by
  have hadded := perform_incoming hop
  obtain ⟨_, hincreasing, hbeyond, _⟩ := perform_ordered h.ordered hwrap hop
  rw [hadded] at hincreasing hbeyond
  refine ⟨hincreasing, hbeyond, ?_⟩
  intro fd client hclient msg hmem
  rcases h.mark hclient with hzero | ⟨old, hold, hle⟩
  · rw [hzero, word_pos_iff]
    rcases perform_cases hop with ⟨fd, rfl, hfd, rfl⟩ | ⟨fd, msg', random, rfl, _, rfl⟩ |
      ⟨u, failed, hupdate, _, _, _⟩
    · cases hmem
    · rw [← hadded] at hmem
      cases hmem
    · rw [← hupdate.incoming] at hmem
      exact hupdate.seq_ne_zero h (hwrap.2 o hop) msg hmem
  · exact lt_of_le_of_lt hle (hbeyond old hold msg hmem)

/-- **Without a digest the hub reaches everyone** until its counter wraps. -/
theorem Settled.reaches (h : s.Settled) (hwrap : s.NoWrap op) (hop : s.perform op = some o) :
    s.Reaches op ∧ s.Novel op := by
  obtain ⟨hincreasing, hbeyond, hmark⟩ := h.incoming hwrap hop
  constructor
  · by_cases hconnect : ∃ fd, op = .connect fd
    · obtain ⟨fd, rfl⟩ := hconnect
      exact h.increasing
    · refine reaches_of_staying (fun fd heq => hconnect ⟨fd, heq⟩) fun fd client hclient => ?_
      exact ⟨hincreasing.sublist fresh_sublist,
        fun msg hmem => hmark fd client (lookup_of_staying hclient) msg (fresh_sublist.subset hmem)⟩
  · exact fun msg hmem hold => lt_irrefl _ (hbeyond msg hold msg hmem)

end TopologyServer

/-- **Runs from an empty history** meet both conditions at every call, as long as the numbers do
not wrap around. -/
theorem Hub.along_reaches {hub : Hub} {ops : List HubOp}
    (hrun : exec Hub.step (start []) ops = some hub)
    (hwrap : Along Hub.step (fun hub op => hub.server.NoWrap op) (start []) ops) :
    Along Hub.step (fun hub op => hub.server.Reaches op ∧ hub.server.Novel op) (start []) ops := by
  refine along_of_invariant (I := fun hub => hub.server.Settled) ?_ ?_
    TopologyServer.create_settled (hwrap.and (along_isSome hrun))
  · intro hub op hub' h hguard hstep
    obtain ⟨o, hop, rfl⟩ := step_eq_some.mp hstep
    exact h.perform hguard.1 hop
  · intro hub op h hguard
    obtain ⟨hub', hstep⟩ := Option.isSome_iff_exists.mp hguard.2
    obtain ⟨o, hop, _⟩ := step_eq_some.mp hstep
    exact h.reaches hguard.1 hop

end IpcPubsub
